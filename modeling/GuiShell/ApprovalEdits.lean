-- What an edit can do to an approval. The Rust broker edits the approval that a request brings
-- along, and the queue of the Python shell the one that it keeps; both change the same three
-- fields.
import GuiShell.Broker.AuthorityCoherence
import GuiShell.ShellCore.ApprovalQueue
import GuiShell.ShellCore.PolicyEvaluator

open json authority shell_core.policy_evaluator

namespace approval_edits

abbrev Fields := List (String × Value)

/-! ## What an edit keeps -/

/-- The fields that an edit writes. -/
def written : List String := ["full_payload", "payload_hash", "status"]

/-- The names that no edit may touch, whatever an approval lists. -/
def alwaysProtected : List String :=
  ["audit_event_id", "audit_id", "payload_hash", "permission_id", "runtime_id"]

/-- The fields of an approval that list what no edit may touch. -/
def protecting : List String :=
  ["authority_fields", "sealed_fields", "hidden_fields", "sacred_fields"]

def payloadOf (approval : Fields) : Value := (sorted_map.get "full_payload" approval).getD .null

/-- Every other field is as before, and so is every protected key of the payload. -/
structure Kept (protects : Fields → String → Prop) (before after : Fields) : Prop where
  fields : ∀ k ∉ written, sorted_map.get k after = sorted_map.get k before
  protected_keys : ∀ k, protects before k → (payloadOf after).get k = (payloadOf before).get k

/-- What is protected goes by the fields that an edit does not write. -/
def Steady (protects : Fields → String → Prop) : Prop :=
  ∀ a b : Fields, (∀ k ∉ written, sorted_map.get k b = sorted_map.get k a) →
    ∀ k, protects b k ↔ protects a k

/-- An edit has just gone through. -/
structure Edited (canonical_hash : Value → String) (after : Fields) : Prop where
  payload_hash :
    sorted_map.get "payload_hash" after = some (.string (canonical_hash (payloadOf after)))
  status : sorted_map.get "status" after = some (.string "requires_validation")

section kept

variable {protects : Fields → String → Prop} {a b c : Fields}

theorem not_written_of_protecting {key : String} (h : key ∈ protecting) : key ∉ written := by
  have hall : ∀ key ∈ protecting, key ∉ written := by decide
  exact hall key h

theorem Kept.refl (protects : Fields → String → Prop) (a : Fields) : Kept protects a a :=
  ⟨fun _ _ => rfl, fun _ _ => rfl⟩

theorem Kept.trans (hsteady : Steady protects) (hab : Kept protects a b)
    (hbc : Kept protects b c) : Kept protects a c where
  fields k hk := (hbc.fields k hk).trans (hab.fields k hk)
  protected_keys k hk := by
    have hkb : protects b k := (hsteady a b hab.fields k).mpr hk
    exact (hbc.protected_keys k hkb).trans (hab.protected_keys k hk)

/-- What both editors do: one key of the payload that is not protected, and then the hash and the
status. -/
theorem kept_and_edited {canonical_hash : Value → String} {field : String} (payload : Fields)
    (value : Value)
    (hget : ∀ k, sorted_map.get k b = if "status" = k then some (.string "requires_validation")
      else if "payload_hash" = k then some (.string (canonical_hash (.object payload)))
      else if "full_payload" = k then some (.object payload) else sorted_map.get k a)
    (hpayload : ∀ k, sorted_map.get k payload =
      if field = k then some value else (payloadOf a).get k)
    (hfield : ¬protects a field) : Kept protects a b ∧ Edited canonical_hash b := by
  have hfull : payloadOf b = .object payload := by
    rw [payloadOf, hget]
    rfl
  refine ⟨⟨?_, ?_⟩, ⟨?_, hget "status"⟩⟩
  · intro k hk
    simp only [written, List.mem_cons, List.not_mem_nil, or_false, not_or] at hk
    obtain ⟨h1, h2, h3⟩ := hk
    rw [hget, if_neg (Ne.symm h3), if_neg (Ne.symm h2), if_neg (Ne.symm h1)]
  · intro k hk
    have hne : field ≠ k := by
      rintro rfl
      exact hfield hk
    rw [hfull]
    exact (hpayload k).trans (if_neg hne)
  · rw [hfull]
    exact hget "payload_hash"

end kept

/-! ## The evaluation of an edited approval -/

/-- The state has the edited approval in the place of the old one, which its id names. -/
def Replaces (old edited : Fields) (state state' : Value) : Prop :=
  ∃ before after : List Value,
    recordsOf state "approvals" = before ++ .object old :: after ∧
    recordsOf state' "approvals" = before ++ .object edited :: after ∧
    ∀ record ∈ before, strField record "approval_id" ≠ strField (.object old) "approval_id"

/-- The action has the id of the approval. -/
def Names (action : Value) (approval : Fields) : Prop :=
  ∃ id, action.get "approval_id" = some (.string id) ∧
    sorted_map.get "approval_id" approval = some (.string id)

section denied

variable {old edited : Fields} {action : Value}

theorem find_record_of_replaces {state state' : Value} {id : String}
    (h : Replaces old edited state state')
    (hold : sorted_map.get "approval_id" old = some (.string id))
    (hedited : sorted_map.get "approval_id" edited = some (.string id)) :
    find_record state' "approvals" "approval_id" id = some (.object edited) := by
  obtain ⟨before, after, -, hrecords, hbefore⟩ := h
  have hid (approval : Fields) (h : sorted_map.get "approval_id" approval = some (.string id)) :
      strField (.object approval) "approval_id" = some id := by
    rw [strField, Value.get, h]
    rfl
  unfold find_record
  rw [hrecords, List.find?_append]
  have hnone : before.find? (fun record => strField record "approval_id" = some id) = none := by
    rw [List.find?_eq_none]
    intro record hrecord hsame
    apply hbefore record hrecord
    rw [hid old hold]
    simpa using hsame
  rw [hnone, Option.none_or, List.find?_cons_of_pos]
  simpa using hid edited hedited

/-- An approval that is not approved lets no action through. -/
theorem rust_denies (crates : Crates) {payload : Value} {id : String}
    (hfind : find_record ((payload.get "state").getD .null) "approvals" "approval_id" id =
      some (.object edited))
    (hstatus : sorted_map.get "status" edited = some (.string "requires_validation"))
    (haction : ((payload.get "action").getD .null).get "approval_id" = some (.string id)) :
    (evaluate_authority crates payload).get "allowed" = some (.bool false) := by
  have hallowed : (evaluate_authority crates payload).get "allowed" =
      some (.bool (authorityErrors crates ((payload.get "state").getD .null)
        ((payload.get "action").getD .null) (operationOf ((payload.get "action").getD .null))
        .Fixture).isEmpty) := by
    simp [evaluate_authority, evaluate_authority_from_state, Value.get_mkObject,
      sorted_map.get_cons]
  rw [hallowed]
  congr 2
  by_contra hempty
  have herrors := List.isEmpty_iff.mp (Bool.eq_true_of_not_eq_false hempty)
  unfold authorityErrors at herrors
  simp only [List.append_eq_nil_iff] at herrors
  obtain ⟨approval, hnamed, happroved, -, -⟩ := approval_approves herrors.1.1.1.1.2
  have hid : strField ((payload.get "action").getD .null) "approval_id" = some id := by
    rw [strField, haction]
    rfl
  rw [Named, hid, Option.bind_some, hfind] at hnamed
  cases hnamed
  rw [strField, Value.get, hstatus] at happroved
  simp [Value.as_str] at happroved

/-- The Python evaluator, too, lets no action through. -/
theorem python_denies (python : shell_core.Python) {state : shell_core.RuntimeState} {id : String}
    (hget : state.approvals.get id = some (.object edited))
    (hstatus : sorted_map.get "status" edited = some (.string "requires_validation"))
    (haction : action.get "approval_id" = some (.string id)) :
    ¬Decides python state action true := by
  intro hallowed
  have happroval := (gateErrors_eq_nil_iff.mp (decides_true_iff.mp hallowed).1).1
  have hid : shell_core.getOrNone action "approval_id" = .string id := by
    rw [shell_core.getOrNone, haction]
    rfl
  have hstatus : shell_core.getOrNone (.object edited) "status" =
      .string "requires_validation" := by
    rw [shell_core.getOrNone, Value.get, hstatus]
    rfl
  unfold shell_core.policy_evaluator.approvalErrors at happroval
  rw [hid, if_neg (by simp)] at happroval
  simp [shell_core.Records.lookup, hget, hstatus] at happroval

/-- No evaluator lets an action through that names the edited approval. -/
structure Denied (crates : Crates) (python : shell_core.Python) (old edited : Fields) : Prop where
  rust : ∀ payload state, Replaces old edited state ((payload.get "state").getD .null) →
    Names ((payload.get "action").getD .null) edited →
    (evaluate_authority crates payload).get "allowed" = some (.bool false)
  python : ∀ (state state' : shell_core.RuntimeState) (action : Value),
    state.enqueue_approval (.object edited) = some state' → Names action edited →
    ¬Decides python state' action true

theorem denied_of_edited {crates : Crates} {python : shell_core.Python}
    {protects : Fields → String → Prop} {canonical_hash : Value → String}
    (hkept : Kept protects old edited) (hedited : Edited canonical_hash edited) :
    Denied crates python old edited where
  rust payload state hreplaces hnames := by
    obtain ⟨id, haction, hid⟩ := hnames
    have hold := (hkept.fields "approval_id" (by decide)).symm.trans hid
    exact rust_denies crates (find_record_of_replaces hreplaces hold hid) hedited.status haction
  python state state' action hstate hnames := by
    obtain ⟨id, haction, hid⟩ := hnames
    obtain ⟨id', hid', hget⟩ := (shell_core.RuntimeState.enqueued_of_enqueue hstate).id
    have hsame : id = id' := by
      rw [Value.get, hid] at hid'
      cases hid'
      rfl
    subst hsame
    exact python_denies python (by rw [hget, if_pos rfl]) hedited.status haction

end denied

/-! ## The edits of the broker -/

section rust

variable (crates : Crates)

/-- A request to edit the approval; the rest of it is up to the caller. -/
def requestOf (approval patch : Fields) : Value :=
  .object (sorted_map.insert "approval" (.object approval) patch)

/-- The approval after a request: the one in the response, when the edit went through. -/
def answered (approval patch : Fields) : Fields :=
  let response := edit_approval crates (requestOf approval patch)
  if response.get "ok" = some (.bool true) then
    ((response.get "approval").bind Value.as_object).getD approval
  else approval

/-- A field is protected by its name, or by an array of the approval that lists it. -/
def rustProtects (approval : Fields) (k : String) : Prop :=
  k ∈ alwaysProtected ∨ ∃ key ∈ protecting, ∃ items,
    sorted_map.get key approval = some (.array items) ∧ .string k ∈ items

theorem mem_string_set_iff {value : Option Value} {k : String} :
    k ∈ string_set value ↔ ∃ items, value = some (.array items) ∧ .string k ∈ items := by
  unfold string_set
  rw [List.mem_filterMap]
  constructor
  · rintro ⟨item, hitem, hstring⟩
    rcases value with _ | value
    · cases hitem
    · cases value with
      | array items =>
        cases item with
        | string s => exact ⟨items, rfl, Option.some.inj hstring ▸ hitem⟩
        | null | bool _ | number _ | array _ | object _ => cases hstring
      | null | bool _ | number _ | string _ | object _ => cases hitem
  · rintro ⟨items, rfl, hitem⟩
    exact ⟨_, hitem, rfl⟩

/-- What is protected is what the broker takes for protected. -/
theorem rustProtects_iff (approval : Fields) (k : String) :
    rustProtects approval k ↔ k ∈ protected_fields approval := by
  unfold rustProtects protected_fields
  rw [List.mem_append, List.mem_flatMap]
  simp only [mem_string_set_iff]
  rfl

theorem rustProtects_steady : Steady rustProtects := by
  intro a b hfields k
  have hkey : ∀ key ∈ protecting, sorted_map.get key b = sorted_map.get key a := fun key hkey =>
    hfields key (not_written_of_protecting hkey)
  unfold rustProtects
  refine or_congr_right (exists_congr fun key => and_congr_right fun hmem => ?_)
  rw [hkey key hmem]

def patchedPayload (approval patch : Fields) : Fields :=
  sorted_map.insert ((strField (requestOf approval patch) "field").getD "")
    (((requestOf approval patch).get "value").getD .null)
    (((sorted_map.get "full_payload" approval).bind Value.as_object).getD [])

/-- What a request makes of the approval when it goes through. -/
def editedFields (approval patch : Fields) : Fields :=
  let full_payload := Value.object (patchedPayload approval patch)
  sorted_map.insert "status" (.string "requires_validation")
    (sorted_map.insert "payload_hash"
      (.string (authority.canonical_hash crates.sha256 full_payload))
      (sorted_map.insert "full_payload" full_payload approval))

/-- One request: it goes through with an edited approval, or it leaves the approval alone. -/
theorem answered_cases (approval patch : Fields) :
    let response := edit_approval crates (requestOf approval patch)
    (response.get "ok" = some (.bool false) ∧ answered crates approval patch = approval) ∨
      (response.get "ok" = some (.bool true) ∧
        response.get "approval" = some (.object (answered crates approval patch)) ∧
        Kept rustProtects approval (answered crates approval patch) ∧
        Edited (authority.canonical_hash crates.sha256) (answered crates approval patch)) := by
  intro response
  have happroval : (((requestOf approval patch).get "approval").getD .null).as_object =
      some approval := by
    rw [requestOf, Value.get, sorted_map.get_insert, if_pos rfl]
    rfl
  have hresponse : response = edit_approval crates (requestOf approval patch) := rfl
  unfold edit_approval at hresponse
  rw [happroval] at hresponse
  dsimp only at hresponse
  split at hresponse
  · rename_i hedit
    obtain ⟨-, hprotected⟩ := (Bool.and_eq_true _ _).mp hedit
    have hok : response.get "ok" = some (.bool true) := by
      rw [hresponse, Value.get_mkObject]
      rfl
    have hget : response.get "approval" = some (.object (editedFields crates approval patch)) := by
      rw [hresponse, Value.get_mkObject]
      rfl
    have hanswered : answered crates approval patch = editedFields crates approval patch := by
      unfold answered
      dsimp only
      rw [if_pos hok, hget]
      rfl
    have hpayload (k : String) : sorted_map.get k
        (((sorted_map.get "full_payload" approval).bind Value.as_object).getD []) =
          (payloadOf approval).get k := by
      unfold payloadOf
      cases hfull : sorted_map.get "full_payload" approval with
      | none => rfl
      | some v => cases v <;> rfl
    rw [hanswered]
    refine .inr ⟨hok, hget, kept_and_edited (patchedPayload approval patch)
      (((requestOf approval patch).get "value").getD .null) ?_ ?_
      (by simpa [rustProtects_iff] using hprotected)⟩
    · intro k
      unfold editedFields
      simp only [sorted_map.get_insert]
    · intro k
      rw [patchedPayload, sorted_map.get_insert, hpayload]
  · have hok : response.get "ok" = some (.bool false) := by
      rw [hresponse, Value.get_mkObject]
      rfl
    refine .inl ⟨hok, ?_⟩
    unfold answered
    dsimp only
    rw [hok]
    rfl

theorem kept_run (approval : Fields) (patches : List Fields) :
    Kept rustProtects approval (patches.foldl (answered crates) approval) := by
  induction patches generalizing approval with
  | nil => exact .refl _ _
  | cons patch patches ih =>
    have hstep : Kept rustProtects approval (answered crates approval patch) := by
      rcases answered_cases crates approval patch with ⟨-, h⟩ | ⟨-, -, h, -⟩
      · rw [h]
        exact .refl _ _
      · exact h
    exact hstep.trans rustProtects_steady (ih _)

end rust

/-! ## The edits of the queue -/

section python

open shell_core.approval_queue

variable (sha256 : Bytes → Bytes)

/-- One edit that the queue is asked for. -/
structure Edit where
  approval_id : String
  field : String
  value : Value

def edit (queue : ApprovalQueue) (e : Edit) : Option Fields × ApprovalQueue :=
  queue.edit sha256 e.approval_id e.field e.value

/-- A field is protected by its name, or by a list of the approval that has it or that makes the
check raise. -/
def pythonProtects (approval : Fields) (k : String) : Prop :=
  k ∈ alwaysProtected ∨ ∃ key ∈ protecting, ∀ items, fieldSet approval key = some items →
    .string k ∈ items

/-- What is protected is in the set of the queue, if it comes to that set. -/
theorem pythonProtects_iff (approval : Fields) (k : String) : pythonProtects approval k ↔
    ∀ fields, shell_core.approval_queue.protected_fields approval = some fields →
      .string k ∈ fields := by
  have halways : k ∈ alwaysProtected ↔ Value.string k ∈ PROTECTED_EDIT_FIELDS.map .string := by
    simp [alwaysProtected, PROTECTED_EDIT_FIELDS]
    tauto
  unfold pythonProtects shell_core.approval_queue.protected_fields protecting
  simp only [halways, List.mem_cons, List.not_mem_nil, or_false, exists_eq_or_imp, exists_eq_left]
  rcases fieldSet approval "authority_fields" with _ | authority_fields <;>
    rcases fieldSet approval "sealed_fields" with _ | sealed_fields <;>
    rcases fieldSet approval "hidden_fields" with _ | hidden_fields <;>
    rcases fieldSet approval "sacred_fields" with _ | sacred_fields <;>
    simp
  tauto

theorem pythonProtects_steady : Steady pythonProtects := by
  intro a b hfields k
  have hkey : ∀ key ∈ protecting, fieldSet b key = fieldSet a key := fun key hkey => by
    rw [fieldSet, fieldSet, hfields key (not_written_of_protecting hkey)]
  unfold pythonProtects
  refine or_congr_right (exists_congr fun key => and_congr_right fun hmem => ?_)
  rw [hkey key hmem]

theorem approval_of_can_edit {queue : ApprovalQueue} {approval_id field : String}
    (h : queue.can_edit approval_id field = some true) :
    ∃ approval, queue.get approval_id = some approval ∧ ¬pythonProtects approval field := by
  unfold ApprovalQueue.can_edit at h
  obtain ⟨approval, hget, h⟩ := Option.bind_eq_some_iff.mp h
  obtain ⟨editable_fields, -, h⟩ := Option.bind_eq_some_iff.mp h
  split at h
  · obtain ⟨fields, hfields, hprotected⟩ := Option.map_eq_some_iff.mp h
    refine ⟨approval, hget, fun hprotects => ?_⟩
    exact of_decide_eq_true hprotected
      ((pythonProtects_iff approval field).mp hprotects fields hfields)
  · simp at h

/-- One edit: it goes through with an edited approval, or it leaves the queue alone. -/
theorem edit_cases (queue : ApprovalQueue) (e : Edit) :
    ((edit sha256 queue e).1 = none ∧ (edit sha256 queue e).2 = queue) ∨
      ∃ before after, queue.get e.approval_id = some before ∧
        (edit sha256 queue e).1 = some after ∧
        (∀ id, (edit sha256 queue e).2.get id =
          if e.approval_id = id then some after else queue.get id) ∧
        Kept pythonProtects before after ∧
        Edited (shell_core.approval_queue.canonical_hash sha256) after := by
  obtain ⟨approval_id, field, value⟩ := e
  unfold edit ApprovalQueue.edit
  dsimp only
  split
  · rename_i approval hcan hget
    split
    · rename_i payload hpayload
      obtain ⟨approval', hget', hfield⟩ := approval_of_can_edit hcan
      rw [hget] at hget'
      cases hget'
      have hfull (k : String) : sorted_map.get k payload = (payloadOf approval).get k := by
        unfold payloadOf
        cases hget : sorted_map.get "full_payload" approval with
        | none =>
          rw [hget] at hpayload
          cases hpayload
          rfl
        | some v =>
          rw [hget] at hpayload
          rw [show v = .object payload from hpayload]
          rfl
      refine .inr ⟨approval, _, hget, rfl, ?_, ?_⟩
      · intro id
        exact dict.get_setItem _ _ _ _
      · apply kept_and_edited (dict.setItem field value payload) value ?_ ?_ hfield
        · intro k
          simp only [dict.get_setItem]
        · intro k
          rw [dict.get_setItem, hfull]
    · exact .inl ⟨rfl, rfl⟩
  · exact .inl ⟨rfl, rfl⟩

theorem kept_queue {queue : ApprovalQueue} {id : String} {approval : Fields}
    (h : queue.get id = some approval) (edits : List Edit) :
    ∃ reached, (edits.foldl (fun queue e => (edit sha256 queue e).2) queue).get id =
      some reached ∧ Kept pythonProtects approval reached := by
  induction edits generalizing queue approval with
  | nil => exact ⟨approval, h, .refl _ _⟩
  | cons e edits ih =>
    rw [List.foldl_cons]
    rcases edit_cases sha256 queue e with ⟨-, hsame⟩ | ⟨before, after, hbefore, -, hget, hkept, -⟩
    · rw [hsame]
      exact ih h
    · by_cases hid : e.approval_id = id
      · subst hid
        rw [h] at hbefore
        cases hbefore
        obtain ⟨reached, hreached, hrest⟩ := ih ((hget _).trans (if_pos rfl))
        exact ⟨reached, hreached, hkept.trans pythonProtects_steady hrest⟩
      · exact ih (((hget id).trans (if_neg hid)).trans h)

end python

/-! ## Editing is safe -/

/-- Whatever edits come: an approval keeps its other fields and the protected keys of its payload;
an edit that is rejected changes nothing, and one that goes through leaves the hash of the new
payload, and an approval that no evaluator takes for granted. -/
theorem edits_safe (crates : Crates) (python : shell_core.Python) :
    (∀ (approval : Fields) (patches : List Fields) (patch : Fields),
      let reached := patches.foldl (answered crates) approval
      let after := answered crates reached patch
      let response := edit_approval crates (requestOf reached patch)
      Kept rustProtects approval reached ∧ Kept rustProtects reached after ∧
      ((response.get "ok" = some (.bool false) ∧ after = reached) ∨
        (response.get "ok" = some (.bool true) ∧ response.get "approval" = some (.object after) ∧
          Edited (authority.canonical_hash crates.sha256) after ∧
          Denied crates python reached after))) ∧
    (∀ (queue queue' : shell_core.approval_queue.ApprovalQueue) (approval : Fields) (id : String)
        (edits : List Edit) (field : String) (value : Value),
      queue.enqueue approval = some queue' →
      sorted_map.get "approval_id" approval = some (.string id) →
      let last := edits.foldl (fun queue e => (edit python.sha256 queue e).2) queue'
      let result := edit python.sha256 last ⟨id, field, value⟩
      ∃ reached, last.get id = some reached ∧ Kept pythonProtects approval reached ∧
        ((result.1 = none ∧ result.2 = last) ∨
          ∃ after, result.1 = some after ∧ result.2.get id = some after ∧
            (∀ other, other ≠ id → result.2.get other = last.get other) ∧
            Kept pythonProtects reached after ∧
            Edited (shell_core.approval_queue.canonical_hash python.sha256) after ∧
            Denied crates python reached after)) := by
  constructor
  · intro approval patches patch reached after response
    refine ⟨kept_run crates approval patches, ?_⟩
    rcases answered_cases crates reached patch with ⟨hno, hsame⟩ | ⟨hok, hget, hkept, hedited⟩
    · have hafter : after = reached := hsame
      rw [hafter]
      exact ⟨.refl _ _, .inl ⟨hno, rfl⟩⟩
    · exact ⟨hkept, .inr ⟨hok, hget, hedited, denied_of_edited hkept hedited⟩⟩
  · intro queue queue' approval id edits field value henqueue hid last result
    have hfirst : queue'.get id = some approval := by
      unfold shell_core.approval_queue.ApprovalQueue.enqueue at henqueue
      rw [hid] at henqueue
      cases henqueue
      exact (dict.get_setItem _ _ _ _).trans (if_pos rfl)
    obtain ⟨reached, hreached, hkept⟩ := kept_queue python.sha256 hfirst edits
    refine ⟨reached, hreached, hkept, ?_⟩
    rcases edit_cases python.sha256 last ⟨id, field, value⟩ with
      hno | ⟨before, after, hbefore, hafter, hget, hstep, hedited⟩
    · exact .inl hno
    · have hsame : before = reached := Option.some.inj (hbefore.symm.trans hreached)
      subst hsame
      refine .inr ⟨after, hafter, (hget id).trans (if_pos rfl), ?_, hstep, hedited,
        denied_of_edited hstep hedited⟩
      intro other hother
      exact (hget other).trans (if_neg (Ne.symm hother))

end approval_edits
