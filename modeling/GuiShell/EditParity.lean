-- Edits of an approval in the queue of the Python shell (approval_queue.py) and by the broker
-- (authority.rs), side by side: whatever edits come, both take in the same ones, and the approval
-- that the broker gives back is the one of the queue as the broker reads it.
import GuiShell.ApprovalEdits
import GuiShell.Broker.ReadValues
import GuiShell.PortableValues

open json serde_json canonical_parity approval_edits shell_core.approval_queue

namespace edit_parity

variable {f64 : List Char → Option FloatText} {python rust : Fields}

/-! ## Approvals and edits -/

/-- The fields of an approval that list names of fields. -/
def lists : List String :=
  ["editable_fields", "authority_fields", "sealed_fields", "hidden_fields", "sacred_fields"]

def textItems (names : List String) : Value := .array (names.map .string)

/-- The lists of the approval are lists of texts, and its payload is one that both languages write
alike. A list that is missing is empty, and so is a payload. -/
structure PlainApproval (approval : Fields) : Prop where
  lists : ∀ key ∈ edit_parity.lists, ∃ names,
    (sorted_map.get key approval).getD (.array []) = textItems names
  payload : ∃ payload,
    (sorted_map.get "full_payload" approval).getD (.object []) = .object payload ∧
    PortableValue (.object payload)

structure PlainEdit (e : Edit) : Prop where
  field : AsciiText e.field
  value : PortableValue e.value
  distinct : e.value.Distinct

/-- The request of the edit, as the broker reads it. -/
def patchOf (e : Edit) : Fields := [("field", .string e.field), ("value", e.value.sortKeys)]

/-- The approval of the broker is the one of the queue as the broker reads it. -/
structure Same (f64 : List Char → Option FloatText) (python rust : Fields) : Prop where
  plain : PlainApproval python
  distinct : (Value.object python).Distinct
  reads : valueOf f64 (.object python) = some (.object rust)

theorem Same.nodup (h : Same f64 python rust) : (python.map Prod.fst).Nodup :=
  (Value.distinct_object.mp h.distinct).1

theorem Same.get (h : Same f64 python rust) (key : String) :
    (sorted_map.get key rust).map some = (sorted_map.get key python).map (valueOf f64) :=
  ((valueOf_object_iff h.nodup).mp h.reads).2 key

theorem valueOf_text (s : String) : valueOf f64 (.string s) = some (.string s) := rfl

/-! ## What may be edited -/

theorem valueOf_textItems (names : List String) :
    valueOf f64 (textItems names) = some (textItems names) := by
  unfold textItems
  induction names with
  | nil => rfl
  | cons name names ih =>
    simp only [valueOf, Option.map_eq_some_iff, Value.array.injEq, exists_eq_right] at ih
    simp only [valueOf, List.map_cons, itemsOf, ih, Option.bind_eq_bind, Option.bind_some,
      Option.map_some]

/-- The names in a list of the approval, in Python and in Rust. -/
theorem names_agree (h : Same f64 python rust) {key : String} (hkey : key ∈ lists) :
    fieldSet python key =
      some ((authority.string_set (sorted_map.get key rust)).map .string) := by
  obtain ⟨names, hnames⟩ := h.plain.lists key hkey
  have hread : authority.string_set (sorted_map.get key rust) = names := by
    have hget := h.get key
    have hset : authority.string_set (some (textItems names)) = names := by
      unfold authority.string_set textItems
      simp only [Option.bind_some, Value.as_array, Option.getD_some, List.filterMap_map]
      exact List.filterMap_some
    cases hpython : sorted_map.get key python with
    | none =>
      rw [hpython, Option.map_none, Option.map_eq_none_iff] at hget
      rw [hpython, Option.getD_none] at hnames
      rw [hget, ← hset, ← hnames]
      rfl
    | some v =>
      rw [hpython, Option.getD_some] at hnames
      rw [hpython, hnames, Option.map_some, valueOf_textItems, Option.map_eq_some_iff] at hget
      obtain ⟨w, hw, heq⟩ := hget
      rw [hw, heq, hset]
  unfold fieldSet
  rw [hread, hnames]
  simp [textItems, shell_core.tuple, shell_core.hashable]

theorem can_edit_agrees (h : Same f64 python rust) {queue : ApprovalQueue} {id : String}
    (hget : queue.get id = some python) (field : String) :
    queue.can_edit id field = some (authority.can_edit rust field) := by
  have hset {key : String} (hkey : key ∈ lists) := names_agree h hkey
  have hprotected : protected_fields python = some
      ((authority.string_set (sorted_map.get "authority_fields" rust) ++
        authority.string_set (sorted_map.get "sealed_fields" rust) ++
        authority.string_set (sorted_map.get "hidden_fields" rust) ++
        authority.string_set (sorted_map.get "sacred_fields" rust) ++
        PROTECTED_EDIT_FIELDS).map .string) := by
    unfold protected_fields
    rw [hset (by simp [lists]), hset (by simp [lists]), hset (by simp [lists]),
      hset (by simp [lists])]
    simp
  have heditable := hset (show "editable_fields" ∈ lists by simp [lists])
  have hmem (names : List String) : Value.string field ∈ names.map .string ↔ field ∈ names := by
    simp
  unfold ApprovalQueue.can_edit authority.can_edit
  rw [hget]
  simp only [Option.bind_eq_bind, Option.bind_some, heditable, hprotected, hmem, Option.map_some]
  by_cases hfield : field ∈ authority.string_set (sorted_map.get "editable_fields" rust)
  · rw [if_pos hfield, decide_eq_true hfield, Bool.true_and, Option.some.injEq, decide_eq_decide]
    simp only [authority.protected_fields, PROTECTED_EDIT_FIELDS, List.flatMap_cons,
      List.flatMap_nil, List.mem_append, List.mem_cons, List.not_mem_nil, or_false]
    tauto
  · rw [if_neg hfield, decide_eq_false hfield, Bool.false_and]

/-! ## One edit -/

variable {crates : Crates} {queue : ApprovalQueue} {e : Edit}

theorem plain_setItem {payload : Fields} (h : PlainApproval python)
    (hpayload : PortableValue (.object payload)) (hash status : Value) :
    PlainApproval (dict.setItem "status" status (dict.setItem "payload_hash" hash
      (dict.setItem "full_payload" (.object payload) python))) := by
  constructor
  · intro key hkey
    have hother : sorted_map.get key (dict.setItem "status" status (dict.setItem "payload_hash" hash
        (dict.setItem "full_payload" (.object payload) python))) = sorted_map.get key python := by
      simp only [lists, List.mem_cons, List.not_mem_nil, or_false] at hkey
      rw [dict.get_setItem, dict.get_setItem, dict.get_setItem]
      rcases hkey with rfl | rfl | rfl | rfl | rfl <;> simp
    rw [hother]
    exact h.lists key hkey
  · refine ⟨payload, ?_, hpayload⟩
    rw [dict.get_setItem, dict.get_setItem, dict.get_setItem]
    simp

theorem portable_setItem {payload : Fields} (hpayload : PortableValue (.object payload))
    (he : PlainEdit e) : PortableValue (.object (dict.setItem e.field e.value payload)) := by
  rw [portableValue_object] at hpayload ⊢
  intro item hitem
  rcases dict.mem_setItem hitem with rfl | hmem
  · exact ⟨he.field, he.value⟩
  · exact hpayload item hmem

/-- The payload that an edit starts from, in Python and in Rust. -/
theorem payloads_agree (h : Same f64 python rust) : ∃ payload,
    (sorted_map.get "full_payload" python).getD (.object []) = .object payload ∧
    PortableValue (.object payload) ∧ (Value.object payload).Distinct ∧
    valueOf f64 (.object payload) =
      some (.object (((sorted_map.get "full_payload" rust).bind Value.as_object).getD [])) := by
  obtain ⟨payload, hpayload, hportable⟩ := h.plain.payload
  have hget := h.get "full_payload"
  cases hpython : sorted_map.get "full_payload" python with
  | none =>
    rw [hpython, Option.map_none, Option.map_eq_none_iff] at hget
    rw [hpython, Option.getD_none, Value.object.injEq] at hpayload
    subst hpayload
    rw [hget]
    exact ⟨[], rfl, hportable, Value.distinct_object.mpr ⟨List.nodup_nil, by simp⟩, rfl⟩
  | some v =>
    rw [hpython, Option.getD_some] at hpayload
    subst hpayload
    have hd := (Value.distinct_object.mp h.distinct).2 _ _ (sorted_map.mem_of_get hpython)
    rw [hpython, Option.map_some, Option.map_eq_some_iff] at hget
    obtain ⟨w, hw, hread⟩ := hget
    obtain ⟨fields, rfl, -⟩ := object_of_valueOf hd hread.symm
    rw [hw]
    exact ⟨payload, rfl, hportable, hd, hread.symm⟩

theorem field_of_patch (e : Edit) :
    authority.strField (requestOf rust (patchOf e)) "field" = some e.field := by
  simp [authority.strField, requestOf, Value.get, sorted_map.get_insert, patchOf,
    sorted_map.get_cons, Value.as_str]

theorem value_of_patch (e : Edit) :
    (requestOf rust (patchOf e)).get "value" = some e.value.sortKeys := by
  simp [requestOf, Value.get, sorted_map.get_insert, patchOf, sorted_map.get_cons]

/-- What the broker answers. -/
theorem response_cases (crates : Crates) (rust : Fields) (e : Edit) :
    let response := authority.edit_approval crates (requestOf rust (patchOf e))
    (authority.can_edit rust e.field = false ∧ response.get "ok" = some (.bool false) ∧
        answered crates rust (patchOf e) = rust) ∨
      (authority.can_edit rust e.field = true ∧ response.get "ok" = some (.bool true) ∧
        response.get "approval" = some (.object (editedFields crates rust (patchOf e))) ∧
        answered crates rust (patchOf e) = editedFields crates rust (patchOf e)) := by
  intro response
  have happroval : (((requestOf rust (patchOf e)).get "approval").getD .null).as_object =
      some rust := by
    rw [requestOf, Value.get, sorted_map.get_insert, if_pos rfl]
    rfl
  have hresponse : response = authority.edit_approval crates (requestOf rust (patchOf e)) := rfl
  unfold authority.edit_approval at hresponse
  rw [happroval] at hresponse
  dsimp only at hresponse
  rw [field_of_patch, Option.getD_some] at hresponse
  cases hcan : authority.can_edit rust e.field with
  | false =>
    rw [hcan, if_neg Bool.false_ne_true] at hresponse
    have hok : response.get "ok" = some (.bool false) := by
      rw [hresponse, Value.get_mkObject]
      rfl
    refine .inl ⟨rfl, hok, ?_⟩
    unfold answered
    dsimp only
    rw [hok]
    rfl
  | true =>
    rw [hcan, if_pos rfl] at hresponse
    have hok : response.get "ok" = some (.bool true) := by
      rw [hresponse, Value.get_mkObject]
      rfl
    have hget : response.get "approval" =
        some (.object (editedFields crates rust (patchOf e))) := by
      rw [hresponse, Value.get_mkObject, editedFields, patchedPayload, field_of_patch]
      rfl
    refine .inr ⟨rfl, hok, hget, ?_⟩
    unfold answered
    dsimp only
    rw [if_pos hok, hget]
    rfl

/-- What Python makes of an approval when an edit goes through. -/
def editedDict (sha256 : Bytes → Bytes) (e : Edit) (payload approval : Fields) : Fields :=
  let payload := dict.setItem e.field e.value payload
  dict.setItem "status" (.string "requires_validation")
    (dict.setItem "payload_hash" (.string (canonical_hash sha256 (.object payload)))
      (dict.setItem "full_payload" (.object payload) approval))

theorem same_of_edited (h : Same crates.f64 python rust) (he : PlainEdit e) {payload : Fields}
    (hportable : PortableValue (.object payload)) (hd : (Value.object payload).Distinct)
    (hread : valueOf crates.f64 (.object payload) =
      some (.object (((sorted_map.get "full_payload" rust).bind Value.as_object).getD []))) :
    Same crates.f64 (editedDict crates.sha256 e payload python)
      (editedFields crates rust (patchOf e)) := by
  have hpatched : valueOf crates.f64 (.object (dict.setItem e.field e.value payload)) =
      some (.object (patchedPayload rust (patchOf e))) := by
    unfold patchedPayload
    rw [field_of_patch, value_of_patch]
    exact valueOf_setItem (Value.distinct_object.mp hd).1 hread he.value.valueOf_eq
  have hplain := portable_setItem hportable he
  have hhash : authority.canonical_hash crates.sha256 (.object (patchedPayload rust (patchOf e))) =
      canonical_hash crates.sha256 (.object (dict.setItem e.field e.value payload)) := by
    rw [hplain.valueOf_eq, Option.some.injEq] at hpatched
    rw [← hpatched, hplain.canonical_hash_eq]
  have hfull := distinct_setItem h.distinct (distinct_setItem hd he.distinct e.field) "full_payload"
  have htext (s : String) : (Value.string s).Distinct :=
    fun _ hkeys => absurd hkeys List.not_mem_nil
  have hhashed := distinct_setItem hfull (htext (canonical_hash crates.sha256
    (.object (dict.setItem e.field e.value payload)))) "payload_hash"
  refine ⟨plain_setItem h.plain hplain _ _, distinct_setItem hhashed (htext _) "status", ?_⟩
  unfold editedDict editedFields
  dsimp only
  rw [hhash]
  have hread_full := @valueOf_setItem _ _ _ _ _ h.nodup h.reads "full_payload" hpatched
  have hread_hash := @valueOf_setItem _ _ _ _ _ (Value.distinct_object.mp hfull).1 hread_full
    "payload_hash" (valueOf_text (canonical_hash crates.sha256
      (.object (dict.setItem e.field e.value payload))))
  exact valueOf_setItem (Value.distinct_object.mp hhashed).1 hread_hash (valueOf_text _)

/-- An edit of both sides: both refuse it, or both take it in and have the same approval again. -/
theorem edit_agrees (h : Same crates.f64 python rust)
    (hget : queue.get e.approval_id = some python) (he : PlainEdit e) :
    let result := edit crates.sha256 queue e
    let response := authority.edit_approval crates (requestOf rust (patchOf e))
    (result = (none, queue) ∧ response.get "ok" = some (.bool false) ∧
        answered crates rust (patchOf e) = rust) ∨
      ∃ after, result.1 = some after ∧ result.2.get e.approval_id = some after ∧
        response.get "ok" = some (.bool true) ∧
        response.get "approval" = some (.object (answered crates rust (patchOf e))) ∧
        Same crates.f64 after (answered crates rust (patchOf e)) := by
  intro result response
  have hcan := can_edit_agrees h hget e.field
  have hresult : result = queue.edit crates.sha256 e.approval_id e.field e.value := rfl
  unfold ApprovalQueue.edit at hresult
  rw [hcan, hget] at hresult
  rcases response_cases crates rust e with ⟨hno, hok, hsame⟩ | ⟨hyes, hok, happroval, hanswered⟩
  · rw [hno] at hresult
    exact .inl ⟨hresult, hok, hsame⟩
  · obtain ⟨payload, hpayload, hportable, hd, hread⟩ := payloads_agree h
    rw [hyes] at hresult
    dsimp only at hresult
    rw [hpayload] at hresult
    refine .inr ⟨editedDict crates.sha256 e payload python, by rw [hresult]; rfl, ?_, hok, ?_, ?_⟩
    · rw [hresult]
      exact (dict.get_setItem _ _ _ _).trans (if_pos rfl)
    · rw [hanswered]
      exact happroval
    · rw [hanswered]
      exact same_of_edited h he hportable hd hread

/-! ## Edits one after another -/

theorem same_run {id : String} (h : Same crates.f64 python rust) (hget : queue.get id = some python)
    {edits : List Edit} (hedits : ∀ e ∈ edits, e.approval_id = id ∧ PlainEdit e) :
    ∃ current, (edits.foldl (fun queue e => (edit crates.sha256 queue e).2) queue).get id =
        some current ∧
      Same crates.f64 current
        (edits.foldl (fun approval e => answered crates approval (patchOf e)) rust) := by
  induction edits generalizing queue python rust with
  | nil => exact ⟨python, hget, h⟩
  | cons e edits ih =>
    obtain ⟨rfl, he⟩ := hedits e List.mem_cons_self
    have hrest : ∀ e' ∈ edits, e'.approval_id = e.approval_id ∧ PlainEdit e' := fun e' he' =>
      hedits e' (List.mem_cons_of_mem _ he')
    rw [List.foldl_cons, List.foldl_cons]
    rcases edit_agrees h hget he with ⟨hresult, -, hanswered⟩ | ⟨after, -, hafter, -, -, hsame⟩
    · rw [hresult, hanswered]
      exact ih h hget hrest
    · exact ih hsame hafter hrest

/-- The queue and the broker edit alike. After any edits of an approval the broker has the
approval of the queue, as it reads it; and of one more edit both refuse it and change nothing, or
both take it in and give back the same approval. -/
theorem editors_agree {id : String} (hplain : PlainApproval python)
    (hd : (Value.object python).Distinct)
    (hread : valueOf crates.f64 (.object python) = some (.object rust))
    (hget : queue.get id = some python) {edits : List Edit} {last : Edit}
    (hedits : ∀ e ∈ edits ++ [last], e.approval_id = id ∧ PlainEdit e) :
    let queue' := edits.foldl (fun queue e => (edit crates.sha256 queue e).2) queue
    let reached := edits.foldl (fun approval e => answered crates approval (patchOf e)) rust
    let response := authority.edit_approval crates (requestOf reached (patchOf last))
    (∃ current, queue'.get id = some current ∧
      valueOf crates.f64 (.object current) = some (.object reached)) ∧
    ((edit crates.sha256 queue' last = (none, queue') ∧ response.get "ok" = some (.bool false)) ∨
      ∃ after shown, (edit crates.sha256 queue' last).1 = some after ∧
        response.get "ok" = some (.bool true) ∧ response.get "approval" = some shown ∧
        valueOf crates.f64 (.object after) = some shown) := by
  intro queue' reached response
  obtain ⟨current, hcurrent, hsame⟩ := same_run ⟨hplain, hd, hread⟩ hget fun e he =>
    hedits e (List.mem_append_left _ he)
  refine ⟨⟨current, hcurrent, hsame.reads⟩, ?_⟩
  obtain ⟨hid, hlast⟩ := hedits last (by simp)
  rw [← hid] at hcurrent
  rcases edit_agrees hsame hcurrent hlast with
    ⟨hresult, hok, -⟩ | ⟨after, hafter, -, hok, hshown, hread⟩
  · exact .inl ⟨hresult, hok⟩
  · exact .inr ⟨after, _, hafter, hok, hshown, hread.reads⟩

/-- An approval for a note with a path that may be edited, shown in full. -/
def noteApproval : Fields := [
  ("approval_id", .string "approval-1"),
  ("content_visibility", .string "full"),
  ("editable_fields", textItems ["path"]),
  ("full_payload", .object [("path", .string "a")])]

def pathEdit : Edit := ⟨"approval-1", "path", .string "b"⟩

def hashEdit : Edit := ⟨"approval-1", "payload_hash", .string "b"⟩

theorem asciiText_note {s : String} (h : s ∈ ["path", "payload_hash", "a", "b"]) :
    AsciiText s := by
  unfold AsciiText
  simp only [List.mem_cons, List.not_mem_nil, or_false] at h
  rcases h with rfl | rfl | rfl | rfl <;> simp

theorem plain_noteApproval : PlainApproval noteApproval := by
  constructor
  · unfold lists
    simp only [List.forall_mem_cons]
    exact ⟨⟨["path"], rfl⟩, ⟨[], rfl⟩, ⟨[], rfl⟩, ⟨[], rfl⟩, ⟨[], rfl⟩, List.forall_mem_nil _⟩
  · refine ⟨[("path", .string "a")], rfl, portableValue_object.mpr ?_⟩
    simp only [List.forall_mem_cons]
    exact ⟨⟨asciiText_note (by simp), portableValue_string (asciiText_note (by simp))⟩,
      List.forall_mem_nil _⟩

theorem plain_noteEdits :
    ∀ e ∈ [pathEdit, hashEdit], e.approval_id = "approval-1" ∧ PlainEdit e := by
  unfold pathEdit hashEdit
  simp only [List.forall_mem_cons]
  exact ⟨⟨trivial, asciiText_note (by simp), portableValue_string (asciiText_note (by simp)),
      by decide⟩,
    ⟨trivial, asciiText_note (by simp), portableValue_string (asciiText_note (by simp)),
      by decide⟩,
    List.forall_mem_nil _⟩

theorem editors_agree_note : ∃ current shown,
    (edit fips.digest ⟨[("approval-1", noteApproval)]⟩ pathEdit).2.get "approval-1" =
        some current ∧
      valueOf (fun _ => none) (.object current) = some (.object shown) := by
  have hedits : ∀ e ∈ [pathEdit] ++ [hashEdit], e.approval_id = "approval-1" ∧ PlainEdit e :=
    plain_noteEdits
  obtain ⟨⟨current, hcurrent, hread⟩, -⟩ := @editors_agree noteApproval noteApproval .ascii
    ⟨[("approval-1", noteApproval)]⟩ "approval-1" plain_noteApproval (by decide) rfl rfl _ _ hedits
  exact ⟨current, _, hcurrent, hread⟩

end edit_parity
