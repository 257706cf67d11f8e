-- The router of sensitive actions (sensitive_action_router.py), and what the policy evaluator
-- behind it allows: exactly the actions that the records of its state authorize.
import GuiShell.AdapterApproval
import GuiShell.Authorization

open json authorization shell_core.schema_validation shell_core.state_snapshot

namespace shell_core

namespace policy_evaluator

/-! ## What the contracts say of a record -/

section valid

variable {repr : Value → String} {path : String} {schema : Contract} {value : Value}

/-- A required field of a valid record is there, and valid itself. -/
theorem required_field (key : String) {property : Contract} (htype : schema.type = .one "object")
    (hrequired : key ∈ schema.required) (hproperty : schema.fieldSchema key = some property)
    (h : validate_instance repr value schema path = some []) :
    ∃ v, value.get key = some v ∧ validate_instance repr v property (path ++ "." ++ key) =
      some [] := by
  obtain ⟨fields, rfl, hown, hfields⟩ := object_of_valid htype h
  unfold ownErrors at hown
  simp only [List.append_eq_nil_iff, List.flatMap_eq_nil_iff] at hown
  have hkey := hown.2.1 key hrequired
  unfold schema_validation.errorUnless at hkey
  split at hkey
  · rename_i hsome
    obtain ⟨v, hv⟩ := Option.isSome_iff_exists.mp hsome
    exact ⟨v, hv, validateFields_get hfields hv hproperty⟩
  · cases hkey

theorem array_of_valid (htype : schema.type = .one "array")
    (h : validate_instance repr value schema path = some []) : ∃ items, value = .array items := by
  have hadmits := admits_of_valid h
  rw [htype] at hadmits
  cases value with
  | array items => exact ⟨items, rfl⟩
  | null | bool _ | number _ | string _ | object _ =>
    exact absurd hadmits (by simp [ExpectedType.admits, type_matches])

theorem mem_of_valid_oneOf {values : List String}
    (h : validate_instance repr value (oneOf values) path = some []) :
    ∃ s ∈ values, value = .string s := by
  obtain ⟨s, rfl⟩ := string_of_valid rfl h
  refine ⟨s, ?_, rfl⟩
  by_contra hmem
  simp [validate_instance, oneOf, ExpectedType.admits, type_matches, ownErrors,
    schema_validation.errorUnless, hmem] at h

end valid

/-! ## Records by id -/

section lookups

variable {schema : Contract} {id_field : String} {records : Records schema id_field}
  {action record : Value} {field s : String}

@[simp] theorem getOrNone_eq_string :
    getOrNone action field = .string s ↔ action.get field = some (.string s) := by
  unfold getOrNone
  cases action.get field <;> simp

theorem getOrNone_of_get {v : Value} (h : action.get field = some v) :
    getOrNone action field = v := by
  rw [getOrNone, h]
  rfl

theorem lookup_eq_some_iff {key : Value} : records.lookup key = some (some record) ↔
    ∃ id, key = .string id ∧ records.get id = some record := by
  constructor
  · intro h
    unfold Records.lookup at h
    split at h
    · exact ⟨_, rfl, Option.some.inj h⟩
    · split at h <;> cases h
  · rintro ⟨id, rfl, hget⟩
    exact congrArg some hget

/-- A record that a state holds has its required texts, and they are not empty. -/
theorem text_of_get (h : records.get s = some record) (key : String)
    (htype : schema.type = .one "object") (hrequired : key ∈ schema.required)
    (hproperty : schema.fieldSchema key = some text) :
    ∃ s, record.get key = some (.string s) ∧ s ≠ "" :=
  text_of_valid key htype hrequired hproperty (of_decide_eq_true (Records.get_spec h).1)

/-- A state holds nothing under the empty id. -/
theorem id_ne_empty (h : records.get s = some record) (htype : schema.type = .one "object")
    (hrequired : id_field ∈ schema.required) (hproperty : schema.fieldSchema id_field = some text) :
    s ≠ "" := by
  obtain ⟨s', hs', hne⟩ := text_of_get h id_field htype hrequired hproperty
  rw [(Records.get_spec h).2] at hs'
  cases hs'
  exact hne

end lookups

theorem errorUnless_eq_nil {check : Bool} {error : Value} :
    errorUnless check error = [] ↔ check = true := by
  unfold errorUnless
  cases check <;> simp

theorem relationErrors_eq_nil_iff {action operation record : Value} {fields : List String}
    {message : String → String} : relationErrors action operation fields message record = [] ↔
      ∀ field ∈ fields, getOrNone action field = getOrNone record field := by
  unfold relationErrors
  rw [List.flatMap_eq_nil_iff]
  apply forall₂_congr
  intro field _
  rw [errorUnless_eq_nil]
  simp [differs]

/-! ## The gates, one by one -/

section gates

variable {python : Python} {state : RuntimeState} {action operation : Value}

theorem runtimeErrors_eq_nil_iff : runtimeErrors python state action operation = some [] ↔
    ∃ id runtime, action.get "runtime_id" = some (.string id) ∧
      state.runtimes.get id = some runtime := by
  unfold runtimeErrors
  dsimp only
  constructor
  · intro h
    split at h
    · cases h
    · obtain ⟨runtime, hlookup, herrors⟩ := Option.map_eq_some_iff.mp h
      obtain ⟨runtime, rfl⟩ := Option.isSome_iff_exists.mp (errorUnless_eq_nil.mp herrors)
      obtain ⟨id, hid, hget⟩ := lookup_eq_some_iff.mp hlookup
      exact ⟨id, runtime, getOrNone_eq_string.mp hid, hget⟩
  · rintro ⟨id, runtime, hid, hget⟩
    have hne : id ≠ "" := id_ne_empty hget rfl (by simp [runtime_schema, closedObject]) rfl
    rw [getOrNone_of_get hid, if_neg (by simp [truthy, hne]),
      lookup_eq_some_iff.mpr ⟨id, rfl, hget⟩, Option.map_some]
    exact congrArg some (errorUnless_eq_nil.mpr rfl)

/-- The gate for the capability, once the runtime has passed. -/
theorem capabilityErrors_eq_nil_iff {runtime_id : String} (hne : runtime_id ≠ "")
    (hruntime : action.get "runtime_id" = some (.string runtime_id)) :
    capabilityErrors python state action operation = some [] ↔
      ∃ id capability operations, action.get "capability_id" = some (.string id) ∧
        state.capabilities.get id = some capability ∧
        capability.get "runtime_id" = some (.string runtime_id) ∧
        capability.get "operations" = some (.array operations) ∧ operation ∈ operations := by
  have hdiffers : ∀ capability : Value, (!(truthy (.string runtime_id) &&
      differs action capability "runtime_id")) = true ↔
        capability.get "runtime_id" = some (.string runtime_id) := by
    intro capability
    rw [← getOrNone_eq_string, differs, getOrNone_of_get hruntime]
    simp [truthy, hne, eq_comm]
  unfold capabilityErrors
  rw [getOrNone_of_get hruntime]
  dsimp only
  constructor
  · intro h
    obtain ⟨capability, hlookup, herrors⟩ := Option.map_eq_some_iff.mp h
    rcases capability with _ | capability
    · cases herrors
    · obtain ⟨id, hid, hget⟩ := lookup_eq_some_iff.mp hlookup
      obtain ⟨operations, hoperations, hvalid⟩ := required_field "operations" rfl
        (by simp [capability_schema, closedObject]) rfl
        (of_decide_eq_true (Records.get_spec hget).1)
      obtain ⟨operations, rfl⟩ := array_of_valid rfl hvalid
      dsimp only at herrors
      rw [getOrNone_of_get hoperations] at herrors
      obtain ⟨hown, hlisted⟩ := List.append_eq_nil_iff.mp herrors
      rw [errorUnless_eq_nil, hdiffers] at hown
      rw [errorUnless_eq_nil, decide_eq_true_iff] at hlisted
      exact ⟨id, capability, operations, getOrNone_eq_string.mp hid, hget, hown, hoperations,
        hlisted⟩
  · rintro ⟨id, capability, operations, hid, hget, hown, hoperations, hlisted⟩
    rw [getOrNone_of_get hid, lookup_eq_some_iff.mpr ⟨id, rfl, hget⟩, Option.map_some]
    dsimp only
    rw [getOrNone_of_get hoperations, Option.some.injEq, List.append_eq_nil_iff]
    rw [errorUnless_eq_nil, hdiffers, errorUnless_eq_nil, decide_eq_true_iff]
    exact ⟨hown, hlisted⟩

/-- The action has what the record has in the fields. -/
def Agrees (action record : Value) (fields : List String) : Prop :=
  ∀ field ∈ fields, getOrNone action field = getOrNone record field

theorem permissionErrors_eq_nil_iff {capability_id : String}
    (hcapability : action.get "capability_id" = some (.string capability_id)) :
    permissionErrors python state action operation = some [] ↔
      ∃ id permission, action.get "permission_id" = some (.string id) ∧
        state.permissions.get id = some permission ∧
        permission.get "decision" = some (.string "allow") ∧
        permission.get "capability_id" = some (.string capability_id) ∧
        Agrees action permission ["runtime_id", "operation", "target_scope"] := by
  have hdiffers : ∀ permission : Value, (!((Value.string capability_id) ≠ .null &&
      differs action permission "capability_id")) = true ↔
        permission.get "capability_id" = some (.string capability_id) := by
    intro permission
    rw [← getOrNone_eq_string, differs, getOrNone_of_get hcapability]
    simp [eq_comm]
  unfold permissionErrors
  rw [getOrNone_of_get hcapability]
  dsimp only
  constructor
  · intro h
    obtain ⟨permission, hlookup, herrors⟩ := Option.map_eq_some_iff.mp h
    rcases permission with _ | permission
    · cases herrors
    · obtain ⟨id, hid, hget⟩ := lookup_eq_some_iff.mp hlookup
      simp only [List.append_eq_nil_iff, relationErrors_eq_nil_iff] at herrors
      obtain ⟨⟨hdecision, hown⟩, hagrees⟩ := herrors
      rw [errorUnless_eq_nil, hdiffers] at hown
      rw [errorUnless_eq_nil, decide_eq_true_iff] at hdecision
      obtain ⟨v, hv, hvalid⟩ := required_field "decision" rfl
        (by simp [permission_schema, closedObject]) rfl
        (of_decide_eq_true (Records.get_spec hget).1)
      obtain ⟨s, hs, rfl⟩ := mem_of_valid_oneOf hvalid
      refine ⟨id, permission, getOrNone_eq_string.mp hid, hget, ?_, hown, hagrees⟩
      -- The contract has no decision `approved`.
      rw [getOrNone_of_get hv] at hdecision
      simp only [ALLOWED_PERMISSION_DECISIONS, List.mem_cons, List.not_mem_nil, or_false,
        Value.string.injEq] at hs hdecision
      rcases hdecision with rfl | rfl
      · exact hv
      · simp at hs
  · rintro ⟨id, permission, hid, hget, hdecision, hown, hagrees⟩
    rw [getOrNone_of_get hid, lookup_eq_some_iff.mpr ⟨id, rfl, hget⟩, Option.map_some]
    dsimp only
    rw [Option.some.injEq, List.append_eq_nil_iff, List.append_eq_nil_iff,
      relationErrors_eq_nil_iff, errorUnless_eq_nil, errorUnless_eq_nil, hdiffers,
      getOrNone_of_get hdecision]
    exact ⟨⟨by simp [ALLOWED_PERMISSION_DECISIONS], hown⟩, hagrees⟩

theorem approvalErrors_eq_nil_iff : approvalErrors python state action operation = some [] ↔
    ∃ id approval, action.get "approval_id" = some (.string id) ∧
      state.approvals.get id = some approval ∧
      approval.get "status" = some (.string "approved") ∧
      Agrees action approval ["runtime_id", "operation", "target_scope"] ∧
      (has_payload action = true → approval.get "payload_hash" =
        some (expectedHash python action)) := by
  have hhash : ∀ approval : Value, (!has_payload action ||
      getOrNone approval "payload_hash" = expectedHash python action) = true ↔
        (has_payload action = true → approval.get "payload_hash" =
          some (expectedHash python action)) := by
    intro approval
    unfold expectedHash
    rw [← getOrNone_eq_string]
    cases has_payload action <;> simp
  unfold approvalErrors
  dsimp only
  constructor
  · intro h
    split at h
    · cases h
    · obtain ⟨approval, hlookup, herrors⟩ := Option.map_eq_some_iff.mp h
      rcases approval with _ | approval
      · cases herrors
      · obtain ⟨id, hid, hget⟩ := lookup_eq_some_iff.mp hlookup
        dsimp only at herrors
        split at herrors
        · cases herrors
        · rename_i hstatus
          obtain ⟨hagrees, hpayload⟩ := List.append_eq_nil_iff.mp herrors
          rw [relationErrors_eq_nil_iff] at hagrees
          rw [errorUnless_eq_nil, hhash] at hpayload
          exact ⟨id, approval, getOrNone_eq_string.mp hid, hget,
            getOrNone_eq_string.mp (not_not.mp hstatus), hagrees, hpayload⟩
  · rintro ⟨id, approval, hid, hget, hstatus, hagrees, hpayload⟩
    rw [getOrNone_of_get hid, if_neg (by simp), lookup_eq_some_iff.mpr ⟨id, rfl, hget⟩,
      Option.map_some]
    dsimp only
    rw [if_neg (not_not.mpr (getOrNone_of_get hstatus)), Option.some.injEq,
      List.append_eq_nil_iff, relationErrors_eq_nil_iff, errorUnless_eq_nil, hhash]
    exact ⟨hagrees, hpayload⟩

theorem recoveryErrors_eq_nil_iff : recoveryErrors python state action operation = some [] ↔
    ∃ id recovery_action recovery, action.get "recovery_action" = some recovery_action ∧
      recovery_action.get "recovery_id" = some (.string id) ∧
      state.recovery_actions.get id = some recovery ∧
      Agrees action recovery ["runtime_id", "operation"] := by
  unfold recoveryErrors
  dsimp only
  constructor
  · intro h
    split at h
    · rename_i fields hfields
      have hget : action.get "recovery_action" = some (.object fields) := by
        unfold getOrNone at hfields
        cases hv : action.get "recovery_action" with
        | none => rw [hv] at hfields; cases hfields
        | some v => rw [hv] at hfields; exact congrArg some hfields
      split at h
      · cases h
      · obtain ⟨recovery, hlookup, herrors⟩ := Option.map_eq_some_iff.mp h
        rcases recovery with _ | recovery
        · cases herrors
        · obtain ⟨id, hid, hrecovery⟩ := lookup_eq_some_iff.mp hlookup
          exact ⟨id, _, recovery, hget, getOrNone_eq_string.mp hid, hrecovery,
            relationErrors_eq_nil_iff.mp herrors⟩
    · cases h
  · rintro ⟨id, recovery_action, recovery, hget, hid, hrecovery, hagrees⟩
    have hne : id ≠ "" := id_ne_empty hrecovery rfl (by simp [recovery_schema, closedObject]) rfl
    cases recovery_action with
    | object fields =>
      rw [getOrNone_of_get hget]
      dsimp only
      rw [getOrNone_of_get hid, if_neg (by simp [truthy, hne]),
        lookup_eq_some_iff.mpr ⟨id, rfl, hrecovery⟩, Option.map_some]
      exact congrArg some (relationErrors_eq_nil_iff.mpr hagrees)
    | null | bool _ | number _ | string _ | array _ => cases hid

/-- The errors of an audit event that the state holds. -/
theorem storedAuditErrors_eq_nil_iff {text : String} {audit_event stored : Value} {id : String}
    (hstored : state.audit_events.get id = some stored) :
    storedAuditErrors python action (.string text) audit_event (some stored) = some [] ↔
      ∃ hash, audit_event.get "payload_hash" = some (.string hash) ∧
        stored.get "payload_hash" = some (.string hash) ∧
        stored.get "action" = some (.string text) ∧
        (has_payload action = true → .string hash = expectedHash python action) := by
  have hvalid := of_decide_eq_true (Records.get_spec hstored).1
  have hrequired : "payload_hash" ∈ audit_schema.required := by simp [audit_schema, closedObject]
  obtain ⟨hash, hhash⟩ := field_of_valid rfl hrequired rfl rfl hvalid
  obtain ⟨named, hnamed, -⟩ := text_of_get hstored "action" rfl
    (by simp [audit_schema, closedObject]) rfl
  unfold storedAuditErrors
  dsimp only
  rw [if_pos (show hashable (.string text) = true from rfl), Option.some.injEq,
    List.append_eq_nil_iff, errorUnless_eq_nil,
    errorUnless_eq_nil, getOrNone_of_get hhash, getOrNone_of_get hnamed, hhash, hnamed]
  simp only [Bool.and_eq_true, decide_eq_true_iff, List.mem_cons, List.not_mem_nil, or_false,
    Value.string.injEq, reduceCtorEq, false_or, Option.some.injEq]
  by_cases hhas : has_payload action = true
  · rw [if_pos hhas]
    unfold expectedHash
    constructor
    · rintro ⟨⟨hevent, hsame⟩, rfl⟩
      rw [← hsame] at hevent
      exact ⟨hash, getOrNone_eq_string.mp hevent, rfl, rfl, fun _ => hsame⟩
    · rintro ⟨hash', hevent, rfl, rfl, hsame⟩
      rw [← hsame hhas, getOrNone_of_get hevent]
      exact ⟨⟨rfl, rfl⟩, rfl⟩
  · rw [if_neg hhas]
    constructor
    · rintro ⟨⟨-, hsame⟩, rfl⟩
      exact ⟨hash, getOrNone_eq_string.mp hsame.symm, rfl, rfl, fun h => absurd h hhas⟩
    · rintro ⟨hash', hevent, rfl, rfl, -⟩
      exact ⟨⟨rfl, (getOrNone_of_get hevent).symm⟩, rfl⟩

theorem auditErrors_eq_nil_iff {text : String} :
    auditErrors python state action (.string text) = some [] ↔
      ∃ id audit_event stored hash, action.get "audit_event" = some audit_event ∧
        audit_event.get "event_id" = some (.string id) ∧
        state.audit_events.get id = some stored ∧
        audit_event.get "payload_hash" = some (.string hash) ∧
        stored.get "payload_hash" = some (.string hash) ∧
        stored.get "action" = some (.string text) ∧
        (has_payload action = true → .string hash = expectedHash python action) := by
  unfold auditErrors
  constructor
  · intro h
    split at h
    · rename_i fields hfields
      have hget : action.get "audit_event" = some (.object fields) := by
        unfold getOrNone at hfields
        cases hv : action.get "audit_event" with
        | none => rw [hv] at hfields; cases hfields
        | some v => rw [hv] at hfields; exact congrArg some hfields
      dsimp only at h
      obtain ⟨stored, hlookup, herrors⟩ := Option.bind_eq_some_iff.mp h
      obtain ⟨errors, herrors, hnil⟩ := Option.map_eq_some_iff.mp herrors
      rcases stored with _ | stored
      · cases herrors
        cases (List.append_eq_nil_iff.mp hnil).2
      · obtain ⟨id, hid, hstored⟩ := lookup_eq_some_iff.mp hlookup
        rw [(List.append_eq_nil_iff.mp hnil).2] at herrors
        obtain ⟨hash, hrest⟩ := (storedAuditErrors_eq_nil_iff hstored).mp herrors
        exact ⟨id, _, stored, hash, hget, getOrNone_eq_string.mp hid, hstored, hrest⟩
    · cases h
  · rintro ⟨id, audit_event, stored, hash, hget, hid, hstored, hrest⟩
    have hne : id ≠ "" := id_ne_empty hstored rfl (by simp [audit_schema, closedObject]) rfl
    cases audit_event with
    | object fields =>
      have herrors : storedAuditErrors python action (.string text) (.object fields) (some stored) =
          some [] := (storedAuditErrors_eq_nil_iff hstored).mpr ⟨hash, hrest⟩
      have hhash : hash ≠ "" := by
        rintro rfl
        obtain ⟨v, hv, hdigest⟩ := required_field "payload_hash" rfl
          (by simp [audit_schema, closedObject]) rfl
          (of_decide_eq_true (Records.get_spec hstored).1)
        rw [hrest.2.1] at hv
        cases hv
        exact absurd hdigest (by decide)
      rw [getOrNone_of_get hget]
      dsimp only
      rw [getOrNone_of_get hid, lookup_eq_some_iff.mpr ⟨id, rfl, hstored⟩, Option.bind_some,
        herrors, Option.map_some, getOrNone_of_get hrest.1]
      simp [truthy, hne, hhash, errorUnless]
    | null | bool _ | number _ | string _ | array _ => cases hid

theorem sourceErrors_eq_nil_iff : sourceErrors action operation = [] ↔
    ¬FromNonAuthority action := by
  have hflag : ∀ v : Option Value, v.getD .null = .bool true ↔ v = some (.bool true) := by
    intro v
    cases v <;> simp
  unfold sourceErrors FromNonAuthority
  rw [List.flatMap_eq_nil_iff]
  simp only [not_exists, not_and]
  apply forall₂_congr
  intro source _
  rw [errorUnless_eq_nil, ← hflag, ← getOrNone_eq_string, Bool.not_eq_true', Bool.or_eq_false_iff,
    not_or]
  exact and_congr decide_eq_false_iff_not decide_eq_false_iff_not

end gates

/-! ## What the evaluator allows -/

section allows

variable {python : Python} {state : RuntimeState} {action : Value} {r : Request}

/-- The hash of the payload that the action brings. -/
def payloadHash (python : Python) (action : Value) : String :=
  approval_queue.canonical_hash python.sha256 (getOrNone action "payload")

/-- The records that a lookup finds authorize the action. -/
def Grants (python : Python) (find : Kind → String → Option Value) (action : Value) : Prop :=
  ∃ r, Names action r ∧ Authorized find (payloadHash python action) action r ∧
    SameAuditHash find action r ∧
    metadata_claims_authority python ((action.get "adapter_metadata").getD (.object [])) = false

theorem has_payload_iff : has_payload action = true ↔ Brings action := List.any_eq_true

theorem Agrees.carries {record : Value} {texts : List (String × String)}
    (haction : Carries action texts) (h : Agrees action record (texts.map Prod.fst)) :
    Carries record texts := by
  intro e he
  have hfield := h e.1 (List.mem_map_of_mem he)
  rw [getOrNone_of_get (haction e he)] at hfield
  exact getOrNone_eq_string.mp hfield.symm

theorem Agrees.of_carries {record : Value} {texts : List (String × String)}
    (haction : Carries action texts) (hrecord : Carries record texts) :
    Agrees action record (texts.map Prod.fst) := by
  intro field hfield
  obtain ⟨e, he, rfl⟩ := List.mem_map.mp hfield
  rw [getOrNone_of_get (haction e he), getOrNone_of_get (hrecord e he)]

/-- The texts of a request that the envelope takes over. -/
def enveloped (r : Request) : List (String × String) :=
  r.scope ++ r.ids ++ [("recovery_id", r.recovery_id)]

/-- The envelope of an action whose texts are all there is valid. -/
theorem envelope_of_names (hnames : Names action r) (htexts : ∀ e ∈ enveloped r, e.2 ≠ "")
    (hdigest : ∀ m, (python.sha256 m).length = 32) :
    ∃ envelope, build_action_envelope python action = .ok envelope := by
  simp only [enveloped, Request.scope, Request.ids, List.cons_append, List.nil_append,
    List.forall_mem_cons] at htexts
  obtain ⟨hruntime, hoperation, htarget, hcapability, hpermission, happroval, hrecovery, -⟩ :=
    htexts
  obtain ⟨recovery_action, hrecovery_action, hid⟩ := hnames.recovery_action
  have hindex {v : Value} {key : String} {value : Value} (h : v.get key = some value) :
      index v key = .ok value := by
    rw [index, h]
  have hscope := hnames.scope
  have hids := hnames.ids
  simp only [Request.scope, Request.ids, carries_cons, carries_nil_iff, and_true] at hscope hids hid
  cases recovery_action with
  | object fields =>
    unfold build_action_envelope
    rw [hindex hscope.1, hindex hscope.2.1, hindex hscope.2.2, hindex hids.1, hindex hids.2.1,
      hindex hids.2.2, hindex hrecovery_action]
    simp only [bind, Except.bind, hindex hid]
    generalize hhash : approval_queue.canonical_hash python.sha256 (getOrNone action "payload") =
      hash
    have hvalid : validate_instance python.str (.object [
        ("envelope_id", .string "action-envelope-evaluated"),
        ("runtime_id", .string r.runtime_id),
        ("operation", .string r.operation),
        ("capability_id", .string r.capability_id),
        ("permission_id", .string r.permission_id),
        ("approval_id", .string r.approval_id),
        ("recovery_id", .string r.recovery_id),
        ("target_scope", .string r.target_scope),
        ("payload_hash", .string hash),
        ("authority_source", .string "broker_internal"),
        ("audit_event_required", .bool true),
        ("metadata", .object [("evidence_class", .string "INTERNAL_STATE")])])
        action_envelope_schema "$" = some [] := by
      have hdigest := blue_tanuki_adapter.isDigest_canonical_hash hdigest
        (getOrNone action "payload")
      rw [hhash] at hdigest
      apply valid_closedObject
      · simp only [List.forall_mem_cons]
        exact ⟨rfl, rfl, rfl, rfl, rfl, rfl, rfl, rfl, rfl, rfl, rfl, List.forall_mem_nil _⟩
      · simp only [List.forall_mem_cons]
        exact ⟨⟨_, rfl, rfl⟩, ⟨_, rfl, valid_text hruntime⟩, ⟨_, rfl, valid_text hoperation⟩,
          ⟨_, rfl, valid_text hcapability⟩, ⟨_, rfl, valid_text hpermission⟩,
          ⟨_, rfl, valid_text happroval⟩, ⟨_, rfl, valid_text hrecovery⟩,
          ⟨_, rfl, valid_text htarget⟩, ⟨_, rfl, valid_digest hdigest⟩,
          ⟨_, rfl, rfl⟩, ⟨_, rfl, rfl⟩, ⟨_, rfl, rfl⟩, List.forall_mem_nil _⟩
    rw [hvalid]
    exact ⟨_, rfl⟩
  | null | bool _ | number _ | string _ | array _ => cases hid

/-- The texts that a valid state authorizes are not empty. -/
theorem enveloped_ne_empty {hash : String} (h : Authorized (inState state) hash action r) :
    ∀ e ∈ enveloped r, e.2 ≠ "" := by
  obtain ⟨runtime, hruntime, -⟩ := h.runtime
  obtain ⟨capability, hcapability, -⟩ := h.capability
  obtain ⟨permission, hpermission, hcarries⟩ := h.permission
  obtain ⟨approval, happroval, -⟩ := h.approval
  obtain ⟨recovery, hrecovery, -⟩ := h.recovery_action
  change state.runtimes.get _ = _ at hruntime
  change state.capabilities.get _ = _ at hcapability
  change state.permissions.get _ = _ at hpermission
  change state.approvals.get _ = _ at happroval
  change state.recovery_actions.get _ = _ at hrecovery
  simp only [Request.scope, carries_cons, carries_nil_iff, and_true] at hcarries
  obtain ⟨operation, hoperation, hop⟩ := text_of_get hpermission "operation" rfl
    (by simp [permission_schema, closedObject]) rfl
  obtain ⟨target, htarget, htext⟩ := text_of_get hpermission "target_scope" rfl
    (by simp [permission_schema, closedObject]) rfl
  rw [hcarries.2.2.2.1, Option.some.injEq, Value.string.injEq] at hoperation
  rw [hcarries.2.2.2.2, Option.some.injEq, Value.string.injEq] at htarget
  subst hoperation htarget
  simp only [enveloped, Request.scope, Request.ids, List.cons_append, List.nil_append,
    List.forall_mem_cons]
  exact ⟨id_ne_empty hruntime rfl (by simp [runtime_schema, closedObject]) rfl, hop, htext,
    id_ne_empty hcapability rfl (by simp [capability_schema, closedObject]) rfl,
    id_ne_empty hpermission rfl (by simp [permission_schema, closedObject]) rfl,
    id_ne_empty happroval rfl (by simp [approval_schema, closedObject]) rfl,
    id_ne_empty hrecovery rfl (by simp [recovery_schema, closedObject]) rfl,
    List.forall_mem_nil _⟩

theorem metadataErrors_eq_nil_iff {operation : Value} :
    metadataErrors python action operation = [] ↔
      metadata_claims_authority python ((action.get "adapter_metadata").getD (.object [])) =
        false := by
  rw [metadataErrors, errorUnless_eq_nil, Bool.not_eq_true']

/-- The gates are open only for what the records of the state authorize. -/
theorem grants_of_gates
    (h : gateErrors python state action (operationOf action) = some []) :
    Grants python (inState state) action := by
  obtain ⟨happroval, hruntime, hcapability, hpermission, haudit, hrecovery, hmetadata, hsource⟩ :=
    gateErrors_eq_nil_iff.mp h
  obtain ⟨runtime_id, runtime, hrid, hrget⟩ := runtimeErrors_eq_nil_iff.mp hruntime
  have hne : runtime_id ≠ "" :=
    id_ne_empty hrget rfl (by simp [runtime_schema, closedObject]) rfl
  obtain ⟨capability_id, capability, operations, hcid, hcget, hcown, hoperations, hlisted⟩ :=
    (capabilityErrors_eq_nil_iff hne hrid).mp hcapability
  obtain ⟨permission_id, permission, hpid, hpget, hdecision, hpown, hpagrees⟩ :=
    (permissionErrors_eq_nil_iff hcid).mp hpermission
  -- The permission has texts for the scope, so the action has them too.
  obtain ⟨operation, hpop, -⟩ := text_of_get hpget "operation" rfl
    (by simp [permission_schema, closedObject]) rfl
  obtain ⟨target_scope, hptarget, -⟩ := text_of_get hpget "target_scope" rfl
    (by simp [permission_schema, closedObject]) rfl
  have hop : action.get "operation" = some (.string operation) := by
    have := hpagrees "operation" (by simp)
    rw [getOrNone_of_get hpop] at this
    exact getOrNone_eq_string.mp this
  have htarget : action.get "target_scope" = some (.string target_scope) := by
    have := hpagrees "target_scope" (by simp)
    rw [getOrNone_of_get hptarget] at this
    exact getOrNone_eq_string.mp this
  have hoperation : operationOf action = .string operation := by
    rw [operationOf, hop]
    rfl
  rw [hoperation] at haudit hlisted
  obtain ⟨approval_id, approval, haid, haget, hstatus, haagrees, hapayload⟩ :=
    approvalErrors_eq_nil_iff.mp happroval
  obtain ⟨event_id, audit_event, stored, hash, hevent, heid, hstored, hehash, hshash, hsaction,
    hspayload⟩ := auditErrors_eq_nil_iff.mp haudit
  obtain ⟨recovery_id, recovery_action, recovery, hrecovery_action, hreid, hreget, hreagrees⟩ :=
    recoveryErrors_eq_nil_iff.mp hrecovery
  let r : Request := ⟨runtime_id, operation, target_scope, capability_id, permission_id,
    approval_id, event_id, recovery_id⟩
  have hscope : Carries action r.scope := by
    simp only [r, Request.scope, carries_cons, carries_nil_iff, and_true]
    exact ⟨hrid, hop, htarget⟩
  have hpart : Carries action [("runtime_id", runtime_id), ("operation", operation)] := by
    simp only [carries_cons, carries_nil_iff, and_true]
    exact ⟨hrid, hop⟩
  refine ⟨r, ⟨hscope, ?_, ⟨_, hevent, ?_⟩, ⟨_, hrecovery_action, ?_⟩⟩, ?_, ⟨hash, ⟨_, hevent, ?_⟩,
    ⟨_, hstored, ?_⟩⟩, metadataErrors_eq_nil_iff.mp hmetadata⟩
  · simp only [r, Request.ids, carries_cons, carries_nil_iff, and_true]
    exact ⟨hcid, hpid, haid⟩
  · simpa using heid
  · simpa using hreid
  · constructor
    · exact ⟨runtime, hrget, carries_nil _⟩
    · exact ⟨capability, hcget, by simpa using hcown⟩
    · exact ⟨capability, operations, hcget, hoperations, hlisted⟩
    · exact ⟨permission, hpget, carries_cons.mpr ⟨hdecision, carries_cons.mpr ⟨hpown,
        Agrees.carries hscope hpagrees⟩⟩⟩
    · exact ⟨approval, haget, carries_cons.mpr ⟨hstatus, Agrees.carries hscope haagrees⟩⟩
    · exact ⟨stored, hstored, by simpa using hsaction⟩
    · exact ⟨recovery, hreget, Agrees.carries hpart hreagrees⟩
    · intro hbrings
      exact ⟨approval, haget, carries_cons.mpr ⟨hapayload (has_payload_iff.mpr hbrings),
        carries_nil _⟩⟩
    · intro hbrings
      refine ⟨stored, hstored, carries_cons.mpr ⟨?_, carries_nil _⟩⟩
      rw [hshash, hspayload (has_payload_iff.mpr hbrings)]
      rfl
    · exact sourceErrors_eq_nil_iff.mp hsource
  · simpa using hehash
  · simpa using hshash

/-- The gates are open for what the records of the state authorize. -/
theorem gates_of_grants (h : Names action r)
    (hauthorized : Authorized (inState state) (payloadHash python action) action r)
    (hsame : SameAuditHash (inState state) action r)
    (hmetadata : metadata_claims_authority python
      ((action.get "adapter_metadata").getD (.object [])) = false) :
    gateErrors python state action (operationOf action) = some [] := by
  have hscope := h.scope
  have hids := h.ids
  simp only [Request.scope, Request.ids, carries_cons, carries_nil_iff, and_true] at hscope hids
  have hoperation : operationOf action = .string r.operation := by
    rw [operationOf, hscope.2.1]
    rfl
  obtain ⟨runtime, hrget, -⟩ := hauthorized.runtime
  change state.runtimes.get _ = _ at hrget
  have hne : r.runtime_id ≠ "" :=
    id_ne_empty hrget rfl (by simp [runtime_schema, closedObject]) rfl
  obtain ⟨capability, operations, hcget, hoperations, hlisted⟩ := hauthorized.capable
  obtain ⟨permission, hpget, hpcarries⟩ := hauthorized.permission
  obtain ⟨approval, haget, hacarries⟩ := hauthorized.approval
  obtain ⟨stored, hstored, hscarries⟩ := hauthorized.audit_event
  obtain ⟨recovery, hreget, hrecarries⟩ := hauthorized.recovery_action
  obtain ⟨hash, ⟨audit_event, hevent, hehash⟩, hsfound⟩ := hsame
  obtain ⟨recovery_action, hrecovery_action, hreid⟩ := h.recovery_action
  have heid := (carriesUnder_iff hevent).mp h.audit_event
  have hshash := (found_iff hstored).mp hsfound
  rw [carries_cons] at hpcarries hacarries
  rw [carries_cons] at hpcarries
  simp only [carries_cons, carries_nil_iff, and_true] at heid hreid hehash hshash hscarries
  rw [gateErrors_eq_nil_iff, hoperation]
  refine ⟨?_, ?_, ?_, ?_, ?_, ?_, metadataErrors_eq_nil_iff.mpr hmetadata,
    sourceErrors_eq_nil_iff.mpr hauthorized.not_from_non_authority⟩
  · refine approvalErrors_eq_nil_iff.mpr ⟨_, approval, hids.2.2, haget, hacarries.1,
      Agrees.of_carries h.scope hacarries.2, ?_⟩
    intro hhas
    have := (found_iff haget).mp (hauthorized.approved_payload (has_payload_iff.mp hhas))
    exact (carries_cons.mp this).1
  · exact runtimeErrors_eq_nil_iff.mpr ⟨_, runtime, hscope.1, hrget⟩
  · have hown := (found_iff hcget).mp hauthorized.capability
    exact (capabilityErrors_eq_nil_iff hne hscope.1).mpr ⟨_, capability, operations, hids.1, hcget,
      (carries_cons.mp hown).1, hoperations, hlisted⟩
  · exact (permissionErrors_eq_nil_iff hids.1).mpr ⟨_, permission, hids.2.1, hpget, hpcarries.1,
      hpcarries.2.1, Agrees.of_carries h.scope hpcarries.2.2⟩
  · refine auditErrors_eq_nil_iff.mpr ⟨_, audit_event, stored, hash, hevent, heid, hstored, hehash,
      hshash, hscarries, ?_⟩
    intro hhas
    have := (found_iff hstored).mp (hauthorized.audited_payload (has_payload_iff.mp hhas))
    have := (carries_cons.mp this).1
    rw [hshash] at this
    exact Option.some.inj this
  · refine recoveryErrors_eq_nil_iff.mpr ⟨_, recovery_action, recovery, hrecovery_action, hreid,
      hreget, ?_⟩
    have hpart : Carries action [("runtime_id", r.runtime_id), ("operation", r.operation)] := by
      simp only [carries_cons, carries_nil_iff, and_true]
      exact ⟨hscope.1, hscope.2.1⟩
    exact Agrees.of_carries hpart hrecarries

/-- The evaluator allows exactly what the records of its state authorize. -/
theorem decides_true_iff_grants (hdigest : ∀ m, (python.sha256 m).length = 32) :
    Decides python state action true ↔ Grants python (inState state) action := by
  rw [decides_true_iff]
  constructor
  · rintro ⟨hgates, -⟩
    exact grants_of_gates hgates
  · rintro ⟨r, hnames, hauthorized, hsame, hmetadata⟩
    exact ⟨gates_of_grants hnames hauthorized hsame hmetadata,
      envelope_of_names hnames (enveloped_ne_empty hauthorized) hdigest⟩

end allows
end policy_evaluator

/-! ## The router -/

namespace sensitive_action_router

open policy_evaluator

/-- The keys that an action must have, in their order. -/
def required : List String := ["approval_id", "audit_event", "capability_id", "operation",
  "permission_id", "recovery_action", "runtime_id", "target_scope"]

/-- What `route` raises: an error of its own, or what the evaluator raises. -/
inductive Raised where
  | value_error (message : String)
  | evaluator
  deriving DecidableEq

/-- The result of a router without an evaluator. -/
def unevaluated (action : Value) : Value := .object [
  ("allowed", .bool false),
  ("errors", .array [.object [
    ("code", .string "schema_contract_missing"),
    ("message",
      .string "製品用の機密 action router には evaluator と broker 所有 state が必要です"),
    ("operation", operationOf action),
    ("recoverable", .bool true),
    ("recovery_hint", .string "検証前に必要な schema 契約を読み込んでください。")]]),
  ("required_recovery", getOrNone action "recovery_action"),
  ("audit_required", .bool true)]

def route (python : Python) (evaluator : Option RuntimeState) (action : List (String × Value)) :
    Except Raised (List (String × Value)) :=
  let missing := required.filter fun key => (sorted_map.get key action).isNone
  if missing ≠ [] then
    .error (.value_error
      ("機密 action に必須の対応がありません: " ++ ", ".intercalate missing))
  else match evaluator with
    | none => .ok (dict.setItem "policy_result" (unevaluated (.object action))
        (dict.setItem "routed" (.bool false) action))
    | some state =>
      match evaluate python state (.object action) with
      | some policy_result => .ok (dict.setItem "routed" (getOrNone policy_result "allowed")
          (dict.setItem "policy_result" policy_result action))
      | none => .error .evaluator

variable {python : Python} {evaluator : Option RuntimeState} {action : List (String × Value)}

/-- The router returns the action as one to go on with. -/
def Routes (python : Python) (evaluator : Option RuntimeState)
    (action : List (String × Value)) : Prop :=
  ∃ routed, route python evaluator action = .ok routed ∧
    sorted_map.get "routed" routed = some (.bool true)

/-- The router changes nothing of the action but the two keys that it sets. -/
theorem route_frame {routed : List (String × Value)}
    (h : route python evaluator action = .ok routed)
    {key : String} (hrouted : key ≠ "routed") (hresult : key ≠ "policy_result") :
    sorted_map.get key routed = sorted_map.get key action := by
  have hset : ∀ a b : Value, sorted_map.get key (dict.setItem "policy_result" a
      (dict.setItem "routed" b action)) = sorted_map.get key action := by
    intro a b
    rw [dict.get_setItem, if_neg hresult.symm, dict.get_setItem, if_neg hrouted.symm]
  have hset' : ∀ a b : Value, sorted_map.get key (dict.setItem "routed" b
      (dict.setItem "policy_result" a action)) = sorted_map.get key action := by
    intro a b
    rw [dict.get_setItem, if_neg hrouted.symm, dict.get_setItem, if_neg hresult.symm]
  unfold route at h
  dsimp only at h
  split at h
  · cases h
  · split at h
    · cases h
      exact hset _ _
    · split at h
      · cases h
        exact hset' _ _
      · cases h

/-- An action that names what it needs has all the keys. -/
theorem nothing_missing {r : Request} (h : Names (.object action) r) :
    (required.filter fun key => (sorted_map.get key action).isNone) = [] := by
  obtain ⟨hscope, hids, ⟨audit_event, haudit, -⟩, ⟨recovery_action, hrecovery, -⟩⟩ := h
  simp only [Request.scope, Request.ids, carries_cons, carries_nil_iff, and_true, Value.get] at *
  rw [List.filter_eq_nil_iff]
  intro key hkey
  simp only [required, List.mem_cons, List.not_mem_nil, or_false] at hkey
  rcases hkey with rfl | rfl | rfl | rfl | rfl | rfl | rfl | rfl <;> simp [*]

theorem grants_of_routes (h : Routes python evaluator action) :
    ∃ state, evaluator = some state ∧ Grants python (inState state) (.object action) := by
  obtain ⟨routed, hroute, htrue⟩ := h
  unfold route at hroute
  dsimp only at hroute
  split at hroute
  · cases hroute
  · split at hroute
    · cases hroute
      rw [dict.get_setItem, if_neg (by decide), dict.get_setItem, if_pos rfl] at htrue
      cases htrue
    · rename_i state
      split at hroute
      · rename_i policy_result hevaluate
        cases hroute
        rw [dict.get_setItem, if_pos rfl, Option.some.injEq] at htrue
        refine ⟨state, rfl, grants_of_gates (decides_true_iff.mp ⟨policy_result, hevaluate, ?_⟩).1⟩
        unfold getOrNone at htrue
        cases hallowed : policy_result.get "allowed" with
        | none =>
          rw [hallowed] at htrue
          cases htrue
        | some allowed =>
          rw [hallowed] at htrue
          exact congrArg some htrue
      · cases hroute

theorem routes_of_grants {state : RuntimeState} (hdigest : ∀ m, (python.sha256 m).length = 32)
    (h : Grants python (inState state) (.object action)) : Routes python (some state) action := by
  obtain ⟨policy_result, hevaluate, hallowed⟩ := (decides_true_iff_grants hdigest).mpr h
  obtain ⟨r, hnames, -⟩ := h
  refine ⟨dict.setItem "routed" (.bool true) (dict.setItem "policy_result" policy_result action),
    ?_, by rw [dict.get_setItem, if_pos rfl]⟩
  unfold route
  dsimp only
  rw [if_neg (not_not.mpr (nothing_missing hnames)), hevaluate]
  dsimp only
  rw [getOrNone_of_get hallowed]

/-- A router lets through exactly the actions that the records of its state authorize, and none
when it has no state. The rest of the action it leaves as it is. -/
theorem routes_iff_authorized (hdigest : ∀ m, (python.sha256 m).length = 32) :
    (Routes python evaluator action ↔
      ∃ state, evaluator = some state ∧ Grants python (inState state) (.object action)) ∧
    ∀ routed, route python evaluator action = .ok routed → ∀ key, key ≠ "routed" →
      key ≠ "policy_result" → sorted_map.get key routed = sorted_map.get key action := by
  refine ⟨⟨grants_of_routes, ?_⟩, fun routed h key => route_frame h⟩
  rintro ⟨state, rfl, hgrants⟩
  exact routes_of_grants hdigest hgrants

/-! ### An action that is let through -/

section reading

open blue_tanuki_adapter

def approvedRecord : Value :=
  normalize_approval [("approval_id", .string "approval-1"), ("status", .string "approved")]

/-- A state in which the reading of the runtime has been approved. -/
def approvedState : RuntimeState :=
  let state := waitingState (by decide : "runtime.read" ≠ "") (by decide : "runtime_status" ≠ "")
  { state with approvals := .single "approval-1" approvedRecord (by decide +kernel) rfl }

def readStatus : List (String × Value) := [
  ("runtime_id", .string "blue_tanuki"),
  ("operation", .string "runtime.read"),
  ("target_scope", .string "runtime_status"),
  ("capability_id", .string "capability-1"),
  ("permission_id", .string "permission-1"),
  ("approval_id", .string "approval-1"),
  ("audit_event", auditEvent),
  ("recovery_action", .object [("recovery_id", .string "recovery-1")])]

def readRequest : Request where
  runtime_id := "blue_tanuki"
  operation := "runtime.read"
  target_scope := "runtime_status"
  capability_id := "capability-1"
  permission_id := "permission-1"
  approval_id := "approval-1"
  event_id := "audit-1"
  recovery_id := "recovery-1"

/-- The reading is authorized wherever these records are found. -/
theorem grants_readStatus {find : Kind → String → Option Value}
    (hruntime : find .runtime "blue_tanuki" = some blue_tanuki_adapter.runtimeRecord)
    (hcapability : find .capability "capability-1" = some (capabilityRecord "runtime.read"))
    (hpermission : find .permission "permission-1" =
      some (permissionRecord "runtime.read" "runtime_status"))
    (happroval : find .approval "approval-1" = some approvedRecord)
    (haudit : find .audit_event "audit-1" = some (auditRecord "runtime.read"))
    (hrecovery : find .recovery_action "recovery-1" = some (recoveryRecord "runtime.read")) :
    Grants plainPython find (.object readStatus) := by
  have hbrings : ¬Brings (.object readStatus) := by
    rw [← has_payload_iff]
    decide
  have hsource : ¬FromNonAuthority (.object readStatus) := by
    rw [← @sourceErrors_eq_nil_iff _ .null]
    decide
  refine ⟨readRequest, ⟨by decide, by decide, ⟨_, rfl, by decide⟩, ⟨_, rfl, by decide⟩⟩, ?_,
    ⟨_, ⟨_, rfl, carries_cons.mpr ⟨rfl, carries_nil _⟩⟩,
      ⟨_, haudit, carries_cons.mpr ⟨rfl, carries_nil _⟩⟩⟩, by decide +kernel⟩
  constructor
  · exact ⟨_, hruntime, by decide⟩
  · exact ⟨_, hcapability, by decide⟩
  · exact ⟨_, _, hcapability, rfl, by decide⟩
  · exact ⟨_, hpermission, by decide⟩
  · exact ⟨_, happroval, by decide⟩
  · exact ⟨_, haudit, by decide⟩
  · exact ⟨_, hrecovery, by decide⟩
  · exact fun h => absurd h hbrings
  · exact fun h => absurd h hbrings
  · exact hsource

theorem routes_iff_authorized_reading : Routes plainPython (some approvedState) readStatus := by
  apply (routes_iff_authorized fips.digest_length).1.mpr
  exact ⟨approvedState, rfl, grants_readStatus rfl rfl rfl rfl rfl rfl⟩

end reading

end sensitive_action_router

end shell_core
