-- The authority gates of the broker (authority.rs) and those of the Python shell
-- (policy_evaluator.py) on the same state and action, as the parity run puts it to both
-- (run_authority_parity.py).
import GuiShell.Broker.AuthorityCoherence
import GuiShell.MetadataParity
import GuiShell.PortableValues
import GuiShell.ShellCore.SensitiveActionRouter

open json serde_json authorization canonical_parity metadata_parity shell_core.state_snapshot

namespace policy_parity

/-! ## What is put to the broker -/

section exported

open shell_core

/-- The records that the parity run exports. -/
def state_json (state : RuntimeState) : Value := .object [
  ("runtimes", .array state.runtimes.values),
  ("capabilities", .array state.capabilities.values),
  ("permissions", .array state.permissions.values),
  ("approvals", .array state.approvals.values),
  ("audit_events", .array state.audit_events.values),
  ("recovery_actions", .array state.recovery_actions.values)]

/-- The payload of the parity run for `authority_fixture_evaluate`. -/
def fixturePayload (state : RuntimeState) (action : Value) : Value :=
  .object [("state", state_json state), ("action", action)]

/-- The collections of the export, with the kinds of their records. -/
def collections : List (String × Kind) := [("runtimes", .runtime), ("capabilities", .capability),
  ("permissions", .permission), ("approvals", .approval), ("audit_events", .audit_event),
  ("recovery_actions", .recovery_action)]

theorem get_state_json (state : RuntimeState) {e : String × Kind} (he : e ∈ collections) :
    (state_json state).get e.1 = some (.array ((entries state e.2).map Prod.snd)) := by
  simp only [collections, List.mem_cons, List.not_mem_nil, or_false] at he
  rcases he with rfl | rfl | rfl | rfl | rfl | rfl <;> rfl

end exported

/-! ## Lookups in what the broker reads -/

section lookups

variable {f64 : List Char → Option FloatText} {v w : Value}

theorem strField_eq_some_iff {field s : String} :
    authority.strField v field = some s ↔ v.get field = some (.string s) := by
  unfold authority.strField
  rcases v.get field with _ | x
  · simp
  · cases x <;> simp [Value.as_str]

theorem strField_read (hd : v.Distinct) (h : valueOf f64 v = some w) {field s : String} :
    authority.strField w field = some s ↔ v.get field = some (.string s) := by
  rw [strField_eq_some_iff, get_eq_leaf_iff (x := .string s) hd h trivial]

/-- The first record with an id is the one that stands under the id. -/
theorem find_of_read {id_field : String} {entries : List (String × Value)} {items : List Value}
    (hread : List.Forall₂ (fun v w => valueOf f64 v = some w) (entries.map Prod.snd) items)
    (hown : ∀ e ∈ entries, e.2.get id_field = some (.string e.1))
    (hd : ∀ e ∈ entries, e.2.Distinct) (id : String) :
    (items.find? fun record => authority.strField record id_field = some id).map some =
      (sorted_map.get id entries).map (valueOf f64) := by
  induction entries generalizing items with
  | nil =>
    cases hread
    rfl
  | cons e entries ih =>
    rw [List.map_cons, List.forall₂_cons_left_iff] at hread
    obtain ⟨w, items, hw, hread, rfl⟩ := hread
    have hid := hown e List.mem_cons_self
    have hfield : authority.strField w id_field = some e.1 :=
      (strField_read (hd e List.mem_cons_self) hw).mpr hid
    rw [sorted_map.get_cons, List.find?_cons, hfield]
    by_cases hsame : e.1 = id
    · simp [hsame, hw]
    · simp only [Option.some.injEq, hsame, decide_false, if_false]
      exact ih hread (fun e he => hown e (List.mem_cons_of_mem _ he))
        fun e he => hd e (List.mem_cons_of_mem _ he)

end lookups

/-- The broker has read a state and an action. -/
structure Read (f64 : List Char → Option FloatText) (state : shell_core.RuntimeState)
    (action received_state received : Value) : Prop where
  reads_state : valueOf f64 (state_json state) = some received_state
  reads_action : valueOf f64 action = some received
  distinct_state : (state_json state).Distinct
  distinct_action : action.Distinct

section read

variable {f64 : List Char → Option FloatText} {state : shell_core.RuntimeState}
  {action S A : Value}

theorem read_of_payload {w : Value} (hd : (fixturePayload state action).Distinct)
    (h : valueOf f64 (fixturePayload state action) = some w) :
    ∃ S A, w.get "state" = some S ∧ w.get "action" = some A ∧ Read f64 state action S A := by
  have hstate : (fixturePayload state action).get "state" = some (state_json state) := rfl
  have haction : (fixturePayload state action).get "action" = some action := rfl
  obtain ⟨S, hS, hreadS⟩ := get_some_of_valueOf hd h hstate
  obtain ⟨A, hA, hreadA⟩ := get_some_of_valueOf hd h haction
  exact ⟨S, A, hS, hA, hreadS, hreadA, distinct_get hd hstate, distinct_get hd haction⟩

namespace Read

variable (h : Read f64 state action S A)

include h

theorem string {field s : String} :
    authority.strField A field = some s ↔ action.get field = some (.string s) :=
  strField_read h.distinct_action h.reads_action

/-- A text in a part of the action. -/
theorem under {key field s : String} :
    (A.get key).bind (authority.strField · field) = some s ↔
      CarriesUnder key action [(field, s)] := by
  rw [Option.bind_eq_some_iff]
  constructor
  · rintro ⟨w, hw, hs⟩
    have hget := get_of_valueOf h.distinct_action h.reads_action key
    rw [hw, Option.map_some] at hget
    obtain ⟨v, hv, hread⟩ := Option.map_eq_some_iff.mp hget.symm
    refine ⟨v, hv, carries_cons.mpr ⟨?_, carries_nil v⟩⟩
    exact (strField_read (distinct_get h.distinct_action hv) hread).mp hs
  · rintro ⟨v, hv, hcarries⟩
    obtain ⟨w, hw, hread⟩ := get_some_of_valueOf h.distinct_action h.reads_action hv
    refine ⟨w, hw, (strField_read (distinct_get h.distinct_action hv) hread).mpr ?_⟩
    exact (carries_cons.mp hcarries).1

theorem has_payload : authority.action_has_payload A = true ↔ Brings action := by
  unfold authority.action_has_payload Brings
  rw [List.any_eq_true]
  simp only [isSome_get h.distinct_action h.reads_action]

theorem distinct_record {e : String × Kind} (he : e ∈ collections) {entry : String × Value}
    (hentry : entry ∈ entries state e.2) : entry.2.Distinct := by
  have hitems := distinct_get h.distinct_state (get_state_json state he)
  exact Value.distinct_array.mp hitems _ (List.mem_map.mpr ⟨_, hentry, rfl⟩)

theorem find_record {e : String × Kind} (he : e ∈ collections) (id : String) :
    (authority.find_record S e.1 e.2.id_field id).map some =
      (inState state e.2 id).map (valueOf f64) := by
  obtain ⟨items, hitems, hread⟩ := get_some_of_valueOf h.distinct_state h.reads_state
    (get_state_json state he)
  obtain ⟨items, rfl, hforall⟩ := array_of_valueOf hread
  have hrecords : authority.recordsOf S e.1 = items := by
    rw [authority.recordsOf, hitems]
    rfl
  rw [authority.find_record, hrecords]
  exact find_of_read hforall (fun entry => own_id state e.2)
    (fun entry => h.distinct_record he) id

/-- A record that the broker finds is one that it read of the state. -/
theorem find_eq_some {e : String × Kind} (he : e ∈ collections) {id : String} {record : Value}
    (hfind : authority.find_record S e.1 e.2.id_field id = some record) :
    ∃ stored, inState state e.2 id = some stored ∧ stored.Distinct ∧
      valueOf f64 stored = some record := by
  have hsame := h.find_record he id
  rw [hfind, Option.map_some] at hsame
  obtain ⟨stored, hstored, hread⟩ := Option.map_eq_some_iff.mp hsame.symm
  exact ⟨stored, hstored, h.distinct_record he (sorted_map.mem_of_get hstored), hread⟩

theorem find_of_inState {e : String × Kind} (he : e ∈ collections) {id : String} {stored : Value}
    (hstored : inState state e.2 id = some stored) :
    ∃ record, authority.find_record S e.1 e.2.id_field id = some record ∧ stored.Distinct ∧
      valueOf f64 stored = some record := by
  have hsame := h.find_record he id
  rw [hstored, Option.map_some, Option.map_eq_some_iff] at hsame
  obtain ⟨record, hrecord, hread⟩ := hsame
  exact ⟨record, hrecord, h.distinct_record he (sorted_map.mem_of_get hstored), hread.symm⟩

end Read

end read

/-! ## The gates -/

section gates

open shell_core shell_core.policy_evaluator

/-- The required texts of a record that a state holds. -/
theorem texts_of_get {schema : schema_validation.Contract} {id_field id : String}
    {records : Records schema id_field} {record : Value} {fields : List String}
    (hget : records.get id = some record) (htype : schema.type = .one "object")
    (hfields : ∀ field ∈ fields, field ∈ schema.required ∧ schema.fieldSchema field = some text) :
    ∀ field ∈ fields, ∃ s, record.get field = some (.string s) := by
  intro field hfield
  obtain ⟨hrequired, hproperty⟩ := hfields field hfield
  obtain ⟨s, hs, -⟩ := text_of_get hget field htype hrequired hproperty
  exact ⟨s, hs⟩

variable {crates : Crates} {python : Python} {state : RuntimeState} {action S A : Value}
  {operation : String} (h : Read crates.f64 state action S A)

include h

theorem runtimeErrors_iff : authority.runtimeErrors S A operation = [] ↔
    ∃ id runtime, action.get "runtime_id" = some (.string id) ∧
      state.runtimes.get id = some runtime := by
  have hkind : ("runtimes", Kind.runtime) ∈ collections := by simp [collections]
  unfold authority.runtimeErrors authority.contains_id
  constructor
  · intro herrors
    split at herrors
    · rename_i id hid
      rw [authority.errorUnless_eq_nil] at herrors
      obtain ⟨record, hrecord⟩ := Option.isSome_iff_exists.mp herrors
      obtain ⟨runtime, hruntime, -⟩ := h.find_eq_some hkind hrecord
      exact ⟨id, runtime, h.string.mp hid, hruntime⟩
    · cases herrors
  · rintro ⟨id, runtime, hid, hruntime⟩
    obtain ⟨record, hrecord, -⟩ := h.find_of_inState hkind hruntime
    dsimp only at hrecord
    rw [h.string.mpr hid]
    dsimp only
    rw [authority.errorUnless_eq_nil]
    exact Option.isSome_iff_exists.mpr ⟨record, hrecord⟩

/-- Fields that are texts in the record agree in Rust exactly when they agree in Python. -/
theorem relationErrors_iff {stored record : Value} (hd : stored.Distinct)
    (hread : valueOf crates.f64 stored = some record) {fields : List String}
    {message : String → String}
    (htexts : ∀ field ∈ fields, ∃ s, stored.get field = some (.string s)) :
    authority.relationErrors A operation fields message record = [] ↔
      Agrees action stored fields := by
  unfold authority.relationErrors Agrees
  rw [List.flatMap_eq_nil_iff]
  apply forall₂_congr
  intro field hfield
  obtain ⟨s, hs⟩ := htexts field hfield
  rw [authority.errorUnless_eq_nil, decide_eq_true_iff, (strField_read hd hread).mpr hs, h.string,
    getOrNone_of_get hs, getOrNone_eq_string]

omit h in
/-- The operations of a capability, in Rust and in Python. -/
theorem capabilityAuthorizes_iff {capability record : Value} {operations : List Value}
    (hd : capability.Distinct) (hread : valueOf crates.f64 capability = some record)
    (hoperations : capability.get "operations" = some (.array operations)) :
    authority.capabilityAuthorizes operation record = true ↔ .string operation ∈ operations := by
  obtain ⟨items, hitems, hvalue⟩ := get_some_of_valueOf hd hread hoperations
  obtain ⟨items, rfl, hforall⟩ := array_of_valueOf hvalue
  rw [authority.capabilityAuthorizes, hitems, Option.bind_some]
  simp only [Value.as_array, List.any_eq_true, decide_eq_true_iff]
  clear hitems hvalue hoperations
  induction hforall with
  | nil => simp
  | @cons v w operations items hvw _ ih =>
    have hhead : w.as_str = some operation ↔ .string operation = v := by
      have hleaf := @valueOf_eq_leaf_iff crates.f64 v (.string operation) trivial
      rw [hvw, Option.some.injEq] at hleaf
      rw [@eq_comm _ (Value.string operation), ← hleaf]
      cases w <;> simp [Value.as_str]
    simp only [List.mem_cons, exists_eq_or_imp, ih, hhead]

/-- The gate for the capability, once the runtime has passed. -/
theorem capabilityErrors_iff {runtime_id : String}
    (hruntime : action.get "runtime_id" = some (.string runtime_id)) :
    authority.capabilityErrors S A operation = [] ↔
      ∃ id capability operations, action.get "capability_id" = some (.string id) ∧
        state.capabilities.get id = some capability ∧
        capability.get "runtime_id" = some (.string runtime_id) ∧
        capability.get "operations" = some (.array operations) ∧
        .string operation ∈ operations := by
  have hkind : ("capabilities", Kind.capability) ∈ collections := by simp [collections]
  unfold authority.capabilityErrors
  rw [h.string.mpr hruntime]
  simp only [Option.isNone_some, Bool.false_or]
  constructor
  · intro herrors
    split at herrors
    · rename_i id hid
      split at herrors
      · rename_i record hfind
        obtain ⟨capability, hget, hd, hread⟩ := h.find_eq_some hkind hfind
        obtain ⟨operations, hoperations, hvalid⟩ := required_field "operations" rfl
          (by simp [capability_schema, closedObject]) rfl
          (of_decide_eq_true (Records.get_spec hget).1)
        obtain ⟨operations, rfl⟩ := array_of_valid rfl hvalid
        rw [List.append_eq_nil_iff, authority.errorUnless_eq_nil, authority.errorUnless_eq_nil,
          decide_eq_true_iff, strField_read hd hread,
          capabilityAuthorizes_iff hd hread hoperations] at herrors
        exact ⟨id, capability, operations, h.string.mp hid, hget, herrors.1, hoperations, herrors.2⟩
      · cases herrors
    · cases herrors
  · rintro ⟨id, capability, operations, hid, hget, hown, hoperations, hlisted⟩
    obtain ⟨record, hfind, hd, hread⟩ := h.find_of_inState hkind hget
    dsimp only [Kind.id_field] at hfind
    rw [h.string.mpr hid]
    dsimp only
    rw [hfind]
    dsimp only
    rw [List.append_eq_nil_iff, authority.errorUnless_eq_nil, authority.errorUnless_eq_nil,
      decide_eq_true_iff, strField_read hd hread, capabilityAuthorizes_iff hd hread hoperations]
    exact ⟨hown, hlisted⟩

theorem permissionErrors_iff {capability_id : String}
    (hcapability : action.get "capability_id" = some (.string capability_id)) :
    authority.permissionErrors S A operation = [] ↔
      ∃ id permission, action.get "permission_id" = some (.string id) ∧
        state.permissions.get id = some permission ∧
        permission.get "decision" = some (.string "allow") ∧
        permission.get "capability_id" = some (.string capability_id) ∧
        Agrees action permission ["runtime_id", "operation", "target_scope"] := by
  have hkind : ("permissions", Kind.permission) ∈ collections := by simp [collections]
  have htexts {id : String} {permission : Value}
      (hget : state.permissions.get id = some permission) :
      ∀ field ∈ ["runtime_id", "operation", "target_scope"],
        ∃ s, permission.get field = some (.string s) := by
    apply texts_of_get hget rfl
    simp only [List.forall_mem_cons]
    exact ⟨⟨by simp [permission_schema, closedObject], rfl⟩,
      ⟨by simp [permission_schema, closedObject], rfl⟩,
      ⟨by simp [permission_schema, closedObject], rfl⟩, List.forall_mem_nil _⟩
  unfold authority.permissionErrors
  rw [h.string.mpr hcapability]
  constructor
  · intro herrors
    split at herrors
    · cases herrors
    · rename_i record hrecord
      obtain ⟨id, hid, hfind⟩ := Option.bind_eq_some_iff.mp hrecord
      obtain ⟨permission, hget, hd, hread⟩ := h.find_eq_some hkind hfind
      simp only [List.append_eq_nil_iff, authority.errorUnless_eq_nil, decide_eq_true_iff,
        relationErrors_iff h hd hread (htexts hget)] at herrors
      obtain ⟨⟨hdecision, hown⟩, hagrees⟩ := herrors
      refine ⟨id, permission, h.string.mp hid, hget, ?_, (strField_read hd hread).mp hown, hagrees⟩
      -- The contract has no decision `approved`.
      obtain ⟨v, hv, hvalid⟩ := required_field "decision" rfl
        (by simp [permission_schema, closedObject]) rfl
        (of_decide_eq_true (Records.get_spec hget).1)
      obtain ⟨decision, hmem, rfl⟩ := mem_of_valid_oneOf hvalid
      rw [(strField_read hd hread).mpr hv, Option.getD_some] at hdecision
      simp only [List.mem_cons, List.not_mem_nil, or_false] at hmem hdecision
      rcases hdecision with rfl | rfl
      · exact hv
      · simp at hmem
  · rintro ⟨id, permission, hid, hget, hdecision, hown, hagrees⟩
    obtain ⟨record, hfind, hd, hread⟩ := h.find_of_inState hkind hget
    dsimp only [Kind.id_field] at hfind
    rw [h.string.mpr hid, Option.bind_some, hfind]
    simp only [List.append_eq_nil_iff, authority.errorUnless_eq_nil, decide_eq_true_iff,
      relationErrors_iff h hd hread (htexts hget), (strField_read hd hread).mpr hown,
      (strField_read hd hread).mpr hdecision]
    exact ⟨⟨by simp, trivial⟩, hagrees⟩

theorem approvalErrors_iff : authority.approvalErrors crates S A operation = [] ↔
    ∃ id approval, action.get "approval_id" = some (.string id) ∧
      state.approvals.get id = some approval ∧
      approval.get "status" = some (.string "approved") ∧
      Agrees action approval ["runtime_id", "operation", "target_scope"] ∧
      (Brings action → approval.get "payload_hash" =
        some (.string (authority.expectedHash crates A))) := by
  have hkind : ("approvals", Kind.approval) ∈ collections := by simp [collections]
  have htexts {id : String} {approval : Value} (hget : state.approvals.get id = some approval) :
      ∀ field ∈ ["runtime_id", "operation", "target_scope"],
        ∃ s, approval.get field = some (.string s) := by
    apply texts_of_get hget rfl
    simp only [List.forall_mem_cons]
    exact ⟨⟨by simp [approval_schema, closedObject], rfl⟩,
      ⟨by simp [approval_schema, closedObject], rfl⟩,
      ⟨by simp [approval_schema, closedObject], rfl⟩, List.forall_mem_nil _⟩
  have hhash {approval record : Value} (hd : approval.Distinct)
      (hread : valueOf crates.f64 approval = some record) :
      (!authority.action_has_payload A || authority.strField record "payload_hash" =
        some (authority.expectedHash crates A)) = true ↔ (Brings action →
          approval.get "payload_hash" = some (.string (authority.expectedHash crates A))) := by
    rw [← h.has_payload, ← strField_read hd hread]
    cases authority.action_has_payload A <;> simp
  unfold authority.approvalErrors
  constructor
  · intro herrors
    split at herrors
    · cases herrors
    · rename_i id hid
      split at herrors
      · cases herrors
      · rename_i record hfind
        obtain ⟨approval, hget, hd, hread⟩ := h.find_eq_some hkind hfind
        split at herrors
        · cases herrors
        · rename_i hstatus
          rw [List.append_eq_nil_iff, relationErrors_iff h hd hread (htexts hget),
            authority.errorUnless_eq_nil, hhash hd hread] at herrors
          exact ⟨id, approval, h.string.mp hid, hget,
            (strField_read hd hread).mp (not_not.mp hstatus), herrors⟩
  · rintro ⟨id, approval, hid, hget, hstatus, hagrees, hpayload⟩
    obtain ⟨record, hfind, hd, hread⟩ := h.find_of_inState hkind hget
    dsimp only [Kind.id_field] at hfind
    rw [h.string.mpr hid]
    dsimp only
    rw [hfind]
    dsimp only
    rw [if_neg (not_not.mpr ((strField_read hd hread).mpr hstatus)), List.append_eq_nil_iff,
      relationErrors_iff h hd hread (htexts hget), authority.errorUnless_eq_nil, hhash hd hread]
    exact ⟨hagrees, hpayload⟩

omit h in
theorem expectedHash_ne_empty : authority.expectedHash crates A ≠ "" := by
  intro hempty
  have hlist := congrArg String.toList hempty
  simp [authority.expectedHash, authority.canonical_hash, audit_hash.sha256_tagged] at hlist

theorem auditErrors_of_found {fields : List (String × Value)} {id : String} {stored : Value}
    (hevent : A.get "audit_event" = some (.object fields))
    (hid : authority.strField (.object fields) "event_id" = some id)
    (hget : state.audit_events.get id = some stored) :
    authority.auditErrors crates S A operation = [] ↔
      stored.get "action" = some (.string operation) ∧ (Brings action →
        authority.strField (.object fields) "payload_hash" =
          some (authority.expectedHash crates A) ∧
        stored.get "payload_hash" = some (.string (authority.expectedHash crates A))) := by
  have hkind : ("audit_events", Kind.audit_event) ∈ collections := by simp [collections]
  obtain ⟨record, hfind, hd, hread⟩ := h.find_of_inState hkind hget
  dsimp only [Kind.id_field] at hfind
  have hne : id ≠ "" := id_ne_empty hget rfl (by simp [audit_schema, closedObject]) rfl
  obtain ⟨named, hnamed, -⟩ := text_of_get hget "action" rfl
    (by simp [audit_schema, closedObject]) rfl
  unfold authority.auditErrors
  rw [hevent]
  dsimp only
  rw [hid, Option.bind_some, hfind, ← strField_read hd hread, ← strField_read hd hread,
    (strField_read hd hread).mpr hnamed]
  simp only [List.append_eq_nil_iff, authority.errorUnless_eq_nil, authority.nonEmpty,
    Option.any_some, hne, ne_eq, not_false_eq_true, decide_true, Option.isSome_some,
    Option.bind_some, decide_eq_true_iff, Bool.or_eq_true, Bool.not_eq_true',
    Bool.and_eq_true, true_and, and_true, ← h.has_payload, Option.some.injEq]
  rw [(strField_read hd hread).mpr hnamed, Option.all_some, decide_eq_true_iff, and_comm]
  apply and_congr_right
  intro _
  by_cases hpayload : authority.action_has_payload A = true
  · simp only [hpayload, Bool.true_eq_false, false_or, true_imp_iff]
    constructor
    · rintro ⟨-, hhashes⟩
      exact hhashes
    · rintro ⟨hevent_hash, hstored_hash⟩
      rw [hevent_hash, Option.any_some, decide_eq_true_iff]
      exact ⟨expectedHash_ne_empty, rfl, hstored_hash⟩
  · simp [hpayload]

/-- The broker looks at the hashes of the audit event only for an action with a payload. -/
theorem auditErrors_iff : authority.auditErrors crates S A operation = [] ↔
    ∃ id stored, CarriesUnder "audit_event" action [("event_id", id)] ∧
      state.audit_events.get id = some stored ∧
      stored.get "action" = some (.string operation) ∧
      (Brings action →
        CarriesUnder "audit_event" action [("payload_hash", authority.expectedHash crates A)] ∧
        stored.get "payload_hash" = some (.string (authority.expectedHash crates A))) := by
  have hunder {fields : List (String × Value)} {field s : String}
      (hevent : A.get "audit_event" = some (.object fields)) :
      authority.strField (.object fields) field = some s ↔
        CarriesUnder "audit_event" action [(field, s)] := by
    rw [← h.under, hevent]
    rfl
  constructor
  · intro herrors
    have hevent : ∃ fields, A.get "audit_event" = some (.object fields) := by
      unfold authority.auditErrors at herrors
      split at herrors
      · exact ⟨_, ‹_›⟩
      · cases herrors
    obtain ⟨fields, hevent⟩ := hevent
    have hstored : ∃ id stored, authority.strField (.object fields) "event_id" = some id ∧
        state.audit_events.get id = some stored := by
      have hkind : ("audit_events", Kind.audit_event) ∈ collections := by simp [collections]
      unfold authority.auditErrors at herrors
      rw [hevent] at herrors
      simp only [List.append_eq_nil_iff, authority.errorUnless_eq_nil] at herrors
      obtain ⟨record, hrecord⟩ := Option.isSome_iff_exists.mp herrors.1.1.2
      obtain ⟨id, hid, hfind⟩ := Option.bind_eq_some_iff.mp hrecord
      obtain ⟨stored, hget, -⟩ := h.find_eq_some hkind hfind
      exact ⟨id, stored, hid, hget⟩
    obtain ⟨id, stored, hid, hget⟩ := hstored
    rw [auditErrors_of_found h hevent hid hget, hunder hevent] at herrors
    exact ⟨id, stored, (hunder hevent).mp hid, hget, herrors⟩
  · rintro ⟨id, stored, hid, hget, hrest⟩
    obtain ⟨w, hw, hs⟩ := Option.bind_eq_some_iff.mp (h.under.mpr hid)
    cases w with
    | object fields =>
      rw [auditErrors_of_found h hw hs hget, hunder hw]
      exact hrest
    | null | bool _ | number _ | string _ | array _ => cases hs

theorem recoveryErrors_iff : authority.recoveryErrors S A operation = [] ↔
    ∃ id recovery_action recovery, action.get "recovery_action" = some recovery_action ∧
      recovery_action.get "recovery_id" = some (.string id) ∧
      state.recovery_actions.get id = some recovery ∧
      Agrees action recovery ["runtime_id", "operation"] := by
  have hkind : ("recovery_actions", Kind.recovery_action) ∈ collections := by simp [collections]
  have htexts {id : String} {recovery : Value}
      (hget : state.recovery_actions.get id = some recovery) :
      ∀ field ∈ ["runtime_id", "operation"], ∃ s, recovery.get field = some (.string s) := by
    apply texts_of_get hget rfl
    simp only [List.forall_mem_cons]
    exact ⟨⟨by simp [recovery_schema, closedObject], rfl⟩,
      ⟨by simp [recovery_schema, closedObject], rfl⟩, List.forall_mem_nil _⟩
  have hnamed (id : String) : authority.recoveryId A = some id ↔
      CarriesUnder "recovery_action" action [("recovery_id", id)] := h.under
  unfold authority.recoveryErrors
  constructor
  · intro herrors
    split at herrors
    · rename_i id hid
      split at herrors
      · rename_i record hfind
        obtain ⟨recovery, hget, hd, hread⟩ := h.find_eq_some hkind hfind
        obtain ⟨recovery_action, haction, hcarries⟩ := (hnamed id).mp hid
        rw [relationErrors_iff h hd hread (htexts hget)] at herrors
        exact ⟨id, recovery_action, recovery, haction, (carries_cons.mp hcarries).1, hget, herrors⟩
      · cases herrors
    · cases herrors
  · rintro ⟨id, recovery_action, recovery, haction, hid, hget, hagrees⟩
    obtain ⟨record, hfind, hd, hread⟩ := h.find_of_inState hkind hget
    dsimp only [Kind.id_field] at hfind
    rw [(hnamed id).mpr ⟨recovery_action, haction, carries_cons.mpr ⟨hid, carries_nil _⟩⟩]
    dsimp only
    rw [hfind]
    dsimp only
    rw [relationErrors_iff h hd hread (htexts hget)]
    exact hagrees

theorem sourceErrors_iff : authority.sourceErrors A operation = [] ↔ ¬FromNonAuthority action := by
  have hflag (field : String) : (A.get field).bind Value.as_bool = some true ↔
      action.get field = some (.bool true) := by
    rw [← get_eq_leaf_iff (x := .bool true) h.distinct_action h.reads_action trivial]
    rcases A.get field with _ | v
    · simp
    · cases v <;> simp [Value.as_bool]
  unfold authority.sourceErrors FromNonAuthority
  rw [List.flatMap_eq_nil_iff]
  simp only [not_exists, not_and]
  apply forall₂_congr
  intro source _
  rw [authority.errorUnless_eq_nil, ← hflag, ← h.string, Bool.not_eq_true', Bool.or_eq_false_iff,
    not_or]
  unfold authority.flagged authority.sourceFlag
  exact and_congr decide_eq_false_iff_not decide_eq_false_iff_not

end gates

/-! ## The hashes of the payload -/

/-- What the action brings as its payload. -/
def payloadOf (action : Value) : Value := (action.get "payload").getD .null

theorem expectedHash_eq {crates : Crates} {python : shell_core.Python}
    {state : shell_core.RuntimeState} {action S A : Value} (h : Read crates.f64 state action S A)
    (hsha : crates.sha256 = python.sha256) (hportable : PortableValue (payloadOf action)) :
    authority.expectedHash crates A = shell_core.policy_evaluator.payloadHash python action := by
  have hread : (A.get "payload").getD .null = (payloadOf action).sortKeys := by
    have hget := get_of_valueOf h.distinct_action h.reads_action "payload"
    unfold payloadOf at hportable ⊢
    cases hpayload : action.get "payload" with
    | none =>
      rw [hpayload, Option.map_none, Option.map_eq_none_iff] at hget
      rw [hget]
      rfl
    | some v =>
      rw [hpayload, Option.getD_some] at hportable
      rw [hpayload, Option.map_some, hportable.valueOf_eq, Option.map_eq_some_iff] at hget
      obtain ⟨w, hw, heq⟩ := hget
      rw [hw]
      exact Option.some.inj heq
  rw [authority.expectedHash, hread, hportable.canonical_hash_eq, hsha]
  rfl

/-! ## The two evaluations -/

section evaluations

open shell_core shell_core.policy_evaluator

variable {crates : Crates} {python : Python} {state : RuntimeState} {action S A received : Value}

/-- The audit event of the action names a stored event, and the hash that it holds. -/
def NamesAuditHash (state : RuntimeState) (action : Value) : Prop :=
  ∃ id hash, CarriesUnder "audit_event" action [("event_id", id)] ∧
    CarriesUnder "audit_event" action [("payload_hash", hash)] ∧
    Found (inState state) .audit_event id [("payload_hash", hash)]

/-- The adapter metadata that came with the action. -/
def adapterMetadata (action : Value) : Value := (action.get "adapter_metadata").getD (.object [])

/-- The broker finds a claim of authority in the adapter metadata. -/
def Claims (crates : Crates) (received : Value) : Prop :=
  authority.metadata_attempts_authority_value crates
    ((((received.get "action").getD .null).get "adapter_metadata").getD .null) = true

theorem allows_iff (hstate : received.get "state" = some S)
    (haction : received.get "action" = some A) :
    authority.Allows (authority.evaluate_authority crates received) ↔
      authority.authorityErrors crates S A (authority.operationOf A) .Fixture = [] := by
  unfold authority.Allows
  simp [authority.evaluate_authority, authority.evaluate_authority_from_state, hstate, haction,
    Value.get_mkObject, sorted_map.get_cons]

/-- A claim that Python finds in the adapter metadata the broker finds too. -/
theorem claims_of_python (h : Read crates.f64 state action S A)
    (haction : received.get "action" = some A) (hdata : AsciiData crates python.unicode)
    (hascii : ∀ s ∈ (adapterMetadata action).strings, IsAscii s)
    (hclaims : metadata_claims_authority python (adapterMetadata action) = true) :
    Claims crates received := by
  have hshows := shows_of_python hdata hascii hclaims
  unfold Claims
  rw [haction, Option.getD_some]
  unfold adapterMetadata at hshows
  cases hmetadata : action.get "adapter_metadata" with
  | none =>
    rw [hmetadata] at hshows
    rcases shows_object hshows with ⟨_, hkey, -⟩ | ⟨_, _, hmem, -⟩
    · cases hkey
    · cases hmem
  | some v =>
    rw [hmetadata] at hshows
    obtain ⟨w, hw, hread⟩ := get_some_of_valueOf h.distinct_action h.reads_action hmetadata
    rw [hw]
    exact scan_of_shows (distinct_get h.distinct_action hmetadata) hread hshows

/-- What passes the gate for the permission names its operation. -/
theorem operation_of_agrees {id : String} {permission : Value}
    (hget : state.permissions.get id = some permission)
    (hagrees : Agrees action permission ["runtime_id", "operation", "target_scope"]) :
    ∃ operation, action.get "operation" = some (.string operation) := by
  obtain ⟨operation, hoperation, -⟩ := text_of_get hget "operation" rfl
    (by simp [permission_schema, closedObject]) rfl
  have hsame := hagrees "operation" (by simp)
  rw [getOrNone_of_get hoperation] at hsame
  exact ⟨operation, getOrNone_eq_string.mp hsame⟩

theorem carriesUnder_inj {key field s t : String} (hs : CarriesUnder key action [(field, s)])
    (ht : CarriesUnder key action [(field, t)]) : s = t := by
  obtain ⟨v, hv, hcarries⟩ := hs
  have hcarries' := (carriesUnder_iff hv).mp ht
  rw [carries_cons] at hcarries hcarries'
  rw [hcarries.1] at hcarries'
  simpa using hcarries'.1

/-- The gate of Python for the audit event is the one of the broker, and the hash named. -/
theorem auditErrors_python_iff (h : Read crates.f64 state action S A)
    (hhash : authority.expectedHash crates A = payloadHash python action) {operation : String} :
    auditErrors python state action (.string operation) = some [] ↔
      authority.auditErrors crates S A operation = [] ∧ NamesAuditHash state action := by
  rw [auditErrors_eq_nil_iff, auditErrors_iff h, hhash]
  constructor
  · rintro ⟨id, audit_event, stored, hash, hevent, hid, hget, hehash, hshash, haction, hpayload⟩
    have hunder : CarriesUnder "audit_event" action [("payload_hash", hash)] :=
      ⟨audit_event, hevent, carries_cons.mpr ⟨hehash, carries_nil _⟩⟩
    have hnamed : CarriesUnder "audit_event" action [("event_id", id)] :=
      ⟨audit_event, hevent, carries_cons.mpr ⟨hid, carries_nil _⟩⟩
    refine ⟨⟨id, stored, hnamed, hget, haction, fun hbrings => ?_⟩, id, hash, hnamed, hunder,
      stored, hget, carries_cons.mpr ⟨hshash, carries_nil _⟩⟩
    have hsame := hpayload (has_payload_iff.mpr hbrings)
    cases hsame
    exact ⟨hunder, hshash⟩
  · rintro ⟨⟨id, stored, hnamed, hget, haction, hpayload⟩, id', hash, hnamed', hunder, hfound⟩
    cases carriesUnder_inj hnamed hnamed'
    have hshash := (carries_cons.mp ((found_iff hget).mp hfound)).1
    have hehash := hunder
    obtain ⟨audit_event, hevent, hid⟩ := hnamed
    rw [carriesUnder_iff hevent, carries_cons] at hehash
    refine ⟨id, audit_event, stored, hash, hevent, (carries_cons.mp hid).1, hget, hehash.1, hshash,
      haction, fun hhas => ?_⟩
    obtain ⟨hexpected, -⟩ := hpayload (has_payload_iff.mp hhas)
    rw [carriesUnder_inj hunder hexpected]
    rfl

theorem approvalErrors_python_iff (h : Read crates.f64 state action S A)
    (hhash : authority.expectedHash crates A = payloadHash python action) {operation : Value}
    {text : String} : approvalErrors python state action operation = some [] ↔
      authority.approvalErrors crates S A text = [] := by
  rw [approvalErrors_eq_nil_iff, approvalErrors_iff h, hhash]
  simp only [has_payload_iff]
  rfl

/-- The texts of the action that the first gates make sure of. -/
structure Named (action : Value) (runtime_id capability_id operation : String) : Prop where
  not_empty : runtime_id ≠ ""
  has_runtime : action.get "runtime_id" = some (.string runtime_id)
  has_capability : action.get "capability_id" = some (.string capability_id)
  has_operation : action.get "operation" = some (.string operation)

theorem named_of_rust (h : Read crates.f64 state action S A) {operation : String}
    (hruntime : authority.runtimeErrors S A operation = [])
    (hcapability : authority.capabilityErrors S A operation = [])
    (hpermission : authority.permissionErrors S A operation = []) :
    ∃ runtime_id capability_id operation, Named action runtime_id capability_id operation := by
  obtain ⟨runtime_id, runtime, hrid, hrget⟩ := (runtimeErrors_iff h).mp hruntime
  obtain ⟨capability_id, _, _, hcid, -⟩ := (capabilityErrors_iff h hrid).mp hcapability
  obtain ⟨_, permission, _, hpget, _, _, hagrees⟩ := (permissionErrors_iff h hcid).mp hpermission
  obtain ⟨operation, hop⟩ := operation_of_agrees hpget hagrees
  have hne : runtime_id ≠ "" := id_ne_empty hrget rfl (by simp [runtime_schema, closedObject]) rfl
  exact ⟨runtime_id, capability_id, operation, hne, hrid, hcid, hop⟩

theorem named_of_python {operation : Value}
    (hruntime : runtimeErrors python state action operation = some [])
    (hcapability : capabilityErrors python state action operation = some [])
    (hpermission : permissionErrors python state action operation = some []) :
    ∃ runtime_id capability_id operation, Named action runtime_id capability_id operation := by
  obtain ⟨runtime_id, runtime, hrid, hrget⟩ := runtimeErrors_eq_nil_iff.mp hruntime
  have hne : runtime_id ≠ "" := id_ne_empty hrget rfl (by simp [runtime_schema, closedObject]) rfl
  obtain ⟨capability_id, _, _, hcid, -⟩ := (capabilityErrors_eq_nil_iff hne hrid).mp hcapability
  obtain ⟨_, permission, _, hpget, _, _, hagrees⟩ :=
    (permissionErrors_eq_nil_iff hcid).mp hpermission
  obtain ⟨operation, hop⟩ := operation_of_agrees hpget hagrees
  exact ⟨runtime_id, capability_id, operation, hne, hrid, hcid, hop⟩

/-- For an action with the texts the gates are the same ones, but for those for the audit event
and for the metadata. -/
theorem gates_iff_of_named (h : Read crates.f64 state action S A)
    (hhash : authority.expectedHash crates A = payloadHash python action)
    {runtime_id capability_id operation : String}
    (hnamed : Named action runtime_id capability_id operation) :
    (authority.authorityErrors crates S A (authority.operationOf A) .Fixture = [] ∧
      NamesAuditHash state action ∧
      metadata_claims_authority python (adapterMetadata action) = false) ↔
    (gateErrors python state action (operationOf action) = some [] ∧
      authority.metadataErrors crates A (authority.operationOf A) = []) := by
  have hrust : authority.operationOf A = operation := by
    rw [authority.operationOf, h.string.mpr hnamed.has_operation]
    rfl
  have hpython : operationOf action = .string operation := by
    rw [operationOf, hnamed.has_operation]
    rfl
  have hruntime : authority.runtimeErrors S A operation = [] ↔
      runtimeErrors python state action (.string operation) = some [] := by
    rw [runtimeErrors_iff h, runtimeErrors_eq_nil_iff]
  have hcapability : authority.capabilityErrors S A operation = [] ↔
      capabilityErrors python state action (.string operation) = some [] := by
    rw [capabilityErrors_iff h hnamed.has_runtime,
      capabilityErrors_eq_nil_iff hnamed.not_empty hnamed.has_runtime]
  have hpermission : authority.permissionErrors S A operation = [] ↔
      permissionErrors python state action (.string operation) = some [] := by
    rw [permissionErrors_iff h hnamed.has_capability,
      permissionErrors_eq_nil_iff hnamed.has_capability]
  have hrecovery : authority.recoveryErrors S A operation = [] ↔
      recoveryErrors python state action (.string operation) = some [] := by
    rw [recoveryErrors_iff h, recoveryErrors_eq_nil_iff]
  have hsource : authority.sourceErrors A operation = [] ↔
      sourceErrors action (.string operation) = [] := by
    rw [sourceErrors_iff h, sourceErrors_eq_nil_iff]
  rw [gateErrors_eq_nil_iff, metadataErrors_eq_nil_iff, hrust, hpython,
    auditErrors_python_iff h hhash, approvalErrors_python_iff h hhash, ← hruntime, ← hcapability,
    ← hpermission, ← hrecovery, ← hsource]
  unfold authority.authorityErrors adapterMetadata
  simp only [if_true, List.append_eq_nil_iff]
  tauto

/-- What the broker lets through is what Python lets through, with the two differences of their
gates: of an action without a payload only Python compares the hash of the audit event, and of
the metadata only the broker takes some words for claims. -/
theorem gates_iff (h : Read crates.f64 state action S A)
    (hhash : authority.expectedHash crates A = payloadHash python action) :
    (authority.authorityErrors crates S A (authority.operationOf A) .Fixture = [] ∧
      NamesAuditHash state action ∧
      metadata_claims_authority python (adapterMetadata action) = false) ↔
    (gateErrors python state action (operationOf action) = some [] ∧
      authority.metadataErrors crates A (authority.operationOf A) = []) := by
  constructor
  · intro hleft
    have hgates := hleft.1
    unfold authority.authorityErrors at hgates
    simp only [List.append_eq_nil_iff] at hgates
    obtain ⟨_, _, _, hnamed⟩ := named_of_rust h hgates.1.1.1.1.1.1.1 hgates.1.1.1.1.1.1.2
      hgates.1.1.1.1.1.2
    exact (gates_iff_of_named h hhash hnamed).mp hleft
  · intro hright
    obtain ⟨-, hruntime, hcapability, hpermission, -⟩ := gateErrors_eq_nil_iff.mp hright.1
    obtain ⟨_, _, _, hnamed⟩ := named_of_python hruntime hcapability hpermission
    exact (gates_iff_of_named h hhash hnamed).mpr hright

/-- With a payload the broker compares the hash too. -/
theorem namesAuditHash_of_brings (h : Read crates.f64 state action S A)
    (herrors : authority.authorityErrors crates S A (authority.operationOf A) .Fixture = [])
    (hbrings : Brings action) : NamesAuditHash state action := by
  unfold authority.authorityErrors at herrors
  simp only [if_true, List.append_eq_nil_iff] at herrors
  obtain ⟨id, stored, hnamed, hget, -, hhashes⟩ := (auditErrors_iff h).mp herrors.1.1.1.2
  obtain ⟨hunder, hstored⟩ := hhashes hbrings
  exact ⟨id, _, hnamed, hunder, stored, hget, carries_cons.mpr ⟨hstored, carries_nil _⟩⟩

theorem metadataErrors_iff (haction : received.get "action" = some A) {operation : String} :
    authority.metadataErrors crates A operation = [] ↔ ¬Claims crates received := by
  unfold authority.metadataErrors Claims
  rw [authority.errorUnless_eq_nil, haction, Option.getD_some, Bool.not_eq_true', Bool.not_eq_true]

theorem decides_iff_gates (hdigest : ∀ m, (python.sha256 m).length = 32) :
    Decides python state action true ↔
      gateErrors python state action (operationOf action) = some [] := by
  constructor
  · intro hdecides
    exact (decides_true_iff.mp hdecides).1
  · intro hgates
    exact (decides_true_iff_grants hdigest).mpr (grants_of_gates hgates)

/-- The broker and Python allow the same actions on the same state, with two exceptions. Of an
action without a payload only Python compares the hash that its audit event names with the stored
one, and what the broker takes for claims in the adapter metadata need not be one in Python. -/
theorem evaluators_agree (hdigest : ∀ m, (python.sha256 m).length = 32)
    (hsha : crates.sha256 = python.sha256) (hdata : AsciiData crates python.unicode)
    (hd : (fixturePayload state action).Distinct)
    (hread : valueOf crates.f64 (fixturePayload state action) = some received)
    (hportable : PortableValue (payloadOf action))
    (hascii : ∀ s ∈ (adapterMetadata action).strings, IsAscii s) :
    ((authority.Allows (authority.evaluate_authority crates received) ∧
        NamesAuditHash state action) ↔
      (Decides python state action true ∧ ¬Claims crates received)) ∧
    (Brings action → authority.Allows (authority.evaluate_authority crates received) →
      NamesAuditHash state action) := by
  obtain ⟨S, A, hstate, haction, h⟩ := read_of_payload hd hread
  have hgates := gates_iff h (expectedHash_eq h hsha hportable)
  rw [metadataErrors_iff haction] at hgates
  rw [allows_iff hstate haction, decides_iff_gates hdigest]
  refine ⟨⟨?_, ?_⟩, fun hbrings herrors => namesAuditHash_of_brings h herrors hbrings⟩
  · rintro ⟨herrors, hnames⟩
    have hclaims : ¬Claims crates received := by
      have hall := herrors
      unfold authority.authorityErrors at hall
      simp only [List.append_eq_nil_iff] at hall
      exact (metadataErrors_iff haction).mp hall.1.2
    have hpython : metadata_claims_authority python (adapterMetadata action) = false := by
      rw [← Bool.not_eq_true]
      intro hfound
      exact hclaims (claims_of_python h haction hdata hascii hfound)
    exact hgates.mp ⟨herrors, hnames, hpython⟩
  · rintro hright
    obtain ⟨herrors, hnames, -⟩ := hgates.mpr hright
    exact ⟨herrors, hnames⟩

/-! ### An action that both let through -/

open blue_tanuki_adapter sensitive_action_router

theorem asciiData_plain : AsciiData .ascii plainPython.unicode where
  rust := fun _ _ => rfl
  python := fun _ _ => rfl
  casefold := fun _ _ => rfl

theorem evaluators_agree_reading : authority.Allows (authority.evaluate_authority .ascii
    (fixturePayload approvedState (.object readStatus)).sortKeys) := by
  have hd : (fixturePayload approvedState (.object readStatus)).Distinct := by decide +kernel
  have hnumbers : (fixturePayload approvedState (.object readStatus)).numbers = [] := rfl
  have hread : valueOf Crates.ascii.f64 (fixturePayload approvedState (.object readStatus)) =
      some (fixturePayload approvedState (.object readStatus)).sortKeys := by
    apply valueOf_eq_sortKeys
    intro n hn
    rw [hnumbers] at hn
    cases hn
  have hclaims : ¬Claims .ascii (fixturePayload approvedState (.object readStatus)).sortKeys := by
    obtain ⟨S, A, -, haction, h⟩ := read_of_payload hd hread
    have hnone : A.get "adapter_metadata" = none :=
      (get_eq_none_iff h.distinct_action h.reads_action).mpr rfl
    unfold Claims
    rw [haction, Option.getD_some, hnone]
    exact Bool.false_ne_true
  have hallows : Decides plainPython approvedState (.object readStatus) true :=
    (decides_true_iff_grants fips.digest_length).mpr
      (grants_readStatus rfl rfl rfl rfl rfl rfl)
  have hportable : PortableValue (payloadOf (.object readStatus)) := portableValue_null
  have hascii : ∀ s ∈ (adapterMetadata (.object readStatus)).strings, IsAscii s :=
    fun _ hs => absurd hs List.not_mem_nil
  exact ((evaluators_agree fips.digest_length rfl asciiData_plain hd hread hportable
    hascii).1.mpr ⟨hallows, hclaims⟩).1

end evaluations

end policy_parity
