-- The records of the Python shell (runtime_state.py) and the contracts under specs/ that they
-- keep. A state only ever holds valid records, each under its own id.
import GuiShell.Dict
import GuiShell.ShellCore.AdapterLoader
import GuiShell.ShellCore.SchemaValidation

open json shell_core.schema_validation

namespace shell_core

/-! ## The contracts -/

def anyText : Contract := { type := .one "string" }

/-- A string that is not empty. -/
def text : Contract := { type := .one "string", minLength := some 1 }

def oneOf (values : List String) : Contract := { type := .one "string", enum := some values }

def flag : Contract := { type := .one "boolean" }

def texts : Contract := { type := .one "array", items := some anyText }

def openObject : Contract := { type := .one "object" }

def digest : Contract := { type := .one "string", pattern := some .digest }

/-- A truth value that never changes. -/
def always (b : Bool) : Contract := { type := .one "boolean", const := some (.bool b) }

/-- An object with these properties and no others. -/
def closedObject (required : List String) (properties : List (String × Contract)) : Contract :=
  { type := .one "object", required, properties, additional := .forbidden }

def runtime_schema : Contract :=
  closedObject ["runtime_id", "name", "kind", "status", "adapter_id"] [
    ("runtime_id", text),
    ("name", text),
    ("kind", oneOf ["agent", "tool", "local_service", "remote_service", "reference_runtime"]),
    ("status",
      oneOf ["unknown", "offline", "starting", "ready", "degraded", "failed", "stopped"]),
    ("adapter_id", text),
    ("version", anyText),
    ("endpoints", { type := .one "object", additional := .each anyText }),
    ("capabilities", texts),
    ("diagnostic_summary", anyText)]

def adapter_schema : Contract :=
  closedObject ["adapter_id", "runtime_id", "contract_version", "authority_strip"] [
    ("adapter_id", text),
    ("runtime_id", text),
    ("contract_version", { type := .one "string", pattern := some .version }),
    ("transport", oneOf ["http", "stdio", "ipc", "mock"]),
    ("authority_strip", always true),
    ("content_exposure_policy_id", anyText),
    ("declared_capabilities", texts),
    ("metadata", openObject)]

def capability_schema : Contract :=
  closedObject
    ["capability_id", "runtime_id", "name", "risk_level", "default_permission", "operations"] [
    ("capability_id", text),
    ("runtime_id", text),
    ("name", text),
    ("description", anyText),
    ("risk_level", oneOf ["low", "medium", "high", "critical"]),
    ("default_permission", oneOf ["deny", "ask", "allow"]),
    ("requires_approval", flag),
    ("operations", { type := .one "array", items := some text, minItems := some 1 })]

def permission_schema : Contract :=
  closedObject ["permission_id", "runtime_id", "capability_id", "operation", "target_scope",
    "scope", "decision", "source"] [
    ("permission_id", text),
    ("runtime_id", text),
    ("capability_id", text),
    ("operation", text),
    ("target_scope", text),
    ("scope", oneOf ["operation", "target", "session", "time_window", "global"]),
    ("decision", oneOf ["deny", "ask", "allow"]),
    ("source", oneOf ["user", "policy", "runtime", "system_default"]),
    ("expires_at", { type := .any ["string", "null"] }),
    ("constraints", openObject)]

def approval_schema : Contract :=
  closedObject ["approval_id", "runtime_id", "operation", "target_scope", "status",
    "content_visibility", "payload_hash", "editable_fields"] [
    ("approval_id", text),
    ("runtime_id", text),
    ("operation", text),
    ("target_scope", text),
    ("status", oneOf ["pending", "approved", "rejected", "expired", "requires_validation"]),
    ("content_visibility", oneOf ["none", "hash_only", "summary", "redacted", "full"]),
    ("payload_hash", digest),
    ("summary", anyText),
    ("redacted_payload", openObject),
    ("full_payload", openObject),
    ("editable_fields", texts),
    ("sealed_fields", texts),
    ("hidden_fields", texts),
    ("sacred_fields", texts),
    ("authority_fields", texts)]

def audit_schema : Contract :=
  closedObject ["event_id", "timestamp", "actor", "action", "target", "result", "payload_hash"] [
    ("event_id", text),
    ("timestamp", anyText),
    ("actor", oneOf ["user", "shell", "runtime", "adapter", "rust_helper"]),
    ("action", text),
    ("target", text),
    ("result", oneOf ["success", "denied", "failed", "suspended"]),
    ("payload_hash", digest),
    ("previous_event_hash",
      { type := .any ["string", "null"], pattern := some .optionalDigest }),
    ("metadata", openObject)]

def recovery_schema : Contract :=
  closedObject ["recovery_id", "runtime_id", "operation", "class", "severity",
    "user_visible_message", "safe_to_retry"] [
    ("recovery_id", text),
    ("runtime_id", text),
    ("operation", text),
    ("class", oneOf ["configuration", "dependency", "runtime_down", "permission_denied",
      "network", "filesystem", "unknown"]),
    ("severity", oneOf ["info", "warning", "error", "critical"]),
    ("user_visible_message", text),
    ("safe_to_retry", flag),
    ("steps", texts),
    ("requires_user_action", flag)]

def action_envelope_schema : Contract :=
  closedObject ["envelope_id", "runtime_id", "operation", "capability_id", "permission_id",
    "approval_id", "recovery_id", "target_scope", "payload_hash", "authority_source",
    "audit_event_required"] [
    ("envelope_id", text),
    ("runtime_id", text),
    ("operation", text),
    ("capability_id", text),
    ("permission_id", text),
    ("approval_id", text),
    ("recovery_id", text),
    ("target_scope", text),
    ("payload_hash", digest),
    ("authority_source", oneOf ["broker_internal", "user", "policy", "runtime"]),
    ("audit_event_required", { type := .one "boolean", const := some (.bool true) }),
    ("metadata", openObject)]

def update_schema : Contract :=
  closedObject ["policy_id", "channel", "auto_update", "signature_required"] [
    ("policy_id", text),
    ("channel", oneOf ["stable", "beta", "dev", "pinned"]),
    ("auto_update", flag),
    ("signature_required", always true),
    ("rollback_enabled", flag)]

/-! ### Valid records -/

section valid

variable {repr : Value → String} {path : String}

/-- A record of a closed contract has the required fields, and no others than the listed ones. -/
theorem valid_closedObject {required : List String} {properties : List (String × Contract)}
    {fields : List (String × Value)}
    (hrequired : ∀ key ∈ required, (sorted_map.get key fields).isSome = true)
    (hfields : ∀ e ∈ fields, ∃ property, sorted_map.get e.1 properties = some property ∧
      validate_instance repr e.2 property (path ++ "." ++ e.1) = some []) :
    validate_instance repr (.object fields) (closedObject required properties) path = some [] := by
  have hvisit : validateFields repr fields (closedObject required properties) path = some [] := by
    apply validateFields_of_forall
    intro e he
    obtain ⟨property, hproperty, hvalid⟩ := hfields e he
    refine ⟨property, ?_, hvalid⟩
    unfold Contract.fieldSchema
    rw [show (closedObject required properties).properties = properties from rfl, hproperty]
  have hown : ownErrors repr (.object fields) (closedObject required properties) path = [] := by
    simp only [ownErrors, closedObject, List.nil_append, List.append_eq_nil_iff,
      List.flatMap_eq_nil_iff, errorUnless]
    constructor
    · intro key hkey
      exact if_pos (hrequired key hkey)
    · intro e he
      obtain ⟨property, hproperty, -⟩ := hfields e he
      apply if_pos
      exact Option.isSome_iff_exists.mpr ⟨property, hproperty⟩
  unfold validate_instance
  rw [show (closedObject required properties).type = .one "object" from rfl]
  simp only [ExpectedType.admits, type_matches]
  rw [hvisit, hown]
  rfl

theorem valid_text {s : String} (h : s ≠ "") :
    validate_instance repr (.string s) text path = some [] := by
  have hlength : 1 ≤ s.length := Nat.one_le_iff_ne_zero.mpr (by simpa using h)
  simp [validate_instance, text, ownErrors, ExpectedType.admits, type_matches, errorUnless,
    hlength]

/-- A text that a contract holds is not empty. -/
theorem ne_empty_of_valid {s : String}
    (h : validate_instance repr (.string s) text path = some []) : s ≠ "" := by
  rintro rfl
  simp [validate_instance, text, ownErrors, ExpectedType.admits, type_matches, errorUnless] at h

/-- A required text of a valid record is there and not empty. -/
theorem text_of_valid {schema : Contract} {value : Value} (key : String)
    (htype : schema.type = .one "object") (hrequired : key ∈ schema.required)
    (hproperty : schema.fieldSchema key = some text)
    (h : validate_instance repr value schema path = some []) :
    ∃ s, value.get key = some (.string s) ∧ s ≠ "" := by
  obtain ⟨s, hs⟩ := field_of_valid htype hrequired hproperty rfl h
  obtain ⟨fields, rfl, -, hfields⟩ := object_of_valid htype h
  exact ⟨s, hs, ne_empty_of_valid (validateFields_get hfields hs hproperty)⟩

theorem valid_digest {s : String} (h : isDigest (dropFinalNewline s.toList) = true) :
    validate_instance repr (.string s) digest path = some [] := by
  simp [validate_instance, digest, ownErrors, ExpectedType.admits, type_matches, errorUnless,
    Pattern.matches, h]

end valid

/-! ## The records -/

/-- The records of a kind: each is valid and stands under its own id. -/
structure Records (schema : Contract) (id_field : String) where
  entries : List (String × Value)
  nodup : (entries.map Prod.fst).Nodup
  valid : ∀ e ∈ entries, validates e.2 schema = true ∧ e.2.get id_field = some (.string e.1)

namespace Records

variable {schema : Contract} {id_field : String}

def empty : Records schema id_field := ⟨[], List.nodup_nil, by simp⟩

/-- One valid record. -/
def single (id : String) (record : Value) (hvalid : validates record schema = true)
    (hid : record.get id_field = some (.string id)) : Records schema id_field :=
  ⟨[(id, record)], by simp, by simp [hvalid, hid]⟩

def get (records : Records schema id_field) (id : String) : Option Value :=
  sorted_map.get id records.entries

/-- `values()`. -/
def values (records : Records schema id_field) : List Value := records.entries.map Prod.snd

/-- Validates the record and puts it under its id. An invalid record raises. -/
def register (records : Records schema id_field) (record : Value) :
    Option (Records schema id_field) :=
  if hvalid : validates record schema = true then
    match hid : record.get id_field with
    | some (.string id) => some {
        entries := dict.setItem id record records.entries
        nodup := dict.nodup_setItem records.nodup id record
        valid := by
          intro e he
          rcases dict.mem_setItem he with rfl | he
          · exact ⟨hvalid, hid⟩
          · exact records.valid e he }
    | _ => none
  else none

theorem get_spec {records : Records schema id_field} {id : String} {record : Value}
    (h : records.get id = some record) :
    validates record schema = true ∧ record.get id_field = some (.string id) :=
  records.valid _ (sorted_map.mem_of_get h)

theorem register_of_valid (records : Records schema id_field) {record : Value} {id : String}
    (hvalid : validates record schema = true) (hid : record.get id_field = some (.string id)) :
    ∃ new, records.register record = some new ∧
      new.entries = dict.setItem id record records.entries := by
  unfold Records.register
  rw [dif_pos hvalid]
  split
  · rename_i id' hid'
    rw [hid] at hid'
    cases hid'
    exact ⟨_, rfl, rfl⟩
  · rename_i hno
    exact absurd hid (hno id)

/-- A refused record leaves no state, whatever its kind would do with it. -/
theorem map_register_of_refused {α : Type*} {records : Records schema id_field}
    {set : Records schema id_field → α} {record : Value}
    (h : validates record schema = true → (record.get id_field).bind Value.as_str = none) :
    (records.register record).map set = none := by
  unfold Records.register
  by_cases hvalid : validates record schema = true
  · rw [dif_pos hvalid]
    split
    · rename_i id hid
      have := h hvalid
      rw [hid] at this
      contradiction
    · rfl
  · rw [dif_neg hvalid]
    rfl

end Records

/-- The adapters as they are loaded, each under its own id. -/
structure Adapters where
  entries : List (String × Value)
  nodup : (entries.map Prod.fst).Nodup
  own_id : ∀ e ∈ entries, e.2.get "adapter_id" = some (.string e.1)

namespace Adapters

def empty : Adapters := ⟨[], List.nodup_nil, by simp⟩

def put (adapters : Adapters) (id : String) (adapter : Value)
    (hid : adapter.get "adapter_id" = some (.string id)) : Adapters where
  entries := dict.setItem id adapter adapters.entries
  nodup := dict.nodup_setItem adapters.nodup id adapter
  own_id := by
    intro e he
    rcases dict.mem_setItem he with rfl | he
    · exact hid
    · exact adapters.own_id e he

end Adapters

structure RuntimeState where
  runtimes : Records runtime_schema "runtime_id"
  adapters : Adapters := .empty
  capabilities : Records capability_schema "capability_id"
  permissions : Records permission_schema "permission_id"
  approvals : Records approval_schema "approval_id"
  audit_events : Records audit_schema "event_id"
  recovery_actions : Records recovery_schema "recovery_id"
  update_policies : Records update_schema "policy_id" := .empty

namespace RuntimeState

def new : RuntimeState :=
  ⟨.empty, .empty, .empty, .empty, .empty, .empty, .empty, .empty⟩

variable (state : RuntimeState)

def register_runtime (runtime : Value) : Option RuntimeState :=
  (state.runtimes.register runtime).map fun runtimes => { state with runtimes }

/-- Validates the adapter, loads it, and keeps what the loader gives. -/
def register_adapter (unicode : normalization.Unicode) (adapter : Value) : Option RuntimeState :=
  if validates adapter adapter_schema = true then
    match load_adapter unicode adapter with
    | some record =>
      match hid : record.adapter_id with
      | .string id => some { state with
          adapters := state.adapters.put id record.entry (by rw [record.get_entry, hid]) }
      | _ => none
    | none => none
  else none

def register_capability (capability : Value) : Option RuntimeState :=
  (state.capabilities.register capability).map fun capabilities => { state with capabilities }

def record_permission (permission : Value) : Option RuntimeState :=
  (state.permissions.register permission).map fun permissions => { state with permissions }

def enqueue_approval (approval : Value) : Option RuntimeState :=
  (state.approvals.register approval).map fun approvals => { state with approvals }

/-- An event with an id that is there already raises. -/
def append_audit_event (audit_event : Value) : Option RuntimeState :=
  match (audit_event.get "event_id").bind Value.as_str with
  | some event_id =>
    if (state.audit_events.get event_id).isSome then none
    else (state.audit_events.register audit_event).map fun audit_events =>
      { state with audit_events }
  | none => none

def register_recovery_action (recovery_action : Value) : Option RuntimeState :=
  (state.recovery_actions.register recovery_action).map fun recovery_actions =>
    { state with recovery_actions }

def register_update_policy (update_policy : Value) : Option RuntimeState :=
  (state.update_policies.register update_policy).map fun update_policies =>
    { state with update_policies }

/-- The approvals that wait, by their ids. -/
def pending_approvals : List Value :=
  ((sorted_map.ofList state.approvals.entries).map Prod.snd).filter fun approval =>
    approval.get "status" = some (.string "pending") ||
      approval.get "status" = some (.string "requires_validation")

/-- A deep copy of every dict. -/
def clone : RuntimeState where
  runtimes := state.runtimes
  adapters := state.adapters
  capabilities := state.capabilities
  permissions := state.permissions
  approvals := state.approvals
  audit_events := state.audit_events
  recovery_actions := state.recovery_actions
  update_policies := state.update_policies

/-- The state has one more approval, or another one under its id. -/
structure Enqueued (approval : Value) (state' : RuntimeState) : Prop where
  id : ∃ id, approval.get "approval_id" = some (.string id) ∧
    ∀ k, state'.approvals.get k = if id = k then some approval else state.approvals.get k
  frame : state' = { state with approvals := state'.approvals }

variable {state}

theorem enqueued_of_enqueue {approval : Value} {state' : RuntimeState}
    (h : state.enqueue_approval approval = some state') : state.Enqueued approval state' := by
  unfold enqueue_approval at h
  obtain ⟨approvals, happrovals, rfl⟩ := Option.map_eq_some_iff.mp h
  refine ⟨?_, rfl⟩
  unfold Records.register at happrovals
  split at happrovals
  · split at happrovals
    · rename_i id hid
      cases happrovals
      exact ⟨id, hid, fun k => dict.get_setItem id k approval state.approvals.entries⟩
    · contradiction
  · contradiction

end RuntimeState

end shell_core
