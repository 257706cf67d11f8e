-- The authority evaluator of the Rust broker (authority.rs), gate by gate, and the
-- operations on approvals that stand beside it.
import GuiShell.Broker.AuthorityTokens
import GuiShell.Broker.Canonical

open json serde_json

namespace authority

variable (crates : Crates)

/-! ## Errors -/

def recovery_hint (code : String) : String :=
  match code with
  | "unknown_runtime" => "Register the runtime before routing this operation."
  | "unknown_capability" => "Register the capability in Shell Core before use."
  | "unknown_permission" => "Record an explicit permission decision before use."
  | "permission_denied" => "Request or grant permission through an authority source."
  | "approval_missing" => "Create an approval and wait for an approved state."
  | "approval_not_valid" => "Revalidate or approve the current approval request."
  | "audit_mapping_missing" =>
    "Attach an AuditEvent with an event_id and required payload_hash."
  | "recovery_mapping_missing" => "Attach a RecoveryAction with a recovery_id."
  | "adapter_metadata_escalation_attempt" => "Remove authority claims from adapter metadata."
  | "non_authority_source_attempt" => "Use an authority source; generated output, tool output, " ++
    "metadata, UI state, memory, cache, previous_state, and local_ui_state cannot grant authority."
  | _ => ""

def shell_error (code message operation : String) : Value := .mkObject [
  ("code", .string code),
  ("message", .string message),
  ("operation", .string operation),
  ("recoverable", .bool true),
  ("recovery_hint", .string (recovery_hint code))]

def NON_AUTHORITY_SOURCES : List String := [
  "adapter_metadata", "cache", "diagnostics", "external_metadata", "generated_config",
  "generated_output", "gui_state", "history", "local_ui_state", "memory", "metadata",
  "model_output", "previous_state", "tool_output", "tool_response", "ui_state"]

/-! ## Lookups -/

/-- The string in a field of an object. -/
def strField (v : Value) (field : String) : Option String := (v.get field).bind Value.as_str

/-- The records of a collection of the state. -/
def recordsOf (state : Value) (collection : String) : List Value :=
  ((state.get collection).bind Value.as_array).getD []

def find_record (state : Value) (collection id_field id : String) : Option Value :=
  (recordsOf state collection).find? fun record => strField record id_field = some id

def contains_id (state : Value) (collection id_field id : String) : Bool :=
  (find_record state collection id_field id).isSome

def action_has_payload (action : Value) : Bool :=
  ["payload", "full_payload", "redacted_payload"].any fun key => (action.get key).isSome

/-! ## The gates -/

inductive EvaluationMode where
  | Fixture | Production
  deriving DecidableEq

section gates

variable (state action : Value) (operation : String)

/-- One error when the check fails. -/
def errorUnless (check : Bool) (error : Value) : List Value := if check then [] else [error]

def runtimeErrors : List Value :=
  match strField action "runtime_id" with
  | some runtime_id =>
    errorUnless (contains_id state "runtimes" "runtime_id" runtime_id)
      (shell_error "unknown_runtime" ("未知のruntime: " ++ runtime_id) operation)
  | none => [shell_error "unknown_runtime" "runtime_id is required" operation]

/-- The operations of a capability, when it lists them, have the operation among them. -/
def capabilityAuthorizes (capability : Value) : Bool :=
  match (capability.get "operations").bind Value.as_array with
  | some operations => operations.any fun candidate => candidate.as_str = some operation
  | none => true

def capabilityErrors : List Value :=
  match strField action "capability_id" with
  | some capability_id =>
    match find_record state "capabilities" "capability_id" capability_id with
    | some capability =>
      errorUnless ((strField action "runtime_id").isNone ||
          strField capability "runtime_id" = strField action "runtime_id")
        (shell_error "relation_mismatch" "capability does not belong to requested runtime"
          operation) ++
      errorUnless (capabilityAuthorizes operation capability)
        (shell_error "relation_mismatch" "capability does not authorize requested operation"
          operation)
    | none =>
      [shell_error "unknown_capability" ("未知のcapability: " ++ capability_id) operation]
  | none => [shell_error "unknown_capability" "unknown capability: null" operation]

/-- An error for each field in which the record and the action differ. -/
def relationErrors (fields : List String) (message : String → String) (record : Value) :
    List Value :=
  fields.flatMap fun field =>
    errorUnless (strField action field = strField record field)
      (shell_error "relation_mismatch" (message field) operation)

def permissionErrors : List Value :=
  match (strField action "permission_id").bind
      (find_record state "permissions" "permission_id") with
  | none => [shell_error "unknown_permission"
      ("未知のpermission: " ++ (strField action "permission_id").getD "null") operation]
  | some permission =>
    let decision := (strField permission "decision").getD "deny"
    errorUnless (decision ∈ ["allow", "approved"])
      (shell_error "permission_denied"
        ("permission decisionがallowまたはapprovedではない: " ++ decision) operation) ++
    (match strField action "capability_id" with
      | some capability_id =>
        errorUnless (strField permission "capability_id" = some capability_id)
          (shell_error "permission_denied"
            "permission does not authorize the requested capability" operation)
      | none => []) ++
    relationErrors action operation ["runtime_id", "operation", "target_scope"]
      (fun field => "permissionの" ++ field ++ "が要求actionと一致しない") permission

/-- The hash that a record must hold for the payload of the action. -/
def expectedHash : String :=
  canonical_hash crates.sha256 ((action.get "payload").getD .null)

def approvalErrors : List Value :=
  match strField action "approval_id" with
  | none => [shell_error "approval_missing" "approval_id is required" operation]
  | some approval_id =>
    match find_record state "approvals" "approval_id" approval_id with
    | none => [shell_error "approval_missing" ("未知のapproval: " ++ approval_id) operation]
    | some approval =>
      if strField approval "status" ≠ some "approved" then
        [shell_error "approval_not_valid" ("approvalがapprovedではない: " ++ approval_id) operation]
      else
        relationErrors action operation ["runtime_id", "operation", "target_scope"]
          (fun field => "approvalの" ++ field ++ "が要求actionと一致しない") approval ++
        errorUnless (!action_has_payload action ||
            strField approval "payload_hash" = some (expectedHash crates action))
          (shell_error "payload_hash_mismatch"
            "approval payload_hash does not match canonical action payload" operation)

/-- A string that is there and not empty. -/
def nonEmpty (s : Option String) : Bool := s.any fun s => s ≠ ""

def auditErrors : List Value :=
  match action.get "audit_event" with
  | some (.object fields) =>
    let audit_event := Value.object fields
    let stored_audit := (strField audit_event "event_id").bind
      (find_record state "audit_events" "event_id")
    errorUnless (nonEmpty (strField audit_event "event_id"))
      (shell_error "audit_mapping_missing" "audit_event.event_id is required" operation) ++
    errorUnless (!action_has_payload action || nonEmpty (strField audit_event "payload_hash"))
      (shell_error "audit_mapping_missing"
        "audit_event.payload_hash is required when payload exists" operation) ++
    errorUnless stored_audit.isSome
      (shell_error "audit_mapping_missing"
        "audit_event is not present in broker-owned audit store" operation) ++
    errorUnless (!action_has_payload action ||
        (strField audit_event "payload_hash" = some (expectedHash crates action) &&
          stored_audit.bind (strField · "payload_hash") = some (expectedHash crates action)))
      (shell_error "payload_hash_mismatch"
        "audit payload_hash does not match canonical action payload" operation) ++
    errorUnless ((stored_audit.bind (strField · "action")).all fun action_name =>
        action_name = operation)
      (shell_error "relation_mismatch" "audit action does not match requested operation" operation)
  | _ => [shell_error "audit_mapping_missing" "audit_event is required" operation]

/-- The id of the recovery action, when the action names one. -/
def recoveryId : Option String := (action.get "recovery_action").bind (strField · "recovery_id")

def recoveryErrors : List Value :=
  match recoveryId action with
  | some recovery_id =>
    match find_record state "recovery_actions" "recovery_id" recovery_id with
    | some stored_recovery =>
      relationErrors action operation ["runtime_id", "operation"]
        (fun field => "recoveryの" ++ field ++ "が要求actionと一致しない") stored_recovery
    | none => [shell_error "recovery_mapping_missing"
        ("未知のrecovery action: " ++ recovery_id) operation]
  | none => [shell_error "recovery_mapping_missing" "recovery_action.recovery_id is required"
      operation]

def metadataErrors : List Value :=
  errorUnless
    (!metadata_attempts_authority_value crates ((action.get "adapter_metadata").getD .null))
    (shell_error "adapter_metadata_escalation_attempt"
      "adapter metadata attempted to claim authority" operation)

/-- The flag by which a source claims to grant authority. -/
def sourceFlag (source : String) : String := source ++ "_grants_authority"

def flagged (source : String) : Bool :=
  (action.get (sourceFlag source)).bind Value.as_bool = some true

def sourceErrors : List Value :=
  NON_AUTHORITY_SOURCES.flatMap fun source =>
    errorUnless (!(strField action "authority_source" = some source || flagged action source))
      (shell_error "non_authority_source_attempt" (source ++ "はauthorityを付与できない") operation)

end gates

/-! ## The evaluation -/

/-- The errors of all the gates, in their order. Caller-supplied audit events and
authority sources are looked at in fixtures only. -/
def authorityErrors (state action : Value) (operation : String) (mode : EvaluationMode) :
    List Value :=
  runtimeErrors state action operation ++ capabilityErrors state action operation ++
  permissionErrors state action operation ++ approvalErrors crates state action operation ++
  (if mode = .Fixture then auditErrors crates state action operation else []) ++
  recoveryErrors state action operation ++ metadataErrors crates action operation ++
  (if mode = .Fixture then sourceErrors action operation else [])

def evaluate_authority_from_state (state action : Value) (operation : String)
    (mode : EvaluationMode) : Value :=
  let errors := authorityErrors crates state action operation mode
  .mkObject [
    ("allowed", .bool errors.isEmpty),
    ("errors", .array errors),
    ("required_recovery",
      if errors.isEmpty then .null else (action.get "recovery_action").getD .null),
    ("audit_required", .bool true)]

/-- The operation of an action, for its errors. -/
def operationOf (action : Value) : String := (strField action "operation").getD "unknown"

def evaluate_authority (payload : Value) : Value :=
  let action := (payload.get "action").getD .null
  evaluate_authority_from_state crates ((payload.get "state").getD .null) action
    (operationOf action) .Fixture

structure BrokerAuthorityRegistry where
  state : Value
  deriving DecidableEq

def BrokerAuthorityRegistry.production_default : BrokerAuthorityRegistry where
  state := .mkObject [
    ("runtimes", .array [.mkObject [
      ("runtime_id", .string "gui_shell_rust_broker"),
      ("issuer", .string "gui-shell-rust-broker"),
      ("authority_source", .string "rust_security_broker")]]),
    ("capabilities", .array [.mkObject [
      ("capability_id", .string "command_envelope.dispatch"),
      ("runtime_id", .string "gui_shell_rust_broker"),
      ("operations", .array [.string "command_envelope.dispatch"])]]),
    ("permissions", .array [.mkObject [
      ("permission_id", .string "permission.broker.command_envelope"),
      ("runtime_id", .string "gui_shell_rust_broker"),
      ("capability_id", .string "command_envelope.dispatch"),
      ("operation", .string "command_envelope.dispatch"),
      ("target_scope", .string "broker_command"),
      ("decision", .string "deny"),
      ("source", .string "broker_internal_policy")]]),
    ("approvals", .array []),
    ("recovery_actions", .array [.mkObject [
      ("recovery_id", .string "recover-command-dispatch"),
      ("runtime_id", .string "gui_shell_rust_broker")]])]

/-- What a caller of the production evaluation may not bring along. -/
def callerErrors (payload action : Value) (operation : String) : List Value :=
  errorUnless (payload.get "state").isNone
    (shell_error "caller_state_rejected"
      "production authority evaluation does not accept caller-supplied state" operation) ++
  errorUnless (action.get "audit_event").isNone
    (shell_error "caller_audit_mapping_rejected" ("production authority evaluation emits broker " ++
      "audit and does not accept caller audit mappings") operation) ++
  (match strField action "authority_source" with
    | some source => [shell_error "caller_authority_source_rejected"
        (source ++ "は呼出し側requestからauthorityを付与できない") operation]
    | none => []) ++
  NON_AUTHORITY_SOURCES.flatMap fun source =>
    errorUnless (!flagged action source)
      (shell_error "caller_authority_source_rejected" (source ++ "はauthorityを付与できない") operation)

def evaluate_broker_authority (registry : BrokerAuthorityRegistry) (payload : Value) : Value :=
  let action := (payload.get "action").getD payload
  let operation := operationOf action
  let errors := callerErrors payload action operation ++
    authorityErrors crates registry.state action operation .Production
  -- The caller's errors are put before the others; the recovery goes by the others alone.
  let own := authorityErrors crates registry.state action operation .Production
  .mkObject [
    ("allowed", .bool errors.isEmpty),
    ("errors", .array errors),
    ("required_recovery",
      if own.isEmpty then .null else (action.get "recovery_action").getD .null),
    ("audit_required", .bool true),
    ("decision", .string (if errors.isEmpty then "authorized" else "denied")),
    ("authority_source", .string "rust_security_broker"),
    ("issuer", .string "gui-shell-rust-broker")]

/-! ## Approvals -/

def string_set (value : Option Value) : List String :=
  ((value.bind Value.as_array).getD []).filterMap Value.as_str

def protected_fields (approval : List (String × Value)) : List String :=
  ["audit_event_id", "audit_id", "payload_hash", "permission_id", "runtime_id"] ++
    ["authority_fields", "sealed_fields", "hidden_fields", "sacred_fields"].flatMap fun key =>
      string_set (sorted_map.get key approval)

def can_edit (approval : List (String × Value)) (field : String) : Bool :=
  field ∈ string_set (sorted_map.get "editable_fields" approval) &&
    field ∉ protected_fields approval

def edit_approval (payload : Value) : Value :=
  let field := (strField payload "field").getD ""
  let value := (payload.get "value").getD .null
  match ((payload.get "approval").getD .null).as_object with
  | none => .mkObject [("ok", .bool false), ("error", .string "approval is required")]
  | some approval =>
    if can_edit approval field then
      let full_payload := Value.object (sorted_map.insert field value
        (((sorted_map.get "full_payload" approval).bind Value.as_object).getD []))
      .mkObject [("ok", .bool true), ("approval", .object
        (sorted_map.insert "status" (.string "requires_validation")
          (sorted_map.insert "payload_hash" (.string (canonical_hash crates.sha256 full_payload))
            (sorted_map.insert "full_payload" full_payload approval))))]
    else .mkObject [("ok", .bool false), ("error", .string ("fieldは編集不可: " ++ field))]

def project_approval_content (approval : Value) : Value :=
  let visibility := (strField approval "content_visibility").getD ""
  match visibility with
  | "none" => .mkObject []
  | "hash_only" => .mkObject [("payload_hash", (approval.get "payload_hash").getD .null)]
  | "summary" => .mkObject [("summary", (approval.get "summary").getD (.string ""))]
  | "redacted" =>
    .mkObject [("redacted_payload", (approval.get "redacted_payload").getD (.mkObject []))]
  | "full" => .mkObject [("full_payload", (approval.get "full_payload").getD (.mkObject []))]
  | _ => .mkObject [("error", .string ("未知のcontent visibility: " ++ visibility))]

end authority
