-- The policy evaluator of the Python shell (policy_evaluator.py), gate by gate, with the action
-- envelope (action_envelope.py) and the errors (error_taxonomy.py) that it builds.
import GuiShell.ShellCore.CanonicalHash
import GuiShell.ShellCore.Normalization
import GuiShell.ShellCore.PythonValues
import GuiShell.ShellCore.RuntimeState

open json shell_core.schema_validation

namespace shell_core

/-- What the interpreter computes for the evaluator, besides what is written out here. -/
structure Python where
  unicode : normalization.Unicode
  /-- `hashlib.sha256`. -/
  sha256 : Bytes → Bytes
  /-- `str` of a value. -/
  str : Value → String
  /-- The text of the error for an index into a value that is no dict. -/
  subscript_error : Value → String

/-! ## Records by id -/

/-- `get` of a dict of records. It raises for a key that has no hash. -/
def Records.lookup {schema : Contract} {id_field : String} (records : Records schema id_field)
    (key : Value) : Option (Option Value) :=
  match key with
  | .string id => some (records.get id)
  | key => if hashable key then some none else none

/-! ## Errors -/

def RECOVERY_HINTS (code : String) : String :=
  match code with
  | "unknown_runtime" => "この操作を route する前に runtime を登録してください。"
  | "unknown_capability" => "利用前に capability を Shell Core へ登録してください。"
  | "unknown_permission" => "利用前に明示的な permission 判定を記録してください。"
  | "permission_denied" => "権限源を通じて permission を要求または付与してください。"
  | "relation_mismatch" => "broker が所有する一つの action 関係から runtime、capability、permission、" ++
    "approval、recovery、target scope を解決してください。"
  | "payload_hash_mismatch" =>
    "正規 payload hash を再計算し、approval/audit を送信 payload へ結び付けてください。"
  | "approval_missing" => "approval を作成し、approved 状態を待ってください。"
  | "approval_not_valid" => "現在の approval 要求を再検証または承認してください。"
  | "audit_mapping_missing" => "event_id と必要な payload_hash を持つ AuditEvent を付与してください。"
  | "recovery_mapping_missing" => "recovery_id を持つ RecoveryAction を付与してください。"
  | "content_visibility_violation" => "content_visibility に従って approval 内容を射影してください。"
  | "adapter_metadata_escalation_attempt" => "adapter metadata から権限主張を削除してください。"
  | "non_authority_source_attempt" => "権限源を利用してください。memory、cache、previous_state、" ++
    "local_ui_state は権限を与えられません。"
  | _ => ""

/-- The operation stands in an error as the action has it. -/
def shell_error (code message : String) (operation : Value) : Value := .object [
  ("code", .string code),
  ("message", .string message),
  ("operation", operation),
  ("recoverable", .bool true),
  ("recovery_hint", .string (RECOVERY_HINTS code))]

def NON_AUTHORITY_SOURCES : List String := [
  "adapter_metadata", "cache", "diagnostics", "external_metadata", "generated_config",
  "generated_output", "gui_state", "history", "local_ui_state", "memory", "metadata",
  "model_output", "previous_state", "tool_output", "tool_response", "ui_state"]

def ALLOWED_PERMISSION_DECISIONS : List Value := [.string "allow", .string "approved"]

/-! ## The action envelope -/

/-- `action[key]`, or the text of the KeyError. -/
def index (v : Value) (key : String) : Except String Value :=
  match v.get key with
  | some value => .ok value
  | none => .error (quoted key)

def build_action_envelope (python : Python) (action : Value) : Except String Value := do
  let payload := getOrNone action "payload"
  let runtime_id ← index action "runtime_id"
  let operation ← index action "operation"
  let capability_id ← index action "capability_id"
  let permission_id ← index action "permission_id"
  let approval_id ← index action "approval_id"
  let recovery_action ← index action "recovery_action"
  let recovery_id ← match recovery_action with
    | .object fields => index (.object fields) "recovery_id"
    | value => .error (python.subscript_error value)
  let target_scope ← index action "target_scope"
  let envelope := Value.object [
    ("envelope_id", .string "action-envelope-evaluated"),
    ("runtime_id", runtime_id),
    ("operation", operation),
    ("capability_id", capability_id),
    ("permission_id", permission_id),
    ("approval_id", approval_id),
    ("recovery_id", recovery_id),
    ("target_scope", target_scope),
    ("payload_hash", .string (approval_queue.canonical_hash python.sha256 payload)),
    ("authority_source", .string "broker_internal"),
    ("audit_event_required", .bool true),
    ("metadata", .object [("evidence_class", .string "INTERNAL_STATE")])]
  match validate_instance python.str envelope action_envelope_schema "$" with
  | some [] => .ok envelope
  | errors => .error ("action_envelope.schema.json の検証に失敗しました: " ++
      "; ".intercalate (errors.getD []))

/-! ## The gates -/

namespace policy_evaluator

section gates

variable (python : Python) (state : RuntimeState) (action operation : Value)

def has_payload : Bool :=
  ["payload", "full_payload", "redacted_payload"].any fun key => (action.get key).isSome

/-- Whether the two have different values in the field. -/
def differs (record : Value) (field : String) : Bool :=
  getOrNone action field ≠ getOrNone record field

def errorUnless (check : Bool) (error : Value) : List Value := if check then [] else [error]

def runtimeErrors : Option (List Value) :=
  let runtime_id := getOrNone action "runtime_id"
  if !truthy runtime_id then
    some [shell_error "unknown_runtime" "runtime_id は必須です" operation]
  else (state.runtimes.lookup runtime_id).map fun runtime =>
    errorUnless runtime.isSome
      (shell_error "unknown_runtime" ("未知の runtime です: " ++ python.str runtime_id) operation)

def capabilityErrors : Option (List Value) :=
  let runtime_id := getOrNone action "runtime_id"
  let capability_id := getOrNone action "capability_id"
  (state.capabilities.lookup capability_id).map fun capability =>
    match capability with
    | none => [shell_error "unknown_capability"
        ("未知の capability です: " ++ python.str capability_id) operation]
    | some capability =>
      errorUnless (!(truthy runtime_id && differs action capability "runtime_id"))
        (shell_error "relation_mismatch" "capability が要求された runtime に属していません" operation) ++
      match getOrNone capability "operations" with
      | .array operations => errorUnless (operation ∈ operations)
          (shell_error "relation_mismatch" "capability が要求操作を許可していません" operation)
      | _ => []

/-- An error for each field in which the record and the action differ. -/
def relationErrors (fields : List String) (message : String → String) (record : Value) :
    List Value :=
  fields.flatMap fun field =>
    errorUnless (!differs action record field)
      (shell_error "relation_mismatch" (message field) operation)

def permissionErrors : Option (List Value) :=
  let capability_id := getOrNone action "capability_id"
  let permission_id := getOrNone action "permission_id"
  (state.permissions.lookup permission_id).map fun permission =>
    match permission with
    | none => [shell_error "unknown_permission"
        ("未知の permission です: " ++ python.str permission_id) operation]
    | some permission =>
      errorUnless (getOrNone permission "decision" ∈ ALLOWED_PERMISSION_DECISIONS)
        (shell_error "permission_denied" ("permission 判定が allow または approved ではありません: " ++
          python.str (getOrNone permission "decision")) operation) ++
      errorUnless (!(capability_id ≠ .null && differs action permission "capability_id"))
        (shell_error "permission_denied" "permission が要求された capability を許可していません"
          operation) ++
      relationErrors action operation ["runtime_id", "operation", "target_scope"]
        (fun field => "permission " ++ field ++ " が要求 action と一致しません") permission

/-- The hash that a record must hold for the payload of the action. -/
def expectedHash : Value :=
  .string (approval_queue.canonical_hash python.sha256 (getOrNone action "payload"))

def approvalErrors : Option (List Value) :=
  let approval_id := getOrNone action "approval_id"
  if approval_id = .null then
    some [shell_error "approval_missing" "approval_id は必須です" operation]
  else (state.approvals.lookup approval_id).map fun approval =>
    match approval with
    | none => [shell_error "approval_missing"
        ("未知の approval です: " ++ python.str approval_id) operation]
    | some approval =>
      if getOrNone approval "status" ≠ .string "approved" then
        [shell_error "approval_not_valid"
          ("approval が approved ではありません: " ++ python.str approval_id) operation]
      else
        relationErrors action operation ["runtime_id", "operation", "target_scope"]
          (fun field => "approval " ++ field ++ " が要求 action と一致しません") approval ++
        errorUnless (!has_payload action ||
            getOrNone approval "payload_hash" = expectedHash python action)
          (shell_error "payload_hash_mismatch"
            "approval payload_hash が正規 action payload と一致しません" operation)

/-- The errors of an audit event against the stored one. The set of the allowed actions raises
for an operation that has no hash. -/
def storedAuditErrors (audit_event : Value) : Option Value → Option (List Value)
  | none => some [shell_error "audit_mapping_missing"
      "audit_event がbroker所有のaudit storeに存在しません" operation]
  | some stored_audit =>
    let expected_hash :=
      if has_payload action then expectedHash python action
      else getOrNone audit_event "payload_hash"
    if hashable operation then some (
      errorUnless (getOrNone audit_event "payload_hash" = expected_hash &&
          getOrNone stored_audit "payload_hash" = expected_hash)
        (shell_error "payload_hash_mismatch" "audit payload_hash が正規 action payload と一致しません"
          operation) ++
      errorUnless (getOrNone stored_audit "action" ∈ [.null, operation])
        (shell_error "relation_mismatch" "audit action が要求操作と一致しません" operation))
    else none

def auditErrors : Option (List Value) :=
  match getOrNone action "audit_event" with
  | .object fields =>
    let audit_event := Value.object fields
    (state.audit_events.lookup (getOrNone audit_event "event_id")).bind fun stored_audit =>
      (storedAuditErrors python action operation audit_event stored_audit).map fun errors =>
        errorUnless (truthy (getOrNone audit_event "event_id"))
          (shell_error "audit_mapping_missing" "audit_event.event_id は必須です" operation) ++
        errorUnless (!has_payload action || truthy (getOrNone audit_event "payload_hash"))
          (shell_error "audit_mapping_missing"
            "payload がある場合は audit_event.payload_hash が必須です" operation) ++ errors
  | _ => some [shell_error "audit_mapping_missing" "audit_event は必須です" operation]

def recoveryErrors : Option (List Value) :=
  let missing := [shell_error "recovery_mapping_missing"
    "recovery_action.recovery_id は必須です" operation]
  match getOrNone action "recovery_action" with
  | .object fields =>
    let recovery_id := getOrNone (.object fields) "recovery_id"
    if !truthy recovery_id then some missing
    else (state.recovery_actions.lookup recovery_id).map fun stored_recovery =>
      match stored_recovery with
      | none => [shell_error "recovery_mapping_missing"
          ("未知の recovery action です: " ++ python.str recovery_id) operation]
      | some stored_recovery => relationErrors action operation ["runtime_id", "operation"]
          (fun field => "recovery " ++ field ++ " が要求 action と一致しません") stored_recovery
  | _ => some missing

def metadata_claims_authority (value : Value) : Bool :=
  let stripped := normalization.strip_authority_keys python.unicode value
  !(normalization.authority_keys_in python.unicode value "").isEmpty ||
    !(normalization.authority_values_in python.unicode stripped "").isEmpty

def metadataErrors : List Value :=
  errorUnless
    (!metadata_claims_authority python ((action.get "adapter_metadata").getD (.object [])))
    (shell_error "adapter_metadata_escalation_attempt"
      "adapter metadata が権限を主張しようとしました" operation)

def sourceErrors : List Value :=
  NON_AUTHORITY_SOURCES.flatMap fun source =>
    errorUnless (!(getOrNone action "authority_source" = .string source ||
        getOrNone action (source ++ "_grants_authority") = .bool true))
      (shell_error "non_authority_source_attempt" (source ++ " は権限を与えられません") operation)

end gates

/-! ## The evaluation -/

variable (python : Python) (state : RuntimeState)

/-- The errors of all the gates, in their order, or none when the code raises. -/
def gateErrors (action operation : Value) : Option (List Value) := do
  let runtime ← runtimeErrors python state action operation
  let capability ← capabilityErrors python state action operation
  let permission ← permissionErrors python state action operation
  let approval ← approvalErrors python state action operation
  let audit ← auditErrors python state action operation
  let recovery ← recoveryErrors python state action operation
  some (runtime ++ capability ++ permission ++ approval ++ audit ++ recovery ++
    metadataErrors python action operation ++ sourceErrors action operation)

/-- The result of `evaluate`, or none when it raises. -/
def evaluate (action : Value) : Option Value := do
  let operation := (action.get "operation").getD (.string "unknown")
  let errors ← gateErrors python state action operation
  let (errors, action_envelope) :=
    if errors = [] then
      match build_action_envelope python action with
      | .ok envelope => ([], envelope)
      | .error e => ([shell_error "relation_mismatch" ("action envelope が不正です: " ++ e) operation],
          .null)
    else (errors, .null)
  some (.object [
    ("allowed", .bool (errors = [])),
    ("errors", .array errors),
    ("required_recovery",
      if errors = [] then .null
      else match getOrNone action "recovery_action" with
        | .object fields => .object fields
        | _ => .null),
    ("audit_required", .bool true),
    ("action_envelope", action_envelope)])

/-! ## What the evaluation decides -/

section decides

variable {python : Python} {state : RuntimeState} {action : Value}

/-- The evaluation returns, and its answer is this one. -/
def Decides (python : Python) (state : RuntimeState) (action : Value) (allowed : Bool) : Prop :=
  ∃ decision, evaluate python state action = some decision ∧
    decision.get "allowed" = some (.bool allowed)

theorem Decides.unique {a b : Bool} (ha : Decides python state action a)
    (hb : Decides python state action b) : a = b := by
  obtain ⟨decision, hdecision, ha⟩ := ha
  obtain ⟨decision', hdecision', hb⟩ := hb
  rw [hdecision] at hdecision'
  cases hdecision'
  rw [ha] at hb
  cases hb
  rfl

def operationOf (action : Value) : Value := (action.get "operation").getD (.string "unknown")

theorem decides_true_iff :
    Decides python state action true ↔
      gateErrors python state action (operationOf action) = some [] ∧
        ∃ envelope, build_action_envelope python action = .ok envelope := by
  unfold Decides evaluate
  rw [show (action.get "operation").getD (.string "unknown") = operationOf action from rfl]
  cases hgates : gateErrors python state action (operationOf action) with
  | none => simp [hgates]
  | some errors =>
    by_cases hnil : errors = []
    · subst hnil
      cases henvelope : build_action_envelope python action with
      | ok envelope => simp [hgates, Value.get, sorted_map.get_cons]
      | error e => simp [hgates, Value.get, sorted_map.get_cons]
    · simp [hgates, Value.get, sorted_map.get_cons, hnil]

theorem decides_false_of_errors {errors : List Value}
    (h : gateErrors python state action (operationOf action) = some errors) (hne : errors ≠ []) :
    Decides python state action false := by
  unfold Decides evaluate
  rw [show (action.get "operation").getD (.string "unknown") = operationOf action from rfl]
  simp [h, hne, Value.get, sorted_map.get_cons]

/-- No gate has an error, the one that looks at the approvals first. -/
theorem gateErrors_eq_nil_iff {operation : Value} :
    gateErrors python state action operation = some [] ↔
      approvalErrors python state action operation = some [] ∧
      runtimeErrors python state action operation = some [] ∧
      capabilityErrors python state action operation = some [] ∧
      permissionErrors python state action operation = some [] ∧
      auditErrors python state action operation = some [] ∧
      recoveryErrors python state action operation = some [] ∧
      metadataErrors python action operation = [] ∧ sourceErrors action operation = [] := by
  unfold gateErrors
  simp only [Option.bind_eq_bind, Option.bind_eq_some_iff, Option.some.injEq,
    List.append_eq_nil_iff]
  constructor
  · rintro ⟨_, h1, _, h2, _, h3, _, h4, _, h5, _, h6,
      ⟨⟨⟨⟨⟨⟨rfl, rfl⟩, rfl⟩, rfl⟩, rfl⟩, rfl⟩, h7⟩, h8⟩
    exact ⟨h4, h1, h2, h3, h5, h6, h7, h8⟩
  · rintro ⟨h4, h1, h2, h3, h5, h6, h7, h8⟩
    exact ⟨_, h1, _, h2, _, h3, _, h4, _, h5, _, h6,
      ⟨⟨⟨⟨⟨⟨rfl, rfl⟩, rfl⟩, rfl⟩, rfl⟩, rfl⟩, h7⟩, h8⟩

end decides

end policy_evaluator

end shell_core
