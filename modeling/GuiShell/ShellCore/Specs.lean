-- The other contracts under specs/, and all of them by the names of their files.
import GuiShell.ShellCore.RuntimeState

open json shell_core.schema_validation

namespace shell_core

def adapter_manifest_schema : Contract :=
  closedObject ["adapter_id", "runtime_id", "contract_version", "transport", "authority_strip",
    "content_exposure_policy_id", "signed_manifest"] [
    ("adapter_id", text),
    ("runtime_id", text),
    ("contract_version", { type := .one "string", pattern := some .version }),
    ("transport", oneOf ["http", "stdio", "ipc", "mock"]),
    ("authority_strip", always true),
    ("content_exposure_policy_id", text),
    ("declared_capabilities", texts),
    ("metadata", openObject),
    ("signed_manifest", always true)]

def agent_diff_schema : Contract :=
  closedObject ["diff_id", "session_id", "changed_files", "payload_hash", "audit_event_id",
    "rollback_candidate_id"] [
    ("diff_id", text),
    ("session_id", text),
    ("changed_files", texts),
    ("payload_hash", digest),
    ("audit_event_id", text),
    ("rollback_candidate_id", text)]

def agent_runtime_schema : Contract :=
  closedObject ["agent_runtime_id", "runtime_id", "display_name", "status", "workspace_required"] [
    ("agent_runtime_id", text),
    ("runtime_id", text),
    ("display_name", text),
    ("status", oneOf ["unknown", "ready", "running", "degraded", "failed", "stopped"]),
    ("workspace_required", always true),
    ("auto_permission_mode", oneOf ["disabled", "advisory_only"])]

def agent_session_schema : Contract :=
  closedObject ["session_id", "agent_runtime_id", "workspace_id", "status", "audit_event_id"] [
    ("session_id", text),
    ("agent_runtime_id", text),
    ("workspace_id", text),
    ("status", oneOf ["pending", "running", "blocked", "completed", "failed"]),
    ("audit_event_id", text)]

def agent_task_schema : Contract :=
  closedObject ["task_id", "session_id", "description", "status", "audit_event_id"] [
    ("task_id", text),
    ("session_id", text),
    ("description", text),
    ("status", oneOf ["pending", "running", "blocked", "completed", "failed"]),
    ("audit_event_id", text)]

def agent_tool_call_schema : Contract :=
  closedObject ["tool_call_id", "session_id", "tool_name", "permission_id", "approval_required",
    "audit_event_id"] [
    ("tool_call_id", text),
    ("session_id", text),
    ("tool_name", text),
    ("permission_id", text),
    ("approval_required", flag),
    ("audit_event_id", text),
    ("rollback_candidate_id", anyText)]

def agent_workspace_schema : Contract :=
  closedObject ["workspace_id", "root_path", "boundary_policy", "secret_paths",
    "outside_access_default"] [
    ("workspace_id", text),
    ("root_path", text),
    ("boundary_policy", oneOf ["deny_outside_workspace"]),
    ("secret_paths", texts),
    ("outside_access_default", oneOf ["deny"])]

def broker_command_envelope_schema : Contract :=
  closedObject ["envelope_id", "runtime_id", "operation", "capability_id", "permission_id",
    "approval_id", "audit_event_id", "recovery_id", "payload_hash", "dispatch_enabled",
    "metadata"] [
    ("envelope_id", text),
    ("runtime_id", text),
    ("operation", text),
    ("capability_id", text),
    ("permission_id", text),
    ("approval_id", text),
    ("audit_event_id", text),
    ("recovery_id", text),
    ("payload_hash", digest),
    ("dispatch_enabled", always false),
    ("metadata", openObject)]

def broker_error_schema : Contract :=
  closedObject ["code", "message", "recoverable", "audit_event_required", "fail_closed"] [
    ("code", oneOf ["broker_request_malformed", "broker_payload_hash_invalid",
      "broker_issued_at_invalid", "broker_persistence_unavailable", "broker_authentication_failed",
      "broker_ipc_malformed", "broker_request_oversized", "broker_audit_append_failed",
      "broker_stale_session", "broker_replay_detected", "broker_authority_metadata_rejected",
      "broker_authority_state_rejected", "broker_command_dispatch_disabled"]),
    ("message", text),
    ("recoverable", flag),
    ("audit_event_required", always true),
    ("fail_closed", always true)]

def broker_health_schema : Contract :=
  closedObject ["broker_id", "status", "boundary_role", "authority_cutover_status",
    "command_dispatch_enabled", "audit_append_enabled", "audit_persistence", "replay_persistence",
    "session_persistence", "persistence_required", "persistence_ready", "evidence_source"] [
    ("broker_id", text),
    ("status", oneOf ["ready", "degraded", "suspend"]),
    ("boundary_role", oneOf ["rust_security_broker_candidate"]),
    ("authority_cutover_status", oneOf ["not_active"]),
    ("command_dispatch_enabled", always false),
    ("audit_append_enabled", always true),
    ("audit_persistence", oneOf ["in_memory_skeleton", "durable_file_store"]),
    ("replay_persistence", oneOf ["in_memory_session_only", "durable_file_store"]),
    ("session_persistence", oneOf ["in_memory_session_only", "durable_file_store"]),
    ("persistence_required", flag),
    ("persistence_ready", flag),
    ("evidence_source", oneOf ["LIVE_RUNTIME", "INTERNAL_STATE"])]

def broker_session_schema : Contract :=
  closedObject ["session_id", "state", "issued_at", "expires_at", "evidence_source"] [
    ("session_id", text),
    ("state", oneOf ["active", "stale", "shutdown_requested"]),
    ("issued_at", text),
    ("expires_at", text),
    ("evidence_source", oneOf ["LIVE_RUNTIME", "INTERNAL_STATE"])]

def content_exposure_schema : Contract :=
  closedObject ["policy_id", "default_visibility", "allowed_visibility"] [
    ("policy_id", text),
    ("default_visibility", {
      type := .one "string"
      const := some (.text "none")
      enum := some ["none", "hash_only", "summary", "redacted", "full"] }),
    ("allowed_visibility", {
      type := .one "array"
      minItems := some 1
      items := some (oneOf ["none", "hash_only", "summary", "redacted", "full"]) }),
    ("redaction_required", flag)]

def diagnostic_schema : Contract :=
  closedObject ["diagnostic_id", "runtime_id", "status", "checks"] [
    ("diagnostic_id", text),
    ("runtime_id", text),
    ("status", oneOf ["pass", "warning", "fail", "unknown"]),
    ("checks", {
      type := .one "array"
      items := some (closedObject ["check_id", "status"] [
        ("check_id", anyText),
        ("status", oneOf ["pass", "warning", "fail", "unknown"]),
        ("message", anyText)]) })]

def framework_risk_profile_schema : Contract :=
  closedObject ["framework", "version", "risk_level", "governance_risk", "api_stability",
    "production_maturity", "desktop_priority", "mobile_priority", "migration_target",
    "review_interval_months", "exit_conditions"] [
    ("framework", oneOf ["Flutter", "ComposeMP", "Tauri", "Other"]),
    ("version", anyText),
    ("risk_level", oneOf ["low", "medium", "high"]),
    ("governance_risk", oneOf ["low", "medium", "high"]),
    ("api_stability", oneOf ["low", "medium", "high"]),
    ("production_maturity", oneOf ["low", "medium", "high"]),
    ("desktop_priority", oneOf ["low", "medium", "high"]),
    ("mobile_priority", oneOf ["low", "medium", "high"]),
    ("migration_target", oneOf ["ComposeMP", "Tauri", "Other"]),
    ("review_interval_months", { type := .one "integer", minimum := some 1 }),
    ("exit_conditions", texts)]

def ipc_request_schema : Contract :=
  closedObject ["request_id", "operation", "payload_hash", "nonce", "issued_at", "metadata"] [
    ("request_id", text),
    ("session_id", { type := .any ["string", "null"] }),
    ("operation", oneOf ["health", "shutdown", "command_envelope", "authority_evaluate",
      "authority_fixture_evaluate", "approval_edit", "content_projection", "audit_verify",
      "normalize_payload"]),
    ("payload_hash", digest),
    ("nonce", text),
    ("issued_at", text),
    ("metadata", openObject),
    ("payload", {})]

def ipc_response_schema : Contract :=
  closedObject ["request_id", "operation", "status", "evidence_source", "audit_event_id", "error",
    "health", "shutdown_requested"] [
    ("request_id", text),
    ("operation", oneOf ["health", "shutdown", "command_envelope", "authority_evaluate",
      "authority_fixture_evaluate", "approval_edit", "content_projection", "audit_verify",
      "normalize_payload"]),
    ("status", oneOf ["accepted", "rejected", "suspended"]),
    ("evidence_source", oneOf ["LIVE_RUNTIME", "INTERNAL_STATE"]),
    ("audit_event_id", text),
    ("error", { type := .any ["object", "null"] }),
    ("health", { type := .any ["object", "null"] }),
    ("body", { type := .any ["object", "array", "string", "number", "boolean", "null"] }),
    ("shutdown_requested", flag)]

def runtime_manifest_schema : Contract :=
  closedObject ["runtime_id", "display_name", "runtime_type", "supported_platforms",
    "required_tools", "required_ports", "storage_paths", "network_policy", "capabilities",
    "permissions", "audit_profile", "recovery_profile", "trust_profile", "signed_manifest"] [
    ("runtime_id", text),
    ("display_name", text),
    ("runtime_type", oneOf ["llm_runtime", "agent_runtime", "tool_runtime", "reference_runtime"]),
    ("supported_platforms", texts),
    ("required_tools", texts),
    ("required_ports", {
      type := .one "array"
      items := some { type := .one "integer", minimum := some 1 } }),
    ("storage_paths", texts),
    ("network_policy", oneOf ["localhost_only", "local_network", "external_allowed"]),
    ("capabilities", texts),
    ("permissions", texts),
    ("audit_profile", text),
    ("recovery_profile", text),
    ("trust_profile", oneOf ["untrusted", "local_user", "signed_local", "system"]),
    ("signed_manifest", always true)]

/-- The schemas, in the order of their names. -/
def specs : List (String × Contract) := [
  ("action_envelope.schema.json", action_envelope_schema),
  ("adapter.schema.json", adapter_schema),
  ("adapter_manifest.schema.json", adapter_manifest_schema),
  ("agent_diff.schema.json", agent_diff_schema),
  ("agent_runtime.schema.json", agent_runtime_schema),
  ("agent_session.schema.json", agent_session_schema),
  ("agent_task.schema.json", agent_task_schema),
  ("agent_tool_call.schema.json", agent_tool_call_schema),
  ("agent_workspace.schema.json", agent_workspace_schema),
  ("approval.schema.json", approval_schema),
  ("audit.schema.json", audit_schema),
  ("broker_command_envelope.schema.json", broker_command_envelope_schema),
  ("broker_error.schema.json", broker_error_schema),
  ("broker_health.schema.json", broker_health_schema),
  ("broker_session.schema.json", broker_session_schema),
  ("capability.schema.json", capability_schema),
  ("content_exposure.schema.json", content_exposure_schema),
  ("diagnostic.schema.json", diagnostic_schema),
  ("framework_risk_profile.schema.json", framework_risk_profile_schema),
  ("ipc_request.schema.json", ipc_request_schema),
  ("ipc_response.schema.json", ipc_response_schema),
  ("permission.schema.json", permission_schema),
  ("recovery.schema.json", recovery_schema),
  ("runtime.schema.json", runtime_schema),
  ("runtime_manifest.schema.json", runtime_manifest_schema),
  ("update.schema.json", update_schema)]

end shell_core
