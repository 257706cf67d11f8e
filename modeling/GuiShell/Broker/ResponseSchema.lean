-- The responses of the broker against ipc_response.schema.json.
import GuiShell.Broker.ResponseAudit
import GuiShell.Json.Schema

open json serde_json authority broker_audit files store

namespace protocol

variable {crates : Crates} {outside : Outside}

/-! ## The schema -/

def ipc_response_schema : Schema := .closed
  ["request_id", "operation", "status", "evidence_source", "audit_event_id", "error", "health",
    "shutdown_requested"]
  [("request_id", .text 1),
   ("operation", .enum ["health", "shutdown", "command_envelope", "authority_evaluate",
      "authority_fixture_evaluate", "approval_edit", "content_projection", "audit_verify",
      "normalize_payload"]),
   ("status", .enum ["accepted", "rejected", "suspended"]),
   ("evidence_source", .enum ["LIVE_RUNTIME", "INTERNAL_STATE"]),
   ("audit_event_id", .text 1),
   ("error", .types [.object, .null]),
   ("health", .types [.object, .null]),
   ("body", .types [.object, .array, .string, .number, .boolean, .null]),
   ("shutdown_requested", .types [.boolean])]

/-! ## The text of a response -/

def BrokerStatus.as_str : BrokerStatus → String
  | .Accepted => "accepted"
  | .Rejected => "rejected"
  | .Suspended => "suspended"

def BrokerHealth.value (health : BrokerHealth) : Value := .object [
  ("broker_id", .string health.broker_id),
  ("status", .string health.status),
  ("boundary_role", .string health.boundary_role),
  ("authority_cutover_status", .string health.authority_cutover_status),
  ("command_dispatch_enabled", .bool health.command_dispatch_enabled),
  ("audit_append_enabled", .bool health.audit_append_enabled),
  ("audit_persistence", .string health.audit_persistence),
  ("replay_persistence", .string health.replay_persistence),
  ("session_persistence", .string health.session_persistence),
  ("persistence_required", .bool health.persistence_required),
  ("persistence_ready", .bool health.persistence_ready),
  ("evidence_source", .string health.evidence_source)]

def BrokerError.value (error : BrokerError) : Value := .object [
  ("code", .string error.code),
  ("message", .string error.message),
  ("recoverable", .bool error.recoverable),
  ("audit_event_required", .bool error.audit_event_required),
  ("fail_closed", .bool error.fail_closed)]

/-- A field of type `Option`, where none is `null`. -/
def optionValue (v : Option Value) : Value := v.getD .null

def BrokerResponse.value (response : BrokerResponse) : Value := .object [
  ("request_id", .string response.request_id),
  ("operation", .string response.operation),
  ("status", .string response.status.as_str),
  ("evidence_source", .string response.evidence_source),
  ("audit_event_id", .string response.audit_event_id),
  ("error", optionValue (response.error.map BrokerError.value)),
  ("health", optionValue (response.health.map BrokerHealth.value)),
  ("body", optionValue response.body),
  ("shutdown_requested", .bool response.shutdown_requested)]

def BrokerResponse.to_json_string (response : BrokerResponse) : String := to_string response.value

/-- The text of the response parses as a value that the schema accepts. -/
def BrokerResponse.Conforms (response : BrokerResponse) : Prop :=
  ∃ v, parse response.to_json_string = some v ∧ ipc_response_schema.accepts v = true

/-! ## What the schema asks of a response -/

/-- The parts of a response that its type does not already keep in the schema. -/
structure BrokerResponse.Fits (response : BrokerResponse) : Prop where
  request_id : response.request_id ≠ ""
  operation : ∃ operation : BrokerOperation, response.operation = operation.as_str
  evidence_source : response.evidence_source = EVIDENCE_SOURCE_LIVE_RUNTIME ∨
    response.evidence_source = EVIDENCE_SOURCE_INTERNAL_STATE
  audit_event_id : response.audit_event_id ≠ ""

theorem one_le_length_iff (s : String) : 1 ≤ s.length ↔ s ≠ "" := by
  rw [Nat.one_le_iff_ne_zero, ne_eq, String.length_eq_zero_iff]

theorem as_str_mem_iff (name : String) :
    name ∈ ["health", "shutdown", "command_envelope", "authority_evaluate",
      "authority_fixture_evaluate", "approval_edit", "content_projection", "audit_verify",
      "normalize_payload"] ↔ ∃ operation : BrokerOperation, name = operation.as_str := by
  constructor
  · intro h
    simp only [List.mem_cons, List.not_mem_nil, or_false] at h
    rcases h with rfl | rfl | rfl | rfl | rfl | rfl | rfl | rfl | rfl
    · exact ⟨.Health, rfl⟩
    · exact ⟨.Shutdown, rfl⟩
    · exact ⟨.CommandEnvelope, rfl⟩
    · exact ⟨.AuthorityEvaluate, rfl⟩
    · exact ⟨.AuthorityFixtureEvaluate, rfl⟩
    · exact ⟨.ApprovalEdit, rfl⟩
    · exact ⟨.ContentProjection, rfl⟩
    · exact ⟨.AuditVerify, rfl⟩
    · exact ⟨.NormalizePayload, rfl⟩
  · rintro ⟨operation, rfl⟩
    cases operation <;> decide

theorem type_optionValue_error (error : Option BrokerError) :
    (optionValue (error.map BrokerError.value)).type ∈ [JsonType.object, .null] := by
  cases error <;> simp [optionValue, BrokerError.value, Value.type]

theorem type_optionValue_health (health : Option BrokerHealth) :
    (optionValue (health.map BrokerHealth.value)).type ∈ [JsonType.object, .null] := by
  cases health <;> simp [optionValue, BrokerHealth.value, Value.type]

theorem type_mem (v : Value) :
    v.type ∈ [JsonType.object, .array, .string, .number, .boolean, .null] := by
  cases v <;> simp [Value.type]

/-- The schema asks for the nine fields, each by its own schema. -/
theorem accepts_fields (request_id operation status evidence_source audit_event_id error health body
    shutdown_requested : Value) :
    ipc_response_schema.accepts (.object [("request_id", request_id), ("operation", operation),
      ("status", status), ("evidence_source", evidence_source), ("audit_event_id", audit_event_id),
      ("error", error), ("health", health), ("body", body),
      ("shutdown_requested", shutdown_requested)]) =
    (Schema.accepts (.text 1) request_id &&
      (Schema.accepts (.enum ["health", "shutdown", "command_envelope", "authority_evaluate",
          "authority_fixture_evaluate", "approval_edit", "content_projection", "audit_verify",
          "normalize_payload"]) operation &&
      (Schema.accepts (.enum ["accepted", "rejected", "suspended"]) status &&
      (Schema.accepts (.enum ["LIVE_RUNTIME", "INTERNAL_STATE"]) evidence_source &&
      (Schema.accepts (.text 1) audit_event_id &&
      (Schema.accepts (.types [.object, .null]) error &&
      (Schema.accepts (.types [.object, .null]) health &&
      (Schema.accepts (.types [.object, .array, .string, .number, .boolean, .null]) body &&
      (Schema.accepts (.types [.boolean]) shutdown_requested && true))))))))) := by
  unfold ipc_response_schema
  rw [Schema.accepts_closed]
  iterate 9 rw [Schema.acceptsFields_cons rfl]
  rw [Schema.acceptsFields_nil]
  rfl

theorem accepts_value (response : BrokerResponse) :
    ipc_response_schema.accepts response.value = true ↔ 1 ≤ response.request_id.length ∧
      response.operation ∈ ["health", "shutdown", "command_envelope", "authority_evaluate",
        "authority_fixture_evaluate", "approval_edit", "content_projection", "audit_verify",
        "normalize_payload"] ∧
      response.evidence_source ∈ ["LIVE_RUNTIME", "INTERNAL_STATE"] ∧
      1 ≤ response.audit_event_id.length := by
  have hstatus : response.status.as_str ∈ ["accepted", "rejected", "suspended"] := by
    cases response.status <;> decide
  have hshutdown : Value.type (.bool response.shutdown_requested) ∈ [JsonType.boolean] :=
    List.mem_singleton_self _
  unfold BrokerResponse.value
  rw [accepts_fields]
  simp only [Schema.accepts_text, Schema.accepts_enum, Schema.accepts_types, Bool.and_eq_true,
    decide_eq_true_eq, and_true]
  constructor
  · rintro ⟨hid, hop, _, hsource, hevent, _⟩
    exact ⟨hid, hop, hsource, hevent⟩
  · rintro ⟨hid, hop, hsource, hevent⟩
    exact ⟨hid, hop, hstatus, hsource, hevent, type_optionValue_error _, type_optionValue_health _,
      type_mem _, hshutdown⟩

/-- The schema accepts the text of a response that fits, and no other. -/
theorem conforms_iff (response : BrokerResponse) : response.Conforms ↔ response.Fits := by
  have hconforms : response.Conforms ↔ ipc_response_schema.accepts response.value = true := by
    unfold BrokerResponse.Conforms BrokerResponse.to_json_string
    rw [parse_to_string]
    simp
  rw [hconforms, accepts_value]
  simp only [one_le_length_iff, as_str_mem_iff]
  constructor
  · rintro ⟨hid, hop, hsource, hevent⟩
    refine ⟨hid, hop, ?_, hevent⟩
    simpa [EVIDENCE_SOURCE_LIVE_RUNTIME, EVIDENCE_SOURCE_INTERNAL_STATE] using hsource
  · rintro ⟨hid, hop, hsource, hevent⟩
    refine ⟨hid, hop, ?_, hevent⟩
    rcases hsource with h | h <;> rw [h] <;> decide

namespace World

/-! ## The responses of a call -/

/-- The response fits but for what it echoes of the request. -/
structure Echoes (request_id operation : String) (response : BrokerResponse) : Prop where
  request_id : response.request_id = request_id
  operation : response.operation = operation
  evidence_source : response.evidence_source = EVIDENCE_SOURCE_LIVE_RUNTIME ∨
    response.evidence_source = EVIDENCE_SOURCE_INTERNAL_STATE
  audit_event_id : response.audit_event_id ≠ ""

theorem Echoes.fits_iff {request_id operation : String} {response : BrokerResponse}
    (h : Echoes request_id operation response) :
    response.Fits ↔ request_id ≠ "" ∧ ∃ op : BrokerOperation, operation = op.as_str := by
  constructor
  · exact fun hfits => ⟨h.request_id ▸ hfits.request_id, h.operation ▸ hfits.operation⟩
  · rintro ⟨hid, hop⟩
    exact ⟨h.request_id ▸ hid, h.operation ▸ hop, h.evidence_source, h.audit_event_id⟩

theorem event_id_ne_empty (log : BrokerAuditLog crates.sha256) (entry : AuditEntry) :
    (log.build_next entry).event_id ≠ "" := by
  change event_id _ ≠ ""
  unfold event_id
  simp

theorem failed.echoes (broker : Broker crates) (request_id operation code message : String) :
    Echoes request_id operation
      (broker.audit_store_failed_response request_id operation code message) :=
  ⟨rfl, rfl, .inr rfl, by simp [Broker.audit_store_failed_response]⟩

/-- An exit that audits echoes the request when its response does. -/
theorem audited.echoes {request_id operation : String} {w : World crates} {entry : AuditEntry}
    {respond : Broker crates → BrokerAuditEvent → BrokerResponse}
    (hid : entry.request_id = request_id) (hop : entry.operation = operation)
    (h : ∀ broker event, event.event_id ≠ "" →
      Echoes request_id operation (respond broker event)) :
    Echoes request_id operation (w.audited outside entry respond).1 := by
  subst hid hop
  exact audited.rule (P := fun r _ => Echoes entry.request_id entry.operation r)
    (fun _ => h _ _ (event_id_ne_empty _ _)) fun _ => failed.echoes _ _ _ _ _

theorem reject.echoes (w : World crates) (request_id operation code message : String)
    (recoverable : Bool) (payload_hash : String) :
    Echoes request_id operation (w.reject_with_payload_hash outside request_id operation code
      message recoverable payload_hash).1 := by
  unfold reject_with_payload_hash
  refine audited.echoes rfl rfl fun _ _ hevent => ?_
  exact ⟨rfl, rfl, .inr rfl, hevent⟩

theorem suspend_health.echoes (w : World crates) (request_id payload_hash : String) :
    Echoes request_id BrokerOperation.Health.as_str
      (w.suspend_health outside request_id payload_hash).1 := by
  unfold suspend_health
  refine audited.echoes rfl rfl fun _ _ hevent => ?_
  exact ⟨rfl, rfl, .inr rfl, hevent⟩

theorem dispatch.echoes (w : World crates) (operation : BrokerOperation)
    (envelope : BrokerRequestEnvelope) :
    Echoes envelope.requestId operation.as_str (w.dispatch outside operation envelope).1 := by
  cases operation with
  | Health | Shutdown | ApprovalEdit | ContentProjection | AuditVerify | NormalizePayload =>
    unfold dispatch
    refine audited.echoes rfl rfl fun _ _ hevent => ?_
    exact ⟨rfl, rfl, .inl rfl, hevent⟩
  | CommandEnvelope | AuthorityFixtureEvaluate =>
    unfold dispatch
    refine audited.echoes rfl rfl fun _ _ hevent => ?_
    exact ⟨rfl, rfl, .inr rfl, hevent⟩
  | AuthorityEvaluate =>
    unfold dispatch
    dsimp only
    split
    · exact reject.echoes _ _ _ _ _ _ _
    · refine audited.echoes rfl rfl fun _ _ hevent => ?_
      exact ⟨rfl, rfl, .inr rfl, hevent⟩

/-- The gate of a suspended store lets nothing but health through to its response. -/
theorem operation_of_suspend_health {broker : Broker crates} {envelope : BrokerRequestEnvelope}
    {clock : I64} (h : broker.gate envelope clock = .suspend_health) :
    envelope.operation = some .Health := by
  unfold Broker.gate at h
  split_ifs at h
  assumption

theorem handle.echoes (w : World crates) (envelope : BrokerRequestEnvelope) :
    Echoes envelope.requestId envelope.operationName (w.handle outside envelope).1 := by
  obtain ⟨course, hcourse, hhandled⟩ := handle_cases outside w envelope
  rw [hcourse]
  cases hhandled with
  | rejected | claimed | unrecorded => exact reject.echoes _ _ _ _ _ _ _
  | unavailable => exact failed.echoes _ _ _ _ _
  | suspended h =>
    rw [BrokerRequestEnvelope.operationName, operation_of_suspend_health h]
    exact suspend_health.echoes w _ _
  | dispatched _ _ _ hop =>
    rw [BrokerRequestEnvelope.operationName, hop]
    exact dispatch.echoes _ _ envelope

/-- The call brings an envelope with an operation and no empty request id. -/
def Named (crates : Crates) (c : Call) : Prop :=
  ∃ envelope, c.envelope crates = some envelope ∧ envelope.request_id ≠ some "" ∧
    envelope.operation ≠ none

theorem unknown_ne_as_str (operation : BrokerOperation) : "unknown" ≠ operation.as_str := by
  cases operation <;> decide

/-- The responses that conform are those to calls that name themselves. -/
theorem response_conforms_iff (outside : Outside) (w : World crates) (c : Call) :
    (w.call outside c).1.Conforms ↔ Named crates c := by
  rw [conforms_iff]
  generalize hr : w.call outside c = r
  have hcalled := call_cases outside w c
  rw [hr] at hcalled
  have hunknown : c.envelope crates = none → ¬ Named crates c := by
    rintro hnone ⟨envelope, henvelope, _⟩
    rw [hnone] at henvelope
    cases henvelope
  cases hcalled with
  | malformed _ hnone | ipc _ hnone =>
    refine iff_of_false (fun hfits => ?_) (hunknown hnone)
    obtain ⟨op, hop⟩ := hfits.operation
    exact unknown_ne_as_str op ((reject.echoes w _ _ _ _ _ _).operation.symm.trans hop)
  | @envelope envelope henvelope =>
    rw [(handle.echoes w envelope).fits_iff]
    have hnamed : Named crates c ↔ envelope.request_id ≠ some "" ∧ envelope.operation ≠ none := by
      constructor
      · rintro ⟨envelope', henvelope', hnamed⟩
        obtain rfl := Option.some.inj (henvelope.symm.trans henvelope')
        exact hnamed
      · exact fun h => ⟨envelope, henvelope, h⟩
    rw [hnamed]
    refine and_congr ?_ ?_
    · unfold BrokerRequestEnvelope.requestId
      cases envelope.request_id <;> simp
    · unfold BrokerRequestEnvelope.operationName
      rcases envelope.operation with _ | operation
      · simp [unknown_ne_as_str]
      · simp

/-- The response to a request with an empty id echoes it. -/
theorem not_conforms_of_empty_id {w : World crates} {envelope : BrokerRequestEnvelope}
    (h : envelope.request_id = some "") : ¬ (w.call outside (.handle envelope)).1.Conforms := by
  intro hconforms
  apply ((conforms_iff _).mp hconforms).request_id
  rw [call, (handle.echoes w envelope).request_id, BrokerRequestEnvelope.requestId, h]
  rfl

theorem empty_request_id_does_not_conform :
    ¬ (firstWorld.call calm
      (.handle { request .Health "nonce-1" [] with request_id := some "" })).1.Conforms := by
  apply not_conforms_of_empty_id
  rfl

end World

end protocol
