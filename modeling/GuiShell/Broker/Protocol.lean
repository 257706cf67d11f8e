-- The request protocol of the broker (broker/protocol.rs): the envelopes, the gates of
-- `handle`, the operations behind them, and the audit event that each response rests on.
import GuiShell.Broker.Authority
import GuiShell.Broker.AuthorityChain
import GuiShell.Broker.AuthorityNormalize
import GuiShell.Broker.Store
import GuiShell.Broker.Time

open json serde_json authority broker_audit files store

namespace protocol

def EVIDENCE_SOURCE_LIVE_RUNTIME : String := "LIVE_RUNTIME"

def EVIDENCE_SOURCE_INTERNAL_STATE : String := "INTERNAL_STATE"

def BROKER_ID : String := "gui-shell-rust-broker"

def REQUEST_FRESHNESS_WINDOW_SECONDS : Nat := 300

def ZERO_PAYLOAD_HASH : String :=
  "sha256:0000000000000000000000000000000000000000000000000000000000000000"

/-! ## Envelopes -/

inductive BrokerOperation where
  | Health | Shutdown | CommandEnvelope | AuthorityEvaluate | AuthorityFixtureEvaluate
  | ApprovalEdit | ContentProjection | AuditVerify | NormalizePayload
  deriving DecidableEq

namespace BrokerOperation

def as_str : BrokerOperation → String
  | Health => "health"
  | Shutdown => "shutdown"
  | CommandEnvelope => "command_envelope"
  | AuthorityEvaluate => "authority_evaluate"
  | AuthorityFixtureEvaluate => "authority_fixture_evaluate"
  | ApprovalEdit => "approval_edit"
  | ContentProjection => "content_projection"
  | AuditVerify => "audit_verify"
  | NormalizePayload => "normalize_payload"

def all : List BrokerOperation :=
  [Health, Shutdown, CommandEnvelope, AuthorityEvaluate, AuthorityFixtureEvaluate, ApprovalEdit,
    ContentProjection, AuditVerify, NormalizePayload]

/-- The variant of a name. The names of the variants in a JSON text are those of `as_str`. -/
def ofName (name : String) : Option BrokerOperation := all.find? fun operation =>
  operation.as_str = name

end BrokerOperation

structure BrokerRequestEnvelope where
  request_id : Option String
  session_id : Option String
  operation : Option BrokerOperation
  payload_hash : Option String
  nonce : Option String
  issued_at : Option String
  metadata : List BrokerMetadata
  metadata_present : Bool
  payload : Option Value

/-- A unit variant: its name, or an object of its name and `null`. -/
def asOptionOperation : Option Value → Option (Option BrokerOperation)
  | none | some .null => some none
  | some (.string name) => (BrokerOperation.ofName name).map some
  | some (.object [(name, .null)]) => (BrokerOperation.ofName name).map some
  | _ => none

def asOptionMetadata (f64 : List Char → Option FloatText) :
    Option Value → Option (Option (List BrokerMetadata))
  | none | some .null => some none
  | some (.object fields) => do
    let fields ← fieldsOf f64 fields
    some (some ((sorted_map.ofList fields).map fun e => ⟨e.1, json_metadata_value e.2⟩))
  | _ => none

def asOptionValue (f64 : List Char → Option FloatText) : Option Value → Option (Option Value)
  | none => some none
  | some v => (valueOf f64 v).map optionOf

def envelopeFields : List String :=
  ["request_id", "session_id", "operation", "payload_hash", "nonce", "issued_at", "metadata",
    "payload"]

/-- The record has no field of another name. -/
def deniesUnknown : Value → Bool
  | .object fields => fields.all fun e => e.1 ∈ envelopeFields
  | _ => true

def from_json_str (crates : Crates) (input : String) : Option BrokerRequestEnvelope := do
  let v ← parse input
  if v.depth ≤ MAX_DEPTH ∧ deniesUnknown v then
    match ← recordFields envelopeFields v with
    | [request_id, session_id, operation, payload_hash, nonce, issued_at, metadata, payload] => do
      let request_id ← asOptionString request_id
      let session_id ← asOptionString session_id
      let operation ← asOptionOperation operation
      let payload_hash ← asOptionString payload_hash
      let nonce ← asOptionString nonce
      let issued_at ← asOptionString issued_at
      let metadata ← asOptionMetadata crates.f64 metadata
      let payload ← asOptionValue crates.f64 payload
      some { request_id, session_id, operation, payload_hash, nonce, issued_at,
             metadata := metadata.getD [], metadata_present := metadata.isSome, payload }
    | _ => none
  else none

/-! ## Responses -/

structure BrokerHealth where
  broker_id : String
  status : String
  boundary_role : String
  authority_cutover_status : String
  command_dispatch_enabled : Bool
  audit_append_enabled : Bool
  audit_persistence : String
  replay_persistence : String
  session_persistence : String
  persistence_required : Bool
  persistence_ready : Bool
  evidence_source : String
  deriving DecidableEq

structure BrokerError where
  code : String
  message : String
  recoverable : Bool
  audit_event_required : Bool
  fail_closed : Bool
  deriving DecidableEq

inductive BrokerStatus where
  | Accepted | Rejected | Suspended
  deriving DecidableEq

structure BrokerResponse where
  request_id : String
  operation : String
  status : BrokerStatus
  evidence_source : String
  audit_event_id : String
  error : Option BrokerError
  health : Option BrokerHealth
  body : Option Value
  shutdown_requested : Bool
  deriving DecidableEq

def error (code message : String) (recoverable : Bool) : BrokerError where
  code := code
  message := message
  recoverable := recoverable
  audit_event_required := true
  fail_closed := true

/-! ## The broker -/

/-- The state store of a broker. Only the durable mode holds a store. -/
inductive BrokerStateStore where
  | in_memory_skeleton
  | persistent_required_unavailable
  | durable_file_store (store : BrokerPersistentStore)
  deriving DecidableEq

namespace BrokerStateStore

def persistence_required : BrokerStateStore → Bool
  | in_memory_skeleton => false
  | persistent_required_unavailable | durable_file_store _ => true

def persistence_ready : BrokerStateStore → Bool
  | durable_file_store _ => true
  | in_memory_skeleton | persistent_required_unavailable => false

def health_status (s : BrokerStateStore) : String :=
  if s.persistence_required && !s.persistence_ready then "suspend" else "ready"

def audit_persistence (s : BrokerStateStore) : String :=
  if s.persistence_ready then "durable_file_store" else "in_memory_skeleton"

def replay_persistence (s : BrokerStateStore) : String :=
  if s.persistence_ready then "durable_file_store" else "in_memory_session_only"

def session_persistence (s : BrokerStateStore) : String :=
  if s.persistence_ready then "durable_file_store" else "in_memory_session_only"

def unavailable_message : String :=
  "persistent audit, replay, and session state are required but unavailable"

end BrokerStateStore

structure Broker (crates : Crates) where
  session_id : String
  seen_nonces : SortedMap String I64
  audit_log : BrokerAuditLog crates.sha256
  authority_registry : BrokerAuthorityRegistry
  shutdown_requested : Bool
  current_epoch_seconds_override : Option I64
  state_store : BrokerStateStore

/-- A broker and the files of its store. `history` has no part in what the broker does: it
holds the outcome of every call of `append_audit`. -/
structure World (crates : Crates) where
  broker : Broker crates
  disk : Disk StoreFile
  history : List (Except BrokerStoreError BrokerAuditEvent)

/-- What a call meets outside: the file operations that fail, the clock that the freshness
gate reads, and the clock that is recorded with the nonce. -/
structure Outside where
  faults : Faults StoreFile
  gate_clock : I64
  record_clock : I64

variable {crates : Crates}

namespace Broker

/-- `Broker::new`. -/
def new (crates : Crates) (session_id : String) : Broker crates where
  session_id := session_id
  seen_nonces := .empty
  audit_log := .default
  authority_registry := .production_default
  shutdown_requested := false
  current_epoch_seconds_override := none
  state_store := .in_memory_skeleton

/-- `Broker::new_persistent`, on a disk. -/
def new_persistent (crates : Crates) (faults : Faults StoreFile) (session_id : String) (now : I64)
    (random : Except String { key : Bytes // key.length = 32 }) :
    StoreM (Broker crates) := do
  let (persistent_store, persistent_state) ← open_or_create crates faults session_id now random
  return { Broker.new crates session_id with
    seen_nonces := persistent_state.seen_nonces
    audit_log := persistent_state.audit_log
    state_store := .durable_file_store persistent_store }

def current_epoch_seconds (broker : Broker crates) (clock : I64) : I64 :=
  broker.current_epoch_seconds_override.getD clock

def health (broker : Broker crates) (evidence_source : String) : BrokerHealth where
  broker_id := BROKER_ID
  status := broker.state_store.health_status
  boundary_role := "rust_security_broker_candidate"
  authority_cutover_status := "not_active"
  command_dispatch_enabled := false
  audit_append_enabled := true
  audit_persistence := broker.state_store.audit_persistence
  replay_persistence := broker.state_store.replay_persistence
  session_persistence := broker.state_store.session_persistence
  persistence_required := broker.state_store.persistence_required
  persistence_ready := broker.state_store.persistence_ready
  evidence_source := evidence_source

def audit_store_failed_response (broker : Broker crates) (request_id operation code message : String) :
    BrokerResponse where
  request_id := request_id
  operation := operation
  status := .Suspended
  evidence_source := EVIDENCE_SOURCE_INTERNAL_STATE
  audit_event_id := "broker-audit-unavailable"
  error := some (error code message true)
  health := none
  body := none
  shutdown_requested := broker.shutdown_requested

end Broker

/-- `append_audit_event` of the state store. -/
def storeAuditEvent (crates : Crates) (faults : Faults StoreFile) (state_store : BrokerStateStore)
    (event : BrokerAuditEvent) : StoreM Unit :=
  match state_store with
  | .durable_file_store store => append_audit_event crates faults store event
  | _ => pure ()

/-- `append_replay_nonce` of the state store. -/
def storeReplayNonce (crates : Crates) (faults : Faults StoreFile) (state_store : BrokerStateStore)
    (nonce : String) (recorded_at_epoch_seconds : I64) :
    StoreM (Option (SortedMap String I64)) :=
  match state_store with
  | .durable_file_store _ => do
    return some (← append_replay_nonce crates faults nonce recorded_at_epoch_seconds)
  | _ => pure none

namespace World

variable (outside : Outside)

def append_audit (w : World crates) (entry : AuditEntry) :
    Except BrokerStoreError BrokerAuditEvent × World crates :=
  let event := w.broker.audit_log.build_next entry
  match storeAuditEvent crates outside.faults w.broker.state_store event w.disk with
  | .error e disk => (.error e, { w with disk, history := w.history ++ [.error e] })
  | .ok () disk =>
    match w.broker.audit_log.push_verified event with
    | .error message =>
      (.error (.TamperedAuditState message),
        { w with disk, history := w.history ++ [.error (.TamperedAuditState message)] })
    | .ok audit_log =>
      (.ok event,
        { broker := { w.broker with audit_log }, disk, history := w.history ++ [.ok event] })

def record_nonce (w : World crates) (nonce : String) : Except BrokerStoreError Unit × World crates :=
  match storeReplayNonce crates outside.faults w.broker.state_store nonce outside.record_clock
      w.disk with
  | .error e disk => (.error e, { w with disk })
  | .ok (some nonces) disk =>
    (.ok (), { w with broker := { w.broker with seen_nonces := nonces }, disk })
  | .ok none disk =>
    (.ok (), { w with
      broker := { w.broker with
        seen_nonces := w.broker.seen_nonces.insert nonce outside.record_clock }
      disk })

/-! ## The responses behind an audit event -/

/-- Appends the event of `entry` and responds. When the append fails, the response says
that the audit store failed. -/
def audited (w : World crates) (entry : AuditEntry)
    (respond : Broker crates → BrokerAuditEvent → BrokerResponse) :
    BrokerResponse × World crates :=
  match w.append_audit outside entry with
  | (.ok event, w) => (respond w.broker event, w)
  | (.error error, w) =>
    (w.broker.audit_store_failed_response entry.request_id entry.operation
      "broker_audit_append_failed" error.message, w)

def accept_health (w : World crates) (request_id payload_hash : String) :
    BrokerResponse × World crates :=
  w.audited outside
    { request_id
      operation := BrokerOperation.Health.as_str
      decision := "accepted"
      reason := "health status returned"
      evidence_source := EVIDENCE_SOURCE_LIVE_RUNTIME
      payload_hash }
    fun broker audit_event =>
      { request_id
        operation := BrokerOperation.Health.as_str
        status := .Accepted
        evidence_source := EVIDENCE_SOURCE_LIVE_RUNTIME
        audit_event_id := audit_event.event_id
        error := none
        health := some (broker.health EVIDENCE_SOURCE_LIVE_RUNTIME)
        body := none
        shutdown_requested := false }

def suspend_health (w : World crates) (request_id payload_hash : String) :
    BrokerResponse × World crates :=
  w.audited outside
    { request_id
      operation := BrokerOperation.Health.as_str
      decision := "suspended"
      reason := "broker_persistence_unavailable"
      evidence_source := EVIDENCE_SOURCE_INTERNAL_STATE
      payload_hash }
    fun broker audit_event =>
      { request_id
        operation := BrokerOperation.Health.as_str
        status := .Suspended
        evidence_source := EVIDENCE_SOURCE_INTERNAL_STATE
        audit_event_id := audit_event.event_id
        error := some (error "broker_persistence_unavailable"
          BrokerStateStore.unavailable_message true)
        health := some (broker.health EVIDENCE_SOURCE_INTERNAL_STATE)
        body := none
        shutdown_requested := false }

/-- The flag is set before the event is appended. -/
def accept_shutdown (w : World crates) (request_id payload_hash : String) :
    BrokerResponse × World crates :=
  audited outside { w with broker := { w.broker with shutdown_requested := true } }
    { request_id
      operation := BrokerOperation.Shutdown.as_str
      decision := "accepted"
      reason := "shutdown requested"
      evidence_source := EVIDENCE_SOURCE_LIVE_RUNTIME
      payload_hash }
    fun _ audit_event =>
      { request_id
        operation := BrokerOperation.Shutdown.as_str
        status := .Accepted
        evidence_source := EVIDENCE_SOURCE_LIVE_RUNTIME
        audit_event_id := audit_event.event_id
        error := none
        health := none
        body := none
        shutdown_requested := true }

end World

/-! ### What a command would need -/

mutual
def collect_target_text : Value → List Char
  | .object object => targetTextOfFields object
  | .array items => targetTextOfItems items
  | .string value => ' ' :: value.toList
  | _ => []
def targetTextOfItems : List Value → List Char
  | [] => []
  | item :: items => collect_target_text item ++ targetTextOfItems items
def targetTextOfFields : List (String × Value) → List Char
  | [] => []
  | (key, value) :: fields =>
    ' ' :: key.toList ++ collect_target_text value ++ targetTextOfFields fields
end

def command_target_kind (payload : Value) : String :=
  let action := (payload.get "action").getD payload
  let text := (["operation", "capability_id", "permission_id", "runtime_id", "command",
    "target"].flatMap fun key =>
      match strField action key with
      | some value => ' ' :: value.toList
      | none => []) ++ ((action.get "payload").map collect_target_text).getD []
  let lowered := text.map Char.toLower
  let contains (word : String) : Bool := lowered.tails.any word.toList.isPrefixOf
  if contains "credential" || contains "keychain" || contains "secret" then "credential"
  else if contains "update" || contains "installer" then "update"
  else if contains "process" || contains "spawn" || contains "execute" || contains "command" then
    "process"
  else if contains "filesystem" then "filesystem"
  else if contains "network" then "network"
  else if contains "runtime" then "runtime"
  else "unknown"

def execution_gate_state (target_kind gate : String) : String :=
  if target_kind = gate then "suspended" else "not_requested"

def json_command_eligibility (crates : Crates) (payload : Value)
    (registry : BrokerAuthorityRegistry) : Value :=
  let target_kind := command_target_kind payload
  .mkObject [
    ("dispatch_enabled", .bool false),
    ("dispatch_decision", .string "suspended"),
    ("dispatch_reason", .string "broker_command_dispatch_disabled"),
    ("execution_gate", .mkObject [
      ("status", .string "suspended"),
      ("target_kind", .string target_kind),
      ("dispatch", .string "suspended"),
      ("process", .string (execution_gate_state target_kind "process")),
      ("credential", .string (execution_gate_state target_kind "credential")),
      ("update", .string (execution_gate_state target_kind "update")),
      ("required_before_dispatch", .array [
        .string "capability_permission_approval_audit_recovery_eligibility",
        .string "process_execution_gate",
        .string "credential_access_gate",
        .string "update_signature_gate",
        .string "installed_product_evidence"])]),
    ("eligibility", evaluate_broker_authority crates registry payload)]

namespace World

variable (outside : Outside)

def suspend_command (w : World crates) (request_id : String) (payload : Value)
    (payload_hash : String) : BrokerResponse × World crates :=
  w.audited outside
    { request_id
      operation := BrokerOperation.CommandEnvelope.as_str
      decision := "suspended"
      reason := "external command dispatch disabled in broker skeleton"
      evidence_source := EVIDENCE_SOURCE_INTERNAL_STATE
      payload_hash }
    fun broker audit_event =>
      { request_id
        operation := BrokerOperation.CommandEnvelope.as_str
        status := .Suspended
        evidence_source := EVIDENCE_SOURCE_INTERNAL_STATE
        audit_event_id := audit_event.event_id
        error := some (error "broker_command_dispatch_disabled"
          "external command dispatch is disabled until authority migration tests pass" true)
        health := none
        body := some (json_command_eligibility crates payload broker.authority_registry)
        shutdown_requested := broker.shutdown_requested }

def accept_authority_decision (w : World crates) (request_id : String) (body : Value)
    (payload_hash : String) : BrokerResponse × World crates :=
  w.audited outside
    { request_id
      operation := BrokerOperation.AuthorityEvaluate.as_str
      decision := (strField body "decision").getD "denied"
      reason := "broker-owned authority decision evaluated"
      evidence_source := EVIDENCE_SOURCE_INTERNAL_STATE
      payload_hash }
    fun broker audit_event =>
      { request_id
        operation := BrokerOperation.AuthorityEvaluate.as_str
        status := .Accepted
        evidence_source := EVIDENCE_SOURCE_INTERNAL_STATE
        audit_event_id := audit_event.event_id
        error := none
        health := none
        body := some body
        shutdown_requested := broker.shutdown_requested }

def accept_body_with_evidence (w : World crates) (request_id : String)
    (operation : BrokerOperation) (body : Value) (evidence_source payload_hash : String) :
    BrokerResponse × World crates :=
  w.audited outside
    { request_id
      operation := operation.as_str
      decision := "accepted"
      reason := "broker authority operation evaluated"
      evidence_source
      payload_hash }
    fun broker audit_event =>
      { request_id
        operation := operation.as_str
        status := .Accepted
        evidence_source
        audit_event_id := audit_event.event_id
        error := none
        health := none
        body := some body
        shutdown_requested := broker.shutdown_requested }

def accept_body (w : World crates) (request_id : String) (operation : BrokerOperation)
    (body : Value) (payload_hash : String) : BrokerResponse × World crates :=
  w.accept_body_with_evidence outside request_id operation body EVIDENCE_SOURCE_LIVE_RUNTIME
    payload_hash

def reject_with_payload_hash (w : World crates) (request_id operation code message : String)
    (recoverable : Bool) (payload_hash : String) : BrokerResponse × World crates :=
  w.audited outside
    { request_id
      operation
      decision := "rejected"
      reason := code
      evidence_source := EVIDENCE_SOURCE_INTERNAL_STATE
      payload_hash }
    fun broker audit_event =>
      { request_id
        operation
        status := .Rejected
        evidence_source := EVIDENCE_SOURCE_INTERNAL_STATE
        audit_event_id := audit_event.event_id
        error := some (error code message recoverable)
        health := none
        body := none
        shutdown_requested := broker.shutdown_requested }

def reject (w : World crates) (request_id operation code message : String) (recoverable : Bool) :
    BrokerResponse × World crates :=
  w.reject_with_payload_hash outside request_id operation code message recoverable ZERO_PAYLOAD_HASH

end World

/-! ## The gates -/

def is_tagged_sha256 (value : String) : Bool :=
  (utf8.encode value).length = 71 && "sha256:".toList.isPrefixOf value.toList &&
    ((utf8.encode value).drop 7).all fun byte =>
      (48 ≤ byte && byte ≤ 57) || (97 ≤ byte && byte ≤ 102)

def issued_at_is_fresh (value : String) (current_epoch_seconds : I64) : Bool :=
  match parse_issued_at_epoch_seconds value with
  | none => false
  | some issued_epoch_seconds =>
    (issued_epoch_seconds - current_epoch_seconds.val).natAbs ≤ REQUEST_FRESHNESS_WINDOW_SECONDS

namespace BrokerRequestEnvelope

/-- The id and the operation that the responses name. -/
def requestId (envelope : BrokerRequestEnvelope) : String :=
  envelope.request_id.getD "malformed-request"

def operationName (envelope : BrokerRequestEnvelope) : String :=
  (envelope.operation.map BrokerOperation.as_str).getD "unknown"

def payloadHash (envelope : BrokerRequestEnvelope) : String := envelope.payload_hash.getD ""

def nonceText (envelope : BrokerRequestEnvelope) : String := envelope.nonce.getD ""

/-- A required field is missing or empty. -/
def isMalformed (envelope : BrokerRequestEnvelope) : Bool :=
  envelope.request_id.getD "" = "" || envelope.operation.isNone ||
    envelope.payload_hash.getD "" = "" || envelope.issued_at.getD "" = "" ||
    envelope.nonce.getD "" = "" || !envelope.metadata_present

end BrokerRequestEnvelope

/-- What the gates of `handle` before the nonce is recorded come to. -/
inductive Gate where
  | reject (code message payload_hash : String)
  | suspend_health
  | pass
  deriving DecidableEq

/-- The gates, in their order. They change nothing. -/
def Broker.gate (broker : Broker crates) (envelope : BrokerRequestEnvelope) (clock : I64) : Gate :=
  if envelope.isMalformed then
    .reject "broker_request_malformed" "broker request envelope is missing required fields"
      ZERO_PAYLOAD_HASH
  else if !is_tagged_sha256 envelope.payloadHash then
    .reject "broker_payload_hash_invalid" "payload_hash must be tagged sha256" ZERO_PAYLOAD_HASH
  else if envelope.payloadHash ≠ canonical_payload_hash crates.sha256 envelope.payload then
    .reject "broker_payload_hash_mismatch" "payload_hash must match the canonical request payload"
      envelope.payloadHash
  else if !issued_at_is_fresh (envelope.issued_at.getD "") (broker.current_epoch_seconds clock) then
    .reject "broker_issued_at_invalid"
      "issued_at must be RFC3339 and within the broker freshness window" envelope.payloadHash
  else if broker.state_store.persistence_required && !broker.state_store.persistence_ready then
    if envelope.operation = some .Health then .suspend_health
    else .reject "broker_persistence_unavailable" BrokerStateStore.unavailable_message
      envelope.payloadHash
  else if envelope.operation ≠ some .Health ∧ envelope.session_id ≠ some broker.session_id then
    .reject "broker_stale_session" "broker session is missing or stale" envelope.payloadHash
  else if broker.seen_nonces.contains_key envelope.nonceText then
    .reject "broker_replay_detected" "broker request nonce was replayed" envelope.payloadHash
  else .pass

namespace World

variable (outside : Outside)

/-- The operations. -/
def dispatch (w : World crates) (operation : BrokerOperation) (envelope : BrokerRequestEnvelope) :
    BrokerResponse × World crates :=
  let request_id := envelope.requestId
  let payload_hash := envelope.payloadHash
  let payload := envelope.payload.getD .null
  match operation with
  | .Health => w.accept_health outside request_id payload_hash
  | .Shutdown => w.accept_shutdown outside request_id payload_hash
  | .CommandEnvelope => w.suspend_command outside request_id payload payload_hash
  | .AuthorityEvaluate =>
    if (payload.get "state").isSome then
      w.reject_with_payload_hash outside request_id BrokerOperation.AuthorityEvaluate.as_str
        "broker_authority_state_rejected"
        "production authority evaluation does not accept caller-supplied state" true payload_hash
    else
      w.accept_authority_decision outside request_id
        (evaluate_broker_authority crates w.broker.authority_registry payload) payload_hash
  | .AuthorityFixtureEvaluate =>
    w.accept_body_with_evidence outside request_id .AuthorityFixtureEvaluate
      (evaluate_authority crates payload) EVIDENCE_SOURCE_INTERNAL_STATE payload_hash
  | .ApprovalEdit =>
    w.accept_body outside request_id .ApprovalEdit (edit_approval crates payload) payload_hash
  | .ContentProjection =>
    w.accept_body outside request_id .ContentProjection (project_approval_content payload)
      payload_hash
  | .AuditVerify =>
    w.accept_body outside request_id .AuditVerify (verify_audit_chain crates.sha256 payload)
      payload_hash
  | .NormalizePayload =>
    w.accept_body outside request_id .NormalizePayload (normalize_inbound_payload crates payload)
      payload_hash

/-- What a broker does with a request that has come through the gates. -/
abbrev Operations (crates : Crates) : Type :=
  World crates → BrokerOperation → BrokerRequestEnvelope → BrokerResponse × World crates

/-- What `handle` does once the gates have passed: the nonce is recorded, and the operation
is dispatched unless the metadata claims authority. -/
def handleAdmitted (operations : Operations crates) (w : World crates)
    (envelope : BrokerRequestEnvelope) : BrokerResponse × World crates :=
  let request_id := envelope.requestId
  let operation := envelope.operationName
  if metadata_attempts_authority crates envelope.metadata then
    match w.record_nonce outside envelope.nonceText with
    | (.error error, w) =>
      (w.broker.audit_store_failed_response request_id operation "broker_persistence_unavailable"
        error.message, w)
    | (.ok (), w) =>
      w.reject_with_payload_hash outside request_id operation "broker_authority_metadata_rejected"
        "broker metadata attempted to carry authority" true envelope.payloadHash
  else
    match w.record_nonce outside envelope.nonceText with
    | (.error error, w) =>
      w.reject_with_payload_hash outside request_id operation "broker_persistence_unavailable"
        error.message true envelope.payloadHash
    | (.ok (), w) =>
      -- The first gate has found an operation.
      operations w (envelope.operation.getD .Health) envelope

/-- `handle` with the operations left open. -/
def handleWith (operations : Operations crates) (w : World crates)
    (envelope : BrokerRequestEnvelope) : BrokerResponse × World crates :=
  match w.broker.gate envelope outside.gate_clock with
  | .reject code message payload_hash =>
    w.reject_with_payload_hash outside envelope.requestId envelope.operationName code message true
      payload_hash
  | .suspend_health => w.suspend_health outside envelope.requestId envelope.payloadHash
  | .pass => w.handleAdmitted outside operations envelope

def handle (w : World crates) (envelope : BrokerRequestEnvelope) : BrokerResponse × World crates :=
  w.handleWith outside (dispatch outside) envelope

/-- `handle_json` with the operations left open. -/
def handleJsonWith (operations : Operations crates) (w : World crates) (input : String) :
    BrokerResponse × World crates :=
  match from_json_str crates input with
  | some envelope => w.handleWith outside operations envelope
  | none =>
    w.reject outside "malformed-request" "unknown" "broker_request_malformed"
      "broker request JSON failed to parse or included unknown fields" true

def handle_json (w : World crates) (input : String) : BrokerResponse × World crates :=
  w.handleJsonWith outside (dispatch outside) input

def reject_ipc (w : World crates) (code message : String) (recoverable : Bool) :
    BrokerResponse × World crates :=
  w.reject outside "ipc-request" "unknown" code message recoverable

end World

end protocol
