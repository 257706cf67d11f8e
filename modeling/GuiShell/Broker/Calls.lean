-- What one call of the broker can do. It records a nonce at most once, then it may set the
-- shutdown flag, and then it appends one audit event. Only a request with authority in its
-- metadata whose nonce cannot be recorded ends without an audit event.
import GuiShell.Broker.Protocol

open json serde_json authority broker_audit files store

namespace protocol

variable {crates : Crates}

/-! ## Calls -/

inductive Call where
  | handle (envelope : BrokerRequestEnvelope)
  | handle_json (input : String)
  | reject_ipc (code message : String) (recoverable : Bool)

/-- The envelope that a call brings, if it brings one. -/
def Call.envelope (crates : Crates) : Call → Option BrokerRequestEnvelope
  | .handle envelope => some envelope
  | .handle_json input => from_json_str crates input
  | .reject_ipc _ _ _ => none

namespace World

variable (outside : Outside)

def call (w : World crates) : Call → BrokerResponse × World crates
  | .handle envelope => w.handle outside envelope
  | .handle_json input => w.handle_json outside input
  | .reject_ipc code message recoverable => w.reject_ipc outside code message recoverable

/-- A call with the operations left open. -/
def callWith (operations : Operations crates) (w : World crates) :
    Call → BrokerResponse × World crates
  | .handle envelope => w.handleWith outside operations envelope
  | .handle_json input => w.handleJsonWith outside operations input
  | .reject_ipc code message recoverable => w.reject_ipc outside code message recoverable

/-- The call reaches dispatch with this envelope: whatever the operations are, it comes to what
one of them makes of the envelope. -/
def ReachesDispatch (w : World crates) (c : Call) (envelope : BrokerRequestEnvelope) : Prop :=
  ∃ w₀ operation, ∀ operations, w.callWith outside operations c = operations w₀ operation envelope

/-- The envelope of a call that comes through all the gates before the nonce is recorded. -/
def admitted (w : World crates) (c : Call) : Option BrokerRequestEnvelope :=
  (c.envelope crates).filter fun envelope =>
    w.broker.gate envelope outside.gate_clock = .pass

/-- The metadata of the envelope claims authority. -/
def claimsAuthority (crates : Crates) (envelope : BrokerRequestEnvelope) : Bool :=
  metadata_attempts_authority crates envelope.metadata

/-- The nonce of the envelope can be recorded. -/
def records (w : World crates) (envelope : BrokerRequestEnvelope) : Bool :=
  (w.record_nonce outside envelope.nonceText).1.isOk

/-- The gates let the call through, its metadata claims no authority and its nonce can be
recorded. These are the calls that reach dispatch (`reachesDispatch_iff`). -/
def Dispatches (w : World crates) (c : Call) (envelope : BrokerRequestEnvelope) : Prop :=
  w.admitted outside c = some envelope ∧ claimsAuthority crates envelope = false ∧
    w.records outside envelope = true

variable {outside}

/-! ## Recording and appending -/

/-- Recording a nonce changes the nonces and the files, and nothing when it fails but the
files. -/
theorem record_nonce.spec (outside : Outside) (w : World crates) (nonce : String) :
    (w.record_nonce outside nonce).2.history = w.history ∧
      (w.record_nonce outside nonce).2.broker =
        { w.broker with seen_nonces := (w.record_nonce outside nonce).2.broker.seen_nonces } := by
  unfold record_nonce
  split <;> exact ⟨rfl, rfl⟩

/-- A durable broker takes its nonces from the store. -/
theorem record_nonce_durable {w : World crates} {store : BrokerPersistentStore}
    (h : w.broker.state_store = .durable_file_store store) (nonce : String) :
    w.record_nonce outside nonce =
      match append_replay_nonce crates outside.faults nonce outside.record_clock w.disk with
      | .ok nonces disk =>
        (.ok (), { w with broker := { w.broker with seen_nonces := nonces }, disk })
      | .error e disk => (.error e, { w with disk }) := by
  unfold record_nonce storeReplayNonce
  rw [h]
  simp only [bind, EStateM.bind]
  cases append_replay_nonce crates outside.faults nonce outside.record_clock w.disk <;> rfl

/-- An append that succeeds adds the next event to the log. -/
theorem append_audit_ok {w w' : World crates} {entry : AuditEntry} {event : BrokerAuditEvent}
    (h : w.append_audit outside entry = (.ok event, w')) :
    event = w.broker.audit_log.build_next entry ∧
      w'.broker = { w.broker with audit_log := (w.broker.audit_log.append entry).1 } ∧
      w'.history = w.history ++ [.ok event] ∧
      storeAuditEvent crates outside.faults w.broker.state_store event w.disk = .ok () w'.disk := by
  simp only [append_audit, BrokerAuditLog.push_verified_build_next] at h
  split at h
  · cases h
  · rename_i hstore
    cases h
    exact ⟨rfl, rfl, rfl, hstore⟩

/-- An append that fails leaves the broker as it was. -/
theorem append_audit_error {w w' : World crates} {entry : AuditEntry} {e : BrokerStoreError}
    (h : w.append_audit outside entry = (.error e, w')) :
    w'.broker = w.broker ∧ w'.history = w.history ++ [.error e] ∧
      storeAuditEvent crates outside.faults w.broker.state_store
        (w.broker.audit_log.build_next entry) w.disk = .error e w'.disk := by
  simp only [append_audit, BrokerAuditLog.push_verified_build_next] at h
  split at h
  · rename_i hstore
    cases h
    exact ⟨rfl, rfl, hstore⟩
  · cases h

/-- A response that names the event and what was audited. -/
def Names (entry : AuditEntry) (respond : Broker crates → BrokerAuditEvent → BrokerResponse) :
    Prop :=
  ∀ broker event, (respond broker event).audit_event_id = event.event_id ∧
    (respond broker event).request_id = entry.request_id ∧
    (respond broker event).operation = entry.operation

/-! ## The course of a call -/

/-- The world in which an operation appends its event. -/
def flagged (w : World crates) : BrokerOperation → World crates
  | .Shutdown => { w with broker := { w.broker with shutdown_requested := true } }
  | _ => w

theorem flagged_of_ne (w : World crates) {operation : BrokerOperation}
    (h : operation ≠ .Shutdown) : w.flagged operation = w := by
  cases operation <;> first | rfl | exact absurd rfl h

/-- The worlds in which a call appends its audit event. -/
inductive Stage (outside : Outside) (w : World crates) (c : Call) : World crates → Prop
  /-- The gates did not let the call through. -/
  | gates (h : w.admitted outside c = none) : Stage outside w c w
  /-- The nonce was recorded, or could not be and the request claims no authority. -/
  | recorded {envelope : BrokerRequestEnvelope} (h : w.admitted outside c = some envelope)
      (hclaims : claimsAuthority crates envelope = true → w.records outside envelope = true)
      (hop : w.Dispatches outside c envelope → envelope.operation ≠ some .Shutdown) :
      Stage outside w c (w.record_nonce outside envelope.nonceText).2
  /-- A shutdown was dispatched: the flag is set already. -/
  | shutdown {envelope : BrokerRequestEnvelope} (h : w.Dispatches outside c envelope)
      (hop : envelope.operation = some .Shutdown) :
      Stage outside w c ((w.record_nonce outside envelope.nonceText).2.flagged .Shutdown)

/-- A call appends one event and names it in its response, or it has recorded in vain a
nonce whose request claims authority. -/
inductive Course (outside : Outside) (w : World crates) (c : Call) :
    BrokerResponse × World crates → Prop
  | audited {w₀ : World crates} {entry : AuditEntry}
      {respond : Broker crates → BrokerAuditEvent → BrokerResponse}
      (hstage : Stage outside w c w₀) (hnames : Names entry respond) :
      Course outside w c (w₀.audited outside entry respond)
  | unaudited {envelope : BrokerRequestEnvelope} {response : BrokerResponse}
      (h : w.admitted outside c = some envelope) (hclaims : claimsAuthority crates envelope = true)
      (hrecords : w.records outside envelope = false)
      (hid : response.audit_event_id = "broker-audit-unavailable") :
      Course outside w c (response, (w.record_nonce outside envelope.nonceText).2)

/-- Every operation appends one event. Only the shutdown changes the world before. -/
theorem dispatch.spec (outside : Outside) (w : World crates) (operation : BrokerOperation)
    (envelope : BrokerRequestEnvelope) :
    ∃ entry respond, w.dispatch outside operation envelope =
      (w.flagged operation).audited outside entry respond ∧ Names entry respond := by
  cases operation with
  | AuthorityEvaluate =>
    unfold dispatch
    dsimp only
    split
    · refine ⟨_, _, rfl, ?_⟩
      exact fun _ _ => ⟨rfl, rfl, rfl⟩
    · refine ⟨_, _, rfl, ?_⟩
      exact fun _ _ => ⟨rfl, rfl, rfl⟩
  | Health | Shutdown | CommandEnvelope | AuthorityFixtureEvaluate =>
    unfold dispatch
    refine ⟨_, _, rfl, ?_⟩
    exact fun _ _ => ⟨rfl, rfl, rfl⟩
  | ApprovalEdit | ContentProjection | AuditVerify | NormalizePayload =>
    unfold dispatch accept_body
    refine ⟨_, _, rfl, ?_⟩
    exact fun _ _ => ⟨rfl, rfl, rfl⟩

/-- A request that comes through the gates is well formed, fresh and new. -/
theorem gate_of_pass {broker : Broker crates} {envelope : BrokerRequestEnvelope} {clock : I64}
    (h : broker.gate envelope clock = .pass) :
    envelope.isMalformed = false ∧
      issued_at_is_fresh (envelope.issued_at.getD "") (broker.current_epoch_seconds clock) = true ∧
      broker.seen_nonces.contains_key envelope.nonceText = false := by
  unfold Broker.gate at h
  split at h
  · cases h
  rename_i hmalformed
  split at h
  · cases h
  split at h
  · cases h
  split at h
  · cases h
  rename_i hfresh
  split at h
  · split at h <;> cases h
  split at h
  · cases h
  split at h
  · cases h
  rename_i hseen
  exact ⟨by simpa using hmalformed, by simpa using hfresh, by simpa using hseen⟩

/-- An envelope that the gates let through has an operation. -/
theorem operation_of_pass {w : World crates} {envelope : BrokerRequestEnvelope} {clock : I64}
    (h : w.broker.gate envelope clock = .pass) :
    ∃ operation, envelope.operation = some operation := by
  have hmalformed := (gate_of_pass h).1
  rcases ho : envelope.operation with _ | operation
  · simp [BrokerRequestEnvelope.isMalformed, ho] at hmalformed
  · exact ⟨operation, rfl⟩

/-- The ways through `handle`, whatever the operations are. -/
inductive Handled (outside : Outside) (w : World crates) (envelope : BrokerRequestEnvelope) :
    (Operations crates → BrokerResponse × World crates) → Prop
  | rejected {code message payload_hash : String}
      (h : w.broker.gate envelope outside.gate_clock = .reject code message payload_hash) :
      Handled outside w envelope fun _ => w.reject_with_payload_hash outside envelope.requestId
        envelope.operationName code message true payload_hash
  | suspended (h : w.broker.gate envelope outside.gate_clock = .suspend_health) :
      Handled outside w envelope fun _ =>
        w.suspend_health outside envelope.requestId envelope.payloadHash
  /-- The metadata claims authority and the nonce cannot be recorded. -/
  | unavailable {e : BrokerStoreError} (h : w.broker.gate envelope outside.gate_clock = .pass)
      (hclaims : claimsAuthority crates envelope = true)
      (hrecord : (w.record_nonce outside envelope.nonceText).1 = .error e) :
      Handled outside w envelope fun _ =>
        ((w.record_nonce outside envelope.nonceText).2.broker.audit_store_failed_response
            envelope.requestId envelope.operationName "broker_persistence_unavailable" e.message,
          (w.record_nonce outside envelope.nonceText).2)
  | claimed (h : w.broker.gate envelope outside.gate_clock = .pass)
      (hclaims : claimsAuthority crates envelope = true)
      (hrecords : w.records outside envelope = true) :
      Handled outside w envelope fun _ =>
        (w.record_nonce outside envelope.nonceText).2.reject_with_payload_hash outside
          envelope.requestId envelope.operationName "broker_authority_metadata_rejected"
          "broker metadata attempted to carry authority" true envelope.payloadHash
  | unrecorded {e : BrokerStoreError} (h : w.broker.gate envelope outside.gate_clock = .pass)
      (hclaims : claimsAuthority crates envelope = false)
      (hrecord : (w.record_nonce outside envelope.nonceText).1 = .error e) :
      Handled outside w envelope fun _ =>
        (w.record_nonce outside envelope.nonceText).2.reject_with_payload_hash outside
          envelope.requestId envelope.operationName "broker_persistence_unavailable" e.message true
          envelope.payloadHash
  | dispatched {operation : BrokerOperation}
      (h : w.broker.gate envelope outside.gate_clock = .pass)
      (hclaims : claimsAuthority crates envelope = false)
      (hrecords : w.records outside envelope = true)
      (hop : envelope.operation = some operation) :
      Handled outside w envelope fun operations =>
        operations (w.record_nonce outside envelope.nonceText).2 operation envelope

theorem handleWith_cases (outside : Outside) (w : World crates) (envelope : BrokerRequestEnvelope) :
    Handled outside w envelope fun operations => w.handleWith outside operations envelope := by
  unfold handleWith
  split
  · rename_i hgate
    exact .rejected hgate
  · rename_i hgate
    exact .suspended hgate
  · rename_i hgate
    obtain ⟨operation, hop⟩ := operation_of_pass hgate
    have hrecords : w.records outside envelope =
        (w.record_nonce outside envelope.nonceText).1.isOk := rfl
    unfold handleAdmitted
    dsimp only
    rcases hclaims : metadata_attempts_authority crates envelope.metadata with _ | _ <;>
      rcases hrecord : w.record_nonce outside envelope.nonceText with ⟨e | _, w₁⟩ <;>
      obtain rfl : w₁ = (w.record_nonce outside envelope.nonceText).2 := by rw [hrecord]
    all_goals
      have hfst := congrArg Prod.fst hrecord
      rw [hfst] at hrecords
    · exact .unrecorded hgate hclaims hfst
    · rw [hop]
      exact .dispatched hgate hclaims hrecords hop
    · exact .unavailable hgate hclaims hfst
    · exact .claimed hgate hclaims hrecords

theorem handle_cases (outside : Outside) (w : World crates) (envelope : BrokerRequestEnvelope) :
    ∃ course, w.handle outside envelope = course (dispatch outside) ∧
      Handled outside w envelope course :=
  ⟨_, rfl, handleWith_cases outside w envelope⟩

theorem records_of_error {w : World crates} {envelope : BrokerRequestEnvelope}
    {e : BrokerStoreError} (h : (w.record_nonce outside envelope.nonceText).1 = .error e) :
    w.records outside envelope = false := by
  rw [records, h]
  rfl

theorem handle.course {w : World crates} {c : Call} {envelope : BrokerRequestEnvelope}
    (hc : c.envelope crates = some envelope) : Course outside w c (w.handle outside envelope) := by
  have hpass (h : w.broker.gate envelope outside.gate_clock = .pass) :
      w.admitted outside c = some envelope := by simp [admitted, hc, h]
  obtain ⟨course, hcourse, hhandled⟩ := handle_cases outside w envelope
  rw [hcourse]
  cases hhandled with
  | rejected h =>
    refine .audited (.gates ?_) fun _ _ => ⟨rfl, rfl, rfl⟩
    simp [admitted, hc, h]
  | suspended h =>
    refine .audited (.gates ?_) fun _ _ => ⟨rfl, rfl, rfl⟩
    simp [admitted, hc, h]
  | unavailable h hclaims hrecord =>
    exact .unaudited (hpass h) hclaims (records_of_error hrecord) rfl
  | claimed h hclaims hrecords =>
    refine .audited (.recorded (hpass h) (fun _ => hrecords) fun hd => ?_) fun _ _ =>
      ⟨rfl, rfl, rfl⟩
    rw [hd.2.1] at hclaims
    cases hclaims
  | unrecorded h hclaims hrecord =>
    refine .audited (.recorded (hpass h) (fun h => ?_) fun hd => ?_) fun _ _ => ⟨rfl, rfl, rfl⟩
    · rw [hclaims] at h
      cases h
    · have hrecords := hd.2.2
      rw [records_of_error hrecord] at hrecords
      cases hrecords
  | @dispatched operation h hclaims hrecords hop =>
    obtain ⟨entry, respond, hdispatch, hnames⟩ := dispatch.spec outside
      (w.record_nonce outside envelope.nonceText).2 operation envelope
    dsimp only
    rw [hdispatch]
    by_cases hs : operation = .Shutdown
    · subst hs
      exact .audited (.shutdown ⟨hpass h, hclaims, hrecords⟩ hop) hnames
    · rw [flagged_of_ne _ hs]
      refine .audited (.recorded (hpass h) (fun _ => hrecords) fun _ => ?_) hnames
      rw [hop]
      simpa using hs

/-! ## Reaching dispatch -/

theorem callWith_dispatch (outside : Outside) (w : World crates) (c : Call) :
    w.callWith outside (dispatch outside) c = w.call outside c := by
  cases c <;> rfl

/-- A call with an envelope is handled, whatever the operations are. -/
theorem callWith_of_envelope {w : World crates} {c : Call} {envelope : BrokerRequestEnvelope}
    (hc : c.envelope crates = some envelope) (operations : Operations crates) :
    w.callWith outside operations c = w.handleWith outside operations envelope := by
  cases c with
  | handle envelope' =>
    obtain rfl := Option.some.inj hc
    rfl
  | handle_json input =>
    rw [Call.envelope] at hc
    simp only [callWith, handleJsonWith, hc]
  | reject_ipc code message recoverable => cases hc

/-- A call without an envelope comes to no operation. -/
theorem callWith_of_no_envelope {w : World crates} {c : Call} (hc : c.envelope crates = none) :
    ∃ request_id code message recoverable, ∀ operations, w.callWith outside operations c =
      w.reject outside request_id "unknown" code message recoverable := by
  cases c with
  | handle envelope' => cases hc
  | handle_json input =>
    rw [Call.envelope] at hc
    simp only [callWith, handleJsonWith, hc]
    exact ⟨_, _, _, _, fun _ => rfl⟩
  | reject_ipc code message recoverable => exact ⟨_, _, _, _, fun _ => rfl⟩

theorem envelope_of_admitted {w : World crates} {c : Call} {envelope : BrokerRequestEnvelope}
    (h : w.admitted outside c = some envelope) :
    c.envelope crates = some envelope ∧
      w.broker.gate envelope outside.gate_clock = .pass := by
  obtain ⟨hc, hgate⟩ := Option.filter_eq_some_iff.mp h
  exact ⟨hc, of_decide_eq_true hgate⟩

/-- A call that dispatches is answered by its operation, in the world that has recorded its
nonce. -/
theorem callWith_of_dispatches {w : World crates} {c : Call} {envelope : BrokerRequestEnvelope}
    (h : w.Dispatches outside c envelope) :
    ∃ operation, envelope.operation = some operation ∧ ∀ operations,
      w.callWith outside operations c =
        operations (w.record_nonce outside envelope.nonceText).2 operation envelope := by
  obtain ⟨hadmitted, hclaims, hrecords⟩ := h
  obtain ⟨hc, hgate⟩ := envelope_of_admitted hadmitted
  have hhandled := handleWith_cases outside w envelope
  generalize hcourse : (fun operations => w.handleWith outside operations envelope) = course
    at hhandled
  cases hhandled with
  | dispatched _ _ _ hop =>
    refine ⟨_, hop, fun operations => ?_⟩
    rw [callWith_of_envelope hc]
    exact congrFun hcourse operations
  | rejected h | suspended h =>
    rw [hgate] at h
    cases h
  | unavailable _ h | claimed _ h =>
    rw [hclaims] at h
    cases h
  | unrecorded _ _ h =>
    rw [records_of_error h] at hrecords
    cases hrecords

/-- A response that turns its request away: a rejection or a suspension with an error and
without a body. -/
def Refuses (response : BrokerResponse) : Prop :=
  (response.status = .Rejected ∨ response.status = .Suspended) ∧ response.error.isSome = true ∧
    response.body = none

/-- An exit that audits refuses when its response does. -/
theorem audited.refuses {w : World crates} {entry : AuditEntry}
    {respond : Broker crates → BrokerAuditEvent → BrokerResponse}
    (h : ∀ broker event, Refuses (respond broker event)) :
    Refuses (w.audited outside entry respond).1 := by
  unfold audited
  split
  · exact h _ _
  · exact ⟨.inr rfl, rfl, rfl⟩

/-- A call that does not dispatch refuses, and no operation has a part in it. -/
theorem callWith_of_not_dispatches {w : World crates} {c : Call}
    (h : ∀ envelope, ¬ w.Dispatches outside c envelope) :
    ∃ result : BrokerResponse × World crates, Refuses result.1 ∧
      ∀ operations, w.callWith outside operations c = result := by
  rcases hc : c.envelope crates with _ | envelope
  · obtain ⟨request_id, code, message, recoverable, hreject⟩ :=
      @callWith_of_no_envelope _ outside w c hc
    refine ⟨_, ?_, hreject⟩
    exact audited.refuses fun _ _ => ⟨.inl rfl, rfl, rfl⟩
  · have hhandled := handleWith_cases outside w envelope
    generalize hcourse : (fun operations => w.handleWith outside operations envelope) = course
      at hhandled
    have hcall (operations) : w.callWith outside operations c = course operations :=
      (callWith_of_envelope hc operations).trans (congrFun hcourse operations)
    cases hhandled with
    | rejected | claimed | unrecorded =>
      exact ⟨_, audited.refuses fun _ _ => ⟨.inl rfl, rfl, rfl⟩, hcall⟩
    | suspended => exact ⟨_, audited.refuses fun _ _ => ⟨.inr rfl, rfl, rfl⟩, hcall⟩
    | unavailable => exact ⟨_, ⟨.inr rfl, rfl, rfl⟩, hcall⟩
    | dispatched hgate hclaims hrecords _ =>
      exact absurd ⟨by simp [admitted, hc, hgate], hclaims, hrecords⟩ (h envelope)

/-- Exactly the calls that dispatch reach dispatch. -/
theorem reachesDispatch_iff {w : World crates} {c : Call} {envelope : BrokerRequestEnvelope} :
    w.ReachesDispatch outside c envelope ↔ w.Dispatches outside c envelope := by
  constructor
  · rintro ⟨w₀, operation, hreaches⟩
    -- Operations that answer this envelope with one response, and any other with another one.
    obtain ⟨response, response', hne⟩ : ∃ response response' : BrokerResponse,
        response ≠ response' := by
      have response := (w.call outside c).1
      refine ⟨{ response with shutdown_requested := true },
        { response with shutdown_requested := false }, fun h => ?_⟩
      cases congrArg BrokerResponse.shutdown_requested h
    have hthis := hreaches fun w _ _ => (response, w)
    by_contra hnot
    by_cases hother : ∃ envelope', w.Dispatches outside c envelope'
    · obtain ⟨envelope', hdispatches⟩ := hother
      obtain ⟨operation', _, hcall⟩ := callWith_of_dispatches hdispatches
      classical
      have happly := hreaches fun w _ e => (if e = envelope then response else response', w)
      rw [hcall] at happly
      have hsame := congrArg Prod.fst happly
      have henvelope : envelope' ≠ envelope := by
        rintro rfl
        exact hnot hdispatches
      dsimp only at hsame
      rw [if_neg henvelope, if_pos rfl] at hsame
      exact hne hsame.symm
    · obtain ⟨result, _, hresult⟩ := callWith_of_not_dispatches (not_exists.mp hother)
      have hthat := hreaches fun w _ _ => (response', w)
      rw [hresult] at hthis hthat
      exact hne (congrArg Prod.fst (hthis.symm.trans hthat))
  · intro hdispatches
    obtain ⟨operation, _, hcall⟩ := callWith_of_dispatches hdispatches
    exact ⟨_, operation, hcall⟩

/-- A call that does not reach dispatch refuses, whatever the operations are. -/
theorem refuses_of_not_reachesDispatch {w : World crates} {c : Call}
    (h : ∀ envelope, ¬ w.ReachesDispatch outside c envelope) :
    Refuses (w.call outside c).1 ∧
      ∀ operations, w.callWith outside operations c = w.call outside c := by
  obtain ⟨result, hrefuses, hresult⟩ :=
    callWith_of_not_dispatches fun envelope hd => h envelope (reachesDispatch_iff.mpr hd)
  have hcall := (callWith_dispatch outside w c).symm.trans (hresult _)
  rw [hcall]
  exact ⟨hrefuses, hresult⟩

/-! ## Every call -/

/-- A call without an envelope is rejected. -/
inductive Called (outside : Outside) (w : World crates) (c : Call) :
    BrokerResponse × World crates → Prop
  | envelope {envelope : BrokerRequestEnvelope} (h : c.envelope crates = some envelope) :
      Called outside w c (w.handle outside envelope)
  | malformed {input : String} (hc : c = .handle_json input) (h : c.envelope crates = none) :
      Called outside w c (w.reject outside "malformed-request" "unknown"
        "broker_request_malformed" "broker request JSON failed to parse or included unknown fields"
        true)
  | ipc {code message : String} {recoverable : Bool}
      (hc : c = .reject_ipc code message recoverable) (h : c.envelope crates = none) :
      Called outside w c (w.reject outside "ipc-request" "unknown" code message recoverable)

theorem call_cases (outside : Outside) (w : World crates) (c : Call) :
    Called outside w c (w.call outside c) := by
  cases c with
  | handle envelope => exact .envelope rfl
  | handle_json input =>
    rw [call, handle_json, handleJsonWith]
    split
    · rename_i he
      exact .envelope he
    · rename_i he
      exact .malformed rfl he
  | reject_ipc code message recoverable => exact .ipc rfl rfl

theorem reject.course {w : World crates} {c : Call} (hc : c.envelope crates = none)
    (request_id operation code message : String) (recoverable : Bool) :
    Course outside w c (w.reject outside request_id operation code message recoverable) := by
  unfold reject reject_with_payload_hash
  refine .audited (.gates ?_) fun _ _ => ⟨rfl, rfl, rfl⟩
  simp [admitted, hc]

/-- Every call takes one of the courses. -/
theorem call.course (outside : Outside) (w : World crates) (c : Call) :
    Course outside w c (w.call outside c) := by
  generalize hr : w.call outside c = r
  have hcalled := call_cases outside w c
  rw [hr] at hcalled
  cases hcalled with
  | envelope h => exact handle.course h
  | malformed _ h => exact reject.course h _ _ _ _ _
  | ipc _ h => exact reject.course h _ _ _ _ _

end World

end protocol
