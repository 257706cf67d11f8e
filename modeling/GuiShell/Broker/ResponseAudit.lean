-- What a response of the broker rests on. Every call appends one audit event that its
-- response names, but for one exit; and no call has an effect when its append fails, but for
-- the shutdown.
import GuiShell.Broker.Calls
import GuiShell.Broker.Directory

open json serde_json authority broker_audit files store

namespace protocol

variable {crates : Crates} {outside : Outside}

/-! ## A first request -/

/-- The second at which 2026 begins. -/
def newYear : I64 := ⟨1767225600, by decide, by decide⟩

def zeroKey : { key : Bytes // key.length = 32 } := ⟨List.replicate 32 (UInt8.ofNat 0), rfl⟩

/-- A broker that has opened a new directory. -/
def firstWorld : World .ascii :=
  match Broker.new_persistent .ascii noFaults "session-1" newYear
    (.ok zeroKey) (fun _ => none) with
  | .ok broker disk => ⟨broker, disk, []⟩
  | .error _ disk => ⟨.new .ascii "session-1", disk, []⟩

/-- A request of the new year. The payload hash is that of `null`. -/
def request (operation : BrokerOperation) (nonce : String) (metadata : List BrokerMetadata) :
    BrokerRequestEnvelope where
  request_id := some "request-1"
  session_id := some "session-1"
  operation := some operation
  payload_hash := some "sha256:74234e98afe7498fb5daf1f36ac2d78acc339464f950703b8c019892f982b90b"
  nonce := some nonce
  issued_at := some "2026-01-01T00:00:00Z"
  metadata
  metadata_present := true
  payload := none

def calm : Outside := ⟨noFaults, newYear, newYear⟩

/-- The disk takes no more lines in the audit file. -/
def full : Outside where
  faults op path := if op = .append ∧ path = .audit then some "No space left on device (os error 28)"
    else none
  gate_clock := newYear
  record_clock := newYear

namespace World

/-! ## The nonce that can be recorded -/

/-- Only a durable store has files that can keep a nonce from being recorded. -/
def CanRecord (outside : Outside) (w : World crates) (nonce : String) : Prop :=
  match w.broker.state_store with
  | .durable_file_store _ => store.CanRecord crates outside.faults w.disk nonce outside.record_clock
  | _ => True

theorem records_iff {w : World crates} {envelope : BrokerRequestEnvelope} :
    w.records outside envelope = true ↔ w.CanRecord outside envelope.nonceText := by
  unfold records CanRecord
  rcases hs : w.broker.state_store with _ | _ | persistent
  · simp [record_nonce, storeReplayNonce, hs, pure_run, Except.isOk, Except.toBool]
  · simp [record_nonce, storeReplayNonce, hs, pure_run, Except.isOk, Except.toBool]
  · have hspec := append_replay_nonce.outcome crates outside.faults w.disk envelope.nonceText
      outside.record_clock
    rw [record_nonce_durable hs]
    rcases hrun : append_replay_nonce crates outside.faults envelope.nonceText outside.record_clock
      w.disk with ⟨nonces, d⟩ | ⟨e, d⟩
    · exact ⟨fun _ => hspec.of_ok hrun, fun _ => rfl⟩
    · exact ⟨nofun, fun h => absurd h (hspec.of_error hrun)⟩

/-- The call ends at the exit without an audit event: its metadata claims authority and its
nonce cannot be recorded. -/
def Unaudited (outside : Outside) (w : World crates) (c : Call) : Prop :=
  ∃ envelope, w.admitted outside c = some envelope ∧ claimsAuthority crates envelope = true ∧
    ¬ w.CanRecord outside envelope.nonceText

/-- The call reaches the shutdown operation. -/
def ShutsDown (outside : Outside) (w : World crates) (c : Call) : Prop :=
  ∃ envelope, w.admitted outside c = some envelope ∧ claimsAuthority crates envelope = false ∧
    w.CanRecord outside envelope.nonceText ∧ envelope.operation = some .Shutdown

/-! ## The appends of a call -/

/-- An append of the call failed. -/
def AppendFails (outside : Outside) (w : World crates) (c : Call) : Prop :=
  ∃ e, (w.call outside c).2.history = w.history ++ [.error e]

/-- Up to its append a call leaves the log, the history and the store alone, and the flag as
well unless it shuts down. -/
theorem Stage.spec {w w₀ : World crates} {c : Call} (h : Stage outside w c w₀) :
    w₀.history = w.history ∧ w₀.broker.audit_log = w.broker.audit_log ∧
      w₀.broker.state_store = w.broker.state_store ∧
      (w₀.broker.shutdown_requested = w.broker.shutdown_requested ∨
        w₀.broker.shutdown_requested = true ∧ w.ShutsDown outside c) := by
  cases h with
  | gates => exact ⟨rfl, rfl, rfl, .inl rfl⟩
  | @recorded envelope _ _ _ =>
    obtain ⟨hhistory, hbroker⟩ := record_nonce.spec outside w envelope.nonceText
    rw [hbroker]
    exact ⟨hhistory, rfl, rfl, .inl rfl⟩
  | @shutdown envelope hd hop =>
    obtain ⟨hhistory, hbroker⟩ := record_nonce.spec outside w envelope.nonceText
    rw [flagged, hbroker]
    exact ⟨hhistory, rfl, rfl, .inr ⟨rfl, envelope, hd.1, hd.2.1, records_iff.mp hd.2.2, hop⟩⟩

/-- An exit that audits comes to the response of its operation, or to the response that
the audit store failed. -/
theorem audited.spec (outside : Outside) (w : World crates) (entry : AuditEntry)
    (respond : Broker crates → BrokerAuditEvent → BrokerResponse) :
    (∃ event w', w.append_audit outside entry = (.ok event, w') ∧
      w.audited outside entry respond = (respond w'.broker event, w')) ∨
    ∃ e w', w.append_audit outside entry = (.error e, w') ∧
      w.audited outside entry respond =
        (w'.broker.audit_store_failed_response entry.request_id entry.operation
          "broker_audit_append_failed" e.message, w') := by
  unfold audited
  rcases w.append_audit outside entry with ⟨e | event, w'⟩
  · exact .inr ⟨e, w', rfl, rfl⟩
  · exact .inl ⟨event, w', rfl, rfl⟩

/-- What holds of the response of an operation and of the response that its append failed
holds of the exit. Only the log of the broker has changed. -/
theorem audited.rule {P : BrokerResponse → Broker crates → Prop} {w : World crates}
    {entry : AuditEntry} {respond : Broker crates → BrokerAuditEvent → BrokerResponse}
    (hok : ∀ audit_log, P (respond { w.broker with audit_log } (w.broker.audit_log.build_next entry))
      { w.broker with audit_log })
    (hfail : ∀ message, P (w.broker.audit_store_failed_response entry.request_id entry.operation
      "broker_audit_append_failed" message) w.broker) :
    P (w.audited outside entry respond).1 (w.audited outside entry respond).2.broker := by
  rcases audited.spec outside w entry respond with
    ⟨event, w', happend, haudited⟩ | ⟨e, w', happend, haudited⟩
  · obtain ⟨rfl, hbroker, _⟩ := append_audit_ok happend
    rw [haudited, hbroker]
    exact hok _
  · rw [haudited, (append_audit_error happend).1]
    exact hfail _

theorem stage_of_shutsDown {w w₀ : World crates} {c : Call} (h : Stage outside w c w₀)
    (hs : w.ShutsDown outside c) : w₀.broker.shutdown_requested = true := by
  obtain ⟨envelope, hadmitted, hclaims, hrecord, hop⟩ := hs
  cases h with
  | gates h =>
    rw [hadmitted] at h
    cases h
  | @recorded envelope' h _ hno =>
    obtain rfl : envelope = envelope' := Option.some.inj (hadmitted.symm.trans h)
    exact absurd hop (hno ⟨hadmitted, hclaims, records_iff.mpr hrecord⟩)
  | shutdown => rfl

theorem stage_not_unaudited {w w₀ : World crates} {c : Call} (h : Stage outside w c w₀) :
    ¬ w.Unaudited outside c := by
  rintro ⟨envelope, hadmitted, hclaims, hrecord⟩
  cases h with
  | gates h =>
    rw [hadmitted] at h
    cases h
  | @recorded envelope' h hrecords _ =>
    obtain rfl : envelope = envelope' := Option.some.inj (hadmitted.symm.trans h)
    exact hrecord (records_iff.mp (hrecords hclaims))
  | @shutdown envelope' h _ =>
    obtain rfl : envelope = envelope' := Option.some.inj (hadmitted.symm.trans h.1)
    rw [h.2.1] at hclaims
    cases hclaims

/-- A call goes on with the store that it had. -/
theorem state_store_call (w : World crates) (call : Call) :
    (w.call outside call).2.broker.state_store = w.broker.state_store := by
  generalize hr : w.call outside call = r
  have hcourse := World.call.course outside w call
  rw [hr] at hcourse
  cases hcourse with
  | @unaudited envelope _ _ _ _ _ => rw [(record_nonce.spec outside w envelope.nonceText).2]
  | @audited w₀ entry respond hstage _ =>
    obtain ⟨_, _, hstore, _⟩ := hstage.spec
    rw [← hstore]
    exact audited.rule (P := fun _ broker => broker.state_store = w₀.broker.state_store)
      (fun _ => rfl) fun _ => rfl

/-- Without files no append fails. -/
theorem not_appendFails_of_in_memory {w : World crates}
    (h : w.broker.state_store = .in_memory_skeleton) (c : Call) : ¬ w.AppendFails outside c := by
  rintro ⟨e, he⟩
  generalize hr : w.call outside c = r at he
  have hcourse := call.course outside w c
  rw [hr] at hcourse
  cases hcourse with
  | @unaudited envelope _ _ _ _ _ =>
    rw [(record_nonce.spec outside w envelope.nonceText).1] at he
    exact absurd (List.self_eq_append_right.mp he) (List.cons_ne_nil _ _)
  | @audited w₀ entry respond hstage _ =>
    obtain ⟨hhistory, _, hstore, _⟩ := hstage.spec
    rcases audited.spec outside w₀ entry respond with
      ⟨event, w', happend, haudited⟩ | ⟨e', w', happend, _⟩
    · obtain ⟨_, _, hok, _⟩ := append_audit_ok happend
      rw [haudited, hok, hhistory] at he
      simp at he
    · obtain ⟨_, _, herror⟩ := append_audit_error happend
      rw [hstore, h] at herror
      cases herror

/-! ## One audit event for each response -/

/-- One event is appended, the response names it, and the log still verifies. -/
def OneEvent (w : World crates) (r : BrokerResponse × World crates) : Prop :=
  ∃ event, r.2.broker.audit_log.events = w.broker.audit_log.events ++ [event] ∧
    r.1.audit_event_id = event.event_id ∧ r.1.request_id = event.request_id ∧
    r.1.operation = event.operation ∧
    BrokerAuditLog.from_verified_events crates.sha256 r.2.broker.audit_log.events =
      .ok r.2.broker.audit_log

/-- The response is the one event's, unless the call ends at the exit without one. -/
theorem one_event_for_each_response_iff {w : World crates} {c : Call}
    (h : ¬ w.AppendFails outside c) :
    w.OneEvent (w.call outside c) ↔ ¬ w.Unaudited outside c := by
  unfold AppendFails at h
  generalize hr : w.call outside c = r at h ⊢
  have hcourse := call.course outside w c
  rw [hr] at hcourse
  cases hcourse with
  | @unaudited envelope _ hadmitted hclaims hrecords _ =>
    obtain ⟨_, hbroker⟩ := record_nonce.spec outside w envelope.nonceText
    constructor
    · rintro ⟨event, hevents, _⟩
      rw [hbroker] at hevents
      exact absurd (List.self_eq_append_right.mp hevents) (List.cons_ne_nil _ _)
    · refine fun hno => absurd ⟨envelope, hadmitted, hclaims, fun hrecord => ?_⟩ hno
      rw [records_iff.mpr hrecord] at hrecords
      cases hrecords
  | @audited w₀ entry respond hstage hnames =>
    obtain ⟨hhistory, hlog, _, _⟩ := hstage.spec
    have hno := stage_not_unaudited hstage
    rcases audited.spec outside w₀ entry respond with
      ⟨event, w', happend, haudited⟩ | ⟨e, w', happend, haudited⟩
    · obtain ⟨hevent, hbroker, _, _⟩ := append_audit_ok happend
      rw [haudited]
      refine iff_of_true ⟨event, ?_, (hnames _ _).1, ?_, ?_, ?_⟩ hno
      · rw [hbroker, hevent, ← hlog]
        rfl
      · rw [hevent]
        exact (hnames _ _).2.1
      · rw [hevent]
        exact (hnames _ _).2.2
      · exact BrokerAuditLog.from_verified_events_events _
    · obtain ⟨_, herror, _⟩ := append_audit_error happend
      rw [haudited] at h
      exact absurd ⟨e, herror.trans (by rw [hhistory])⟩ h

/-- A broker in memory that has served one call. -/
def servedWorld : World .ascii :=
  (call calm ⟨.new .ascii "session-1", fun _ => none, []⟩
    (.reject_ipc "ipc_frame_too_large" "frame too large" true)).2

theorem one_event_for_claimed_role :
    servedWorld.OneEvent
      (servedWorld.call calm (.handle (request .Health "nonce-1" [⟨"role", "admin"⟩]))) := by
  have hmemory : servedWorld.broker.state_store = .in_memory_skeleton := by
    unfold servedWorld
    rw [state_store_call]
    rfl
  refine (one_event_for_each_response_iff (not_appendFails_of_in_memory hmemory _)).mpr ?_
  rintro ⟨envelope, -, -, hrecords⟩
  apply hrecords
  rw [CanRecord, hmemory]
  trivial

/-- The metadata claims authority and the nonce is blank: no event and no failed append. -/
theorem no_event_for_blank_nonce :
    ¬ firstWorld.AppendFails calm (.handle (request .Health " " [⟨"role", "admin"⟩])) ∧
      ¬ firstWorld.OneEvent
        (firstWorld.call calm (.handle (request .Health " " [⟨"role", "admin"⟩]))) := by
  obtain ⟨hhistory, hlog⟩ : (firstWorld.call calm
        (.handle (request .Health " " [⟨"role", "admin"⟩]))).2.history.length = 0 ∧
      (firstWorld.call calm (.handle
        (request .Health " " [⟨"role", "admin"⟩]))).2.broker.audit_log.events.length = 0 := by
    decide +kernel
  constructor
  · rintro ⟨e, he⟩
    rw [he, List.length_append] at hhistory
    cases hhistory
  · rintro ⟨event, hevents, _⟩
    rw [hevents, List.length_append] at hlog
    cases hlog

/-! ## No effect without an audit event -/

/-- The call is suspended and has no effect. -/
structure FailsClosed (w : World crates) (r : BrokerResponse × World crates) : Prop where
  status : r.1.status = .Suspended
  body : r.1.body = none
  health : r.1.health = none
  audit_log : r.2.broker.audit_log = w.broker.audit_log
  flag : r.2.broker.shutdown_requested = w.broker.shutdown_requested
  shutdown_requested : r.1.shutdown_requested = w.broker.shutdown_requested

/-- A call whose append fails has no effect, unless it sets the shutdown flag. -/
theorem failed_append_fails_closed_iff {w : World crates} {c : Call}
    (h : w.AppendFails outside c) :
    w.FailsClosed (w.call outside c) ↔
      ¬ (w.ShutsDown outside c ∧ w.broker.shutdown_requested = false) := by
  unfold AppendFails at h
  generalize hr : w.call outside c = r at h ⊢
  have hcourse := call.course outside w c
  rw [hr] at hcourse
  obtain ⟨e, he⟩ := h
  cases hcourse with
  | @unaudited envelope _ _ _ _ _ =>
    obtain ⟨hhistory, _⟩ := record_nonce.spec outside w envelope.nonceText
    rw [hhistory] at he
    exact absurd (List.self_eq_append_right.mp he) (List.cons_ne_nil _ _)
  | @audited w₀ entry respond hstage hnames =>
    obtain ⟨hhistory, hlog, _, hflag⟩ := hstage.spec
    rcases audited.spec outside w₀ entry respond with
      ⟨event, w', happend, haudited⟩ | ⟨e, w', happend, haudited⟩
    · obtain ⟨_, _, hok, _⟩ := append_audit_ok happend
      rw [haudited, hok, hhistory] at he
      simp at he
    · obtain ⟨hbroker, _, _⟩ := append_audit_error happend
      rw [haudited]
      constructor
      · rintro hclosed ⟨hs, hfalse⟩
        have htrue := stage_of_shutsDown hstage hs
        have hkept := hclosed.flag
        rw [hbroker, htrue, hfalse] at hkept
        cases hkept
      · intro hno
        have hkept : w'.broker.shutdown_requested = w.broker.shutdown_requested := by
          rw [hbroker]
          rcases hflag with hsame | ⟨htrue, hs⟩
          · exact hsame
          · rw [htrue]
            by_contra hne
            exact hno ⟨hs, by simpa using Ne.symm hne⟩
        exact ⟨rfl, rfl, rfl, by rw [hbroker, hlog], hkept, hkept⟩

theorem eq_error_of_isOk {l : List (Except BrokerStoreError BrokerAuditEvent)}
    (h : l.map Except.isOk = [false]) : ∃ e, l = [.error e] := by
  rcases l with _ | ⟨_ | _, _ | _⟩ <;> simp_all [Except.isOk, Except.toBool]

theorem rejected_ipc_fails_closed :
    firstWorld.FailsClosed
      (firstWorld.call full (.reject_ipc "ipc_frame_too_large" "frame too large" true)) := by
  have hrun : (firstWorld.call full
      (.reject_ipc "ipc_frame_too_large" "frame too large" true)).2.history.map Except.isOk =
      [false] := by
    decide +kernel
  refine (failed_append_fails_closed_iff (eq_error_of_isOk hrun)).mpr ?_
  rintro ⟨⟨envelope, hadmitted, _⟩, _⟩
  simp [admitted, Call.envelope] at hadmitted

/-- The append of the shutdown fails, and the flag is set. -/
theorem failed_shutdown_sets_flag :
    firstWorld.AppendFails full (.handle (request .Shutdown "nonce-1" [])) ∧
      ¬ firstWorld.FailsClosed
        (firstWorld.call full (.handle (request .Shutdown "nonce-1" []))) := by
  obtain ⟨hfails, hset⟩ :
      (firstWorld.call full (.handle (request .Shutdown "nonce-1" []))).2.history.map
          Except.isOk = [false] ∧
        (firstWorld.call full
          (.handle (request .Shutdown "nonce-1" []))).2.broker.shutdown_requested = true := by
    decide +kernel
  refine ⟨eq_error_of_isOk hfails, fun hclosed => ?_⟩
  rw [hclosed.flag] at hset
  exact absurd hset (by decide)

end World

end protocol
