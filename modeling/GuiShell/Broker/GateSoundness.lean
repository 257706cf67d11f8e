-- The gates of `handle`: which requests reach their operation, and what a request leaves of the
-- broker when it does not.
import GuiShell.Broker.ResponseAudit

open json serde_json authority broker_audit files store

namespace protocol

variable {crates : Crates} {outside : Outside}

/-! ## The conditions -/

/-- A field that is there and not empty. -/
def Filled (field : Option String) : Prop := ∃ value, field = some value ∧ value ≠ ""

/-- What a request needs to reach its operation, apart from its metadata. -/
structure Broker.Admits (broker : Broker crates) (envelope : BrokerRequestEnvelope) (clock : I64) :
    Prop where
  request_id : Filled envelope.request_id
  operation : ∃ operation, envelope.operation = some operation
  payload_hash : Filled envelope.payload_hash
  issued_at : Filled envelope.issued_at
  nonce : Filled envelope.nonce
  metadata_present : envelope.metadata_present = true
  tagged : is_tagged_sha256 envelope.payloadHash = true
  canonical : envelope.payloadHash = canonical_payload_hash crates.sha256 envelope.payload
  fresh : issued_at_is_fresh (envelope.issued_at.getD "")
    (broker.current_epoch_seconds clock) = true
  ready : ¬ (broker.state_store.persistence_required = true ∧
    broker.state_store.persistence_ready = false)
  session : envelope.operation = some .Health ∨ envelope.session_id = some broker.session_id
  unseen : broker.seen_nonces.contains_key envelope.nonceText = false

theorem getD_ne_empty_iff (field : Option String) : field.getD "" ≠ "" ↔ Filled field := by
  cases field <;> simp [Filled]

theorem isMalformed_eq_false_iff (envelope : BrokerRequestEnvelope) :
    envelope.isMalformed = false ↔ Filled envelope.request_id ∧
      (∃ operation, envelope.operation = some operation) ∧ Filled envelope.payload_hash ∧
      Filled envelope.issued_at ∧ Filled envelope.nonce ∧ envelope.metadata_present = true := by
  simp only [BrokerRequestEnvelope.isMalformed, Bool.or_eq_false_iff, decide_eq_false_iff_not,
    ← getD_ne_empty_iff, ne_eq, Option.isNone_eq_false_iff, Option.isSome_iff_exists,
    Bool.not_eq_false', and_assoc]

/-- The gates pass exactly the requests that meet all the conditions. -/
theorem gate_eq_pass_iff {broker : Broker crates} {envelope : BrokerRequestEnvelope} {clock : I64} :
    broker.gate envelope clock = .pass ↔ broker.Admits envelope clock := by
  have hmalformed := isMalformed_eq_false_iff envelope
  constructor
  · intro h
    unfold Broker.gate at h
    split at h
    · cases h
    rename_i hwell
    split at h
    · cases h
    rename_i htagged
    split at h
    · cases h
    rename_i hcanonical
    split at h
    · cases h
    rename_i hfresh
    split at h
    · split at h <;> cases h
    rename_i hready
    split at h
    · cases h
    rename_i hsession
    split at h
    · cases h
    rename_i hseen
    obtain ⟨hid, hop, hhash, hissued, hnonce, hmetadata⟩ := hmalformed.mp (by simpa using hwell)
    refine ⟨hid, hop, hhash, hissued, hnonce, hmetadata, by simpa using htagged,
      by simpa using hcanonical, by simpa using hfresh, by simpa using hready, ?_,
      by simpa using hseen⟩
    by_cases hhealth : envelope.operation = some .Health
    · exact .inl hhealth
    · exact .inr (by simpa [hhealth] using hsession)
  · intro h
    have hwell := hmalformed.mpr
      ⟨h.request_id, h.operation, h.payload_hash, h.issued_at, h.nonce, h.metadata_present⟩
    have hready : (broker.state_store.persistence_required &&
        !broker.state_store.persistence_ready) = false := by
      simpa using h.ready
    have hsession : ¬ (envelope.operation ≠ some .Health ∧
        envelope.session_id ≠ some broker.session_id) := by
      rintro ⟨hhealth, hstale⟩
      exact h.session.elim hhealth hstale
    unfold Broker.gate
    rw [hwell, h.tagged, ← h.canonical, h.fresh, hready, h.unseen, if_neg hsession]
    simp

namespace World

/-! ## The frame -/

/-- What a request that does not reach its operation leaves of the broker: all of it but the
log, and but the nonces when its metadata claims authority. -/
inductive Framed (outside : Outside) (w : World crates) (envelope : BrokerRequestEnvelope) :
    Broker crates → Prop
  | audited (audit_log : BrokerAuditLog crates.sha256) :
      Framed outside w envelope { w.broker with audit_log }
  | claimed (hadmits : w.broker.Admits envelope outside.gate_clock)
      (hclaims : metadata_attempts_authority crates envelope.metadata = true)
      (audit_log : BrokerAuditLog crates.sha256) (seen_nonces : SortedMap String I64) :
      Framed outside w envelope { w.broker with audit_log, seen_nonces }

/-- A nonce that is not recorded leaves the broker as it was. -/
theorem record_nonce_error {w : World crates} {nonce : String} {e : BrokerStoreError}
    (h : (w.record_nonce outside nonce).1 = .error e) :
    (w.record_nonce outside nonce).2.broker = w.broker := by
  unfold record_nonce at h ⊢
  split at h
  · rfl
  · cases h
  · cases h

/-- An exit that audits changes nothing but the log. -/
theorem audited.frame {w₀ : World crates} {P : Broker crates → Prop}
    (h : ∀ audit_log, P { w₀.broker with audit_log }) (entry : AuditEntry)
    (respond : Broker crates → BrokerAuditEvent → BrokerResponse) :
    P (w₀.audited outside entry respond).2.broker :=
  audited.rule (P := fun _ broker => P broker) h fun _ => h w₀.broker.audit_log

theorem reaches_iff {w : World crates} {envelope : BrokerRequestEnvelope} :
    w.ReachesDispatch outside (.handle envelope) envelope ↔
      w.broker.Admits envelope outside.gate_clock ∧
      metadata_attempts_authority crates envelope.metadata = false ∧
      w.records outside envelope = true := by
  rw [reachesDispatch_iff, ← gate_eq_pass_iff]
  simp [Dispatches, admitted, Call.envelope, claimsAuthority]

theorem eq_ok_of_records {w : World crates} {envelope : BrokerRequestEnvelope}
    (h : w.records outside envelope = true) :
    (w.record_nonce outside envelope.nonceText).1 = .ok () := by
  unfold records at h
  rcases hr : (w.record_nonce outside envelope.nonceText).1 with e | _
  · rw [hr] at h
    cases h
  · rfl

/-- A request that reaches its operation has its nonce recorded before. -/
theorem handle_of_reaches {w : World crates} {envelope : BrokerRequestEnvelope}
    (h : w.ReachesDispatch outside (.handle envelope) envelope) :
    (w.record_nonce outside envelope.nonceText).1 = .ok () ∧
      ∃ operation, envelope.operation = some operation ∧ w.handle outside envelope =
        (w.record_nonce outside envelope.nonceText).2.dispatch outside operation envelope := by
  have hdispatches := reachesDispatch_iff.mp h
  obtain ⟨operation, hop, hcall⟩ := callWith_of_dispatches hdispatches
  exact ⟨eq_ok_of_records hdispatches.2.2, operation, hop, hcall (dispatch outside)⟩

/-- A request that does not reach its operation leaves the broker framed. -/
theorem handle_framed {w : World crates} {envelope : BrokerRequestEnvelope}
    (h : ¬ w.ReachesDispatch outside (.handle envelope) envelope) :
    w.Framed outside envelope (w.handle outside envelope).2.broker := by
  obtain ⟨course, hcourse, hhandled⟩ := handle_cases outside w envelope
  rw [hcourse]
  cases hhandled with
  | rejected => exact audited.frame .audited _ _
  | suspended => exact audited.frame .audited _ _
  | unavailable _ _ hrecord =>
    dsimp only
    rw [record_nonce_error hrecord]
    exact .audited w.broker.audit_log
  | claimed hgate hclaims =>
    refine audited.frame (fun audit_log => ?_) _ _
    rw [(record_nonce.spec outside w envelope.nonceText).2]
    exact .claimed (gate_eq_pass_iff.mp hgate) hclaims audit_log _
  | unrecorded _ _ hrecord =>
    refine audited.frame (fun audit_log => ?_) _ _
    rw [record_nonce_error hrecord]
    exact .audited audit_log
  | dispatched hgate hclaims hrecords =>
    exact absurd (reaches_iff.mpr ⟨gate_eq_pass_iff.mp hgate, hclaims, hrecords⟩) h

/-- No operation has a part in what a request comes to that does not reach its own. -/
theorem handle_refuses {w : World crates} {envelope : BrokerRequestEnvelope}
    (h : ¬ w.ReachesDispatch outside (.handle envelope) envelope) :
    Refuses (w.handle outside envelope).1 ∧
      ∀ operations, w.handleWith outside operations envelope = w.handle outside envelope := by
  refine refuses_of_not_reachesDispatch (c := .handle envelope) fun envelope' hreaches => ?_
  obtain ⟨hadmitted, _⟩ := reachesDispatch_iff.mp hreaches
  obtain rfl := Option.some.inj (envelope_of_admitted hadmitted).1
  exact h hreaches

/-- Which requests reach dispatch, and what becomes of those that do not: they are refused
without a body and without any operation, and leave the broker framed. -/
theorem gates_sound_and_frame (outside : Outside) (w : World crates)
    (envelope : BrokerRequestEnvelope) :
    (w.ReachesDispatch outside (.handle envelope) envelope ↔
      w.broker.Admits envelope outside.gate_clock ∧
      metadata_attempts_authority crates envelope.metadata = false ∧
      w.records outside envelope = true) ∧
    (w.ReachesDispatch outside (.handle envelope) envelope →
      (w.record_nonce outside envelope.nonceText).1 = .ok () ∧
      ∃ operation, envelope.operation = some operation ∧ w.handle outside envelope =
        (w.record_nonce outside envelope.nonceText).2.dispatch outside operation envelope) ∧
    (¬ w.ReachesDispatch outside (.handle envelope) envelope →
      Refuses (w.handle outside envelope).1 ∧
      (∀ operations, w.handleWith outside operations envelope = w.handle outside envelope) ∧
      w.Framed outside envelope (w.handle outside envelope).2.broker) := by
  refine ⟨reaches_iff, handle_of_reaches, fun h => ?_⟩
  obtain ⟨hrefuses, hoperations⟩ := handle_refuses h
  exact ⟨hrefuses, hoperations, handle_framed h⟩

end World

end protocol
