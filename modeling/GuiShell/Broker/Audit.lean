-- The audit log of the Rust broker (broker/audit.rs). Each event holds the hash of the
-- event before it, and the log takes only the event that extends it.
import GuiShell.AuditHash
import Mathlib.Data.List.Induction

open audit_hash

namespace broker_audit

structure BrokerAuditEvent where
  event_id : String
  request_id : String
  operation : String
  decision : String
  reason : String
  evidence_source : String
  payload_hash : String
  previous_event_hash : Option String
  event_hash : String
  deriving DecidableEq

/-- The six strings that a caller audits. -/
structure AuditEntry where
  request_id : String
  operation : String
  decision : String
  reason : String
  evidence_source : String
  payload_hash : String
  deriving DecidableEq

def BrokerAuditEvent.entry (event : BrokerAuditEvent) : AuditEntry where
  request_id := event.request_id
  operation := event.operation
  decision := event.decision
  reason := event.reason
  evidence_source := event.evidence_source
  payload_hash := event.payload_hash

variable (sha256 : Bytes → Bytes)

/-! ## The events -/

def event_id (event_index : Nat) : String := "broker-audit-" ++ Nat.repr event_index

def hash_input (event_index : Nat) (entry : AuditEntry) (previous_event_hash : Option String) :
    String :=
  event_id event_index ++ "|" ++ entry.request_id ++ "|" ++ entry.operation ++ "|" ++
    entry.decision ++ "|" ++ entry.reason ++ "|" ++ entry.evidence_source ++ "|" ++
    entry.payload_hash ++ "|" ++ previous_event_hash.getD ""

def build_event (event_index : Nat) (entry : AuditEntry) (previous_event_hash : Option String) :
    BrokerAuditEvent where
  event_id := event_id event_index
  request_id := entry.request_id
  operation := entry.operation
  decision := entry.decision
  reason := entry.reason
  evidence_source := entry.evidence_source
  payload_hash := entry.payload_hash
  previous_event_hash := previous_event_hash
  event_hash :=
    sha256_tagged sha256 (utf8.encode (hash_input event_index entry previous_event_hash))

/-- The event that extends a list of events. -/
def nextEvent (events : List BrokerAuditEvent) (entry : AuditEntry) : BrokerAuditEvent :=
  build_event sha256 (events.length + 1) entry (events.getLast?.map (·.event_hash))

/-- Each event is the one that extends the events before it. -/
inductive Verified : List BrokerAuditEvent → Prop
  | nil : Verified []
  | snoc {events : List BrokerAuditEvent} {event : BrokerAuditEvent} :
      Verified events → nextEvent sha256 events event.entry = event → Verified (events ++ [event])

/-! ## The log -/

/-- The events are private to the log: it starts empty and grows by `append` and
`push_verified` alone, so it is always verified. -/
structure BrokerAuditLog where
  events : List BrokerAuditEvent
  verified : Verified sha256 events

namespace BrokerAuditLog

variable {sha256}

@[ext] theorem ext {log log' : BrokerAuditLog sha256} (h : log.events = log'.events) :
    log = log' := by
  cases log; cases log'; cases h; rfl

instance : DecidableEq (BrokerAuditLog sha256) := fun a b =>
  decidable_of_iff (a.events = b.events) ⟨ext, fun h => h ▸ rfl⟩

def default : BrokerAuditLog sha256 := ⟨[], .nil⟩

def build_next (log : BrokerAuditLog sha256) (entry : AuditEntry) : BrokerAuditEvent :=
  nextEvent sha256 log.events entry

def append (log : BrokerAuditLog sha256) (entry : AuditEntry) :
    BrokerAuditLog sha256 × BrokerAuditEvent :=
  (⟨log.events ++ [log.build_next entry], log.verified.snoc rfl⟩, log.build_next entry)

def push_verified (log : BrokerAuditLog sha256) (event : BrokerAuditEvent) :
    Except String (BrokerAuditLog sha256) :=
  if h : log.build_next event.entry = event then
    .ok ⟨log.events ++ [event], log.verified.snoc h⟩
  else .error "broker audit eventが現在のhash chainを延長していない"

def from_verified_events (sha256 : Bytes → Bytes) (events : List BrokerAuditEvent) :
    Except String (BrokerAuditLog sha256) :=
  events.foldlM push_verified default

/-! ### The specs of the log functions -/

theorem bind_eq_ok {ε α β : Type} {x : Except ε α} {f : α → Except ε β} {b : β} :
    x >>= f = .ok b ↔ ∃ a, x = .ok a ∧ f a = .ok b := by
  cases x with
  | error e => simp [bind, Except.bind]
  | ok a => simp [bind, Except.bind]

@[simp] theorem entry_build_event (event_index : Nat) (entry : AuditEntry)
    (previous_event_hash : Option String) :
    (build_event sha256 event_index entry previous_event_hash).entry = entry := rfl

@[simp] theorem entry_build_next (log : BrokerAuditLog sha256) (entry : AuditEntry) :
    (log.build_next entry).entry = entry := rfl

theorem push_verified.spec {log log' : BrokerAuditLog sha256} {event : BrokerAuditEvent} :
    log.push_verified event = .ok log' ↔
      nextEvent sha256 log.events event.entry = event ∧ log'.events = log.events ++ [event] := by
  unfold push_verified
  split
  · rename_i h
    constructor
    · rintro ⟨⟩
      exact ⟨h, rfl⟩
    · rintro ⟨_, hl⟩
      rw [Except.ok.injEq]
      exact ext hl.symm
  · rename_i h
    simp only [reduceCtorEq, false_iff, not_and]
    exact fun hn => absurd hn h

/-- The event that the log builds extends the log. -/
theorem push_verified_build_next (log : BrokerAuditLog sha256) (entry : AuditEntry) :
    log.push_verified (log.build_next entry) = .ok (log.append entry).1 :=
  push_verified.spec.mpr ⟨rfl, rfl⟩

theorem verified_snoc {events : List BrokerAuditEvent} {event : BrokerAuditEvent} :
    Verified sha256 (events ++ [event]) ↔
      Verified sha256 events ∧ nextEvent sha256 events event.entry = event := by
  constructor
  · intro h
    generalize hm : events ++ [event] = m at h
    cases h with
    | nil => simp at hm
    | snoc hl ha =>
      obtain ⟨rfl, rfl⟩ := List.append_singleton_inj.mp hm
      exact ⟨hl, ha⟩
  · exact fun ⟨hl, ha⟩ => hl.snoc ha

/-- The events load exactly when each one extends the ones before it, and they load as
they stand. -/
theorem from_verified_events.spec {events : List BrokerAuditEvent}
    {log : BrokerAuditLog sha256} :
    from_verified_events sha256 events = .ok log ↔ log.events = events := by
  induction events using List.reverseRecOn generalizing log with
  | nil =>
    simp only [from_verified_events, List.foldlM_nil, pure, Except.pure, Except.ok.injEq]
    exact ⟨fun h => h ▸ rfl, fun h => ext h.symm⟩
  | append_singleton events event ih =>
    unfold from_verified_events at ih ⊢
    rw [List.foldlM_append, bind_eq_ok]
    simp only [List.foldlM_cons, List.foldlM_nil, bind_pure, push_verified.spec, ih]
    constructor
    · rintro ⟨log₀, rfl, _, hl⟩
      exact hl
    · intro h
      obtain ⟨hv, hn⟩ := verified_snoc.mp (h ▸ log.verified)
      exact ⟨⟨events, hv⟩, rfl, hn, h⟩

/-- The events of a log load back as the log. -/
theorem from_verified_events_events (log : BrokerAuditLog sha256) :
    from_verified_events sha256 log.events = .ok log := from_verified_events.spec.mpr rfl

end BrokerAuditLog

end broker_audit
