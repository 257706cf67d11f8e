-- What the head hash of the broker's audit log binds. The preimage of an event joins its
-- fields with bars, and a field may hold bars itself, so the head hash binds the events up
-- to where the bars stand: with equally many bars in each field, the events are the same.
import GuiShell.Broker.Audit
import GuiShell.HashChain

open audit_hash

namespace broker_audit

/-! ## Fields between bars -/

/-- The number of bars in a string. -/
def bars (s : String) : Nat := s.toList.count '|'

/-- The bars of each of the six strings. -/
def AuditEntry.bars (entry : AuditEntry) : List Nat :=
  [broker_audit.bars entry.request_id, broker_audit.bars entry.operation,
    broker_audit.bars entry.decision, broker_audit.bars entry.reason,
    broker_audit.bars entry.evidence_source, broker_audit.bars entry.payload_hash]

/-- A bar ends a field when it is known how many bars the field holds. -/
theorem split_bar {a a' b b' : List Char} (hc : a.count '|' = a'.count '|')
    (h : a ++ '|' :: b = a' ++ '|' :: b') : a = a' ∧ b = b' := by
  induction a generalizing a' with
  | nil =>
    cases a' with
    | nil => simpa using h
    | cons c a' =>
      obtain ⟨rfl, _⟩ := List.cons.inj h
      simp at hc
  | cons c a ih =>
    cases a' with
    | nil =>
      obtain ⟨rfl, _⟩ := List.cons.inj h
      simp at hc
    | cons c' a' =>
      rw [List.cons_append, List.cons_append] at h
      obtain ⟨rfl, hrest⟩ := List.cons.inj h
      obtain ⟨rfl, rfl⟩ := ih (by simpa [List.count_cons] using hc) hrest
      exact ⟨rfl, rfl⟩

/-- `split_bar` for strings, with the rest as characters. -/
theorem split_field {s s' : String} {b b' : List Char} (hc : bars s = bars s')
    (h : s.toList ++ '|' :: b = s'.toList ++ '|' :: b') : s = s' ∧ b = b' := by
  obtain ⟨hs, hb⟩ := split_bar hc h
  exact ⟨String.toList_inj.mp hs, hb⟩

theorem bars_event_id (event_index : Nat) : bars (event_id event_index) = 0 := by
  have hd : '|' ∉ Nat.toDigits 10 event_index := fun h =>
    absurd (Nat.isDigit_of_mem_toDigits (by decide) (by decide) h) (by decide)
  have hr : (Nat.repr event_index).toList = Nat.toDigits 10 event_index := String.toList_ofList
  rw [bars, event_id, String.toList_append, List.count_append, hr, List.count_eq_zero.mpr hd]
  decide

theorem event_id_inj {i j : Nat} (h : event_id i = event_id j) : i = j := by
  have := String.append_right_inj _ |>.mp h
  have := congrArg (Nat.ofDigitChars 10 · 0) (String.ofList_injective this)
  simpa [Nat.ofDigitChars_ten_toDigits] using this

theorem toList_hash_input (event_index : Nat) (entry : AuditEntry) (previous : Option String) :
    (hash_input event_index entry previous).toList =
      (event_id event_index).toList ++ '|' :: (entry.request_id.toList ++ '|' ::
        (entry.operation.toList ++ '|' :: (entry.decision.toList ++ '|' ::
          (entry.reason.toList ++ '|' :: (entry.evidence_source.toList ++ '|' ::
            (entry.payload_hash.toList ++ '|' :: (previous.getD "").toList)))))) := by
  simp [hash_input, String.toList_append]

/-- The preimage gives the index back, whatever the fields hold. -/
theorem hash_input_index {i j : Nat} {entry entry' : AuditEntry} {previous previous' : Option String}
    (h : hash_input i entry previous = hash_input j entry' previous') : i = j := by
  have h := congrArg String.toList h
  rw [toList_hash_input, toList_hash_input] at h
  exact event_id_inj (split_field (by rw [bars_event_id, bars_event_id]) h).1

/-- With equally many bars, the preimage gives every field back. -/
theorem hash_input_inj {i j : Nat} {entry entry' : AuditEntry} {previous previous' : Option String}
    (hbars : entry.bars = entry'.bars)
    (h : hash_input i entry previous = hash_input j entry' previous') :
    entry = entry' ∧ previous.getD "" = previous'.getD "" := by
  have h := congrArg String.toList h
  rw [toList_hash_input, toList_hash_input] at h
  simp only [AuditEntry.bars, List.cons.injEq, and_true] at hbars
  obtain ⟨h1, h2, h3, h4, h5, h6⟩ := hbars
  obtain ⟨_, h⟩ := split_field (by rw [bars_event_id, bars_event_id]) h
  obtain ⟨e1, h⟩ := split_field h1 h
  obtain ⟨e2, h⟩ := split_field h2 h
  obtain ⟨e3, h⟩ := split_field h3 h
  obtain ⟨e4, h⟩ := split_field h4 h
  obtain ⟨e5, h⟩ := split_field h5 h
  obtain ⟨e6, h⟩ := split_field h6 h
  refine ⟨?_, String.toList_inj.mp h⟩
  cases entry; cases entry'
  simp only [AuditEntry.mk.injEq]
  exact ⟨e1, e2, e3, e4, e5, e6⟩

/-! ## The log as a hash chain -/

variable {sha256 : Bytes → Bytes}

/-- The event at each index is the one that `build_event` gives there, and only the first
one has no previous hash. -/
theorem Verified.get {events : List BrokerAuditEvent} (h : Verified sha256 events) (i : Nat)
    (hi : i < events.length) :
    build_event sha256 (i + 1) events[i].entry events[i].previous_event_hash = events[i] ∧
      (events[i].previous_event_hash = none ↔ i = 0) := by
  induction h with
  | nil => simp at hi
  | @snoc events event _ hn ih =>
    by_cases hlt : i < events.length
    · simpa [List.getElem_append_left hlt] using ih hlt
    · have hi : i = events.length := by
        rw [List.length_append, List.length_singleton] at hi
        omega
      subst hi
      have hp : events.getLast?.map (·.event_hash) = event.previous_event_hash :=
        congrArg BrokerAuditEvent.previous_event_hash hn
      simp only [List.getElem_concat_length]
      rw [← hp]
      exact ⟨hn, by simp⟩

theorem Verified.chained {events : List BrokerAuditEvent} (h : Verified sha256 events) :
    hash_chain.Chained BrokerAuditEvent.previous_event_hash (fun e => some e.event_hash) none
      events := by
  induction h with
  | nil => exact .nil
  | @snoc events event _ hn ih =>
    refine ih.snoc ?_
    rw [← hn, hash_chain.head, nextEvent, build_event]
    cases events.getLast? <;> rfl

/-- The hash of the last event. -/
def headHash (events : List BrokerAuditEvent) : Option String := events.getLast?.map (·.event_hash)

theorem head_eq_headHash (events : List BrokerAuditEvent) :
    hash_chain.head (fun e => some e.event_hash) none events = headHash events := by
  rw [hash_chain.head, headHash]
  cases events.getLast? <;> rfl

/-- Events of verified logs with one hash stand at one index, and with equally many bars
they are the same event. -/
theorem Verified.hash_inj (hsha : Function.Injective sha256) {l m : List BrokerAuditEvent}
    (hl : Verified sha256 l) (hm : Verified sha256 m) {i j : Nat} (hi : i < l.length)
    (hj : j < m.length) (h : l[i].event_hash = m[j].event_hash) :
    i = j ∧ (l[i].entry.bars = m[j].entry.bars → l[i] = m[j]) := by
  obtain ⟨hli, hlp⟩ := hl.get i hi
  obtain ⟨hmj, hmp⟩ := hm.get j hj
  have hin : hash_input (i + 1) l[i].entry l[i].previous_event_hash =
      hash_input (j + 1) m[j].entry m[j].previous_event_hash := by
    rw [← hli, ← hmj] at h
    exact utf8.encode_inj (sha256_tagged_inj hsha h)
  have hij : i = j := by
    have := hash_input_index hin
    omega
  refine ⟨hij, fun hb => ?_⟩
  obtain ⟨hentry, hprev⟩ := hash_input_inj hb hin
  have hprev : l[i].previous_event_hash = m[j].previous_event_hash := by
    rcases hp : l[i].previous_event_hash with _ | p
    · exact (hmp.mpr (hij ▸ hlp.mp hp)).symm
    · rcases hq : m[j].previous_event_hash with _ | q
      · rw [hlp.mpr (hij.trans (hmp.mp hq))] at hp
        cases hp
      · rw [hp, hq] at hprev
        exact congrArg some hprev
  rw [← hli, ← hmj, hentry, hprev, hij]

/-- Two verified logs of one length and one head hash are the same exactly when, index by
index, each of the six fields holds as many bars in the one as in the other. -/
theorem one_head_one_log_iff_bars_agree (hsha : Function.Injective sha256)
    {l m : List BrokerAuditEvent} {log log' : BrokerAuditLog sha256}
    (hl : BrokerAuditLog.from_verified_events sha256 l = .ok log)
    (hm : BrokerAuditLog.from_verified_events sha256 m = .ok log')
    (hlen : l.length = m.length) (hhead : headHash l = headHash m) :
    l = m ↔ l.map (·.entry.bars) = m.map (·.entry.bars) := by
  refine ⟨fun h => h ▸ rfl, fun hbars => ?_⟩
  have hvl : Verified sha256 l := BrokerAuditLog.from_verified_events.spec.mp hl ▸ log.verified
  have hvm : Verified sha256 m := BrokerAuditLog.from_verified_events.spec.mp hm ▸ log'.verified
  have hbind : ∀ a ∈ l, ∀ b ∈ m, some a.event_hash = some b.event_hash →
      id a = id b ∧ a.previous_event_hash = b.previous_event_hash := by
    intro a ha b hb hab
    obtain ⟨i, hi, rfl⟩ := List.getElem_of_mem ha
    obtain ⟨j, hj, rfl⟩ := List.getElem_of_mem hb
    obtain ⟨rfl, heq⟩ := hvl.hash_inj hsha hvm hi hj (Option.some.inj hab)
    have hb : l[i].entry.bars = m[i].entry.bars := by
      have := congrArg (·[i]?) hbars
      simpa [List.getElem?_eq_getElem hi, List.getElem?_eq_getElem hj] using this
    have := heq hb
    exact ⟨this, congrArg _ this⟩
  have := hvl.chained.binding hvm.chained hbind (fun hne => absurd hlen hne)
    (by rw [head_eq_headHash, head_eq_headHash, hhead])
  simpa using this

/-! ### A bar that moves -/

/-- A health request whose id ends in `|health`, as the broker audits it. -/
def barInId : AuditEntry :=
  ⟨"request-1|health", "health", "accepted", "health status returned", "LIVE_RUNTIME",
    "sha256:74234e98afe7498fb5daf1f36ac2d78acc339464f950703b8c019892f982b90b"⟩

/-- The same characters, with the bar in the operation. -/
def barInOperation : AuditEntry :=
  { barInId with request_id := "request-1", operation := "health|health" }

/-- The log of one event. -/
def oneEvent (sha256 : Bytes → Bytes) (entry : AuditEntry) : BrokerAuditLog sha256 :=
  (BrokerAuditLog.default.append entry).1

/-- A digest that is the real one on the preimage of the two events, and injective. -/
def barDigest : Bytes → Bytes := fips.pinned [utf8.encode (hash_input 1 barInId none)]

theorem barDigest_injective : Function.Injective barDigest := by
  refine fips.pinned_injective fun a ha b hb _ => ?_
  rw [List.mem_singleton.mp ha, List.mem_singleton.mp hb]

/-- The two events share their preimage, so they share their hash under every digest. -/
theorem oneEvent_headHash (sha256 : Bytes → Bytes) :
    headHash (oneEvent sha256 barInId).events = headHash (oneEvent sha256 barInOperation).events := by
  have : hash_input 1 barInId none = hash_input 1 barInOperation none := by decide +kernel
  change some (sha256_tagged sha256 (utf8.encode (hash_input 1 barInId none))) =
    some (sha256_tagged sha256 (utf8.encode (hash_input 1 barInOperation none)))
  rw [this]

theorem oneEvent_ne (sha256 : Bytes → Bytes) :
    (oneEvent sha256 barInId).events ≠ (oneEvent sha256 barInOperation).events := by
  intro h
  have h : [barInId] = [barInOperation] := congrArg (List.map BrokerAuditEvent.entry) h
  exact absurd h (by decide)

theorem one_head_one_log_bar_in_id :
    (oneEvent barDigest barInId).events = (oneEvent barDigest barInOperation).events ↔
      (oneEvent barDigest barInId).events.map (·.entry.bars) =
        (oneEvent barDigest barInOperation).events.map (·.entry.bars) :=
  one_head_one_log_iff_bars_agree barDigest_injective
    (oneEvent barDigest barInId).from_verified_events_events
    (oneEvent barDigest barInOperation).from_verified_events_events rfl
    (oneEvent_headHash barDigest)

theorem one_head_two_logs :
    ¬ ∀ sha256 : Bytes → Bytes, Function.Injective sha256 →
      ∀ (l m : List BrokerAuditEvent) (log log' : BrokerAuditLog sha256),
        BrokerAuditLog.from_verified_events sha256 l = .ok log →
        BrokerAuditLog.from_verified_events sha256 m = .ok log' →
        l.length = m.length → headHash l = headHash m → l = m := by
  intro h
  exact oneEvent_ne barDigest (h barDigest barDigest_injective _ _ _ _
    (oneEvent barDigest barInId).from_verified_events_events
    (oneEvent barDigest barInOperation).from_verified_events_events rfl
    (oneEvent_headHash barDigest))

end broker_audit
