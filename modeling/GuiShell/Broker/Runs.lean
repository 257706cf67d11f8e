-- Runs of the broker on one store directory: processes that open the directory, serve calls
-- and stop, in any order, with any file operations failing.
import GuiShell.Broker.ResponseAudit

open json serde_json authority broker_audit files store

namespace protocol

variable {crates : Crates} {outside : Outside}

/-! ## Opening -/

/-- The broker of a process that opened a directory. -/
theorem new_persistent.spec {c : Contents crates} {disk : Disk StoreFile}
    (faults : Faults StoreFile) (session_id : String) (now : I64)
    (random : Except String { key : Bytes // key.length = 32 }) (h : Holds disk c) :
    wp (Broker.new_persistent crates faults session_id now random)
      (fun broker d => c.Loads ∧ ∃ store, broker =
          { Broker.new crates session_id with
            seen_nonces := loadedNonces now c.records
            audit_log := c.log
            state_store := .durable_file_store store } ∧
        Holds d ⟨some store.audit_anchor_key, c.log, compactRecords (loadedNonces now c.records),
          some session_id⟩)
      (fun d => (∃ c', Holds d c' ∧ c.Opening now c') ∧
        (faults ≠ noFaults ∨ (∃ e, random = .error e) ∨ ¬ c.Loads)) disk := by
  rw [Broker.new_persistent, wp_bind]
  refine (open_or_create.spec faults session_id now random h).mono ?_ fun _ hd => hd
  rintro ⟨store, state⟩ d ⟨hloads, rfl, hd⟩
  exact ⟨hloads, store, rfl, hd⟩

/-! ## A broker on its directory -/

namespace World

/-- The broker of the world runs on its directory: the log in memory is the one in the files. -/
structure Serves (w : World crates) (c : Contents crates) : Prop where
  holds : Holds w.disk c
  durable : ∃ store, w.broker.state_store = .durable_file_store store ∧
    c.key = some store.audit_anchor_key
  audit_log : w.broker.audit_log = c.log
  clock : w.broker.current_epoch_seconds_override = none

/-- What a call does to the nonces in memory and to the records in the replay file. -/
inductive NoncePhase (outside : Outside) (w : World crates) (call : Call) (c : Contents crates) :
    SortedMap String I64 → Contents crates → Prop
  | gates (h : w.admitted outside call = none) :
      NoncePhase outside w call c w.broker.seen_nonces c
  | recorded {envelope : BrokerRequestEnvelope} (h : w.admitted outside call = some envelope)
      (hrecords : w.records outside envelope = true)
      (hloads : ∀ record ∈ c.records ++ [⟨envelope.nonceText, some outside.record_clock⟩],
        ¬ IsBlank record.nonce) :
      NoncePhase outside w call c
        (loadedNonces outside.record_clock
          (c.records ++ [⟨envelope.nonceText, some outside.record_clock⟩]))
        { c with records := compactRecords (loadedNonces outside.record_clock
          (c.records ++ [⟨envelope.nonceText, some outside.record_clock⟩])) }
  | unwritten {envelope : BrokerRequestEnvelope} (h : w.admitted outside call = some envelope)
      (hrecords : w.records outside envelope = false)
      (hline : outside.faults .append .replay ≠ none) :
      NoncePhase outside w call c w.broker.seen_nonces c
  | stuck {envelope : BrokerRequestEnvelope} (h : w.admitted outside call = some envelope)
      (hrecords : w.records outside envelope = false)
      (hline : outside.faults .append .replay = none)
      (hwhy : outside.faults ≠ noFaults ∨
        ∃ record ∈ c.records ++ [⟨envelope.nonceText, some outside.record_clock⟩],
          IsBlank record.nonce) :
      NoncePhase outside w call c w.broker.seen_nonces
        { c with records := c.records ++ [⟨envelope.nonceText, some outside.record_clock⟩] }

/-- What a call does to the audit log, when the files held `c` before its append. -/
inductive AuditPhase (outside : Outside) (w : World crates) (call : Call) (c : Contents crates) :
    World crates → Prop
  | unaudited {w' : World crates} (h : w.Unaudited outside call) (hserves : w'.Serves c) :
      AuditPhase outside w call c w'
  | appended {w' : World crates} {entry : AuditEntry} (hfollows : AnchorFollows outside.faults)
      (hserves : w'.Serves { c with log := (c.log.append entry).1 }) :
      AuditPhase outside w call c w'
  | unwritten {w' : World crates} (hline : outside.faults .append .audit ≠ none)
      (hserves : w'.Serves c) : AuditPhase outside w call c w'
  | torn {w' : World crates} {entry : AuditEntry} (haudited : ¬ w.Unaudited outside call)
      (hline : outside.faults .append .audit = none)
      (hfollows : ¬ AnchorFollows outside.faults) (hlog : w'.broker.audit_log = c.log)
      (htorn : Torn w'.disk c entry) : AuditPhase outside w call c w'

/-- The call writes no blank nonce into the replay file. -/
def WritesNoBlankNonce (outside : Outside) (w : World crates) (call : Call) : Prop :=
  ∀ envelope, w.admitted outside call = some envelope → outside.faults .append .replay = none →
    ¬ IsBlank envelope.nonceText

/-- When the call writes a line into the audit file, the operations that follow succeed. -/
def AppendsWhole (outside : Outside) (w : World crates) (call : Call) : Prop :=
  w.Unaudited outside call ∨ outside.faults .append .audit ≠ none ∨ AnchorFollows outside.faults

theorem record_nonce.durable_spec {w : World crates} {c : Contents crates} (h : w.Serves c)
    {call : Call} {envelope : BrokerRequestEnvelope}
    (hadmitted : w.admitted outside call = some envelope) :
    ∃ c', NoncePhase outside w call c
        (w.record_nonce outside envelope.nonceText).2.broker.seen_nonces c' ∧
      (w.record_nonce outside envelope.nonceText).2.Serves c' := by
  obtain ⟨hholds, ⟨store, hstore, hkey⟩, hlog, hclock⟩ := h
  have hrecords : w.records outside envelope =
      (w.record_nonce outside envelope.nonceText).1.isOk := rfl
  rw [record_nonce_durable hstore] at hrecords ⊢
  have hspec :=
    append_replay_nonce.spec outside.faults envelope.nonceText outside.record_clock hholds
  rcases hrun : append_replay_nonce crates outside.faults envelope.nonceText outside.record_clock
    w.disk with ⟨nonces, d⟩ | ⟨e, d⟩
  · obtain ⟨rfl, hloads, hd⟩ := hspec.of_ok hrun
    rw [hrun] at hrecords
    exact ⟨_, .recorded hadmitted hrecords hloads, hd, ⟨store, hstore, hkey⟩, hlog, hclock⟩
  · rw [hrun] at hrecords
    rcases hspec.of_error hrun with ⟨hline, rfl⟩ | ⟨hline, hd, hwhy⟩
    · exact ⟨_, .unwritten hadmitted hrecords hline, hholds, ⟨store, hstore, hkey⟩, hlog, hclock⟩
    · exact ⟨_, .stuck hadmitted hrecords hline hwhy, hd, ⟨store, hstore, hkey⟩, hlog, hclock⟩

/-- An exit that audits changes the log and nothing else of the broker. -/
theorem audited.durable_spec {w w₀ : World crates} {call : Call} {c : Contents crates}
    (h : w₀.Serves c) (hstage : Stage outside w call w₀) (entry : AuditEntry)
    (respond : Broker crates → BrokerAuditEvent → BrokerResponse) :
    (w₀.audited outside entry respond).2.broker.seen_nonces = w₀.broker.seen_nonces ∧
      AuditPhase outside w call c (w₀.audited outside entry respond).2 := by
  obtain ⟨hholds, ⟨store, hstore, hkey⟩, hlog, hclock⟩ := h
  have hspec := append_audit_event.spec outside.faults entry hholds hkey
  rcases audited.spec outside w₀ entry respond with
    ⟨event, w', happend, haudited⟩ | ⟨e, w', happend, haudited⟩
  · obtain ⟨hevent, hbroker, _, hrun⟩ := append_audit_ok happend
    rw [hevent, hstore, hlog] at hrun
    obtain ⟨hfollows, hd⟩ := hspec.of_ok hrun
    rw [haudited]
    refine ⟨by rw [hbroker], .appended hfollows ⟨hd, ⟨store, ?_, hkey⟩, ?_, ?_⟩⟩
    · rw [hbroker]
      exact hstore
    · rw [hbroker, ← hlog]
    · rw [hbroker]
      exact hclock
  · obtain ⟨hbroker, _, hrun⟩ := append_audit_error happend
    rw [hstore, hlog] at hrun
    rw [haudited]
    refine ⟨by rw [hbroker], ?_⟩
    rcases hspec.of_error hrun with ⟨hline, hd⟩ | ⟨hline, hfollows, htorn⟩
    · refine .unwritten hline ⟨hd ▸ hholds, ⟨store, ?_, hkey⟩, ?_, ?_⟩
      · rw [hbroker, hstore]
      · rw [hbroker, hlog]
      · rw [hbroker, hclock]
    · exact .torn (stage_not_unaudited hstage) hline hfollows (by rw [hbroker, hlog]) htorn

/-- The history has no part in it. -/
theorem Serves.forget {w : World crates} {c : Contents crates} (h : w.Serves c) :
    (World.mk w.broker w.disk []).Serves c := ⟨h.holds, h.durable, h.audit_log, h.clock⟩

theorem Serves.flagged {w : World crates} {c : Contents crates} (h : w.Serves c)
    (operation : BrokerOperation) : (w.flagged operation).Serves c := by
  cases operation <;> exact ⟨h.holds, h.durable, h.audit_log, h.clock⟩

theorem flagged_seen_nonces (w : World crates) (operation : BrokerOperation) :
    (w.flagged operation).broker.seen_nonces = w.broker.seen_nonces := by
  cases operation <;> rfl

theorem NoncePhase.log {w : World crates} {call : Call} {c c' : Contents crates}
    {seen : SortedMap String I64} (h : NoncePhase outside w call c seen c') : c'.log = c.log := by
  cases h <;> rfl

theorem NoncePhase.key {w : World crates} {call : Call} {c c' : Contents crates}
    {seen : SortedMap String I64} (h : NoncePhase outside w call c seen c') : c'.key = c.key := by
  cases h <;> rfl

theorem NoncePhase.loads {w : World crates} {call : Call} {c c' : Contents crates}
    {seen : SortedMap String I64} (h : NoncePhase outside w call c seen c') (hloads : c.Loads)
    (hnonce : w.WritesNoBlankNonce outside call) : c'.Loads := by
  cases h with
  | gates => exact hloads
  | recorded _ _ hrecords => exact ⟨compactRecords_loadedNonces hrecords, hloads.2⟩
  | unwritten => exact hloads
  | @stuck envelope hadmitted _ hline _ =>
    refine ⟨fun record hr => ?_, hloads.2⟩
    rcases List.mem_append.mp hr with hr | hr
    · exact hloads.1 record hr
    · rw [List.mem_singleton.mp hr]
      exact hnonce envelope hadmitted hline

/-- Without failures and blank nonces a call stops at the gates or records its nonce. -/
theorem NoncePhase.of_quiet {w : World crates} {call : Call} {c c' : Contents crates}
    {seen : SortedMap String I64} (h : NoncePhase outside w call c seen c')
    (hquiet : outside.faults = noFaults) (hloads : c.Loads)
    (hnonce : w.WritesNoBlankNonce outside call) :
    (w.admitted outside call = none ∧ seen = w.broker.seen_nonces ∧ c' = c) ∨
    ∃ envelope, w.admitted outside call = some envelope ∧ w.records outside envelope = true ∧
      seen = loadedNonces outside.record_clock
        (c.records ++ [⟨envelope.nonceText, some outside.record_clock⟩]) ∧
      c' = { c with records := compactRecords seen } := by
  cases h with
  | gates hadmitted => exact .inl ⟨hadmitted, rfl, rfl⟩
  | @recorded envelope hadmitted hrecords _ =>
    exact .inr ⟨envelope, hadmitted, hrecords, rfl, rfl⟩
  | unwritten _ _ hline =>
    rw [hquiet] at hline
    exact absurd rfl hline
  | @stuck envelope hadmitted _ hline hwhy =>
    rcases hwhy with hfaults | ⟨record, hr, hblank⟩
    · exact absurd hquiet hfaults
    · rcases List.mem_append.mp hr with hr | hr
      · exact absurd hblank (hloads.1 record hr)
      · rw [List.mem_singleton.mp hr] at hblank
        exact absurd hblank (hnonce envelope hadmitted hline)

/-- A blank nonce that passes the gates stays in the replay file. -/
theorem NoncePhase.bars {w : World crates} {call : Call} {c c' : Contents crates}
    {seen : SortedMap String I64} (h : NoncePhase outside w call c seen c')
    (hquiet : outside.faults = noFaults) {envelope : BrokerRequestEnvelope}
    (hadmitted : w.admitted outside call = some envelope) (hblank : IsBlank envelope.nonceText) :
    ∃ record ∈ c'.records, IsBlank record.nonce := by
  cases h with
  | gates h =>
    rw [hadmitted] at h
    cases h
  | recorded h _ hnonblank =>
    obtain rfl := Option.some.inj (hadmitted.symm.trans h)
    exact absurd hblank (hnonblank ⟨envelope.nonceText, some outside.record_clock⟩
      (List.mem_append_right _ List.mem_cons_self))
  | unwritten _ _ hline =>
    rw [hquiet] at hline
    exact absurd rfl hline
  | stuck h =>
    obtain rfl := Option.some.inj (hadmitted.symm.trans h)
    exact ⟨⟨envelope.nonceText, some outside.record_clock⟩,
      List.mem_append_right _ List.mem_cons_self, hblank⟩

/-- An append that is not cut off leaves the broker on its directory. -/
theorem AuditPhase.serves {w w' : World crates} {call : Call} {c : Contents crates}
    (h : AuditPhase outside w call c w') (hwhole : w.AppendsWhole outside call) :
    ∃ c', w'.Serves c' ∧ c'.records = c.records ∧ c'.session = c.session ∧
      (c'.log = c.log ∨ ∃ entry, c'.log = (c.log.append entry).1) := by
  cases h with
  | unaudited _ hserves => exact ⟨c, hserves, rfl, rfl, .inl rfl⟩
  | appended _ hserves => exact ⟨_, hserves, rfl, rfl, .inr ⟨_, rfl⟩⟩
  | unwritten _ hserves => exact ⟨c, hserves, rfl, rfl, .inl rfl⟩
  | torn haudited hline hfollows =>
    rcases hwhole with hno | hf | ha
    · exact absurd hno haudited
    · exact absurd hline hf
    · exact absurd ha hfollows

/-- Without failures an append succeeds, and the broker stays on its directory. -/
theorem Serves.append_ok {w : World crates} {c : Contents crates} (h : w.Serves c)
    (hquiet : outside.faults = noFaults) (entry : AuditEntry) :
    ∃ event w', w.append_audit outside entry = (.ok event, w') ∧
      w'.broker = { w.broker with audit_log := (w.broker.audit_log.append entry).1 } ∧
      w'.Serves { c with log := (c.log.append entry).1 } := by
  obtain ⟨hholds, ⟨store, hstore, hkey⟩, hlog, hclock⟩ := h
  have hspec := append_audit_event.spec outside.faults entry hholds hkey
  rcases happend : w.append_audit outside entry with ⟨e | event, w'⟩
  · obtain ⟨_, _, hrun⟩ := append_audit_error happend
    rw [hstore, hlog] at hrun
    rw [hquiet] at hspec hrun
    rcases hspec.of_error hrun with ⟨hf, _⟩ | ⟨_, hcut, _⟩
    · exact absurd rfl hf
    · exact absurd ⟨rfl, rfl, rfl⟩ hcut
  · obtain ⟨hevent, hbroker, _, hrun⟩ := append_audit_ok happend
    rw [hevent, hstore, hlog] at hrun
    refine ⟨event, w', rfl, hbroker, (hspec.of_ok hrun).2, ⟨store, ?_, hkey⟩, ?_, ?_⟩
    · rw [hbroker]
      exact hstore
    · rw [hbroker, ← hlog]
    · rw [hbroker]
      exact hclock

/-- A call goes through its two phases. -/
theorem call.spec {w : World crates} {c : Contents crates} (h : w.Serves c) (outside : Outside)
    (call : Call) :
    ∃ c', NoncePhase outside w call c (w.call outside call).2.broker.seen_nonces c' ∧
      AuditPhase outside w call c' (w.call outside call).2 := by
  generalize hr : w.call outside call = r
  have hcourse := World.call.course outside w call
  rw [hr] at hcourse
  cases hcourse with
  | @unaudited envelope _ hadmitted hclaims hrecords _ =>
    obtain ⟨c', hnonce, hserves⟩ := record_nonce.durable_spec h hadmitted
    refine ⟨c', hnonce, .unaudited ⟨envelope, hadmitted, hclaims, fun hrecord => ?_⟩ hserves⟩
    rw [records_iff.mpr hrecord] at hrecords
    cases hrecords
  | @audited w₀ entry respond hstage _ =>
    have hphase : ∃ c', NoncePhase outside w call c w₀.broker.seen_nonces c' ∧ w₀.Serves c' := by
      cases hstage with
      | gates hadmitted => exact ⟨c, .gates hadmitted, h⟩
      | @recorded envelope hadmitted _ _ => exact record_nonce.durable_spec h hadmitted
      | @shutdown envelope hdispatches _ =>
        obtain ⟨c', hnonce, hserves⟩ := record_nonce.durable_spec h hdispatches.1
        refine ⟨c', ?_, hserves.flagged _⟩
        rw [flagged_seen_nonces]
        exact hnonce
    obtain ⟨c', hnonce, hserves⟩ := hphase
    obtain ⟨hseen, haudit⟩ := audited.durable_spec hserves hstage entry respond
    exact ⟨c', hseen ▸ hnonce, haudit⟩

end World

/-! ## Sites -/

/-- A nonce that was recorded: the request, the clock of its gate and the clock of its
record, and whether the request went on to its operation. -/
structure Recording where
  envelope : BrokerRequestEnvelope
  gate_clock : I64
  record_clock : I64
  dispatched : Bool

/-- A store directory, and the broker of the process that has it open. `clock` and
`recorded` have no part in what happens: they hold the last reading of the clock and the
nonces recorded so far. -/
structure Site (crates : Crates) where
  disk : Disk StoreFile
  running : Option (Broker crates)
  clock : I64
  recorded : List Recording

/-- A process opens the directory, in place of any other, or the open one serves a call. -/
inductive Step where
  | opens (faults : Faults StoreFile) (session_id : String) (now : I64)
      (random : Except String { key : Bytes // key.length = 32 })
  | serves (call : Call) (outside : Outside)

/-- The nonce that a call records, if it records one. -/
def World.recordings (outside : Outside) (w : World crates) (call : Call) : List Recording :=
  match w.admitted outside call with
  | some envelope =>
    if w.records outside envelope then
      [⟨envelope, outside.gate_clock, outside.record_clock, !World.claimsAuthority crates envelope⟩]
    else []
  | none => []

theorem World.recordings_of_gates {w : World crates} {call : Call}
    (h : w.admitted outside call = none) : w.recordings outside call = [] := by
  rw [recordings, h]

theorem World.recordings_of_records {w : World crates} {call : Call}
    {envelope : BrokerRequestEnvelope} (h : w.admitted outside call = some envelope)
    (hrecords : w.records outside envelope = true) :
    w.recordings outside call =
      [⟨envelope, outside.gate_clock, outside.record_clock,
        !World.claimsAuthority crates envelope⟩] := by
  rw [recordings, h]
  exact if_pos hrecords

theorem World.recordings_of_not_records {w : World crates} {call : Call}
    {envelope : BrokerRequestEnvelope} (h : w.admitted outside call = some envelope)
    (hrecords : w.records outside envelope = false) : w.recordings outside call = [] := by
  rw [recordings, h]
  exact if_neg (by simp [hrecords])

theorem World.mem_recordings {w : World crates} {call : Call} {r : Recording}
    (h : r ∈ w.recordings outside call) :
    r.gate_clock = outside.gate_clock ∧ r.record_clock = outside.record_clock := by
  unfold recordings at h
  split at h
  · split at h
    · rw [List.mem_singleton.mp h]
      exact ⟨rfl, rfl⟩
    · cases h
  · cases h

theorem World.gate_clock_of_mem {w : World crates} {call : Call} {r : Recording}
    (h : r ∈ w.recordings outside call) : r.gate_clock = outside.gate_clock :=
  (mem_recordings h).1

theorem World.record_clock_of_mem {w : World crates} {call : Call} {r : Recording}
    (h : r ∈ w.recordings outside call) : r.record_clock = outside.record_clock :=
  (mem_recordings h).2

namespace Site

def unopened (clock : I64) : Site crates := ⟨fun _ => none, none, clock, []⟩

def world (s : Site crates) (broker : Broker crates) : World crates := ⟨broker, s.disk, []⟩

def step (s : Site crates) : Step → Site crates
  | .opens faults session_id now random =>
    match Broker.new_persistent crates faults session_id now random s.disk with
    | .ok broker disk => { s with disk, running := some broker, clock := now }
    | .error _ disk => { s with disk, running := none, clock := now }
  | .serves call outside =>
    match s.running with
    | none => s
    | some broker =>
      let w := ((s.world broker).call outside call).2
      { disk := w.disk
        running := some w.broker
        clock := outside.record_clock
        recorded := s.recorded ++ (s.world broker).recordings outside call }

/-- The sites of the runs from a new directory whose steps all meet a condition. -/
inductive Reaches (P : Site crates → Step → Prop) : Site crates → Prop
  | unopened (clock : I64) : Reaches P (unopened clock)
  | step {s : Site crates} {step : Step} (h : Reaches P s) (hstep : P s step) :
      Reaches P (s.step step)

/-- What holds of a new directory, and is kept by every step that meets the condition,
holds all along. -/
theorem Reaches.invariant {P : Site crates → Step → Prop} {I : Site crates → Prop}
    {s : Site crates} (h : Reaches P s) (hunopened : ∀ clock, I (Site.unopened clock))
    (hstep : ∀ s step, I s → P s step → I (s.step step)) : I s := by
  induction h with
  | unopened clock => exact hunopened clock
  | step _ hp ih => exact hstep _ _ ih hp

def run : Site crates → List Step → Site crates
  | s, [] => s
  | s, step :: steps => (s.step step).run steps

/-- All steps of a run meet a condition. -/
def Runs (P : Site crates → Step → Prop) : Site crates → List Step → Prop
  | _, [] => True
  | s, step :: steps => P s step ∧ (s.step step).Runs P steps

theorem reaches_run {P : Site crates → Step → Prop} {s : Site crates} {steps : List Step}
    (h : Reaches P s) (hruns : s.Runs P steps) : Reaches P (s.run steps) := by
  induction steps generalizing s with
  | nil => exact h
  | cons step steps ih => exact ih (h.step hruns.1) hruns.2

/-- What the directory of a site holds. A running broker runs on it. -/
structure On (s : Site crates) (c : Contents crates) : Prop where
  holds : Holds s.disk c
  serves : ∀ broker, s.running = some broker → (s.world broker).Serves c

theorem on_unopened (clock : I64) : (unopened clock : Site crates).On .fresh :=
  ⟨holds_fresh, fun _ h => by cases h⟩

/-- A step that opens a directory gives a running broker, or leaves the directory closed. -/
theorem opens.spec {s : Site crates} {c : Contents crates} (h : s.On c) (faults : Faults StoreFile)
    (session_id : String) (now : I64)
    (random : Except String { key : Bytes // key.length = 32 }) :
    (c.Loads ∧ ∃ broker disk key,
      s.step (.opens faults session_id now random) =
        { s with disk, running := some broker, clock := now } ∧
      broker.seen_nonces = loadedNonces now c.records ∧
      (World.mk broker disk []).Serves ⟨some key, c.log,
        compactRecords (loadedNonces now c.records), some session_id⟩) ∨
    ((faults ≠ noFaults ∨ (∃ e, random = .error e) ∨ ¬ c.Loads) ∧ ∃ disk c',
      s.step (.opens faults session_id now random) =
        { s with disk, running := none, clock := now } ∧
      Holds disk c' ∧ c.Opening now c') := by
  have hspec := new_persistent.spec faults session_id now random h.holds
  rcases hrun : Broker.new_persistent crates faults session_id now random s.disk with
    ⟨broker, disk⟩ | ⟨e, disk⟩
  · obtain ⟨hloads, store, hbroker, hd⟩ := hspec.of_ok hrun
    refine .inl ⟨hloads, broker, disk, store.audit_anchor_key, by simp only [step, hrun], ?_⟩
    rw [hbroker]
    exact ⟨rfl, hd, ⟨store, rfl, rfl⟩, rfl, rfl⟩
  · obtain ⟨⟨c', hd, hopening⟩, hwhy⟩ := hspec.of_error hrun
    exact .inr ⟨hwhy, disk, c', by simp only [step, hrun], hd, hopening⟩

theorem clock_step_opens (s : Site crates) (faults : Faults StoreFile) (session_id : String)
    (now : I64) (random : Except String { key : Bytes // key.length = 32 }) :
    (s.step (.opens faults session_id now random)).clock = now := by
  unfold step
  dsimp only
  split <;> rfl

theorem step_serves_none {s : Site crates} (h : s.running = none) (call : Call)
    (outside : Outside) :
    s.step (.serves call outside) = s := by
  rw [step, h]

theorem step_serves_some {s : Site crates} {broker : Broker crates} (h : s.running = some broker)
    (call : Call) (outside : Outside) :
    s.step (.serves call outside) =
      { disk := ((s.world broker).call outside call).2.disk
        running := some ((s.world broker).call outside call).2.broker
        clock := outside.record_clock
        recorded := s.recorded ++ (s.world broker).recordings outside call } := by
  rw [step, h]

theorem running_step_serves {s : Site crates} {broker : Broker crates}
    (h : s.running = some broker) (call : Call) (outside : Outside) :
    (s.step (.serves call outside)).running =
      some ((s.world broker).call outside call).2.broker := by
  rw [step_serves_some h]

theorem recorded_step_serves {s : Site crates} {broker : Broker crates}
    (h : s.running = some broker) (call : Call) (outside : Outside) :
    (s.step (.serves call outside)).recorded =
      s.recorded ++ (s.world broker).recordings outside call := by
  rw [step_serves_some h]

/-- What was recorded stays recorded. -/
theorem mem_recorded_run {s : Site crates} {r : Recording} (steps : List Step)
    (h : r ∈ s.recorded) : r ∈ (s.run steps).recorded := by
  induction steps generalizing s with
  | nil => exact h
  | cons step steps ih =>
    refine ih ?_
    cases step with
    | opens faults session_id now random =>
      unfold Site.step
      dsimp only
      split <;> exact h
    | serves call outside =>
      rcases hrunning : s.running with _ | broker
      · rw [step_serves_none hrunning]
        exact h
      · rw [recorded_step_serves hrunning]
        exact List.mem_append_left _ h

/-- Without failures a directory that loads opens, with the nonces of its replay file. -/
theorem opens_of_loads {s : Site crates} {c : Contents crates} (hon : s.On c) (hloads : c.Loads)
    (session_id : String) (hsession : ¬ IsBlank session_id) (now : I64)
    (key : { key : Bytes // key.length = 32 }) :
    ∃ broker c', (s.step (.opens noFaults session_id now (.ok key))).running = some broker ∧
      (s.step (.opens noFaults session_id now (.ok key))).recorded = s.recorded ∧
      (s.step (.opens noFaults session_id now (.ok key))).On c' ∧ c'.Loads ∧
      broker.seen_nonces = loadedNonces now c.records ∧
      c'.records = compactRecords (loadedNonces now c.records) := by
  rcases opens.spec hon noFaults session_id now (.ok key) with
    ⟨_, broker, disk, key', hstep, hseen, hserves⟩ | ⟨hf | ⟨e, he⟩ | hl, _⟩
  · rw [hstep]
    refine ⟨broker, _, rfl, rfl, ⟨hserves.holds, fun b hb => ?_⟩,
      ⟨compactRecords_loadedNonces hloads.1, fun id hid => ?_⟩, hseen, rfl⟩
    · obtain rfl := Option.some.inj hb
      exact hserves
    · obtain rfl := Option.some.inj hid
      exact hsession
  · exact absurd rfl hf
  · cases he
  · exact absurd hloads hl

/-! ### A first process -/

/-- The site of a process that has opened a new directory. -/
def first : Site .ascii :=
  (unopened newYear).step (.opens noFaults "session-1" newYear (.ok zeroKey))

theorem first_running : ∃ broker c, first.running = some broker ∧ first.recorded = [] ∧
    first.On c ∧ c.Loads ∧ broker.seen_nonces = loadedNonces newYear [] ∧
    c.records = compactRecords (loadedNonces newYear []) :=
  opens_of_loads (on_unopened newYear) loads_fresh _ (by decide) newYear zeroKey

end Site

end protocol
