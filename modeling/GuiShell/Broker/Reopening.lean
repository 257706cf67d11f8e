-- What a store directory gives back when it is opened again: the log and the nonces that the
-- broker had in memory, as long as no blank nonce was written and no append was cut off
-- after its line.
import GuiShell.Broker.Runs

open json serde_json authority broker_audit files store

namespace protocol

variable {crates : Crates}

namespace Site

/-! ## Runs that keep the directory openable -/

/-- Nothing blank is written, and no append is cut off after its line. -/
def Careful (s : Site crates) : Step → Prop
  | .opens _ session_id _ _ => ¬ IsBlank session_id
  | .serves call outside => ∀ broker, s.running = some broker →
    (s.world broker).WritesNoBlankNonce outside call ∧ (s.world broker).AppendsWhole outside call

/-- The directory can be opened, and a running broker has its log. -/
def Openable (s : Site crates) : Prop := ∃ c, s.On c ∧ c.Loads

theorem openable_unopened (clock : I64) : (unopened clock : Site crates).Openable :=
  ⟨.fresh, on_unopened clock, loads_fresh⟩

/-- Before it fails, opening changes nothing that would keep the directory from loading. -/
theorem loads_of_opening {c c' : Contents crates} {now : I64} (h : c.Opening now c')
    (hloads : c.Loads) : c'.Loads := by
  refine ⟨?_, h.session ▸ hloads.2⟩
  rcases h.records with hr | ⟨hnonblank, hr⟩
  · exact hr ▸ hloads.1
  · rw [hr]
    exact compactRecords_loadedNonces hnonblank

theorem openable_step {s : Site crates} {step : Step} (h : s.Openable) (hstep : s.Careful step) :
    (s.step step).Openable := by
  obtain ⟨c, hon, hloads⟩ := h
  cases step with
  | opens faults session_id now random =>
    rcases opens.spec hon faults session_id now random with
      ⟨_, broker, disk, key, hstep', _, hserves⟩ | ⟨_, disk, c', hstep', hd, hopening⟩
    · rw [hstep']
      refine ⟨_, ⟨hserves.holds, fun b hb => ?_⟩, compactRecords_loadedNonces hloads.1, ?_⟩
      · obtain rfl := Option.some.inj hb
        exact hserves
      · intro id hid
        obtain rfl := Option.some.inj hid
        exact hstep
    · rw [hstep']
      exact ⟨c', ⟨hd, fun _ hb => by cases hb⟩, loads_of_opening hopening hloads⟩
  | serves call outside =>
    rcases hrunning : s.running with _ | broker
    · rw [step_serves_none hrunning]
      exact ⟨c, hon, hloads⟩
    · rw [step_serves_some hrunning]
      obtain ⟨hnonce, hwhole⟩ := hstep broker hrunning
      obtain ⟨c₁, hphase, haudit⟩ := World.call.spec (hon.serves broker hrunning)
        outside call
      obtain ⟨c₂, hserves, hrecords, hsession, _⟩ := haudit.serves hwhole
      obtain ⟨hblank, hid⟩ := hphase.loads hloads hnonce
      refine ⟨c₂, ⟨hserves.holds, fun b hb => ?_⟩, hrecords ▸ hblank, hsession ▸ hid⟩
      obtain rfl := Option.some.inj hb
      exact hserves.forget

theorem openable_of_reaches {s : Site crates} (h : Reaches Careful s) : s.Openable :=
  h.invariant openable_unopened fun _ _ => openable_step

/-- After any careful run, whatever operations failed on the way, a call that is careful as
well leaves a directory that opens with the log in memory: the old log, or the old log and
one event more. -/
theorem reopens_after_failed_appends {s : Site crates} (h : Reaches Careful s)
    {broker : Broker crates} (hrunning : s.running = some broker) {call : Call} {outside : Outside}
    (hcall : s.Careful (.serves call outside)) (session_id : String) (now : I64)
    (key : { key : Bytes // key.length = 32 }) :
    ∃ w', ((s.world broker).call outside call).2 = w' ∧
      (w'.broker.audit_log = broker.audit_log ∨
        ∃ entry, w'.broker.audit_log = (broker.audit_log.append entry).1) ∧
      ∃ store seen_nonces disk,
        open_or_create crates noFaults session_id now (.ok key) w'.disk =
          .ok (store, ⟨w'.broker.audit_log, seen_nonces⟩) disk := by
  obtain ⟨c, hon, hloads⟩ := openable_of_reaches h
  obtain ⟨hnonce, hwhole⟩ := hcall broker hrunning
  have hbroker := hon.serves broker hrunning
  obtain ⟨c₁, hphase, haudit⟩ := World.call.spec hbroker outside call
  obtain ⟨c₂, hserves, hrecords, hsession, hlog⟩ := haudit.serves hwhole
  obtain ⟨hblank, hid⟩ := hphase.loads hloads hnonce
  have hold : c₁.log = broker.audit_log := hphase.log.trans hbroker.audit_log.symm
  rw [← hserves.audit_log, hold] at hlog
  obtain ⟨store, disk, hopen, _⟩ := open_or_create_of_loads hserves.holds
    ⟨hrecords ▸ hblank, hsession ▸ hid⟩ session_id now key
  rw [← hserves.audit_log] at hopen
  exact ⟨_, rfl, hlog, store, _, disk, hopen⟩

/-- An append that is cut off after its line bars the directory for good. -/
theorem bars_after_cut_append {s : Site crates} {c : Contents crates} (hon : s.On c)
    {broker : Broker crates} (hrunning : s.running = some broker) {call : Call} {outside : Outside}
    (haudited : ¬ (s.world broker).Unaudited outside call)
    (hline : outside.faults .append .audit = none) (hcut : ¬ AnchorFollows outside.faults)
    (session_id : String) (now : I64) (random : Except String { key : Bytes // key.length = 32 }) :
    ∃ e disk, open_or_create crates noFaults session_id now random
      ((s.world broker).call outside call).2.disk = .error e disk := by
  have hbroker := hon.serves broker hrunning
  obtain ⟨store, _, hkey⟩ := hbroker.durable
  obtain ⟨c₁, hphase, haudit⟩ := World.call.spec hbroker outside call
  cases haudit with
  | unaudited hno => exact absurd hno haudited
  | appended hfollows => exact absurd hfollows hcut
  | unwritten hf => exact absurd hline hf
  | torn _ _ _ _ htorn => exact open_or_create_of_torn htorn (hphase.key.trans hkey) ..

theorem careful_first : Reaches Careful first := by
  refine .step (.unopened newYear) ?_
  show ¬ IsBlank "session-1"
  decide

/-- The disk takes no more lines, and the directory opens as before. -/
theorem first_reopens_after_full_disk : ∃ broker, first.running = some broker ∧
    ∃ w', ((first.world broker).call full (.reject_ipc "ipc_frame_too_large" "frame too large"
        true)).2 = w' ∧
      (w'.broker.audit_log = broker.audit_log ∨
        ∃ entry, w'.broker.audit_log = (broker.audit_log.append entry).1) ∧
      ∃ store seen_nonces disk,
        open_or_create .ascii noFaults "session-2" newYear (.ok zeroKey) w'.disk =
          .ok (store, ⟨w'.broker.audit_log, seen_nonces⟩) disk := by
  obtain ⟨broker, c, hrunning, _⟩ := first_running
  refine ⟨broker, hrunning, reopens_after_failed_appends careful_first hrunning ?_ ..⟩
  intro b hb
  refine ⟨fun envelope hadmitted => ?_, .inr (.inl ?_)⟩
  · simp [World.admitted, Call.envelope] at hadmitted
  · simp [full]

/-- The temporary file of the anchor cannot be written. -/
def cut : Outside where
  faults op path := if op = .write ∧ path = .audit_anchor_tmp then
    some "No space left on device (os error 28)" else none
  gate_clock := newYear
  record_clock := newYear

theorem first_never_reopens_after_cut_append : ∃ broker, first.running = some broker ∧
    ∀ session_id now random, ∃ e disk, open_or_create .ascii noFaults session_id now random
      ((first.world broker).call cut (.reject_ipc "ipc_frame_too_large" "frame too large"
        true)).2.disk = .error e disk := by
  obtain ⟨broker, c, hrunning, _, hon, _⟩ := first_running
  refine ⟨broker, hrunning, bars_after_cut_append hon hrunning ?_ ?_ ?_⟩
  · rintro ⟨envelope, hadmitted, _⟩
    simp [World.admitted, Call.envelope] at hadmitted
  · simp [cut]
  · rintro ⟨_, hwrite, _⟩
    simp [cut] at hwrite

/-! ## Runs without failures -/

/-- No file operation fails, and nothing blank is written. -/
def Quiet (s : Site crates) : Step → Prop
  | .opens faults session_id _ _ => faults = noFaults ∧ ¬ IsBlank session_id
  | .serves call outside => outside.faults = noFaults ∧ ∀ broker, s.running = some broker →
    ∀ envelope, (s.world broker).admitted outside call = some envelope →
      ¬ IsBlank envelope.nonceText

/-- The replay file holds the nonces in memory, and all of them were retained when the last
nonce was recorded. -/
structure InStep (s : Site crates) (c : Contents crates) (nonces : SortedMap String I64) : Prop where
  on : s.On c
  loads : c.Loads
  records : c.records = compactRecords nonces
  len : nonces.len ≤ MAX_REPLAY_NONCE_RECORDS
  seen_nonces : ∀ broker, s.running = some broker → broker.seen_nonces = nonces
  retained : ∀ e ∈ nonces.entries, ∃ r, s.recorded.getLast? = some r ∧
    nonce_is_retained e.2 r.record_clock = true

theorem inStep_unopened (clock : I64) :
    (unopened clock : Site crates).InStep .fresh .empty where
  on := on_unopened clock
  loads := loads_fresh
  records := rfl
  len := Nat.zero_le _
  seen_nonces _ h := by cases h
  retained _ h := absurd h List.not_mem_nil

theorem inStep_step {s : Site crates} {c : Contents crates} {nonces : SortedMap String I64}
    {step : Step} (h : s.InStep c nonces) (hstep : s.Quiet step) :
    ∃ c' nonces', (s.step step).InStep c' nonces' := by
  obtain ⟨hon, hloads, hrecords, hlen, hseen, hretained⟩ := h
  cases step with
  | opens faults session_id now random =>
    obtain ⟨rfl, hid⟩ := hstep
    have hsubset : ∀ e ∈ (loadedNonces now c.records).entries, e ∈ nonces.entries := by
      intro e he
      have hkept := dropOldest_subset _ _ he
      rw [hrecords, keptNonces_compactRecords] at hkept
      exact List.mem_of_mem_filter hkept
    rcases opens.spec hon noFaults session_id now random with
      ⟨_, broker, disk, key, hs', hloaded, hserves⟩ | ⟨_, disk, c', hs', hd, hopening⟩
    · rw [hs']
      refine ⟨_, loadedNonces now c.records, ⟨hserves.holds, fun b hb => ?_⟩,
        ⟨compactRecords_loadedNonces hloads.1, fun id hi => ?_⟩, rfl, loadedNonces_len .., ?_,
        fun e he => hretained e (hsubset e he)⟩
      · obtain rfl := Option.some.inj hb
        exact hserves
      · obtain rfl := Option.some.inj hi
        exact hid
      · intro b hb
        obtain rfl := Option.some.inj hb
        exact hloaded
    · rw [hs']
      have hclosed : ∀ {b : Broker crates} {P : Prop}, none = some b → P := fun hb => by cases hb
      rcases hopening.records with hsame | ⟨_, hcompacted⟩
      · exact ⟨c', nonces, ⟨hd, fun _ hb => hclosed hb⟩, loads_of_opening hopening hloads,
          hsame.trans hrecords, hlen, fun _ hb => hclosed hb, hretained⟩
      · exact ⟨c', loadedNonces now c.records, ⟨hd, fun _ hb => hclosed hb⟩,
          loads_of_opening hopening hloads, hcompacted, loadedNonces_len .., fun _ hb => hclosed hb,
          fun e he => hretained e (hsubset e he)⟩
  | serves call outside =>
    obtain ⟨hquiet, hnonce⟩ := hstep
    rcases hrunning : s.running with _ | broker
    · rw [step_serves_none hrunning]
      exact ⟨c, nonces, hon, hloads, hrecords, hlen, hseen, hretained⟩
    · have hbroker := hon.serves broker hrunning
      have hblank : (s.world broker).WritesNoBlankNonce outside call := fun envelope hadmitted _ =>
        hnonce broker hrunning envelope hadmitted
      have hwhole : (s.world broker).AppendsWhole outside call := by
        refine .inr (.inr ?_)
        rw [hquiet]
        exact ⟨rfl, rfl, rfl⟩
      obtain ⟨c₁, hphase, haudit⟩ := World.call.spec hbroker outside call
      obtain ⟨c₂, hserves, hrecords₂, hsession₂, _⟩ := haudit.serves hwhole
      obtain ⟨hloads₁, hid⟩ := hphase.loads hloads hblank
      rw [step_serves_some hrunning]
      have hon₂ : ∀ clock recorded, Site.On ⟨((s.world broker).call outside call).2.disk,
          some ((s.world broker).call outside call).2.broker, clock, recorded⟩ c₂ := by
        refine fun clock recorded => ⟨hserves.holds, fun b hb => ?_⟩
        obtain rfl := Option.some.inj hb
        exact hserves.forget
      refine ⟨c₂, ((s.world broker).call outside call).2.broker.seen_nonces, hon₂ _ _,
        ⟨hrecords₂ ▸ hloads₁, hsession₂ ▸ hid⟩, ?_, ?_, fun b hb => by cases hb; rfl, ?_⟩
      all_goals
        rcases hphase.of_quiet hquiet hloads hblank with
          ⟨hadmitted, hsame, rfl⟩ | ⟨envelope, hadmitted, hrec, hloaded, rfl⟩
      · rw [hrecords₂, hsame, hrecords]
        exact congrArg compactRecords (hseen broker hrunning).symm
      · rw [hrecords₂, hloaded]
      · rw [hsame]
        exact hseen broker hrunning ▸ hlen
      · rw [hloaded]
        exact loadedNonces_len ..
      · intro e he
        rw [hsame] at he
        rw [World.recordings_of_gates hadmitted, List.append_nil]
        exact hretained e (hseen broker hrunning ▸ he)
      · intro e he
        rw [hloaded] at he
        rw [World.recordings_of_records hadmitted hrec, List.getLast?_concat]
        exact ⟨_, rfl, (loadedNonces_mem he).2⟩

theorem inStep_of_reaches {s : Site crates} (h : Reaches Quiet s) :
    ∃ c nonces, s.InStep c nonces :=
  Reaches.invariant (I := fun s => ∃ c nonces, s.InStep c nonces) h
    (fun clock => ⟨_, _, inStep_unopened clock⟩) fun _ _ ⟨_, _, hs⟩ => inStep_step hs

/-- After any quiet run the directory opens again, at the clock of the last recorded nonce,
with the log and the nonces in memory. -/
theorem reopens_as_in_memory {s : Site crates} (h : Reaches Quiet s) {broker : Broker crates}
    (hrunning : s.running = some broker) {now : I64}
    (hnow : ∀ r, s.recorded.getLast? = some r → now = r.record_clock) (session_id : String)
    (key : { key : Bytes // key.length = 32 }) :
    ∃ store disk, open_or_create crates noFaults session_id now (.ok key) s.disk =
      .ok (store, ⟨broker.audit_log, broker.seen_nonces⟩) disk := by
  obtain ⟨c, nonces, hon, hloads, hrecords, hlen, hseen, hretained⟩ := inStep_of_reaches h
  have hloaded : loadedNonces now c.records = broker.seen_nonces := by
    rw [hrecords, hseen broker hrunning]
    refine loadedNonces_compactRecords hlen fun e he => ?_
    obtain ⟨r, hr, hret⟩ := hretained e he
    rw [hnow r hr]
    exact hret
  obtain ⟨store, disk, hopen, _⟩ := open_or_create_of_loads hon.holds hloads session_id now key
  rw [hloaded, ← (hon.serves broker hrunning).audit_log] at hopen
  exact ⟨store, disk, hopen⟩

/-- A blank nonce that passes the gates bars the directory for good. -/
theorem bars_after_blank_nonce {s : Site crates} {c : Contents crates} (hon : s.On c)
    {broker : Broker crates} (hrunning : s.running = some broker) {call : Call}
    {outside : Outside} (hquiet : outside.faults = noFaults) {envelope : BrokerRequestEnvelope}
    (hadmitted : (s.world broker).admitted outside call = some envelope)
    (hblank : IsBlank envelope.nonceText) (session_id : String) (now : I64)
    (random : Except String { key : Bytes // key.length = 32 }) :
    ∃ e disk, open_or_create crates noFaults session_id now random
      (s.step (.serves call outside)).disk = .error e disk := by
  have hwhole : (s.world broker).AppendsWhole outside call := by
    refine .inr (.inr ?_)
    rw [hquiet]
    exact ⟨rfl, rfl, rfl⟩
  obtain ⟨c₁, hphase, haudit⟩ := World.call.spec (hon.serves broker hrunning) outside call
  obtain ⟨c₂, hserves, hrecords, _, _⟩ := haudit.serves hwhole
  rw [step_serves_some hrunning]
  refine open_or_create_of_not_loads hserves.holds (fun hl => ?_) session_id now random
  obtain ⟨record, hr, hb⟩ := hphase.bars hquiet hadmitted hblank
  exact hl.1 record (hrecords ▸ hr) hb

theorem quiet_first_request : Reaches Quiet
    (first.step (.serves (.handle (request .Health "nonce-1" [])) calm)) := by
  refine .step (.step (.unopened newYear) ⟨rfl, ?_⟩) ⟨rfl, fun broker _ envelope hadmitted => ?_⟩
  · decide
  · have henvelope : envelope = request .Health "nonce-1" [] :=
      (Option.some.inj (Option.filter_eq_some_iff.mp hadmitted).1).symm
    rw [henvelope]
    decide

/-- After a health request the directory opens as it was left. -/
theorem first_reopens_as_in_memory : ∃ s broker,
    s = first.step (.serves (.handle (request .Health "nonce-1" [])) calm) ∧
    s.running = some broker ∧ ∃ store disk,
      open_or_create .ascii noFaults "session-2" newYear (.ok zeroKey) s.disk =
        .ok (store, ⟨broker.audit_log, broker.seen_nonces⟩) disk := by
  obtain ⟨broker, c, hrunning, hrecorded, _⟩ := first_running
  have hrun := running_step_serves hrunning (.handle (request .Health "nonce-1" [])) calm
  refine ⟨_, _, rfl, hrun, reopens_as_in_memory quiet_first_request hrun (fun r hr => ?_) ..⟩
  rw [recorded_step_serves hrunning, hrecorded, List.nil_append] at hr
  exact (World.record_clock_of_mem (List.mem_of_getLast? hr)).symm

/-- A health request whose nonce is one space. -/
theorem first_never_reopens_after_blank_nonce : ∃ s : Site .ascii,
    s = first.step (.serves (.handle (request .Health " " [])) calm) ∧
    ∀ session_id now random, ∃ e disk,
      open_or_create .ascii noFaults session_id now random s.disk = .error e disk := by
  obtain ⟨broker, c, hrunning, _, hon, _⟩ := first_running
  have hgate : first.running.map (fun broker =>
      broker.gate (request .Health " " []) newYear) = some .pass := by
    decide +kernel
  rw [hrunning] at hgate
  have hadmitted : (first.world broker).admitted calm (.handle (request .Health " " [])) =
      some (request .Health " " []) :=
    Option.filter_eq_some_iff.mpr ⟨rfl, decide_eq_true (Option.some.inj hgate)⟩
  exact ⟨_, rfl, bars_after_blank_nonce hon hrunning rfl hadmitted (by decide)⟩

end Site

end protocol
