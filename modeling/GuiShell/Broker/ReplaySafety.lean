-- No nonce twice: whatever the requests and however often the process restarts, a nonce that
-- was recorded is not recorded again while it is retained.
import GuiShell.Broker.GateSoundness
import GuiShell.Broker.Runs

open json serde_json authority broker_audit files store

namespace protocol

variable {crates : Crates} {outside : Outside}

/-! ## Dispatched requests -/

namespace World

/-- The requests that reach the operations are the recordings that say so. -/
theorem dispatches_iff {w : World crates} {call : Call} {envelope : BrokerRequestEnvelope} :
    w.Dispatches outside call envelope ↔
      ∃ r ∈ w.recordings outside call, r.envelope = envelope ∧ r.dispatched = true := by
  unfold Dispatches recordings
  rcases w.admitted outside call with _ | admitted
  · simp
  · by_cases hrecords : w.records outside admitted = true
    · dsimp only
      rw [if_pos hrecords]
      simp only [Option.some.injEq, List.mem_singleton, exists_eq_left, Bool.not_eq_true']
      constructor
      · rintro ⟨rfl, hclaims, _⟩
        exact ⟨rfl, hclaims⟩
      · rintro ⟨rfl, hclaims⟩
        exact ⟨rfl, hclaims, hrecords⟩
    · dsimp only
      rw [if_neg hrecords]
      constructor
      · rintro ⟨hadmitted, _, h⟩
        exact absurd (Option.some.inj hadmitted ▸ h) hrecords
      · rintro ⟨_, hr, _⟩
        cases hr

/-- A call that records its nonce finds fewer nonces retained than the store can hold. -/
def HasRoom (outside : Outside) (w : World crates) (call : Call) : Prop :=
  ∀ envelope, w.admitted outside call = some envelope → w.records outside envelope = true →
    (retained outside.record_clock w.broker.seen_nonces).len < MAX_REPLAY_NONCE_RECORDS

end World

/-! ## Steady runs -/

namespace Recording

/-- The second recording of a nonce comes after the retention of the first. -/
def Spaced (r r' : Recording) : Prop :=
  r.envelope.nonceText = r'.envelope.nonceText →
    REPLAY_NONCE_RETENTION_SECONDS < r'.gate_clock.val - r.record_clock.val

/-- The request was fresh at its gate, and recorded later. -/
def Timely (r : Recording) : Prop :=
  issued_at_is_fresh (r.envelope.issued_at.getD "") r.gate_clock = true ∧
    r.gate_clock ≤ r.record_clock

end Recording

namespace Site

/-- No file operation fails, the clock does not go back, and there is room. -/
def Steady (s : Site crates) : Step → Prop
  | .opens faults _ now _ => faults = noFaults ∧ s.clock ≤ now
  | .serves call outside => outside.faults = noFaults ∧ s.clock ≤ outside.gate_clock ∧
    outside.gate_clock ≤ outside.record_clock ∧
    ∀ broker, s.running = some broker → (s.world broker).HasRoom outside call

/-- The nonces of the store remember a recording, or its retention is over. -/
def Remembers (nonces : SortedMap String I64) (clock : I64) (r : Recording) : Prop :=
  REPLAY_NONCE_RETENTION_SECONDS < clock.val - r.record_clock.val ∨
    ∃ t, nonces.get r.envelope.nonceText = some t ∧ r.record_clock ≤ t

theorem Remembers.later {nonces : SortedMap String I64} {clock clock' : I64} {r : Recording}
    (h : Remembers nonces clock r) (hclock : clock ≤ clock') : Remembers nonces clock' r := by
  rw [I64.le_def] at hclock
  rcases h with h | h
  · exact .inl (by omega)
  · exact .inr h

/-- What is dropped is over. -/
theorem Remembers.retained {nonces : SortedMap String I64} {clock now : I64} {r : Recording}
    (h : Remembers nonces clock r) (hclock : clock ≤ now) :
    Remembers (retained now nonces) now r := by
  rcases h with h | ⟨t, ht, hle⟩
  · rw [I64.le_def] at hclock
    exact .inl (by omega)
  · by_cases hret : nonce_is_retained t now = true
    · refine .inr ⟨t, ?_, hle⟩
      rw [store.retained, SortedMap.get_filter, ht]
      exact Option.filter_some_pos hret
    · rw [nonce_is_retained_iff] at hret
      rw [I64.le_def] at hle
      exact .inl (by omega)

/-- The replay file holds the nonces in memory, which remember all recordings. -/
structure Guarded (s : Site crates) (c : Contents crates) (nonces : SortedMap String I64) :
    Prop where
  records : c.records = compactRecords nonces
  len : nonces.len ≤ MAX_REPLAY_NONCE_RECORDS
  seen_nonces : ∀ broker, s.running = some broker → broker.seen_nonces = nonces
  remembers : ∀ r ∈ s.recorded, Remembers nonces s.clock r

/-- The replay file has a blank nonce, and nothing will be recorded any more. -/
def Barred (c : Contents crates) : Prop := ∃ record ∈ c.records, IsBlank record.nonce

/-- The invariant of steady runs. -/
structure Replays (s : Site crates) (c : Contents crates) : Prop where
  on : s.On c
  spaced : s.recorded.Pairwise Recording.Spaced
  timely : ∀ r ∈ s.recorded, r.Timely
  guarded : Barred c ∨ ∃ nonces, s.Guarded c nonces

theorem replays_unopened (clock : I64) : (unopened clock : Site crates).Replays .fresh where
  on := on_unopened clock
  spaced := List.Pairwise.nil
  timely _ h := absurd h List.not_mem_nil
  guarded := .inr ⟨.empty, rfl, Nat.zero_le _, fun _ h => (by cases h),
    fun _ h => absurd h List.not_mem_nil⟩

theorem replays_opens {s : Site crates} {c : Contents crates} (h : s.Replays c) {now : I64}
    (hclock : s.clock ≤ now) (session_id : String)
    (random : Except String { key : Bytes // key.length = 32 }) :
    ∃ c', (s.step (.opens noFaults session_id now random)).Replays c' := by
  obtain ⟨hon, hspaced, htimely, hguarded⟩ := h
  -- The nonces that the directory gives when it is read at `now`.
  have hread : ∀ {nonces : SortedMap String I64} {c' : Contents crates} {disk : Disk StoreFile}
      {running : Option (Broker crates)}, s.Guarded c nonces →
      c'.records = compactRecords (loadedNonces now c.records) →
      (∀ broker, running = some broker → broker.seen_nonces = loadedNonces now c.records) →
      Guarded ⟨disk, running, now, s.recorded⟩ c' (retained now nonces) := by
    intro nonces c' disk running hg hrecords hseen
    have hloaded : loadedNonces now c.records = retained now nonces := by
      rw [hg.records]
      exact loadedNonces_eq_retained hg.len
    rw [hloaded] at hrecords hseen
    exact ⟨hrecords, (nonces.len_filter_le _).trans hg.len, hseen,
      fun r hr => (hg.remembers r hr).retained hclock⟩
  rcases opens.spec hon noFaults session_id now random with
    ⟨hloads, broker, disk, key, hs', hloaded, hserves⟩ | ⟨_, disk, c', hs', hd, hopening⟩
  · rw [hs']
    refine ⟨_, ⟨hserves.holds, fun b hb => ?_⟩, hspaced, htimely, .inr ?_⟩
    · obtain rfl := Option.some.inj hb
      exact hserves
    · rcases hguarded with ⟨record, hr, hb⟩ | ⟨nonces, hg⟩
      · exact absurd hb (hloads.1 record hr)
      · refine ⟨_, hread hg rfl fun b hb => ?_⟩
        obtain rfl := Option.some.inj hb
        exact hloaded
  · rw [hs']
    refine ⟨c', ⟨hd, fun _ hb => by cases hb⟩, hspaced, htimely, ?_⟩
    rcases hopening.records with hsame | ⟨hnonblank, hcompacted⟩
    · rcases hguarded with hbarred | ⟨nonces, hg⟩
      · exact .inl (by rw [Barred, hsame]; exact hbarred)
      · exact .inr ⟨nonces, hsame.trans hg.records, hg.len, fun _ hb => (by cases hb),
          fun r hr => (hg.remembers r hr).later hclock⟩
    · rcases hguarded with ⟨record, hr, hb⟩ | ⟨nonces, hg⟩
      · exact absurd hb (hnonblank record hr)
      · exact .inr ⟨_, hread hg hcompacted fun _ hb => by cases hb⟩

/-- With no blank nonce and with room, a nonce that is recorded joins those that are retained. -/
theorem guarded_record {s : Site crates} {c : Contents crates} {broker : Broker crates}
    {envelope : BrokerRequestEnvelope} {clock : I64}
    (h : Barred c ∨ ∃ nonces, s.Guarded c nonces) (hrunning : s.running = some broker)
    (hnonblank : ∀ record ∈ c.records ++ [⟨envelope.nonceText, some clock⟩],
      ¬ IsBlank record.nonce)
    (hroom : (retained clock broker.seen_nonces).len < MAX_REPLAY_NONCE_RECORDS) :
    ∃ nonces, s.Guarded c nonces ∧
      loadedNonces clock (c.records ++ [⟨envelope.nonceText, some clock⟩]) =
        (retained clock nonces).insert envelope.nonceText clock := by
  rcases h with ⟨record, hr, hb⟩ | ⟨nonces, hg⟩
  · exact absurd hb (hnonblank record (List.mem_append_left _ hr))
  · refine ⟨nonces, hg, ?_⟩
    rw [hg.seen_nonces broker hrunning] at hroom
    rw [hg.records]
    exact loadedNonces_record hroom envelope.nonceText

theorem replays_serves {s : Site crates} {c : Contents crates} (h : s.Replays c) {call : Call}
    {outside : Outside} (hstep : s.Steady (.serves call outside)) :
    ∃ c', (s.step (.serves call outside)).Replays c' := by
  obtain ⟨hquiet, hgate, hrecord, hroom⟩ := hstep
  rcases hrunning : s.running with _ | broker
  · rw [step_serves_none hrunning]
    exact ⟨c, h⟩
  obtain ⟨hon, hspaced, htimely, hguarded⟩ := h
  have hbroker := hon.serves broker hrunning
  have hlater : s.clock ≤ outside.record_clock := by
    rw [I64.le_def] at hgate hrecord ⊢
    omega
  have hwhole : (s.world broker).AppendsWhole outside call := by
    refine .inr (.inr ?_)
    rw [hquiet]
    exact ⟨rfl, rfl, rfl⟩
  obtain ⟨c₁, hphase, haudit⟩ := World.call.spec hbroker outside call
  obtain ⟨c₂, hserves, hrecords, _, _⟩ := haudit.serves hwhole
  have hon₂ : ∀ clock recorded, Site.On ⟨((s.world broker).call outside call).2.disk,
      some ((s.world broker).call outside call).2.broker, clock, recorded⟩ c₂ := by
    refine fun clock recorded => ⟨hserves.holds, fun b hb => ?_⟩
    obtain rfl := Option.some.inj hb
    exact hserves.forget
  rw [step_serves_some hrunning]
  generalize ((s.world broker).call outside call).2.disk = disk at hon₂
  generalize hbroker' : ((s.world broker).call outside call).2.broker = broker' at hon₂ hphase
  generalize hseen : broker'.seen_nonces = seen at hphase
  cases hphase with
  | gates hadmitted =>
    rw [World.recordings_of_gates hadmitted, List.append_nil]
    refine ⟨c₂, hon₂ _ _, hspaced, htimely, ?_⟩
    rcases hguarded with hbarred | ⟨nonces, hg⟩
    · exact .inl (by rw [Barred, hrecords]; exact hbarred)
    · refine .inr ⟨nonces, hrecords.trans hg.records, hg.len, fun b hb => ?_,
        fun r hr => (hg.remembers r hr).later hlater⟩
      obtain rfl := Option.some.inj hb
      exact hseen.trans (hg.seen_nonces broker hrunning)
  | unwritten _ _ hline =>
    rw [hquiet] at hline
    exact absurd rfl hline
  | stuck hadmitted hno _ hwhy =>
    -- The blank nonce stays in the file.
    rw [World.recordings_of_not_records hadmitted hno, List.append_nil]
    refine ⟨c₂, hon₂ _ _, hspaced, htimely, .inl ?_⟩
    rw [Barred, hrecords]
    exact hwhy.resolve_left (fun hf => hf hquiet)
  | @recorded envelope hadmitted hrec hnonblank =>
    obtain ⟨_, hfresh, hnew⟩ :=
      World.gate_of_pass (of_decide_eq_true (Option.filter_eq_some_iff.mp hadmitted).2)
    obtain ⟨nonces, hg, hloaded⟩ :=
      guarded_record hguarded hrunning hnonblank (hroom broker hrunning envelope hadmitted hrec)
    have hnone : nonces.get envelope.nonceText = none := by
      rw [← hg.seen_nonces broker hrunning]
      simpa [SortedMap.contains_key, world] using hnew
    have hspace : (retained outside.record_clock nonces).len < MAX_REPLAY_NONCE_RECORDS := by
      rw [← hg.seen_nonces broker hrunning]
      exact hroom broker hrunning envelope hadmitted hrec
    rw [hloaded] at hseen hrecords
    rw [World.recordings_of_records hadmitted hrec]
    refine ⟨c₂, hon₂ _ _, ?_, ?_, .inr ⟨_, hrecords, ?_, ?_, ?_⟩⟩
    · refine List.pairwise_append.mpr ⟨hspaced, List.pairwise_singleton .., fun r hr r' hr' => ?_⟩
      obtain rfl := List.mem_singleton.mp hr'
      intro hsame
      rcases hg.remembers r hr with hover | ⟨t, ht, _⟩
      · rw [I64.le_def] at hgate
        show _ < outside.gate_clock.val - _
        omega
      · rw [hsame, hnone] at ht
        cases ht
    · intro r hr
      rcases List.mem_append.mp hr with hr | hr
      · exact htimely r hr
      · obtain rfl := List.mem_singleton.mp hr
        exact ⟨by simpa [Broker.current_epoch_seconds, hbroker.clock] using hfresh, hrecord⟩
    · exact (SortedMap.len_insert_le ..).trans hspace
    · intro b hb
      obtain rfl := Option.some.inj hb
      exact hseen
    · intro r hr
      rcases List.mem_append.mp hr with hr | hr
      · rcases (hg.remembers r hr).retained hlater with hover | ⟨t, ht, hle⟩
        · exact .inl hover
        · refine .inr ?_
          rw [SortedMap.get_insert]
          split
          · rename_i hsame
            rw [store.retained, SortedMap.get_filter, ← hsame, hnone] at ht
            cases ht
          · exact ⟨t, ht, hle⟩
      · obtain rfl := List.mem_singleton.mp hr
        exact .inr ⟨outside.record_clock, by rw [SortedMap.get_insert, if_pos rfl], Int.le_refl _⟩

theorem replays_of_reaches {s : Site crates} (h : Reaches Steady s) : ∃ c, s.Replays c := by
  refine Reaches.invariant (I := fun s => ∃ c, s.Replays c) h
    (fun clock => ⟨_, replays_unopened clock⟩) ?_
  rintro s (⟨faults, session_id, now, random⟩ | ⟨call, outside⟩) ⟨c, hc⟩ hstep
  · obtain ⟨rfl, hclock⟩ := hstep
    exact replays_opens hc hclock session_id random
  · exact replays_serves hc hstep

/-- A request that is fresh at two gates comes to them within twice the window. -/
theorem gate_clocks_near {value : String} {g g' : I64} (h : issued_at_is_fresh value g = true)
    (h' : issued_at_is_fresh value g' = true) :
    g'.val - g.val ≤ 2 * REQUEST_FRESHNESS_WINDOW_SECONDS := by
  unfold issued_at_is_fresh at h h'
  split at h
  · cases h
  · rename_i issued hparse
    rw [hparse] at h'
    have hnear := of_decide_eq_true h
    have hnear' := of_decide_eq_true h'
    omega

/-- The call served at the site reaches dispatch with this envelope. -/
def ReachesDispatch (s : Site crates) (call : Call) (outside : Outside)
    (envelope : BrokerRequestEnvelope) : Prop :=
  ∃ broker, s.running = some broker ∧ (s.world broker).ReachesDispatch outside call envelope

/-- The call served at the site records the nonce: the broker has not seen it before and has
seen it after. -/
def Records (s : Site crates) (call : Call) (outside : Outside) (nonce : String) : Prop :=
  ∃ broker, s.running = some broker ∧ broker.seen_nonces.contains_key nonce = false ∧
    ((s.world broker).call outside call).2.broker.seen_nonces.contains_key nonce = true

/-- A call that reaches dispatch records its envelope. -/
theorem recording_of_reachesDispatch {s : Site crates} {call : Call}
    {envelope : BrokerRequestEnvelope} (h : s.ReachesDispatch call outside envelope) :
    ∃ broker, s.running = some broker ∧
      ∃ r ∈ (s.world broker).recordings outside call, r.envelope = envelope := by
  obtain ⟨broker, hrunning, hreaches⟩ := h
  obtain ⟨r, hr, henvelope, _⟩ := World.dispatches_iff.mp (World.reachesDispatch_iff.mp hreaches)
  exact ⟨broker, hrunning, r, hr, henvelope⟩

/-- What a call records in a steady run is its own nonce. -/
theorem recording_of_records {s : Site crates} {c : Contents crates} (h : s.Replays c)
    {call : Call} {outside : Outside} (hstep : s.Steady (.serves call outside)) {nonce : String}
    (hrecords : s.Records call outside nonce) :
    ∃ broker, s.running = some broker ∧
      ∃ r ∈ (s.world broker).recordings outside call, r.envelope.nonceText = nonce := by
  obtain ⟨broker, hrunning, hunseen, hseen⟩ := hrecords
  refine ⟨broker, hrunning, ?_⟩
  obtain ⟨c₁, hphase, _⟩ := World.call.spec (h.on.serves broker hrunning) outside call
  generalize ((s.world broker).call outside call).2.broker.seen_nonces = seen at hphase hseen
  have hsame : broker.seen_nonces ≠ seen := by
    rintro rfl
    rw [hunseen] at hseen
    cases hseen
  cases hphase with
  | gates | unwritten | stuck => exact absurd rfl hsame
  | @recorded envelope hadmitted hrec hnonblank =>
    obtain ⟨nonces, hg, hloaded⟩ := guarded_record h.guarded hrunning hnonblank
      (hstep.2.2.2 broker hrunning envelope hadmitted hrec)
    rw [World.recordings_of_records hadmitted hrec]
    refine ⟨_, List.mem_singleton_self _, ?_⟩
    by_contra hne
    rw [hloaded, SortedMap.contains_key, SortedMap.get_insert, if_neg hne,
      store.retained, SortedMap.get_filter] at hseen
    rw [hg.seen_nonces broker hrunning, SortedMap.contains_key] at hunseen
    simp only [Option.isSome_eq_false_iff, Option.isNone_iff_eq_none] at hunseen
    rw [hunseen] at hseen
    cases hseen

/-- Two recordings of a steady run, the first by one call and the second by a later one. -/
theorem recordings_apart {s : Site crates} (h : Reaches Steady s) {call call' : Call}
    {outside outside' : Outside} {steps : List Step}
    (hruns : s.Runs Steady (.serves call outside :: steps))
    (hstep' : (s.run (.serves call outside :: steps)).Steady (.serves call' outside'))
    {broker broker' : Broker crates} (hrunning : s.running = some broker)
    (hrunning' : (s.run (.serves call outside :: steps)).running = some broker')
    {r r' : Recording} (hr : r ∈ (s.world broker).recordings outside call)
    (hr' : r' ∈ ((s.run (.serves call outside :: steps)).world broker').recordings outside'
      call') :
    r.Spaced r' ∧ r.Timely ∧ r'.Timely := by
  obtain ⟨c, _, hspaced, htimely, _⟩ := replays_of_reaches ((reaches_run h hruns).step hstep')
  rw [recorded_step_serves hrunning' call' outside'] at hspaced htimely
  have hfirst : r ∈ (s.run (.serves call outside :: steps)).recorded := by
    refine mem_recorded_run steps ?_
    rw [recorded_step_serves hrunning]
    exact List.mem_append_right _ hr
  exact ⟨(List.pairwise_append.mp hspaced).2.2 r hfirst r' hr',
    htimely r (List.mem_append_left _ hfirst), htimely r' (List.mem_append_right _ hr')⟩

/-- A request that comes later than the retention of an earlier one is another request. -/
theorem ne_of_spaced {r r' : Recording} (hspaced : r.Spaced r') (h : r.Timely) (h' : r'.Timely) :
    r.envelope ≠ r'.envelope := by
  intro hsame
  obtain ⟨hfresh, hrecord⟩ := h
  have hfresh' := h'.1
  rw [← hsame] at hfresh'
  have hnear := gate_clocks_near hfresh hfresh'
  have hfar := hspaced (congrArg BrokerRequestEnvelope.nonceText hsame)
  rw [I64.le_def] at hrecord
  rw [REPLAY_NONCE_RETENTION_SECONDS] at hfar
  rw [REQUEST_FRESHNESS_WINDOW_SECONDS] at hnear
  omega

/-- In any steady run, restarts or not, no nonce reaches dispatch within the retention of a call
that recorded it, dispatched or not, and no request ever reaches it twice. -/
theorem no_nonce_and_no_request_twice {s : Site crates} (h : Reaches Steady s) {call call' : Call}
    {outside outside' : Outside} {steps : List Step}
    (hruns : s.Runs Steady (.serves call outside :: steps))
    (hstep' : (s.run (.serves call outside :: steps)).Steady (.serves call' outside'))
    {envelope' : BrokerRequestEnvelope}
    (hreaches' : (s.run (.serves call outside :: steps)).ReachesDispatch call' outside'
      envelope') :
    (s.Records call outside envelope'.nonceText →
      REPLAY_NONCE_RETENTION_SECONDS < outside'.gate_clock.val - outside.record_clock.val) ∧
    ∀ envelope, s.ReachesDispatch call outside envelope → envelope ≠ envelope' ∧
      (envelope.nonceText = envelope'.nonceText →
        REPLAY_NONCE_RETENTION_SECONDS < outside'.gate_clock.val - outside.record_clock.val) := by
  obtain ⟨broker', hrunning', r', hr', rfl⟩ := recording_of_reachesDispatch hreaches'
  refine ⟨fun hrecords => ?_, fun envelope hreaches => ?_⟩
  · obtain ⟨c, hreplays⟩ := replays_of_reaches h
    obtain ⟨broker, hrunning, r, hr, hnonce⟩ := recording_of_records hreplays hruns.1 hrecords
    have hspaced := (recordings_apart h hruns hstep' hrunning hrunning' hr hr').1 hnonce
    rwa [World.gate_clock_of_mem hr', World.record_clock_of_mem hr] at hspaced
  · obtain ⟨broker, hrunning, r, hr, rfl⟩ := recording_of_reachesDispatch hreaches
    obtain ⟨hspaced, htimely, htimely'⟩ := recordings_apart h hruns hstep' hrunning hrunning' hr hr'
    refine ⟨ne_of_spaced hspaced htimely htimely', fun hnonce => ?_⟩
    have hlater := hspaced hnonce
    rwa [World.gate_clock_of_mem hr', World.record_clock_of_mem hr] at hlater

/-- A health request that is new to a broker on its directory meets all the conditions. -/
theorem health_admits {broker : Broker .ascii} {store : BrokerPersistentStore} {nonce : String}
    (hstore : broker.state_store = .durable_file_store store)
    (hclock : broker.current_epoch_seconds_override = none) (hne : nonce ≠ "")
    (hunseen : broker.seen_nonces.contains_key nonce = false) :
    broker.Admits (request .Health nonce []) newYear where
  request_id := ⟨_, rfl, by decide⟩
  operation := ⟨_, rfl⟩
  payload_hash := ⟨_, rfl, by decide⟩
  issued_at := ⟨_, rfl, by decide⟩
  nonce := ⟨nonce, rfl, hne⟩
  metadata_present := rfl
  tagged := show is_tagged_sha256 (request .Health "" []).payloadHash = true by decide
  canonical := show (request .Health "" []).payloadHash =
    canonical_payload_hash Crates.ascii.sha256 none by decide +kernel
  fresh := by
    rw [Broker.current_epoch_seconds, hclock]
    exact show issued_at_is_fresh "2026-01-01T00:00:00Z" newYear = true by decide
  ready := by
    rw [hstore]
    exact fun h => by cases h.2
  session := .inl rfl
  unseen := hunseen

/-- A health request that is new to a broker whose directory loads reaches dispatch. -/
theorem health_step {s : Site .ascii} {c : Contents .ascii} {broker : Broker .ascii}
    (hrunning : s.running = some broker) (hon : s.On c) (hloads : c.Loads) (nonce : String)
    (hblank : ¬ IsBlank nonce) (hunseen : broker.seen_nonces.contains_key nonce = false) :
    s.ReachesDispatch (.handle (request .Health nonce [])) calm (request .Health nonce []) ∧
      ∃ broker' c', (s.step (.serves (.handle (request .Health nonce [])) calm)).running =
          some broker' ∧
        (s.step (.serves (.handle (request .Health nonce [])) calm)).On c' ∧ c'.Loads ∧
        c'.records =
          compactRecords (loadedNonces newYear (c.records ++ [⟨nonce, some newYear⟩])) := by
  have hserves := hon.serves broker hrunning
  obtain ⟨store, hstore, _⟩ := hserves.durable
  have hne : nonce ≠ "" := by
    rintro rfl
    exact hblank (by decide)
  have hgate := gate_eq_pass_iff.mpr (health_admits hstore hserves.clock hne hunseen)
  have hadmitted : (s.world broker).admitted calm (.handle (request .Health nonce [])) =
      some (request .Health nonce []) :=
    Option.filter_eq_some_iff.mpr ⟨rfl, decide_eq_true hgate⟩
  have hwrites : (s.world broker).WritesNoBlankNonce calm (.handle (request .Health nonce [])) := by
    intro envelope hadmitted' _
    obtain rfl := Option.some.inj (hadmitted.symm.trans hadmitted')
    exact hblank
  obtain ⟨c₁, hphase, haudit⟩ := World.call.spec hserves calm (.handle (request .Health nonce []))
  obtain ⟨c₂, hserves₂, hrecords₂, hsession₂, _⟩ := haudit.serves (.inr (.inr ⟨rfl, rfl, rfl⟩))
  have hloads₁ := hphase.loads hloads hwrites
  rcases hphase.of_quiet rfl hloads hwrites with ⟨hnone, _⟩ | ⟨envelope, hsome, hrec, hseen, hc₁⟩
  · rw [hadmitted] at hnone
    cases hnone
  · obtain rfl := Option.some.inj (hadmitted.symm.trans hsome)
    rw [step_serves_some hrunning]
    refine ⟨⟨broker, hrunning, World.reachesDispatch_iff.mpr ⟨hadmitted, rfl, hrec⟩⟩, _, c₂, rfl,
      ⟨hserves₂.holds, fun b hb => ?_⟩, ⟨hrecords₂ ▸ hloads₁.1, hsession₂ ▸ hloads₁.2⟩, ?_⟩
    · obtain rfl := Option.some.inj hb
      exact hserves₂.forget
    · rw [hrecords₂, hc₁, hseen]
      rfl

theorem hasRoom_of_seen {w : World .ascii} {call : Call} {nonces : SortedMap String I64}
    (hseen : w.broker.seen_nonces = nonces)
    (hroom : (retained newYear nonces).len < MAX_REPLAY_NONCE_RECORDS) :
    w.HasRoom calm call := by
  intro envelope _ _
  rw [hseen]
  exact hroom

/-- Two health requests with a restart between them. -/
theorem two_requests_not_twice :
    (first.Records (.handle (request .Health "nonce-1" [])) calm "nonce-2" →
      REPLAY_NONCE_RETENTION_SECONDS < newYear.val - newYear.val) ∧
    ∀ envelope, first.ReachesDispatch (.handle (request .Health "nonce-1" [])) calm envelope →
      envelope ≠ request .Health "nonce-2" [] ∧ (envelope.nonceText = "nonce-2" →
        REPLAY_NONCE_RETENTION_SECONDS < newYear.val - newYear.val) := by
  obtain ⟨broker, c, hrunning, _, hon, hloads, hseen, hrecords⟩ := first_running
  have hunseen : broker.seen_nonces.contains_key "nonce-1" = false := by
    rw [hseen]
    decide +kernel
  obtain ⟨-, _, c₁, _, hon₁, hloads₁, hrecords₁⟩ :=
    health_step hrunning hon hloads "nonce-1" (by decide) hunseen
  obtain ⟨broker₂, c₂, hrunning₂, _, hon₂, hloads₂, hseen₂, -⟩ :=
    opens_of_loads hon₁ hloads₁ "session-2" (by decide) newYear zeroKey
  rw [hrecords₁, hrecords] at hseen₂
  have hunseen₂ : broker₂.seen_nonces.contains_key "nonce-2" = false := by
    rw [hseen₂]
    decide +kernel
  have hlast : (first.run [.serves (.handle (request .Health "nonce-1" [])) calm,
      .opens noFaults "session-2" newYear (.ok zeroKey)]).ReachesDispatch
        (.handle (request .Health "nonce-2" [])) calm (request .Health "nonce-2" []) :=
    (health_step hrunning₂ hon₂ hloads₂ "nonce-2" (by decide) hunseen₂).1
  have hopened : Reaches Steady first := .step (.unopened newYear) ⟨rfl, Int.le_refl _⟩
  have hsteady : first.Steady (.serves (.handle (request .Health "nonce-1" [])) calm) := by
    refine ⟨rfl, Int.le_refl _, Int.le_refl _, fun b hb => ?_⟩
    obtain rfl := Option.some.inj (hrunning.symm.trans hb)
    exact hasRoom_of_seen hseen (by decide +kernel)
  have hruns : first.Runs Steady [.serves (.handle (request .Health "nonce-1" [])) calm,
      .opens noFaults "session-2" newYear (.ok zeroKey)] := by
    refine ⟨hsteady, ⟨rfl, ?_⟩, trivial⟩
    rw [step_serves_some hrunning]
    exact Int.le_refl _
  refine no_nonce_and_no_request_twice hopened hruns ⟨rfl, ?_, Int.le_refl _, fun b hb => ?_⟩ hlast
  · rw [run, run, run, clock_step_opens]
    exact Int.le_refl _
  · obtain rfl := Option.some.inj (hrunning₂.symm.trans hb)
    exact hasRoom_of_seen hseen₂ (by decide +kernel)

end Site

end protocol
