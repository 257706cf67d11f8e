-- A client is served: whatever processes ran before it and whatever other callers sent, a request
-- with a nonce of its own is answered by the operation that it names.
import GuiShell.Broker.AuditDurability
import GuiShell.Broker.ReplaySafety
import GuiShell.ClientRequests

open json serde_json authority broker_audit files store

namespace protocol

variable {crates : Crates} {outside : Outside}

/-! ## The nonces that a directory knows -/

/-- The nonce of the request that a step serves. -/
def Step.nonces (crates : Crates) : Step → List String
  | .opens .. => []
  | .serves call _ => (call.envelope crates).toList.map BrokerRequestEnvelope.nonceText

namespace Site

/-- The directory and the broker on it know no nonces but the given ones. -/
structure Knows (s : Site crates) (c : Contents crates) (nonces : List String) : Prop where
  on : s.On c
  loads : c.Loads
  records : ∀ record ∈ c.records, record.nonce ∈ nonces
  seen : ∀ broker, s.running = some broker → ∀ e ∈ broker.seen_nonces.entries, e.1 ∈ nonces

theorem knows_unopened (clock : I64) : (unopened clock : Site crates).Knows .fresh [] where
  on := on_unopened clock
  loads := loads_fresh
  records _ h := absurd h List.not_mem_nil
  seen _ h := by cases h

theorem Knows.mono {s : Site crates} {c : Contents crates} {nonces nonces' : List String}
    (h : s.Knows c nonces) (hsub : nonces ⊆ nonces') : s.Knows c nonces' where
  on := h.on
  loads := h.loads
  records record hr := hsub (h.records record hr)
  seen broker hb e he := hsub (h.seen broker hb e he)

/-- What is loaded from records comes from the records. -/
theorem mem_of_loaded {now : I64} {records : List ReplayNonceRecord} {nonces : List String}
    (h : ∀ record ∈ records, record.nonce ∈ nonces) :
    ∀ e ∈ (loadedNonces now records).entries, e.1 ∈ nonces := by
  intro e he
  obtain ⟨⟨record, hr, hn⟩, _⟩ := loadedNonces_mem he
  rw [← hn]
  exact h record hr

theorem mem_of_compacted {nonces : SortedMap String I64} {names : List String}
    (h : ∀ e ∈ nonces.entries, e.1 ∈ names) :
    ∀ record ∈ compactRecords nonces, record.nonce ∈ names := by
  intro record hr
  obtain ⟨e, he, rfl⟩ := mem_compactRecords.mp hr
  exact h e he

theorem knows_opens {s : Site crates} {c : Contents crates} {nonces : List String}
    (h : s.Knows c nonces) (faults : Faults StoreFile) {session_id : String}
    (hid : ¬ IsBlank session_id) (now : I64)
    (random : Except String { key : Bytes // key.length = 32 }) :
    ∃ c', (s.step (.opens faults session_id now random)).Knows c' nonces := by
  rcases opens.spec h.on faults session_id now random with
    ⟨_, broker, disk, key, hstep, hseen, hserves⟩ | ⟨_, disk, c', hstep, hd, hopening⟩
  · rw [hstep]
    refine ⟨_, ⟨hserves.holds, fun b hb => ?_⟩, ⟨compactRecords_loadedNonces h.loads.1, ?_⟩,
      mem_of_compacted (mem_of_loaded h.records), fun b hb => ?_⟩
    · obtain rfl := Option.some.inj hb
      exact hserves
    · intro id hi
      obtain rfl := Option.some.inj hi
      exact hid
    · obtain rfl := Option.some.inj hb
      rw [hseen]
      exact mem_of_loaded h.records
  · rw [hstep]
    refine ⟨c', ⟨hd, fun _ hb => by cases hb⟩, loads_of_opening hopening h.loads, ?_,
      fun _ hb => by cases hb⟩
    rcases hopening.records with hsame | ⟨_, hcompacted⟩
    · rw [hsame]
      exact h.records
    · rw [hcompacted]
      exact mem_of_compacted (mem_of_loaded h.records)

/-- A call adds the nonce of its request, or nothing. -/
theorem knows_phase {w : World crates} {call : Call} {c c' : Contents crates}
    {seen : SortedMap String I64} {nonces : List String}
    (h : World.NoncePhase outside w call c seen c')
    (hrecords : ∀ record ∈ c.records, record.nonce ∈ nonces)
    (hseen : ∀ e ∈ w.broker.seen_nonces.entries, e.1 ∈ nonces) :
    (∀ record ∈ c'.records, record.nonce ∈ nonces ++ (Step.serves call outside).nonces crates) ∧
      ∀ e ∈ seen.entries, e.1 ∈ nonces ++ (Step.serves call outside).nonces crates := by
  have hold : ∀ {name : String}, name ∈ nonces →
      name ∈ nonces ++ (Step.serves call outside).nonces crates :=
    fun hname => List.mem_append_left _ hname
  have hnew : ∀ {envelope : BrokerRequestEnvelope}, w.admitted outside call = some envelope →
      ∀ record ∈ c.records ++ [⟨envelope.nonceText, some outside.record_clock⟩],
        record.nonce ∈ nonces ++ (Step.serves call outside).nonces crates := by
    intro envelope hadmitted record hr
    rcases List.mem_append.mp hr with hr | hr
    · exact hold (hrecords record hr)
    · rw [List.mem_singleton.mp hr]
      apply List.mem_append_right
      rw [Step.nonces, (Option.filter_eq_some_iff.mp hadmitted).1]
      exact List.mem_singleton_self _
  cases h with
  | gates => exact ⟨fun r hr => hold (hrecords r hr), fun e he => hold (hseen e he)⟩
  | recorded hadmitted =>
    have hloaded := @mem_of_loaded outside.record_clock _ _ (hnew hadmitted)
    exact ⟨mem_of_compacted hloaded, hloaded⟩
  | unwritten => exact ⟨fun r hr => hold (hrecords r hr), fun e he => hold (hseen e he)⟩
  | stuck hadmitted => exact ⟨hnew hadmitted, fun e he => hold (hseen e he)⟩

theorem knows_step {s : Site crates} {c : Contents crates} {nonces : List String}
    (h : s.Knows c nonces) {step : Step} (hstep : s.Careful step) :
    ∃ c', (s.step step).Knows c' (nonces ++ step.nonces crates) := by
  cases step with
  | opens faults session_id now random =>
    obtain ⟨c', hc'⟩ := knows_opens h faults hstep now random
    exact ⟨c', hc'.mono (List.subset_append_left ..)⟩
  | serves call outside =>
    rcases hrunning : s.running with _ | broker
    · rw [step_serves_none hrunning]
      exact ⟨c, h.mono (List.subset_append_left ..)⟩
    · rw [step_serves_some hrunning]
      obtain ⟨hnonce, hwhole⟩ := hstep broker hrunning
      obtain ⟨c₁, hphase, haudit⟩ := World.call.spec (h.on.serves broker hrunning) outside call
      obtain ⟨c₂, hserves, hrecords, hsession, _⟩ := haudit.serves hwhole
      obtain ⟨hblank, hid⟩ := hphase.loads h.loads hnonce
      obtain ⟨hknown, hseen⟩ := knows_phase hphase h.records (h.seen broker hrunning)
      refine ⟨c₂, ⟨hserves.holds, fun b hb => ?_⟩, ⟨hrecords ▸ hblank, hsession ▸ hid⟩,
        hrecords ▸ hknown, fun b hb => ?_⟩
      · obtain rfl := Option.some.inj hb
        exact hserves.forget
      · obtain rfl := Option.some.inj hb
        exact hseen

theorem knows_run {s : Site crates} {c : Contents crates} {nonces : List String}
    (h : s.Knows c nonces) {steps : List Step} (hruns : s.Runs Careful steps) :
    ∃ c', (s.run steps).Knows c' (nonces ++ steps.flatMap (Step.nonces crates)) := by
  induction steps generalizing s c nonces with
  | nil =>
    rw [List.flatMap_nil, List.append_nil]
    exact ⟨c, h⟩
  | cons step steps ih =>
    obtain ⟨c₁, h₁⟩ := knows_step h hruns.1
    obtain ⟨c₂, h₂⟩ := ih h₁ hruns.2
    rw [List.append_assoc] at h₂
    exact ⟨c₂, h₂⟩

end Site

/-! ## Calls without failures -/

namespace World

/-- Without failures a nonce that is not blank can be recorded. -/
theorem Serves.canRecord {w : World crates} {c : Contents crates} (h : w.Serves c)
    (hloads : c.Loads) (hquiet : outside.faults = noFaults) {nonce : String}
    (hnonce : ¬ IsBlank nonce) : w.CanRecord outside nonce := by
  obtain ⟨store, hstore, _⟩ := h.durable
  unfold CanRecord
  rw [hstore, hquiet]
  refine ⟨⟨rfl, rfl, rfl, rfl⟩, ?_⟩
  rw [h.holds.replay_file, Content.append_text, nonceCodec.text_snoc, replayNoncesOf_text]
  · rfl
  · intro record hr
    rcases List.mem_append.mp hr with hr | hr
    · exact hloads.1 record hr
    · rw [List.mem_singleton.mp hr]
      exact hnonce

end World

/-! ## Answers -/

/-- The status that an operation answers a payload with, when its event is appended. -/
def answered (operation : BrokerOperation) (payload : Value) : BrokerStatus :=
  match operation with
  | .CommandEnvelope => .Suspended
  | .AuthorityEvaluate => if (payload.get "state").isSome then .Rejected else .Accepted
  | _ => .Accepted

/-- The body that an operation answers a payload with. -/
def answeredBody (crates : Crates) (registry : BrokerAuthorityRegistry)
    (operation : BrokerOperation) (payload : Value) : Option Value :=
  match operation with
  | .Health | .Shutdown => none
  | .CommandEnvelope => some (json_command_eligibility crates payload registry)
  | .AuthorityEvaluate =>
    if (payload.get "state").isSome then none
    else some (evaluate_broker_authority crates registry payload)
  | .AuthorityFixtureEvaluate => some (evaluate_authority crates payload)
  | .ApprovalEdit => some (edit_approval crates payload)
  | .ContentProjection => some (project_approval_content payload)
  | .AuditVerify => some (verify_audit_chain crates.sha256 payload)
  | .NormalizePayload => some (normalize_inbound_payload crates payload)

/-- The health that an operation of a broker answers with. -/
def answeredHealth (broker : Broker crates) : BrokerOperation → Option BrokerHealth
  | .Health => some (broker.health EVIDENCE_SOURCE_LIVE_RUNTIME)
  | _ => none

/-- A call came to the answer of the operation that was asked, which names its event. -/
structure Answers (called : BrokerResponse × World crates) (id : String) (asked : BrokerOperation)
    (payload : Value) : Prop where
  request_id : called.1.request_id = id
  operation : called.1.operation = asked.as_str
  status : called.1.status = answered asked payload
  error : called.1.error = none ↔ answered asked payload = .Accepted
  body : called.1.body = answeredBody crates called.2.broker.authority_registry asked payload
  health : called.1.health = answeredHealth called.2.broker asked
  audit_event_id : called.1.audit_event_id ≠ "broker-audit-unavailable"

namespace World

/-- Without failures an exit that audits gives its response, which names its event. -/
theorem Serves.audited_answers {w : World crates} {c : Contents crates} (h : w.Serves c)
    (hquiet : outside.faults = noFaults) (entry : AuditEntry)
    {respond : Broker crates → BrokerAuditEvent → BrokerResponse} {id : String}
    {asked : BrokerOperation} {payload : Value}
    (hrespond : ∀ (w' : World crates) (event : BrokerAuditEvent),
      w'.broker.authority_registry = w.broker.authority_registry →
      event.event_id ≠ "broker-audit-unavailable" →
      Answers (respond w'.broker event, w') id asked payload) :
    Answers (w.audited outside entry respond) id asked payload := by
  obtain ⟨event, w', happend, _, _⟩ := h.append_ok hquiet entry
  obtain ⟨hevent, hbroker, _, _⟩ := append_audit_ok happend
  rw [audited, happend]
  refine hrespond w' event ?_ ?_
  · rw [hbroker]
  · rw [hevent]
    exact event_id_ne_unavailable _

theorem Serves.dispatch_answers {w : World crates} {c : Contents crates} (h : w.Serves c)
    (hquiet : outside.faults = noFaults) (asked : BrokerOperation)
    (envelope : BrokerRequestEnvelope) :
    Answers (w.dispatch outside asked envelope) envelope.requestId asked
      (envelope.payload.getD .null) := by
  cases asked with
  | Shutdown =>
    unfold dispatch accept_shutdown
    refine (h.flagged .Shutdown).audited_answers hquiet _ fun w' event _ hevent => ?_
    exact ⟨rfl, rfl, rfl, by simp [answered], rfl, rfl, hevent⟩
  | AuthorityEvaluate =>
    by_cases hstate : ((envelope.payload.getD .null).get "state").isSome = true
    · rw [dispatch, if_pos hstate]
      unfold reject_with_payload_hash
      refine h.audited_answers hquiet _ fun w' event _ hevent => ?_
      exact ⟨rfl, rfl, by simp [answered, hstate], by simp [answered, hstate],
        by simp [answeredBody, hstate], rfl, hevent⟩
    · rw [dispatch, if_neg hstate]
      unfold accept_authority_decision
      refine h.audited_answers hquiet _ fun w' event hregistry hevent => ?_
      exact ⟨rfl, rfl, by simp [answered, hstate], by simp [answered, hstate],
        by simp [answeredBody, hstate, hregistry], rfl, hevent⟩
  | CommandEnvelope =>
    unfold dispatch suspend_command
    refine h.audited_answers hquiet _ fun w' event _ hevent => ?_
    exact ⟨rfl, rfl, rfl, by simp [answered], rfl, rfl, hevent⟩
  | Health =>
    unfold dispatch accept_health
    refine h.audited_answers hquiet _ fun w' event _ hevent => ?_
    exact ⟨rfl, rfl, rfl, by simp [answered], rfl, rfl, hevent⟩
  | AuthorityFixtureEvaluate =>
    unfold dispatch accept_body_with_evidence
    refine h.audited_answers hquiet _ fun w' event _ hevent => ?_
    exact ⟨rfl, rfl, rfl, by simp [answered], rfl, rfl, hevent⟩
  | ApprovalEdit | ContentProjection | AuditVerify | NormalizePayload =>
    unfold dispatch accept_body accept_body_with_evidence
    refine h.audited_answers hquiet _ fun w' event _ hevent => ?_
    exact ⟨rfl, rfl, rfl, by simp [answered], rfl, rfl, hevent⟩

/-- Without failures a call that dispatches is answered by its operation. -/
theorem Serves.call_answers {w : World crates} {c : Contents crates} (h : w.Serves c)
    (hquiet : outside.faults = noFaults) {call : Call} {envelope : BrokerRequestEnvelope}
    (hdispatches : w.Dispatches outside call envelope) :
    Answers (w.call outside call) envelope.requestId (envelope.operation.getD .Health)
      (envelope.payload.getD .null) := by
  obtain ⟨c', -, hserves⟩ := record_nonce.durable_spec h hdispatches.1
  obtain ⟨operation, hop, hcall⟩ := callWith_of_dispatches hdispatches
  rw [← callWith_dispatch, hcall, hop]
  exact hserves.dispatch_answers hquiet _ _

end World

end protocol

namespace remote_call

open protocol

variable {crates : Crates}

/-! ## The nonces of the client -/

theorem nonce_toList (moment : broker_client.Moment) : (broker_client.nonce moment).toList =
    "flutter-nonce-".toList ++ (intText moment.microsecondsSinceEpoch ++
      '-' :: Nat.toDigits 10 moment.counter) := by
  have hmicroseconds : (String.ofList (intText moment.microsecondsSinceEpoch)).toList =
      intText moment.microsecondsSinceEpoch := String.toList_ofList
  have hcounter : (Nat.repr moment.counter).toList = Nat.toDigits 10 moment.counter :=
    String.toList_ofList
  show ("flutter-nonce-" ++ String.ofList (intText moment.microsecondsSinceEpoch) ++ "-" ++
    Nat.repr moment.counter).toList = _
  rw [String.toList_append, String.toList_append, String.toList_append, hmicroseconds, hcounter,
    List.append_assoc, List.append_assoc]
  rfl

theorem dash_not_digit (n : Nat) : '-' ∉ Nat.toDigits 10 n := by
  intro hmem
  have hdigit := Nat.isDigit_of_mem_toDigits (by decide) (by decide) hmem
  cases hdigit

/-- The counter stands after the last dash. -/
theorem counter_after_dash (moment : broker_client.Moment) :
    ((broker_client.nonce moment).toList.reverse.takeWhile (· != '-')).reverse =
      Nat.toDigits 10 moment.counter := by
  have hdigits : ∀ c ∈ (Nat.toDigits 10 moment.counter).reverse, (c != '-') = true := by
    intro c hc
    rw [bne_iff_ne]
    exact fun hdash => (dash_not_digit moment.counter) (hdash ▸ List.mem_reverse.mp hc)
  rw [nonce_toList, ← List.append_assoc, List.reverse_append, List.reverse_cons,
    List.append_assoc, List.takeWhile_append_of_pos hdigits, List.singleton_append,
    List.takeWhile_cons_of_neg (by simp), List.append_nil, List.reverse_reverse]

/-- Requests with different counters have different nonces. -/
theorem counter_of_nonce {moment moment' : broker_client.Moment}
    (h : broker_client.nonce moment = broker_client.nonce moment') :
    moment.counter = moment'.counter := by
  have htext := counter_after_dash moment
  rw [h, counter_after_dash] at htext
  rw [← Nat.ofDigitChars_ten_toDigits (n := moment.counter), ← htext, Nat.ofDigitChars_ten_toDigits]

theorem nonce_not_blank (moment : broker_client.Moment) :
    ¬ store.IsBlank (broker_client.nonce moment) := by
  rw [store.IsBlank, json_lines.trim_eq_nil_iff, nonce_toList]
  simp [show json_lines.isWhitespace 'f' = false from by decide]

/-! ## A client is served -/

/-- The step has another nonce than the request of the client: it is a request of a client with
another counter, or its nonce is that of no client. -/
def Apart (crates : Crates) (moment : broker_client.Moment) (step : Step) : Prop :=
  (∃ endpoint moment' operation payload outside, Plain payload ∧
    step = .serves (clientCall endpoint moment' operation payload) outside ∧
    moment'.counter ≠ moment.counter) ∨
  ∀ nonce ∈ step.nonces crates, ¬ "flutter-nonce-".toList <+: nonce.toList

theorem Apart.notMem {moment : broker_client.Moment} {step : Step}
    (h : Apart crates moment step) : broker_client.nonce moment ∉ step.nonces crates := by
  intro hmem
  rcases h with ⟨endpoint, moment', operation, payload, outside, hplain, rfl, hcounter⟩ | hother
  · have hread := @from_json_str_request crates endpoint moment' operation _ hplain
    rw [Step.nonces, clientCall, Call.envelope, hread] at hmem
    exact hcounter (counter_of_nonce (List.mem_singleton.mp hmem)).symm
  · refine hother _ hmem ?_
    rw [nonce_toList]
    exact List.prefix_append ..

/-- After any careful run, whatever failed and whoever called, a broker that runs answers a plain
request of the client: all it takes is the broker's session, clocks that are near, a counter that
the client has not used, and files that work. -/
theorem client_is_served (hsha2 : ∀ bytes, crates.sha256 bytes = fips.digest bytes)
    (hnfkc : NormalizesAscii crates) {clock : I64} {steps : List Step}
    (hruns : (Site.unopened clock : Site crates).Runs Site.Careful steps) {broker : Broker crates}
    (hrunning : ((Site.unopened clock : Site crates).run steps).running = some broker)
    {moment : broker_client.Moment} (hyear : moment.issued.date.year ≤ 9999)
    (hapart : ∀ step ∈ steps, Apart crates moment step) {endpoint : broker_client.BrokerEndpoint}
    {operation : BrokerOperation}
    (hsession : operation = .Health ∨ endpoint.sessionId = broker.session_id)
    {payload : Option (List (String × Value))} (hplain : Plain payload) {outside : Outside}
    (hquiet : outside.faults = noFaults)
    (hnear : (issuedSeconds moment.issued - outside.gate_clock.val).natAbs ≤
      REQUEST_FRESHNESS_WINDOW_SECONDS) :
    Answers ((((Site.unopened clock : Site crates).run steps).world broker).call outside
        (clientCall endpoint moment operation payload))
      (broker_client.requestId moment) operation ((payloadValue payload).getD .null).sortKeys := by
  obtain ⟨c, hknows⟩ := Site.knows_run (Site.knows_unopened clock) hruns
  have hserves := hknows.on.serves broker hrunning
  have hunseen : broker.seen_nonces.contains_key (broker_client.nonce moment) = false := by
    by_contra hseen
    rw [Bool.not_eq_false, SortedMap.contains_key, Option.isSome_iff_exists] at hseen
    obtain ⟨t, ht⟩ := hseen
    have hmem := hknows.seen broker hrunning _ ((SortedMap.get_eq_some_iff ..).mp ht)
    rw [List.nil_append, List.mem_flatMap] at hmem
    obtain ⟨step, hstep, hnonce⟩ := hmem
    exact (hapart step hstep).notMem hnonce
  have hwelcome : Welcome broker endpoint moment operation outside.gate_clock := by
    obtain ⟨store, hstore, _⟩ := hserves.durable
    have hclock : broker.current_epoch_seconds outside.gate_clock = outside.gate_clock := by
      have hoverride : broker.current_epoch_seconds_override = none := hserves.clock
      unfold Broker.current_epoch_seconds
      rw [hoverride]
      rfl
    have hbroker : broker.state_store = .durable_file_store store := hstore
    refine ⟨fun _ => ?_, hsession, hclock.symm ▸ hnear, hunseen⟩
    rw [hbroker]
    rfl
  have hcan := hserves.canRecord hknows.loads hquiet (nonce_not_blank moment)
  have hreaches := (client_request_dispatches_iff hsha2 hnfkc hyear hplain
    (((Site.unopened clock : Site crates).run steps).world broker) outside operation).1.mpr
      ⟨hwelcome, hcan⟩
  have hanswers := hserves.call_answers hquiet (World.reachesDispatch_iff.mp hreaches)
  have hnull : ((payloadValue payload).map Value.sortKeys).getD .null =
      ((payloadValue payload).getD .null).sortKeys := by
    rcases payload with _ | fields <;> rfl
  rw [← hnull]
  exact hanswers

def secondMoment : broker_client.Moment := { newYearMoment with counter := 2 }

/-- A process that opens a new directory, and a first request of a client. -/
def firstRequest : List Step :=
  [.opens noFaults "session-1" newYear (.ok zeroKey),
    .serves (clientCall (clientEndpoint zeroServer) newYearMoment .Health none) calm]

theorem careful_firstRequest :
    (Site.unopened newYear : Site .ascii).Runs Site.Careful firstRequest := by
  refine ⟨?_, fun broker _ => ⟨fun envelope hadmitted _ => ?_, .inr (.inr ⟨rfl, rfl, rfl⟩)⟩,
    trivial⟩
  · show ¬ store.IsBlank "session-1"
    decide
  · have hread := @from_json_str_request .ascii (clientEndpoint zeroServer) newYearMoment .Health
      _ plain_none
    have henvelope := (Option.filter_eq_some_iff.mp hadmitted).1
    rw [clientCall, Call.envelope, hread] at henvelope
    obtain rfl := Option.some.inj henvelope
    exact nonce_not_blank newYearMoment

/-- The second request of the client is served too. -/
theorem second_request_is_served : ∃ broker,
    ((Site.unopened newYear : Site .ascii).run firstRequest).running = some broker ∧
    Answers ((((Site.unopened newYear : Site .ascii).run firstRequest).world broker).call calm
        (clientCall (clientEndpoint zeroServer) secondMoment .Health none))
      (broker_client.requestId secondMoment) .Health Value.null.sortKeys := by
  obtain ⟨broker, _, hfirst, _⟩ := Site.first_running
  have hrun : (Site.unopened newYear : Site .ascii).run firstRequest = Site.first.step
      (.serves (clientCall (clientEndpoint zeroServer) newYearMoment .Health none) calm) := rfl
  have hrunning := Site.running_step_serves hfirst
    (clientCall (clientEndpoint zeroServer) newYearMoment .Health none) calm
  rw [← hrun] at hrunning
  have hapart : ∀ step ∈ firstRequest, Apart .ascii secondMoment step := by
    intro step hstep
    rcases List.mem_cons.mp hstep with rfl | hstep
    · exact .inr fun nonce hnonce => absurd hnonce List.not_mem_nil
    · exact .inl ⟨_, _, _, _, _, plain_none, List.mem_singleton.mp hstep, by decide⟩
  exact ⟨_, hrunning, client_is_served (fun _ => rfl) normalizesAscii_ascii careful_firstRequest
    hrunning (by decide) hapart (.inl rfl) plain_none rfl near_newYear⟩

end remote_call
