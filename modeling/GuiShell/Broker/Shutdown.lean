-- What the server does after a shutdown. The loop ends by what a connection returns, so it goes
-- on when the response to a shutdown cannot be written; the flag of the broker is set then.
import GuiShell.Broker.CallerAuthority
import GuiShell.Broker.GateSoundness
import GuiShell.Broker.IpcServer

open json serde_json authority broker_audit files store protocol

namespace protocol

variable {crates : Crates} {outside : Outside}

namespace World

/-! ## The flag of a call -/

/-- The flag stays clear, and the response says so. -/
structure Quiet (response : BrokerResponse) (broker : Broker crates) : Prop where
  shown : response.shutdown_requested = false
  flag : broker.shutdown_requested = false
  not_accepted : ¬ (response.operation = BrokerOperation.Shutdown.as_str ∧
    response.status = .Accepted)

theorem reject.quiet {w : World crates} (h : w.broker.shutdown_requested = false)
    (request_id operation code message : String) (recoverable : Bool) (payload_hash : String) :
    Quiet (w.reject_with_payload_hash outside request_id operation code message recoverable
        payload_hash).1
      (w.reject_with_payload_hash outside request_id operation code message recoverable
        payload_hash).2.broker :=
  audited.rule (P := Quiet) (fun _ => ⟨h, h, nofun⟩) fun _ => ⟨h, h, nofun⟩

theorem suspend_health.quiet {w : World crates} (h : w.broker.shutdown_requested = false)
    (request_id payload_hash : String) :
    Quiet (w.suspend_health outside request_id payload_hash).1
      (w.suspend_health outside request_id payload_hash).2.broker :=
  audited.rule (P := Quiet) (fun _ => ⟨rfl, h, nofun⟩) fun _ => ⟨h, h, nofun⟩

theorem not_shutdown_name {response : BrokerResponse} {operation : BrokerOperation}
    (h : response.operation = operation.as_str) (hne : operation ≠ .Shutdown) :
    response.operation ≠ BrokerOperation.Shutdown.as_str := by
  rw [h]
  revert hne
  cases operation <;> decide

theorem dispatch.quiet {w : World crates} (h : w.broker.shutdown_requested = false)
    {operation : BrokerOperation} (hne : operation ≠ .Shutdown) (envelope : BrokerRequestEnvelope) :
    Quiet (w.dispatch outside operation envelope).1
      (w.dispatch outside operation envelope).2.broker := by
  have hoperation : (w.dispatch outside operation envelope).1.operation = operation.as_str :=
    dispatch.operation w operation envelope
  have hname := not_shutdown_name hoperation hne
  have hflags : (w.dispatch outside operation envelope).1.shutdown_requested = false ∧
      (w.dispatch outside operation envelope).2.broker.shutdown_requested = false := by
    cases operation with
    | Shutdown => exact absurd rfl hne
    | AuthorityEvaluate =>
      unfold dispatch
      dsimp only
      split
      · exact ⟨(reject.quiet h _ _ _ _ _ _).shown, (reject.quiet h _ _ _ _ _ _).flag⟩
      · exact audited.rule (P := fun r broker => r.shutdown_requested = false ∧
          broker.shutdown_requested = false) (fun _ => ⟨h, h⟩) fun _ => ⟨h, h⟩
    | Health =>
      exact audited.rule (P := fun r broker => r.shutdown_requested = false ∧
        broker.shutdown_requested = false) (fun _ => ⟨rfl, h⟩) fun _ => ⟨h, h⟩
    | CommandEnvelope | AuthorityFixtureEvaluate | ApprovalEdit | ContentProjection | AuditVerify
    | NormalizePayload =>
      exact audited.rule (P := fun r broker => r.shutdown_requested = false ∧
        broker.shutdown_requested = false) (fun _ => ⟨h, h⟩) fun _ => ⟨h, h⟩
  exact ⟨hflags.1, hflags.2, fun haccepted => hname haccepted.1⟩

/-- Whether the event of a shutdown is appended or not, the flag is set and shown. -/
theorem accept_shutdown.flag (w : World crates) (request_id payload_hash : String) :
    (w.accept_shutdown outside request_id payload_hash).1.shutdown_requested = true ∧
      (w.accept_shutdown outside request_id payload_hash).2.broker.shutdown_requested = true :=
  audited.rule (P := fun r broker => r.shutdown_requested = true ∧
    broker.shutdown_requested = true) (fun _ => ⟨rfl, rfl⟩) fun _ => ⟨rfl, rfl⟩

theorem not_shutsDown_of_not_pass {w : World crates} {envelope : BrokerRequestEnvelope} {c : Call}
    (hc : c.envelope crates = some envelope)
    (h : w.broker.gate envelope outside.gate_clock ≠ .pass) : ¬ w.ShutsDown outside c := by
  rintro ⟨envelope', hadmitted, _⟩
  simp only [admitted, hc, Option.filter_some, decide_eq_true_eq, Option.ite_none_right_eq_some,
    Option.some.injEq] at hadmitted
  exact h hadmitted.1

theorem not_shutsDown_of {w : World crates} {envelope : BrokerRequestEnvelope} {c : Call}
    (hc : c.envelope crates = some envelope)
    (h : ¬ (claimsAuthority crates envelope = false ∧ w.records outside envelope = true ∧
      envelope.operation = some .Shutdown)) : ¬ w.ShutsDown outside c := by
  rintro ⟨envelope', hadmitted, hclaims, hrecord, hop⟩
  obtain ⟨hc', _⟩ := Option.filter_eq_some_iff.mp hadmitted
  obtain rfl := Option.some.inj (hc.symm.trans hc')
  exact h ⟨hclaims, records_iff.mpr hrecord, hop⟩

theorem flag_record_nonce (outside : Outside) (w : World crates) (nonce : String) :
    (w.record_nonce outside nonce).2.broker.shutdown_requested = w.broker.shutdown_requested := by
  rw [(record_nonce.spec outside w nonce).2]

/-- A call with the flag clear shuts down, and sets and shows the flag, or leaves it clear. -/
theorem call.flag (outside : Outside) {w : World crates}
    (h : w.broker.shutdown_requested = false) (c : Call) :
    (w.ShutsDown outside c ∧ (w.call outside c).1.shutdown_requested = true ∧
      (w.call outside c).2.broker.shutdown_requested = true) ∨
    (¬ w.ShutsDown outside c ∧ Quiet (w.call outside c).1 (w.call outside c).2.broker) := by
  generalize hr : w.call outside c = r
  have hcalled := call_cases outside w c
  rw [hr] at hcalled
  cases hcalled with
  | malformed _ hnone | ipc _ hnone =>
    refine .inr ⟨?_, reject.quiet h _ _ _ _ _ _⟩
    rintro ⟨envelope, hadmitted, _⟩
    simp [admitted, hnone] at hadmitted
  | @envelope envelope hc =>
    have hrecorded := (flag_record_nonce outside w envelope.nonceText).trans h
    obtain ⟨course, hcourse, hhandled⟩ := handle_cases outside w envelope
    rw [hcourse]
    cases hhandled with
    | rejected hgate =>
      refine .inr ⟨not_shutsDown_of_not_pass hc ?_, reject.quiet h _ _ _ _ _ _⟩
      rw [hgate]
      intro h
      cases h
    | suspended hgate =>
      refine .inr ⟨not_shutsDown_of_not_pass hc ?_, suspend_health.quiet h _ _⟩
      rw [hgate]
      intro h
      cases h
    | unavailable _ hclaims =>
      refine .inr ⟨not_shutsDown_of hc ?_, hrecorded, hrecorded, ?_⟩
      · simp [hclaims]
      · rintro ⟨_, h⟩
        cases h
    | claimed _ hclaims =>
      refine .inr ⟨not_shutsDown_of hc ?_, reject.quiet hrecorded _ _ _ _ _ _⟩
      simp [hclaims]
    | unrecorded _ _ hrecord =>
      refine .inr ⟨not_shutsDown_of hc ?_, reject.quiet hrecorded _ _ _ _ _ _⟩
      simp [records_of_error hrecord]
    | @dispatched operation hgate hclaims hrecords hop =>
      by_cases hs : operation = .Shutdown
      · subst hs
        refine .inl ⟨⟨envelope, ?_, hclaims, records_iff.mp hrecords, hop⟩, ?_⟩
        · simp [admitted, hc, hgate]
        · exact accept_shutdown.flag _ _ _
      · refine .inr ⟨not_shutsDown_of hc ?_, dispatch.quiet hrecorded hs envelope⟩
        simp [hop, hs]

end World

end protocol

namespace ipc_server

variable {crates : Crates} {utf8_error : Bytes → String} {session_secret : String}
  {max_request_bytes : Nat}

/-! ## Connections -/

/-- The request of a connection that authenticates itself. -/
def Connection.request (utf8_error : Bytes → String) (session_secret : String)
    (max_request_bytes : Nat) (connection : Connection) : Option String :=
  match connection.opened, read_limited_line utf8_error connection.reader AUTH_LINE_MAX_BYTES with
  | .ok (), (.ok (some auth_line), reader) =>
    if auth_line = session_secret then
      match (read_limited_line utf8_error reader max_request_bytes).1 with
      | .ok request_json => request_json
      | .error _ => none
    else none
  | _, _ => none

/-- A connection ends without a call, with a rejection, or with the call of its request. -/
inductive Handled (utf8_error : Bytes → String) (session_secret : String) (max_request_bytes : Nat)
    (broker : World crates) (connection : Connection) : Exchange crates → Prop
  | failed (message : String)
      (h : connection.request utf8_error session_secret max_request_bytes = none) :
      Handled utf8_error session_secret max_request_bytes broker connection
        ⟨.error message, none, broker⟩
  | rejected (code message : String)
      (h : connection.request utf8_error session_secret max_request_bytes = none) :
      Handled utf8_error session_secret max_request_bytes broker connection
        (connection.answer false (broker.reject_ipc connection.outside code message true))
  | requested {request_json : String}
      (h : connection.request utf8_error session_secret max_request_bytes = some request_json) :
      Handled utf8_error session_secret max_request_bytes broker connection
        (connection.answer
          (broker.handle_json connection.outside request_json).1.shutdown_requested
          (broker.handle_json connection.outside request_json))

theorem handle_stream_cases (utf8_error : Bytes → String) (session_secret : String)
    (max_request_bytes : Nat) (broker : World crates) (connection : Connection) :
    Handled utf8_error session_secret max_request_bytes broker connection
      (handle_stream utf8_error session_secret max_request_bytes broker connection) := by
  unfold handle_stream
  dsimp only
  split
  · rename_i hopened
    refine .failed _ ?_
    simp [Connection.request, hopened]
  · rename_i hopened
    rcases hauth : read_limited_line utf8_error connection.reader AUTH_LINE_MAX_BYTES with
      ⟨(_ | _) | _ | auth_line, reader⟩
    · refine .failed _ ?_
      simp [Connection.request, hopened, hauth]
    · refine .rejected _ _ ?_
      simp [Connection.request, hopened, hauth]
    · refine .rejected _ _ ?_
      simp [Connection.request, hopened, hauth]
    · dsimp only
      split
      · rename_i hsecret
        refine .rejected _ _ ?_
        simp [Connection.request, hopened, hauth, hsecret]
      · rename_i hsecret
        have hrequest : connection.request utf8_error session_secret max_request_bytes =
            match (read_limited_line utf8_error reader max_request_bytes).1 with
            | .ok request_json => request_json
            | .error _ => none := by
          simp only [Connection.request, hopened, hauth, not_not.mp hsecret, if_true]
        split
        · rename_i hline
          exact .rejected _ _ (by rw [hrequest, hline])
        · rename_i hline
          exact .rejected _ _ (by rw [hrequest, hline])
        · rename_i hline
          exact .failed _ (by rw [hrequest, hline])
        · rename_i request_json hline
          exact .requested (by rw [hrequest, hline])

theorem handle_stream_of_request {connection : Connection} {request_json : String}
    (h : connection.request utf8_error session_secret max_request_bytes = some request_json)
    (broker : World crates) :
    handle_stream utf8_error session_secret max_request_bytes broker connection =
      connection.answer (broker.handle_json connection.outside request_json).1.shutdown_requested
        (broker.handle_json connection.outside request_json) := by
  generalize hexchange :
    handle_stream utf8_error session_secret max_request_bytes broker connection = exchange
  have hhandled :=
    handle_stream_cases utf8_error session_secret max_request_bytes broker connection
  rw [hexchange] at hhandled
  cases hhandled with
  | failed _ hnone | rejected _ _ hnone =>
    rw [h] at hnone
    cases hnone
  | requested hsome =>
    obtain rfl := Option.some.inj (h.symm.trans hsome)
    rfl

/-! ## The loop -/

section served

variable (utf8_error session_secret max_request_bytes)

/-- The request of the connection reaches an operation. -/
def Served.Dispatches (served : Served crates) : Prop :=
  ∃ request_json envelope,
    served.connection.request utf8_error session_secret max_request_bytes = some request_json ∧
    served.before.Dispatches served.connection.outside (.handle_json request_json) envelope

/-- The connection shuts the broker down, and its response cannot be written. -/
def Served.LosesShutdown (served : Served crates) : Prop :=
  ∃ request_json,
    served.connection.request utf8_error session_secret max_request_bytes = some request_json ∧
    served.before.ShutsDown served.connection.outside (.handle_json request_json) ∧
    ∃ error, served.connection.write = .error error

end served

/-- The response accepts the request. -/
def Served.Accepts (served : Served crates) : Prop :=
  ∃ response, served.exchange.response = some response ∧ response.status = .Accepted

/-- The response accepts a shutdown, so the shutdown was audited. -/
def Served.AcceptsShutdown (served : Served crates) : Prop :=
  ∃ response, served.exchange.response = some response ∧
    response.operation = BrokerOperation.Shutdown.as_str ∧ response.status = .Accepted

/-- The response shows the flag of the broker. -/
def Served.ShowsFlag (served : Served crates) : Prop :=
  ∀ response, served.exchange.response = some response →
    response.shutdown_requested = served.exchange.world.broker.shutdown_requested

/-- Nothing is dispatched or accepted after an accepted shutdown, and every response shows the
flag. -/
structure StopsAtShutdown (utf8_error : Bytes → String) (session_secret : String)
    (max_request_bytes : Nat) (trace : List (Served crates)) : Prop where
  stops : trace.Pairwise fun earlier later => earlier.AcceptsShutdown →
    ¬ later.Dispatches utf8_error session_secret max_request_bytes ∧ ¬ later.Accepts
  shows_flag : ∀ served ∈ trace, served.ShowsFlag

/-- A connection with the flag clear ends the loop and shows the flag, or leaves it clear, if
the response to a shutdown can be written. -/
theorem handle_stream.flag {broker : World crates} (h : broker.broker.shutdown_requested = false)
    {connection : Connection} {exchange : Exchange crates}
    (hexchange : handle_stream utf8_error session_secret max_request_bytes broker connection =
      exchange)
    (hwrites : ¬ Served.LosesShutdown utf8_error session_secret max_request_bytes
      ⟨broker, connection, exchange⟩) :
    Served.ShowsFlag ⟨broker, connection, exchange⟩ ∧ (exchange.result = .ok true ∨
      ¬ Served.AcceptsShutdown ⟨broker, connection, exchange⟩ ∧
        exchange.world.broker.shutdown_requested = false) := by
  unfold Served.ShowsFlag Served.AcceptsShutdown
  unfold Served.LosesShutdown at hwrites
  dsimp only at hwrites ⊢
  have hhandled :=
    handle_stream_cases utf8_error session_secret max_request_bytes broker connection
  rw [hexchange] at hhandled
  cases hhandled with
  | failed message =>
    constructor
    · intro response hresponse
      cases hresponse
    · refine .inr ⟨?_, h⟩
      rintro ⟨response, hresponse, _⟩
      cases hresponse
  | rejected code message =>
    have hquiet : World.Quiet (broker.reject_ipc connection.outside code message true).1
        (broker.reject_ipc connection.outside code message true).2.broker :=
      World.reject.quiet h "ipc-request" "unknown" code message true ZERO_PAYLOAD_HASH
    constructor
    · intro response hresponse
      cases hresponse
      exact hquiet.shown.trans hquiet.flag.symm
    · refine .inr ⟨?_, hquiet.flag⟩
      rintro ⟨response, hresponse, haccepted⟩
      cases hresponse
      exact hquiet.not_accepted haccepted
  | @requested request_json hrequest =>
    rcases World.call.flag connection.outside h (.handle_json request_json) with
      ⟨hshuts, hshown, hflag⟩ | ⟨_, hquiet⟩
    · constructor
      · intro response hresponse
        cases hresponse
        exact hshown.trans hflag.symm
      · left
        have hwrite : connection.write = .ok () := by
          rcases hw : connection.write with error | _
          · exact absurd ⟨request_json, hrequest, hshuts, error, hw⟩ hwrites
          · rfl
        have hresult : (broker.handle_json connection.outside request_json).1.shutdown_requested =
          true := hshown
        simp [Connection.answer, Connection.write_response, hwrite, Except.mapError, Except.map,
          hresult]
    · constructor
      · intro response hresponse
        cases hresponse
        exact hquiet.shown.trans hquiet.flag.symm
      · refine .inr ⟨?_, hquiet.flag⟩
        rintro ⟨response, hresponse, haccepted⟩
        cases hresponse
        exact hquiet.not_accepted haccepted

/-- A server that can write every response to a shutdown stops at the first one. -/
theorem stops_at_shutdown {broker : World crates} (h : broker.broker.shutdown_requested = false)
    (incoming : List (Except String Connection))
    (hwrites : ∀ served ∈
        run_loopback_server utf8_error session_secret max_request_bytes broker incoming,
      ¬ served.LosesShutdown utf8_error session_secret max_request_bytes) :
    StopsAtShutdown utf8_error session_secret max_request_bytes
      (run_loopback_server utf8_error session_secret max_request_bytes broker incoming) := by
  induction incoming generalizing broker with
  | nil =>
    rw [run_loopback_server]
    exact ⟨.nil, by simp⟩
  | cons connection incoming ih =>
    rcases connection with error | connection
    · exact ih h hwrites
    · rw [run_loopback_server] at hwrites ⊢
      generalize hexchange : handle_stream utf8_error session_secret max_request_bytes broker
        connection = exchange at hwrites ⊢
      obtain ⟨hshows, hend⟩ := handle_stream.flag h hexchange (hwrites _ List.mem_cons_self)
      have hsingle : StopsAtShutdown utf8_error session_secret max_request_bytes
          [(⟨broker, connection, exchange⟩ : Served crates)] := by
        refine ⟨List.pairwise_singleton _ _, fun served hmem => ?_⟩
        rw [List.mem_singleton.mp hmem]
        exact hshows
      rcases hend with hresult | ⟨hnot, hflag⟩
      · rw [hresult]
        exact hsingle
      · -- The flag is still clear, and the response accepts no shutdown.
        have hrest : (∀ served ∈ run_loopback_server utf8_error session_secret max_request_bytes
              exchange.world incoming,
            ¬ served.LosesShutdown utf8_error session_secret max_request_bytes) →
            StopsAtShutdown utf8_error session_secret max_request_bytes
              (⟨broker, connection, exchange⟩ :: run_loopback_server utf8_error session_secret
                max_request_bytes exchange.world incoming) := by
          intro hlater
          obtain ⟨hstops, hflags⟩ := ih hflag hlater
          refine ⟨List.pairwise_cons.mpr ⟨fun later _ haccepts => absurd haccepts hnot, hstops⟩, ?_⟩
          intro served hmem
          rcases List.mem_cons.mp hmem with rfl | hmem
          · exact hshows
          · exact hflags served hmem
        rcases hresult : exchange.result with error | _ | _
        · rw [hresult] at hwrites
          exact hrest fun served hmem => hwrites served (List.mem_cons_of_mem _ hmem)
        · rw [hresult] at hwrites
          exact hrest fun served hmem => hwrites served (List.mem_cons_of_mem _ hmem)
        · exact hsingle

/-! ## A lost shutdown -/

/-- The text of a request of the new year. -/
def requestJson (operation nonce : String) : String := to_string (.object [
  ("request_id", .string "request-1"),
  ("session_id", .string "session-1"),
  ("operation", .string operation),
  ("payload_hash",
    .string "sha256:74234e98afe7498fb5daf1f36ac2d78acc339464f950703b8c019892f982b90b"),
  ("nonce", .string nonce),
  ("issued_at", .string "2026-01-01T00:00:00Z"),
  ("metadata", .object [])])

theorem encode_to_string (v : Value) :
    utf8.encode (to_string v) = (print compact raw 0 v).flatMap String.utf8EncodeChar := by
  rw [to_string, utf8.encode, String.toList_ofList]

/-- The bytes can stand on a line of the request limit. -/
def isLine (bytes : Bytes) : Bool :=
  bytes.all (fun byte => byte ≠ newline) && bytes.getLast? ≠ some carriageReturn &&
    bytes.length + 1 ≤ 65536

/-- A connection that authenticates itself and sends a request. -/
def sends (request_json : String) (write : Except String Unit) : Connection where
  set_read_timeout := .ok ()
  set_write_timeout := .ok ()
  try_clone := .ok ()
  reader := [.ok (utf8.encode "secret" ++ [newline]), .ok (utf8.encode request_json ++ [newline])]
  write
  outside := calm

theorem request_sends {request_json : String} (h : isLine (utf8.encode request_json) = true)
    (write : Except String Unit) :
    (sends request_json write).request utf8_error "secret" 65536 = some request_json := by
  simp only [isLine, Bool.and_eq_true, List.all_eq_true, decide_eq_true_eq] at h
  obtain ⟨⟨hnewline, hend⟩, hlen⟩ := h
  have hauth : read_limited_line utf8_error [.ok (utf8.encode "secret" ++ [newline]),
        .ok (utf8.encode request_json ++ [newline])] AUTH_LINE_MAX_BYTES =
      (.ok (some "secret"), [.ok (utf8.encode request_json ++ [newline])]) :=
    read_limited_line_of_line utf8_error (by decide) (by decide) (by decide) _
  have hrequest := read_limited_line_of_line utf8_error (fun h => hnewline _ h rfl) hend hlen []
  have hopened : (sends request_json write).opened = .ok () := rfl
  have hreader : (sends request_json write).reader = [.ok (utf8.encode "secret" ++ [newline]),
    .ok (utf8.encode request_json ++ [newline])] := rfl
  rw [Connection.request, hopened, hreader, hauth]
  dsimp only
  rw [if_pos rfl, hrequest]

/-- A request that passes the gates of a broker on its directory reaches its operation. -/
theorem World.Serves.handle_dispatches (outside : Outside) {w : World crates} {c : Contents crates}
    (h : w.Serves c) (hloads : c.Loads) (hquiet : outside.faults = noFaults)
    {envelope : BrokerRequestEnvelope} {operation : BrokerOperation}
    (hgate : w.broker.gate envelope outside.gate_clock = .pass)
    (hclaims : metadata_attempts_authority crates envelope.metadata = false)
    (hnonce : ¬ IsBlank envelope.nonceText) (hop : envelope.operation = some operation) :
    w.handle outside envelope =
        (w.record_nonce outside envelope.nonceText).2.dispatch outside operation envelope ∧
      ∃ c', (w.record_nonce outside envelope.nonceText).2.Serves c' ∧ c'.Loads := by
  have hadmitted : w.admitted outside (.handle envelope) = some envelope := by
    simp [World.admitted, Call.envelope, hgate]
  have hblank : w.WritesNoBlankNonce outside (.handle envelope) := by
    intro envelope' hadmitted' _
    obtain rfl := Option.some.inj (hadmitted.symm.trans hadmitted')
    exact hnonce
  obtain ⟨c', hphase, hserves⟩ := World.record_nonce.durable_spec h hadmitted
  rcases hphase.of_quiet hquiet hloads hblank with ⟨hnone, _⟩ | ⟨envelope', hsome, hrecords, _⟩
  · rw [hadmitted] at hnone
    cases hnone
  · obtain rfl := Option.some.inj (hadmitted.symm.trans hsome)
    obtain ⟨operation', hop', hcall⟩ :=
      World.callWith_of_dispatches ⟨hadmitted, hclaims, hrecords⟩
    obtain rfl := Option.some.inj (hop.symm.trans hop')
    exact ⟨hcall (World.dispatch outside), c', hserves, hphase.loads hloads hblank⟩

/-- What `audited` comes to without failures. -/
theorem World.Serves.audited_ok {outside : Outside} {w : World crates} {c : Contents crates}
    (h : w.Serves c) (hquiet : outside.faults = noFaults) (entry : AuditEntry)
    (respond : Broker crates → BrokerAuditEvent → BrokerResponse) :
    ∃ event, (w.audited outside entry respond).1 =
        respond (w.audited outside entry respond).2.broker event ∧
      (w.audited outside entry respond).2.broker =
        { w.broker with audit_log := (w.broker.audit_log.append entry).1 } ∧
      (w.audited outside entry respond).2.Serves { c with log := (c.log.append entry).1 } := by
  obtain ⟨event, w', happend, hbroker, hserves⟩ := h.append_ok hquiet entry
  unfold World.audited
  rw [happend]
  exact ⟨event, rfl, hbroker, hserves⟩

theorem firstWorld_serves : ∃ c, firstWorld.Serves c ∧ c.Loads ∧
    firstWorld.broker.shutdown_requested = false := by
  have hfresh : Holds (fun _ => none) (.fresh : Contents .ascii) := holds_fresh
  have hspec := new_persistent.spec noFaults "session-1" newYear (.ok zeroKey) hfresh
  unfold firstWorld
  rcases hrun : Broker.new_persistent .ascii noFaults "session-1" newYear (.ok zeroKey)
    (fun _ => none) with ⟨broker, disk⟩ | ⟨e, disk⟩
  · obtain ⟨hloads, store, hbroker, hd⟩ := hspec.of_ok hrun
    rw [hbroker]
    refine ⟨_, ⟨hd, ⟨store, rfl, rfl⟩, rfl, rfl⟩,
      ⟨compactRecords_loadedNonces hloads.1, fun id hid => ?_⟩, rfl⟩
    obtain rfl := Option.some.inj hid
    decide
  · obtain ⟨_, hf | ⟨e, he⟩ | hl⟩ := hspec.of_error hrun
    · exact absurd rfl hf
    · cases he
    · exact absurd loads_fresh hl

/-- A shutdown and then a health request. -/
def shutdownThenHealth (write : Except String Unit) : List (Except String Connection) := [
  .ok (sends (requestJson "shutdown" "nonce-1") write),
  .ok (sends (requestJson "health" "nonce-2") (.ok ()))]

theorem served_connection {broker : World crates} {incoming : List (Except String Connection)}
    {served : Served crates}
    (h : served ∈ run_loopback_server utf8_error session_secret max_request_bytes broker incoming) :
    .ok served.connection ∈ incoming := by
  induction incoming generalizing broker with
  | nil =>
    rw [run_loopback_server] at h
    cases h
  | cons connection incoming ih =>
    rcases connection with error | connection
    · rw [run_loopback_server] at h
      exact List.mem_cons_of_mem _ (ih h)
    · rw [run_loopback_server] at h
      rcases List.mem_cons.mp h with rfl | hmem
      · exact List.mem_cons_self
      · split at hmem
        · cases hmem
        · exact List.mem_cons_of_mem _ (ih hmem)
        · exact List.mem_cons_of_mem _ (ih hmem)

theorem stops_at_written_shutdown :
    StopsAtShutdown (fun _ => "") "secret" 65536
      (run_loopback_server (fun _ => "") "secret" 65536 firstWorld
        (shutdownThenHealth (.ok ()))) := by
  obtain ⟨_, _, _, hflag⟩ := firstWorld_serves
  refine stops_at_shutdown hflag (shutdownThenHealth (.ok ())) fun served hmem => ?_
  rintro ⟨_, _, _, error, hwrite⟩
  have hwritten : served.connection.write = .ok () := by
    have hincoming := served_connection hmem
    simp only [shutdownThenHealth, List.mem_cons, Except.ok.injEq, List.not_mem_nil, or_false]
      at hincoming
    rcases hincoming with h | h <;> rw [h, sends]
  rw [hwritten] at hwrite
  cases hwrite

/-- A byte of a character is the character itself, or no ASCII byte. -/
theorem toNat_of_mem_utf8 {c : Char} {byte : UInt8} (h : byte ∈ String.utf8EncodeChar c) :
    byte.toNat = c.toNat ∨ 0x80 ≤ byte.toNat := by
  simp only [String.utf8EncodeChar] at h
  split_ifs at h with h1
  · rw [List.mem_singleton.mp h, UInt8.toNat_ofNat_of_lt' (Nat.lt_of_le_of_lt h1 (by decide))]
    exact .inl rfl
  all_goals
    right
    simp only [List.mem_cons, List.not_mem_nil, or_false] at h
    rcases h with rfl | rfl | rfl | rfl <;> rw [UInt8.toNat_ofNat'] <;> omega

theorem length_escape_le (c : Char) : (raw.escape c).length ≤ 6 := by
  change (rawEscape c).length ≤ 6
  unfold rawEscape
  split
  · rename_i e he
    unfold shortEscape at he
    split_ifs at he <;> cases he <;> decide
  · split
    · rename_i hc
      rw [unicodeEscape, if_pos (Nat.lt_trans hc (by decide))]
      simp [hex4]
    · simp

theorem length_printString_le (s : String) :
    (printString raw s).length ≤ 6 * s.toList.length + 2 := by
  have hle : ∀ l : List Char, (l.flatMap raw.escape).length ≤ 6 * l.length := by
    intro l
    induction l with
    | nil => simp
    | cons c l ih =>
      have := length_escape_le c
      simp only [List.flatMap_cons, List.length_append, List.length_cons]
      omega
  have := hle s.toList
  simp only [printString, List.length_cons, List.length_append, List.length_nil]
  omega

theorem length_utf8_le (l : List Char) :
    (l.flatMap String.utf8EncodeChar).length ≤ 4 * l.length := by
  induction l with
  | nil => simp
  | cons c l ih =>
    have := c.utf8Size_le_four
    simp only [List.flatMap_cons, List.length_append, String.length_utf8EncodeChar,
      List.length_cons]
    omega

/-- A JSON text that is not too long stands on a line. -/
theorem isLine_to_string {v : Value} (h : 4 * (print compact raw 0 v).length < 65536) :
    isLine (utf8.encode (to_string v)) = true := by
  have hrange : ∀ byte ∈ utf8.encode (to_string v), 0x20 ≤ byte.toNat := by
    intro byte hbyte
    rw [encode_to_string, List.mem_flatMap] at hbyte
    obtain ⟨c, hc, hbyte⟩ := hbyte
    have hchar := print_compact_chars raw (fun x => 0x20 ≤ x.toNat) rawEscape_range
      (fun _ h => h.1) 0 v c hc
    rcases toNat_of_mem_utf8 hbyte with hsame | hhigh
    · rwa [hsame]
    · omega
  have hlen := length_utf8_le (print compact raw 0 v)
  rw [← encode_to_string] at hlen
  simp only [isLine, Bool.and_eq_true, List.all_eq_true, decide_eq_true_eq]
  refine ⟨⟨fun byte hbyte hnewline => ?_, fun hlast => ?_⟩, by omega⟩
  · exact absurd (hrange byte hbyte) (by rw [hnewline]; decide)
  · exact absurd (hrange _ (List.mem_of_getLast? hlast)) (by decide)

theorem isLine_requestJson {operation nonce : String}
    (h : operation.toList.length + nonce.toList.length ≤ 100) :
    isLine (utf8.encode (requestJson operation nonce)) = true := by
  apply isLine_to_string
  have hoperation := length_printString_le operation
  have hnonce := length_printString_le nonce
  have hfixed : ∀ s ∈ ["request_id", "request-1", "session_id", "session-1", "operation",
      "payload_hash", "nonce", "issued_at", "2026-01-01T00:00:00Z", "metadata",
      "sha256:74234e98afe7498fb5daf1f36ac2d78acc339464f950703b8c019892f982b90b"],
      (printString raw s).length ≤ 428 := by
    intro s hs
    refine (length_printString_le s).trans ?_
    revert s
    decide
  simp only [List.forall_mem_cons] at hfixed
  simp [print, printFields]
  omega

/-- The two requests pass the gates one after the other. -/
theorem requests_pass :
    firstWorld.broker.gate (request .Shutdown "nonce-1" []) calm.gate_clock = .pass ∧
      (firstWorld.record_nonce calm (request .Shutdown "nonce-1" []).nonceText).2.broker.gate
        (request .Health "nonce-2" []) calm.gate_clock = .pass := by
  decide +kernel

theorem parses_shutdown : from_json_str .ascii (requestJson "shutdown" "nonce-1") =
    some (request .Shutdown "nonce-1" []) := by
  simp only [from_json_str, requestJson, parse_to_string]
  rfl

theorem parses_health : from_json_str .ascii (requestJson "health" "nonce-2") =
    some (request .Health "nonce-2" []) := by
  simp only [from_json_str, requestJson, parse_to_string]
  rfl

/-- The flag and the log do not count for the gates. -/
theorem gate_flag (broker : Broker crates) (shutdown_requested : Bool)
    (audit_log : BrokerAuditLog crates.sha256) (envelope : BrokerRequestEnvelope) (now : I64) :
    Broker.gate { broker with shutdown_requested, audit_log } envelope now =
      broker.gate envelope now := rfl

/-- Without failures a shutdown is accepted, and then the flag is set and the log is longer. -/
theorem accept_shutdown.ok {outside : Outside} {w : World crates} {c : Contents crates}
    (h : w.Serves c) (hloads : c.Loads) (hquiet : outside.faults = noFaults)
    (request_id payload_hash : String) :
    (w.accept_shutdown outside request_id payload_hash).1.operation =
        BrokerOperation.Shutdown.as_str ∧
      (w.accept_shutdown outside request_id payload_hash).1.status = .Accepted ∧
      (∃ audit_log, (w.accept_shutdown outside request_id payload_hash).2.broker =
        { w.broker with shutdown_requested := true, audit_log }) ∧
      ∃ c', (w.accept_shutdown outside request_id payload_hash).2.Serves c' ∧ c'.Loads := by
  have hflagged := World.Serves.flagged h .Shutdown
  obtain ⟨event, hresponse, hbroker, hserves⟩ := World.Serves.audited_ok hflagged hquiet
    { request_id, operation := BrokerOperation.Shutdown.as_str, decision := "accepted",
      reason := "shutdown requested", evidence_source := EVIDENCE_SOURCE_LIVE_RUNTIME,
      payload_hash }
    fun _ audit_event =>
      { request_id
        operation := BrokerOperation.Shutdown.as_str
        status := .Accepted
        evidence_source := EVIDENCE_SOURCE_LIVE_RUNTIME
        audit_event_id := audit_event.event_id
        error := none
        health := none
        body := none
        shutdown_requested := true }
  refine ⟨?_, ?_, ⟨_, hbroker⟩, _, hserves, hloads⟩
  · exact congrArg BrokerResponse.operation hresponse
  · exact congrArg BrokerResponse.status hresponse

theorem accept_health.ok {outside : Outside} {w : World crates} {c : Contents crates}
    (h : w.Serves c) (hquiet : outside.faults = noFaults) (request_id payload_hash : String) :
    (w.accept_health outside request_id payload_hash).1.status = .Accepted := by
  obtain ⟨event, hresponse, _⟩ := World.Serves.audited_ok h hquiet
    { request_id, operation := BrokerOperation.Health.as_str, decision := "accepted",
      reason := "health status returned", evidence_source := EVIDENCE_SOURCE_LIVE_RUNTIME,
      payload_hash }
    fun broker audit_event =>
      { request_id
        operation := BrokerOperation.Health.as_str
        status := .Accepted
        evidence_source := EVIDENCE_SOURCE_LIVE_RUNTIME
        audit_event_id := audit_event.event_id
        error := none
        health := some (broker.health EVIDENCE_SOURCE_LIVE_RUNTIME)
        body := none
        shutdown_requested := false }
  exact congrArg BrokerResponse.status hresponse

/-- A connection with a request that reaches its operation is answered by the operation. -/
theorem handle_stream_of_dispatches (utf8_error : Bytes → String) {w : World crates}
    {c : Contents crates} (h : w.Serves c) (hloads : c.Loads) {request_json : String}
    {envelope : BrokerRequestEnvelope} {operation : BrokerOperation}
    (hline : isLine (utf8.encode request_json) = true)
    (hparse : from_json_str crates request_json = some envelope)
    (hgate : w.broker.gate envelope calm.gate_clock = .pass)
    (hclaims : metadata_attempts_authority crates envelope.metadata = false)
    (hnonce : ¬ IsBlank envelope.nonceText) (hop : envelope.operation = some operation)
    (write : Except String Unit) :
    handle_stream utf8_error "secret" 65536 w (sends request_json write) =
        (sends request_json write).answer
          ((w.record_nonce calm envelope.nonceText).2.dispatch calm operation
            envelope).1.shutdown_requested
          ((w.record_nonce calm envelope.nonceText).2.dispatch calm operation envelope) ∧
      ∃ c', (w.record_nonce calm envelope.nonceText).2.Serves c' ∧ c'.Loads := by
  obtain ⟨hhandle, hserves⟩ := World.Serves.handle_dispatches calm h hloads rfl hgate
    hclaims hnonce hop
  have hjson : w.handle_json (sends request_json write).outside request_json =
      (w.record_nonce calm envelope.nonceText).2.dispatch calm operation envelope := by
    rw [World.handle_json, World.handleJsonWith, hparse]
    exact hhandle
  rw [handle_stream_of_request (request_sends hline write), hjson]
  exact ⟨rfl, hserves⟩

/-- Without failures a shutdown that passes the gates is accepted and sets the flag. -/
theorem handle_stream_shutdown (utf8_error : Bytes → String) {w : World crates}
    {c : Contents crates} (h : w.Serves c) (hloads : c.Loads) {request_json : String}
    {envelope : BrokerRequestEnvelope} (hline : isLine (utf8.encode request_json) = true)
    (hparse : from_json_str crates request_json = some envelope)
    (hgate : w.broker.gate envelope calm.gate_clock = .pass)
    (hclaims : metadata_attempts_authority crates envelope.metadata = false)
    (hnonce : ¬ IsBlank envelope.nonceText) (hop : envelope.operation = some .Shutdown)
    (write : Except String Unit) :
    ∃ called : BrokerResponse × World crates,
      handle_stream utf8_error "secret" 65536 w (sends request_json write) =
        (sends request_json write).answer called.1.shutdown_requested called ∧
      called.1.operation = BrokerOperation.Shutdown.as_str ∧ called.1.status = .Accepted ∧
      (∃ audit_log, called.2.broker =
        { (w.record_nonce calm envelope.nonceText).2.broker with
          shutdown_requested := true, audit_log }) ∧
      ∃ c', called.2.Serves c' ∧ c'.Loads := by
  obtain ⟨hexchange, c', hserves, hloads'⟩ :=
    handle_stream_of_dispatches utf8_error h hloads hline hparse hgate hclaims hnonce hop write
  exact ⟨_, hexchange, accept_shutdown.ok hserves hloads' rfl envelope.requestId
    envelope.payloadHash⟩

theorem handle_stream_health (utf8_error : Bytes → String) {w : World crates}
    {c : Contents crates} (h : w.Serves c) (hloads : c.Loads) {request_json : String}
    {envelope : BrokerRequestEnvelope} (hline : isLine (utf8.encode request_json) = true)
    (hparse : from_json_str crates request_json = some envelope)
    (hgate : w.broker.gate envelope calm.gate_clock = .pass)
    (hclaims : metadata_attempts_authority crates envelope.metadata = false)
    (hnonce : ¬ IsBlank envelope.nonceText) (hop : envelope.operation = some .Health)
    (write : Except String Unit) :
    ∃ called : BrokerResponse × World crates,
      handle_stream utf8_error "secret" 65536 w (sends request_json write) =
        (sends request_json write).answer called.1.shutdown_requested called ∧
      called.1.status = .Accepted := by
  obtain ⟨hexchange, c', hserves, _⟩ :=
    handle_stream_of_dispatches utf8_error h hloads hline hparse hgate hclaims hnonce hop write
  exact ⟨_, hexchange, accept_health.ok hserves rfl envelope.requestId envelope.payloadHash⟩

/-- The write of the response to a shutdown fails, and the next request is accepted. -/
theorem accepts_after_lost_shutdown :
    ¬ StopsAtShutdown (fun _ => "") "secret" 65536
      (run_loopback_server (fun _ => "") "secret" 65536 firstWorld
        (shutdownThenHealth (.error "Broken pipe (os error 32)"))) := by
  rintro ⟨hstops, _⟩
  obtain ⟨c, hserves, hloads, _⟩ := firstWorld_serves
  obtain ⟨shut, hfirst, hname, haccepted, ⟨audit_log, hbroker⟩, c₂, hserves₂, hloads₂⟩ :=
    handle_stream_shutdown (fun _ => "") hserves hloads (isLine_requestJson (by decide))
      parses_shutdown requests_pass.1 (by decide) (by decide) rfl
      (.error "Broken pipe (os error 32)")
  have hgate : shut.2.broker.gate (request .Health "nonce-2" []) calm.gate_clock = .pass := by
    rw [hbroker, gate_flag]
    exact requests_pass.2
  obtain ⟨answered, hsecond, hhealth⟩ :=
    handle_stream_health (fun _ => "") hserves₂ hloads₂ (isLine_requestJson (by decide))
      parses_health hgate (by decide) (by decide) rfl (.ok ())
  rw [shutdownThenHealth, run_loopback_server, hfirst] at hstops
  have hlost : (sends (requestJson "shutdown" "nonce-1")
      (.error "Broken pipe (os error 32)")).write = .error "Broken pipe (os error 32)" := rfl
  dsimp only [Connection.answer, Connection.write_response, Except.mapError, Except.map] at hstops
  rw [hlost] at hstops
  dsimp only at hstops
  rw [run_loopback_server] at hstops
  have hlater := List.rel_of_pairwise_cons hstops List.mem_cons_self ⟨shut.1, rfl, hname, haccepted⟩
  refine hlater.2 ⟨answered.1, ?_, hhealth⟩
  exact congrArg Exchange.response hsecond

end ipc_server
