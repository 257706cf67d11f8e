-- Which connections are answered and audited (broker/ipc_server.rs). A connection makes one call
-- of the broker, unless a line of it is no UTF-8: then it ends without a call.
import GuiShell.Broker.LineReading

open protocol protocol.World

namespace ipc_server

variable {crates : Crates} (utf8_error : Bytes → String)

/-! ## One event for one connection -/

/-- The connection is opened, and the bytes of its stream arrive without an error in between. -/
structure Arrives (connection : Connection) (bytes : Bytes) : Prop where
  opened : connection.opened = .ok ()
  reader : ∃ chunks, (∀ chunk ∈ chunks, chunk ≠ []) ∧ connection.reader = arriving chunks ∧
    chunks.flatten = bytes

/-- An append of the exchange failed. -/
def AppendFails (w : World crates) (exchange : Exchange crates) : Prop :=
  ∃ e, exchange.world.history = w.history ++ [.error e]

/-- There is a response, and the log has one event more. -/
def AnsweredOnce (w : World crates) (exchange : Exchange crates) : Prop :=
  (∃ response, exchange.response = some response) ∧
    ∃ event, exchange.world.broker.audit_log.events = w.broker.audit_log.events ++ [event]

/-- The lines that are read are UTF-8, and the request does not end at the exit of `handle` that
appends nothing. -/
structure Auditable (session_secret : String) (max_request_bytes : Nat) (w : World crates)
    (outside : Outside) (bytes : Bytes) : Prop where
  auth_line : ∀ line rest, lineOf AUTH_LINE_MAX_BYTES bytes = (.ok (some line), rest) →
    ∃ text, utf8.decode (trimEnd line) = some text
  request_line : ∀ line rest line' rest',
    lineOf AUTH_LINE_MAX_BYTES bytes = (.ok (some line), rest) →
    utf8.decode (trimEnd line) = some session_secret →
    lineOf max_request_bytes rest = (.ok (some line'), rest') →
    ∃ request, utf8.decode (trimEnd line') = some request ∧
      ¬ w.Unaudited outside (.handle_json request)

/-- A call that ends at that exit leaves the log as it was. -/
theorem audit_log_of_unaudited {outside : Outside} {w : World crates} {c : Call}
    (h : w.Unaudited outside c) :
    (w.call outside c).2.broker.audit_log = w.broker.audit_log := by
  generalize hr : w.call outside c = r
  have hcourse := call.course outside w c
  rw [hr] at hcourse
  cases hcourse with
  | @unaudited envelope _ _ _ _ _ => rw [(record_nonce.spec outside w envelope.nonceText).2]
  | audited hstage _ => exact absurd h (stage_not_unaudited hstage)

/-- The exchange of a call is answered once when the call does not end at that exit. -/
theorem answeredOnce_call_iff {w : World crates} {connection : Connection} (shutdown : Bool)
    {c : Call} (h : ¬ AppendFails w (connection.answer shutdown (w.call connection.outside c))) :
    AnsweredOnce w (connection.answer shutdown (w.call connection.outside c)) ↔
      ¬ w.Unaudited connection.outside c := by
  constructor
  · rintro ⟨-, event, hevents⟩ hunaudited
    have hlog : (connection.answer shutdown (w.call connection.outside c)).world.broker.audit_log =
        w.broker.audit_log := audit_log_of_unaudited hunaudited
    rw [hlog] at hevents
    exact absurd (List.self_eq_append_right.mp hevents) (List.cons_ne_nil _ _)
  · intro hunaudited
    obtain ⟨event, hevents, -⟩ := (one_event_for_each_response_iff h).mpr hunaudited
    exact ⟨⟨_, rfl⟩, event, hevents⟩

theorem not_unaudited_reject_ipc {outside : Outside} {w : World crates} {code message : String}
    {recoverable : Bool} : ¬ w.Unaudited outside (.reject_ipc code message recoverable) := by
  rintro ⟨envelope, hadmitted, -⟩
  simp [admitted, Call.envelope] at hadmitted

theorem answeredOnce_reject {w : World crates} {connection : Connection} {code message : String}
    (h : ¬ AppendFails w
      (connection.answer false (w.reject_ipc connection.outside code message true))) :
    AnsweredOnce w
      (connection.answer false (w.reject_ipc connection.outside code message true)) :=
  (@answeredOnce_call_iff crates w connection false (.reject_ipc code message true) h).mpr
    not_unaudited_reject_ipc

/-! ## The exchange of a stream -/

/-- A line that is not read as an error is UTF-8. -/
theorem decodes_of_textOf {result : Except IpcLineError (Option Bytes)} {line : Bytes}
    (hline : result = .ok (some line))
    (h : ∀ message, textOf utf8_error result ≠ .error (.Io message)) :
    ∃ text, utf8.decode (trimEnd line) = some text ∧ textOf utf8_error result = .ok (some text) := by
  subst hline
  unfold textOf at h ⊢
  dsimp only at h ⊢
  rcases hdecode : utf8.decode (trimEnd line) with _ | text
  · rw [hdecode] at h
    exact absurd rfl (h _)
  · exact ⟨text, rfl, rfl⟩

/-- A line that is read is there and is UTF-8. -/
theorem textOf_ok {result : Except IpcLineError (Option Bytes)} {text : String}
    (h : textOf utf8_error result = .ok (some text)) :
    ∃ line, result = .ok (some line) ∧ utf8.decode (trimEnd line) = some text := by
  unfold textOf at h
  split at h
  · cases h
  · cases h
  · rename_i line
    split at h
    · rename_i text' hdecode
      rw [Except.ok.injEq, Option.some.injEq] at h
      exact ⟨line, rfl, by rw [hdecode, h]⟩
    · cases h

/-- A line that fails as no UTF-8 was there. -/
theorem textOf_io {result : Except IpcLineError (Option Bytes)} {message : String}
    (h : textOf utf8_error result = .error (.Io message))
    (hresult : ∀ message, result ≠ .error (.Io message)) :
    ∃ line, result = .ok (some line) ∧ utf8.decode (trimEnd line) = none := by
  unfold textOf at h
  split at h
  · rename_i error
    rw [Except.error.injEq] at h
    exact absurd (by rw [h]) (hresult message)
  · cases h
  · rename_i line
    split at h
    · cases h
    · rename_i hdecode
      exact ⟨line, rfl, hdecode⟩

theorem lineOf_ne_io (max_bytes : Nat) (bytes : Bytes) (message : String) :
    (lineOf max_bytes bytes).1 ≠ .error (.Io message) := by
  unfold lineOf
  split
  · simp
  · dsimp only
    split
    · simp
    · simp

section exchange

variable {session_secret : String} {max_request_bytes : Nat} {w : World crates}
  {connection : Connection} {bytes : Bytes}

/-- Without the secret there is no request line to be UTF-8. -/
theorem auditable_of_not_secret {outside : Outside}
    (hio : ∀ message, textOf utf8_error (lineOf AUTH_LINE_MAX_BYTES bytes).1 ≠
      .error (.Io message))
    (hsecret : textOf utf8_error (lineOf AUTH_LINE_MAX_BYTES bytes).1 ≠
      .ok (some session_secret)) :
    Auditable session_secret max_request_bytes w outside bytes := by
  constructor
  · intro line rest hline
    obtain ⟨text, hdecode, -⟩ := decodes_of_textOf utf8_error (congrArg Prod.fst hline) hio
    exact ⟨text, hdecode⟩
  · intro line rest _ _ hline hdecode _
    obtain ⟨text, hdecode', htext⟩ := decodes_of_textOf utf8_error (congrArg Prod.fst hline) hio
    rw [hdecode, Option.some.injEq] at hdecode'
    rw [htext, hdecode'] at hsecret
    exact absurd rfl hsecret

/-- With the secret, what counts is the request line. -/
theorem auditable_iff_of_secret {outside : Outside} {line rest : Bytes}
    (hline : lineOf AUTH_LINE_MAX_BYTES bytes = (.ok (some line), rest))
    (hdecode : utf8.decode (trimEnd line) = some session_secret) :
    Auditable session_secret max_request_bytes w outside bytes ↔
      ∀ line', (lineOf max_request_bytes rest).1 = .ok (some line') →
        ∃ request, utf8.decode (trimEnd line') = some request ∧
          ¬ w.Unaudited outside (.handle_json request) := by
  constructor
  · intro h line' hline'
    exact h.request_line line rest line' _ hline hdecode (Prod.ext hline' rfl)
  · intro h
    constructor
    · intro line₀ rest₀ hline₀
      rw [hline, Prod.mk.injEq, Except.ok.injEq, Option.some.injEq] at hline₀
      exact ⟨session_secret, hline₀.1 ▸ hdecode⟩
    · intro line₀ rest₀ line' rest' hline₀ _ hline'
      rw [hline, Prod.mk.injEq] at hline₀
      rw [← hline₀.2] at hline'
      exact h line' (congrArg Prod.fst hline')

/-- A connection whose appends succeed is answered and audited once, unless a line that it
reads is no UTF-8 or its request ends at the exit of `handle` without an event. -/
theorem connection_audited_iff (h : Arrives connection bytes)
    (happend : ¬ AppendFails w
      (handle_stream utf8_error session_secret max_request_bytes w connection)) :
    AnsweredOnce w (handle_stream utf8_error session_secret max_request_bytes w connection) ↔
      Auditable session_secret max_request_bytes w connection.outside bytes := by
  obtain ⟨hopened, chunks, hchunks, hreader, rfl⟩ := h
  obtain ⟨hauth, hrest⟩ := read_limited_line_arriving utf8_error AUTH_LINE_MAX_BYTES hchunks
  have hnone : ∀ message, ¬ AnsweredOnce w (⟨.error message, none, w⟩ : Exchange crates) := by
    rintro message ⟨⟨_, hresponse⟩, -⟩
    cases hresponse
  unfold handle_stream at happend ⊢
  rw [hopened, hreader] at happend ⊢
  generalize hread : read_limited_line utf8_error (arriving chunks) AUTH_LINE_MAX_BYTES = read
    at happend hauth hrest ⊢
  obtain ⟨auth_line, reader⟩ := read
  rcases auth_line with (message | _) | _ | auth_line
  · obtain ⟨line, hline, hdecode⟩ := textOf_io utf8_error hauth.symm (lineOf_ne_io _ _)
    refine iff_of_false (hnone message) fun haudit => ?_
    obtain ⟨text, htext⟩ := haudit.auth_line line _ (Prod.ext hline rfl)
    rw [hdecode] at htext
    cases htext
  · refine iff_of_true (answeredOnce_reject happend) (auditable_of_not_secret utf8_error ?_ ?_)
    · simp [← hauth]
    · simp [← hauth]
  · refine iff_of_true (answeredOnce_reject happend) (auditable_of_not_secret utf8_error ?_ ?_)
    · simp [← hauth]
    · simp [← hauth]
  · dsimp only at happend ⊢
    by_cases hsecret : auth_line = session_secret
    · subst hsecret
      rw [if_neg (not_not_intro rfl)] at happend ⊢
      obtain ⟨chunks', hchunks', rfl, hflatten⟩ := hrest _ rfl
      obtain ⟨hrequest, -⟩ := read_limited_line_arriving utf8_error max_request_bytes hchunks'
      rw [hflatten] at hrequest
      obtain ⟨line, hline, hdecode⟩ := textOf_ok utf8_error hauth.symm
      rw [auditable_iff_of_secret (Prod.ext hline rfl) hdecode]
      generalize (read_limited_line utf8_error (arriving chunks') max_request_bytes).1 =
        request_line at happend hrequest ⊢
      rcases request_line with (message | _) | _ | request
      · obtain ⟨line', hline', hdecode'⟩ := textOf_io utf8_error hrequest.symm (lineOf_ne_io _ _)
        refine iff_of_false (hnone message) fun haudit => ?_
        obtain ⟨request, hrequest', -⟩ := haudit line' hline'
        rw [hdecode'] at hrequest'
        cases hrequest'
      · refine iff_of_true (answeredOnce_reject happend) fun line' hline' => ?_
        rw [hline', textOf] at hrequest
        split at hrequest <;> cases hrequest
      · refine iff_of_true (answeredOnce_reject happend) fun line' hline' => ?_
        rw [hline', textOf] at hrequest
        split at hrequest <;> cases hrequest
      · obtain ⟨line', hline', hdecode'⟩ := textOf_ok utf8_error hrequest.symm
        have hcall := @answeredOnce_call_iff crates w connection
          (w.handle_json connection.outside request).1.shutdown_requested
          (.handle_json request) happend
        refine hcall.trans ⟨fun hno line₀ hline₀ => ?_, fun hall => ?_⟩
        · rw [hline', Except.ok.injEq, Option.some.injEq] at hline₀
          exact ⟨request, hline₀ ▸ hdecode', hno⟩
        · obtain ⟨request', hrequest', hno⟩ := hall line' hline'
          rw [hdecode', Option.some.injEq] at hrequest'
          exact hrequest' ▸ hno
    · rw [if_pos hsecret] at happend ⊢
      refine iff_of_true (answeredOnce_reject happend) (auditable_of_not_secret utf8_error ?_ ?_)
      · simp [← hauth]
      · simp [← hauth, hsecret]

end exchange

/-! ## Two probes -/

/-- A connection on which some chunks arrive. -/
def delivers (chunks : List Bytes) : Connection where
  set_read_timeout := .ok ()
  set_write_timeout := .ok ()
  try_clone := .ok ()
  reader := arriving chunks
  write := .ok ()
  outside := calm

/-- A broker without files. -/
def memoryWorld : World .ascii := ⟨.new .ascii "session-1", fun _ => none, []⟩

/-- Without files no append fails. -/
theorem not_appendFails_of_memory {w : World crates}
    (h : w.broker.state_store = .in_memory_skeleton) (connection : Connection)
    (code message : String) : ¬ AppendFails w
      (connection.answer false (w.reject_ipc connection.outside code message true)) := by
  rintro ⟨e, he⟩
  change (w.reject connection.outside "ipc-request" "unknown" code message true).2.history =
    w.history ++ [.error e] at he
  rw [reject, reject_with_payload_hash, audited] at he
  split at he
  · rename_i event w' happend
    obtain ⟨-, -, hhistory, -⟩ := append_audit_ok happend
    rw [hhistory] at he
    cases List.append_cancel_left he
  · rename_i e' w' happend
    obtain ⟨-, -, hstore⟩ := append_audit_error happend
    rw [h] at hstore
    cases hstore

theorem handle_stream_of_not_secret {connection : Connection} {session_secret auth_line : String}
    (hopened : connection.opened = .ok ())
    (hauth : (read_limited_line utf8_error connection.reader AUTH_LINE_MAX_BYTES).1 =
      .ok (some auth_line))
    (hsecret : auth_line ≠ session_secret) (max_request_bytes : Nat) (w : World crates) :
    handle_stream utf8_error session_secret max_request_bytes w connection =
      connection.answer false (w.reject_ipc connection.outside "broker_authentication_failed"
        "broker IPC authentication failed" true) := by
  unfold handle_stream
  rw [hopened]
  rcases hread : read_limited_line utf8_error connection.reader AUTH_LINE_MAX_BYTES with
    ⟨line, reader⟩
  rw [hread] at hauth
  dsimp only at hauth ⊢
  rw [hauth]
  exact if_pos hsecret

/-- The line of a client that does not know the secret. -/
def guess : List Bytes := [utf8.encode "gue", utf8.encode "ss\n"]

theorem connection_audited_guess :
    AnsweredOnce memoryWorld (handle_stream (fun _ => "") "secret" 64 memoryWorld
      (delivers guess)) := by
  have hline : textOf (fun _ => "") (lineOf AUTH_LINE_MAX_BYTES guess.flatten).1 =
      .ok (some "guess") := by
    decide +kernel
  have hread : (read_limited_line (fun _ => "") (delivers guess).reader AUTH_LINE_MAX_BYTES).1 =
      .ok (some "guess") := by
    decide +kernel
  have harrives : Arrives (delivers guess) guess.flatten :=
    ⟨rfl, guess, by decide +kernel, rfl, rfl⟩
  refine (connection_audited_iff (fun _ => "") harrives ?_).mpr ?_
  · rw [handle_stream_of_not_secret (fun _ => "") rfl hread (by decide)]
    exact not_appendFails_of_memory rfl _ _ _
  · apply auditable_of_not_secret (fun _ => "")
    · simp [hline]
    · simp [hline]

/-- A byte that no UTF-8 text has, and a newline. -/
def probe : List Bytes := [[UInt8.ofNat 255, newline]]

/-- The probe is neither answered nor audited. -/
theorem not_audited_probe :
    Arrives (delivers probe) probe.flatten ∧
      ¬ AppendFails memoryWorld
        (handle_stream (fun _ => "") "secret" 64 memoryWorld (delivers probe)) ∧
      ¬ AnsweredOnce memoryWorld
        (handle_stream (fun _ => "") "secret" 64 memoryWorld (delivers probe)) := by
  have hhistory : (handle_stream (fun _ => "") "secret" 64 memoryWorld
      (delivers probe)).world.history.length = 0 := by
    decide +kernel
  have hresponse : (handle_stream (fun _ => "") "secret" 64 memoryWorld
      (delivers probe)).response.isNone = true := by
    decide +kernel
  refine ⟨⟨rfl, probe, by decide +kernel, rfl, rfl⟩, ?_, ?_⟩
  · rintro ⟨e, he⟩
    rw [he, List.length_append] at hhistory
    cases hhistory
  · rintro ⟨⟨response, hsome⟩, -⟩
    rw [hsome] at hresponse
    cases hresponse

end ipc_server
