-- A call of the desktop client (broker_client.dart) on the broker (broker/ipc_server.rs), from the
-- endpoint file to the response. However its bytes are cut on the way, the call is the one that
-- the broker makes on the request itself.
import GuiShell.Broker.ConnectionAudit
import GuiShell.Broker.Shutdown
import GuiShell.Desktop.BrokerRequest
import GuiShell.Desktop.Sha256

open json serde_json authority broker_audit files store protocol

namespace ipc_server

/-! ## The endpoint file -/

structure BrokerEndpoint where
  host : String
  port : Nat
  session_id : String
  session_secret : String
  transport : String
  max_request_bytes : Nat
  port_lt : port < 65536
  max_request_bytes_lt : max_request_bytes < 18446744073709551616

def BrokerEndpoint.value (endpoint : BrokerEndpoint) : Value := .object [
  ("host", .string endpoint.host),
  ("port", .number (.int endpoint.port)),
  ("session_id", .string endpoint.session_id),
  ("session_secret", .string endpoint.session_secret),
  ("transport", .string endpoint.transport),
  ("max_request_bytes", .number (.int endpoint.max_request_bytes))]

/-- What `run_loopback_server` has when it serves: the bytes of `random_hex`, the port of its
listener and its limit. -/
structure Started where
  session : { bytes : Bytes // bytes.length = 16 }
  secret : { bytes : Bytes // bytes.length = 32 }
  port : Nat
  max_request_bytes : Nat
  port_lt : port < 65536
  max_request_bytes_lt : max_request_bytes < 18446744073709551616

namespace Started

def session_id (server : Started) : String := "broker-session-" ++ hex.encode server.session.val

def session_secret (server : Started) : String := hex.encode server.secret.val

def endpoint (server : Started) : BrokerEndpoint where
  host := "127.0.0.1"
  port := server.port
  session_id := server.session_id
  session_secret := server.session_secret
  transport := "authenticated_loopback_tcp"
  max_request_bytes := server.max_request_bytes
  port_lt := server.port_lt
  max_request_bytes_lt := server.max_request_bytes_lt

/-- The text that `write_endpoint_file` writes. -/
def endpointFile (server : Started) : String := to_string server.endpoint.value

end Started

/-- The bytes that `write_response` writes. -/
def responseBytes (response : BrokerResponse) : Bytes :=
  utf8.encode response.to_json_string ++ [newline]

end ipc_server

namespace remote_call

open ipc_server

variable {crates : Crates} {utf8_error : Bytes → String}

/-! ## Texts on a line -/

/-- A JSON text has no control bytes. -/
theorem range_to_string {v : Value} {byte : UInt8} (h : byte ∈ utf8.encode (to_string v)) :
    0x20 ≤ byte.toNat := by
  rw [encode_to_string, List.mem_flatMap] at h
  obtain ⟨c, hc, hbyte⟩ := h
  have hchar := print_compact_chars raw (fun x => 0x20 ≤ x.toNat) rawEscape_range
    (fun _ h => h.1) 0 v c hc
  rcases toNat_of_mem_utf8 hbyte with hsame | hhigh
  · rwa [hsame]
  · omega

/-- A digit of a hexadecimal text is one byte. -/
theorem encode_hex_digit : ∀ n < 16, ∃ byte, String.utf8EncodeChar (hex.digit n) = [byte] ∧
    ((48 ≤ byte && byte ≤ 57) || (97 ≤ byte && byte ≤ 102)) = true := by
  intro n hn
  refine ⟨(String.utf8EncodeChar (hex.digit n)).headD 0, ?_⟩
  revert n
  decide

theorem mem_hex {bytes : Bytes} {byte : UInt8} (h : byte ∈ utf8.encode (hex.encode bytes)) :
    ((48 ≤ byte && byte ≤ 57) || (97 ≤ byte && byte ≤ 102)) = true := by
  rw [hex.encode, utf8.encode, String.toList_ofList, List.mem_flatMap] at h
  obtain ⟨c, hc, hbyte⟩ := h
  obtain ⟨n, hn, rfl⟩ := hex.mem_digits hc
  obtain ⟨byte', hencode, hrange⟩ := encode_hex_digit n hn
  rw [hencode, List.mem_singleton] at hbyte
  rw [hbyte]
  exact hrange

theorem length_hex (bytes : Bytes) :
    (utf8.encode (hex.encode bytes)).length = 2 * bytes.length := by
  have hone : ∀ l : List Char, (∀ c ∈ l, ∃ n < 16, c = hex.digit n) →
      (l.flatMap String.utf8EncodeChar).length = l.length := by
    intro l
    induction l with
    | nil => exact fun _ => rfl
    | cons c l ih =>
      intro hl
      obtain ⟨n, hn, rfl⟩ := hl c List.mem_cons_self
      obtain ⟨byte, hencode, _⟩ := encode_hex_digit n hn
      rw [List.flatMap_cons, hencode, List.length_append,
        ih fun c hc => hl c (List.mem_cons_of_mem _ hc)]
      exact Nat.add_comm _ _
  rw [hex.encode, utf8.encode, String.toList_ofList, hone _ fun _ => hex.mem_digits,
    hex.digits_length]

theorem range_hex {bytes : Bytes} {byte : UInt8} (h : byte ∈ utf8.encode (hex.encode bytes)) :
    0x20 ≤ byte.toNat := by
  have hbyte := mem_hex h
  simp only [Bool.or_eq_true, Bool.and_eq_true, decide_eq_true_eq, UInt8.le_iff_toNat_le] at hbyte
  rcases hbyte with hdigit | hletter
  · exact Nat.le_trans (by decide) hdigit.1
  · exact Nat.le_trans (by decide) hletter.1

/-- A byte of a text on a line is neither of the two that end a line. -/
theorem ne_of_range {bytes : Bytes} (h : ∀ byte ∈ bytes, 0x20 ≤ byte.toNat) :
    newline ∉ bytes ∧ bytes.getLast? ≠ some carriageReturn := by
  constructor
  · intro hmem
    exact absurd (h _ hmem) (by decide)
  · intro hlast
    exact absurd (h _ (List.mem_of_getLast? hlast)) (by decide)

/-- A line is trimmed to its text. -/
theorem trimEnd_line {bytes : Bytes} (h : ∀ byte ∈ bytes, 0x20 ≤ byte.toNat) :
    trimEnd (bytes ++ [newline]) = bytes := by
  unfold trimEnd
  rw [List.reverse_concat, List.dropWhile_cons_of_pos (by simp)]
  have hkept : ∀ l : Bytes, (∀ byte ∈ l, 0x20 ≤ byte.toNat) →
      l.dropWhile (fun byte => byte = newline || byte = carriageReturn) = l := by
    intro l hl
    rcases l with _ | ⟨byte, l⟩
    · rfl
    · have hbyte := hl byte List.mem_cons_self
      rw [List.dropWhile_cons_of_neg]
      rw [Bool.or_eq_true, decide_eq_true_eq, decide_eq_true_eq, not_or]
      constructor
      · rintro rfl
        exact absurd hbyte (by decide)
      · rintro rfl
        exact absurd hbyte (by decide)
  rw [hkept _ fun byte hbyte => h byte (List.mem_reverse.mp hbyte), List.reverse_reverse]

/-- The line of a text that fits the limit, and the bytes after it. -/
theorem lineOf_text {text : String} (h : ∀ byte ∈ utf8.encode text, 0x20 ≤ byte.toNat)
    {max_bytes : Nat} (hlen : (utf8.encode text).length + 1 ≤ max_bytes) (rest : Bytes) :
    textOf utf8_error (lineOf max_bytes (utf8.encode (text ++ "\n") ++ rest)).1 =
        .ok (some text) ∧
      (lineOf max_bytes (utf8.encode (text ++ "\n") ++ rest)).2 = rest := by
  have hbytes : utf8.encode (text ++ "\n") ++ rest = utf8.encode text ++ newline :: rest := by
    rw [utf8.encode_append, List.append_assoc]
    rfl
  have hline : lineOf max_bytes (utf8.encode text ++ newline :: rest) =
      (.ok (some (utf8.encode text ++ [newline])), rest) := by
    rw [lineOf_of_line max_bytes (by simp) (firstLine_append_newline (ne_of_range h).1 rest),
      if_neg (by rw [List.length_append]; exact Nat.not_lt.mpr hlen)]
  rw [hbytes, hline]
  dsimp only [textOf]
  rw [trimEnd_line h, utf8.decode_encode]
  exact ⟨rfl, rfl⟩

/-! ## The request on its connection -/

/-- However the bytes of a secret and a request are cut, the server reads the request. -/
theorem request_of_arriving {secret text : String}
    (hsecret : ∀ byte ∈ utf8.encode secret, 0x20 ≤ byte.toNat)
    (hsecret_len : (utf8.encode secret).length + 1 ≤ AUTH_LINE_MAX_BYTES)
    (htext : ∀ byte ∈ utf8.encode text, 0x20 ≤ byte.toNat) {max_request_bytes : Nat}
    (htext_len : (utf8.encode text).length + 1 ≤ max_request_bytes) {chunks : List Bytes}
    (hchunks : ∀ chunk ∈ chunks, chunk ≠ [])
    (hflatten : chunks.flatten = utf8.encode (secret ++ "\n") ++ utf8.encode (text ++ "\n"))
    {connection : Connection} (hopened : connection.opened = .ok ())
    (hreader : connection.reader = arriving chunks) :
    connection.request utf8_error secret max_request_bytes = some text := by
  obtain ⟨hauth, hrest⟩ := read_limited_line_arriving utf8_error AUTH_LINE_MAX_BYTES hchunks
  obtain ⟨hline, hafter⟩ := @lineOf_text utf8_error _ hsecret _ hsecret_len
    (utf8.encode (text ++ "\n"))
  rw [hflatten, hline] at hauth
  obtain ⟨chunks', hchunks', hreader', hflatten'⟩ := hrest _ hauth
  rw [hflatten, hafter] at hflatten'
  obtain ⟨hrequest, _⟩ := read_limited_line_arriving utf8_error max_request_bytes hchunks'
  obtain ⟨hline', _⟩ := @lineOf_text utf8_error _ htext _ htext_len []
  rw [List.append_nil] at hline'
  rw [hflatten', hline'] at hrequest
  rw [Connection.request, hopened, hreader]
  rcases hread : read_limited_line utf8_error (arriving chunks) AUTH_LINE_MAX_BYTES with
    ⟨line, reader⟩
  rw [hread] at hauth hreader'
  dsimp only at hauth hreader' ⊢
  rw [hauth]
  dsimp only
  rw [if_pos rfl, hreader', hrequest]

/-! ## The response on its way back -/

/-- A JSON object stands between its brackets. -/
theorem print_object (fields : List (String × Value)) :
    ∃ inner, print compact raw 0 (.object fields) = '{' :: (inner ++ ['}']) := by
  rcases fields with _ | ⟨⟨k, v⟩, fields⟩
  · exact ⟨[], rfl⟩
  · refine ⟨printString raw k ++
      ':' :: (print compact raw 1 v ++ printFields compact raw 1 fields), ?_⟩
    simp [print]

theorem splitOn_of_notMem {l : List Char} (h : '\n' ∉ l) : l.splitOn '\n' = [l] := by
  rw [List.splitOn, List.splitOnP_eq_singleton]
  intro c hc
  simpa using fun heq : c = '\n' => h (heq ▸ hc)

/-- The client decodes the object that a response line has. -/
theorem readResponse_line (fields : List (String × Value)) :
    broker_client.readResponse (utf8.encode (to_string (.object fields)) ++ [newline]) =
      .ok (dict.ofItems (broker_client.decodedFields fields)) := by
  obtain ⟨inner, hprint⟩ := print_object fields
  have hraw : utf8.encode (to_string (.object fields)) ++ [newline] =
      utf8.encode (.ofList ('{' :: (inner ++ ['}', '\n']))) := by
    have hnewline : [newline] = utf8.encode "\n" := rfl
    rw [to_string, hprint, hnewline, ← utf8.encode_append]
    exact congrArg utf8.encode (String.toList_inj.mp (by simp))
  have hline : broker_client.trim ('{' :: (inner ++ ['}', '\n'])) = '{' :: (inner ++ ['}']) := by
    have hreverse : ('{' :: (inner ++ ['}', '\n'])).reverse =
        '\n' :: '}' :: (inner.reverse ++ ['{']) := by simp
    unfold broker_client.trim
    rw [List.dropWhile_cons_of_neg (by decide), hreverse, List.dropWhile_cons_of_pos (by decide),
      List.dropWhile_cons_of_neg (by decide)]
    simp
  have hone : '\n' ∉ '{' :: (inner ++ ['}']) := hprint ▸ newline_not_mem_print 0 _
  have hdecode : broker_client.decodeUtf8 (utf8.encode (.ofList ('{' :: (inner ++ ['}', '\n'])))) =
      some ('{' :: (inner ++ ['}', '\n'])) := by
    rw [broker_client.decodeUtf8, utf8.decode_encode, Option.map_some, String.toList_ofList]
    rfl
  have hparse : broker_client.jsonDecode (.ofList ('{' :: (inner ++ ['}']))) =
      some (.object (dict.ofItems (broker_client.decodedFields fields))) := by
    rw [← hprint, broker_client.jsonDecode, parse_print]
    rfl
  rw [hraw, broker_client.readResponse, hdecode]
  dsimp only
  rw [hline, splitOn_of_notMem hone, List.filter_cons_of_pos (by simp), List.filter_nil,
    List.getLast?_singleton]
  dsimp only
  rw [hparse]

/-! ## The whole call -/

/-- The endpoint that the client of a server has. -/
def clientEndpoint (server : Started) : broker_client.BrokerEndpoint where
  host := "127.0.0.1"
  port := server.port
  sessionId := server.session_id
  sessionSecret := server.session_secret
  transport := "authenticated_loopback_tcp"
  maxRequestBytes := server.max_request_bytes

/-- The fields of the endpoint file. -/
def endpointFields (server : Started) : List (String × Value) := [
  ("host", .string "127.0.0.1"),
  ("port", .number (.int server.port)),
  ("session_id", .string server.session_id),
  ("session_secret", .string server.session_secret),
  ("transport", .string "authenticated_loopback_tcp"),
  ("max_request_bytes", .number (.int server.max_request_bytes))]

theorem endpointFields_nodup (server : Started) : ((endpointFields server).map Prod.fst).Nodup := by
  show ["host", "port", "session_id", "session_secret", "transport", "max_request_bytes"].Nodup
  decide

theorem jsonDecode_endpointFile (server : Started) :
    broker_client.jsonDecode server.endpointFile = some (.object (endpointFields server)) := by
  have hdecoded : broker_client.decodedFields (endpointFields server) = endpointFields server := rfl
  have hvalue : server.endpoint.value = .object (endpointFields server) := rfl
  rw [broker_client.jsonDecode, Started.endpointFile, parse_to_string, hvalue, Option.map_some,
    broker_client.decoded, hdecoded, dict.ofItems_of_nodup (endpointFields_nodup server)]

theorem stringOr_endpoint {server : Started} {key s : String}
    (h : (key, .string s) ∈ endpointFields server) (default : String) :
    broker_client.stringOr (endpointFields server) key default = some s := by
  rw [broker_client.stringOr, sorted_map.get_of_mem (endpointFields_nodup server) h]
  rfl

theorem intOr_endpoint {server : Started} {key : String} {n : Nat}
    (h : (key, .number (.int n)) ∈ endpointFields server) (hn : n < 9223372036854775808)
    (default : Int) :
    broker_client.intOr (endpointFields server) key default = some (n : Int) := by
  rw [broker_client.intOr, sorted_map.get_of_mem (endpointFields_nodup server) h]
  exact if_pos (by omega)

/-- The client reads the endpoint that the server wrote, when its limit fits an integer of Dart. -/
theorem connect_endpointFile {server : Started}
    (hlimit : server.max_request_bytes < 9223372036854775808) :
    broker_client.connect server.endpointFile = some (clientEndpoint server) := by
  have hport := Nat.lt_trans server.port_lt (show 65536 < 9223372036854775808 by decide)
  have hhost : ("host", .string "127.0.0.1") ∈ endpointFields server := .head _
  have hportField : ("port", .number (.int server.port)) ∈ endpointFields server :=
    .tail _ (.head _)
  have hsession : ("session_id", .string server.session_id) ∈ endpointFields server :=
    .tail _ (.tail _ (.head _))
  have hsecret : ("session_secret", .string server.session_secret) ∈ endpointFields server :=
    .tail _ (.tail _ (.tail _ (.head _)))
  have htransport : ("transport", .string "authenticated_loopback_tcp") ∈ endpointFields server :=
    .tail _ (.tail _ (.tail _ (.tail _ (.head _))))
  have hmax : ("max_request_bytes", .number (.int server.max_request_bytes)) ∈
      endpointFields server := .tail _ (.tail _ (.tail _ (.tail _ (.tail _ (.head _)))))
  rw [broker_client.connect, jsonDecode_endpointFile]
  dsimp only
  rw [broker_client.BrokerEndpoint.fromJson, stringOr_endpoint hhost,
    intOr_endpoint hportField hport, stringOr_endpoint hsession, stringOr_endpoint hsecret,
    stringOr_endpoint htransport, intOr_endpoint hmax hlimit]
  rfl

/-- A connection that carries a request of the client: in whatever chunks, as long as the request
fits the limit of the server. -/
structure Carries (server : Started) (request : Value) (connection : Connection) : Prop where
  opened : connection.opened = .ok ()
  reader : ∃ chunks, (∀ chunk ∈ chunks, chunk ≠ []) ∧ connection.reader = arriving chunks ∧
    chunks.flatten = broker_client.written (clientEndpoint server) request
  fits : (utf8.encode (broker_client.jsonEncode request)).length + 1 ≤ server.max_request_bytes
  write : connection.write = .ok ()

/-- The server makes the call of the request text and writes its response, and the client gets
that response. -/
structure IsLocalCall (utf8_error : Bytes → String) (server : Started) (w : World crates)
    (request : Value) (connection : Connection) : Prop where
  exchange : ∀ called, called =
      w.handle_json connection.outside (broker_client.jsonEncode request) →
    handle_stream utf8_error server.session_secret server.max_request_bytes w connection =
      ⟨.ok called.1.shutdown_requested, some called.1, called.2⟩
  response : ∀ called, called =
      w.handle_json connection.outside (broker_client.jsonEncode request) →
    ∃ fields, broker_client.readResponse (responseBytes called.1) = .ok fields ∧
      .object fields = broker_client.decoded called.1.value

theorem secret_fits (server : Started) :
    (utf8.encode server.session_secret).length + 1 ≤ AUTH_LINE_MAX_BYTES := by
  rw [Started.session_secret, length_hex, server.secret.property]
  decide

/-- The client of the endpoint file calls the broker as if it called it itself. -/
theorem remote_call_is_local_call (server : Started)
    (hlimit : server.max_request_bytes < 9223372036854775808) :
    broker_client.connect server.endpointFile = some (clientEndpoint server) ∧
      ∀ (w : World crates) (connection : Connection) (moment : broker_client.Moment)
        (operation : String) (payload : Option (List (String × Value))),
        Carries server
            (broker_client.request (clientEndpoint server) moment operation payload) connection →
          IsLocalCall utf8_error server w
            (broker_client.request (clientEndpoint server) moment operation payload)
            connection := by
  refine ⟨connect_endpointFile hlimit, ?_⟩
  intro w connection moment operation payload hcarries
  generalize broker_client.request (clientEndpoint server) moment operation payload = request
    at hcarries
  obtain ⟨chunks, hchunks, hreader, hflatten⟩ := hcarries.reader
  have hrequest : connection.request utf8_error server.session_secret server.max_request_bytes =
      some (broker_client.jsonEncode request) :=
    request_of_arriving (fun _ => range_hex) (secret_fits server) (fun _ => range_to_string)
      hcarries.fits hchunks hflatten hcarries.opened hreader
  constructor
  · rintro called rfl
    rw [handle_stream_of_request hrequest, Connection.answer, Connection.write_response,
      hcarries.write]
    rfl
  · rintro called rfl
    exact ⟨_, readResponse_line _, rfl⟩

/-- A server of zeros. -/
def zeroServer : Started where
  session := ⟨List.replicate 16 0, rfl⟩
  secret := ⟨List.replicate 32 0, rfl⟩
  port := 49152
  max_request_bytes := 65536
  port_lt := by decide
  max_request_bytes_lt := by decide

theorem newYear_day : 1 ≤ calendar.monthLength 2026 1 := Nat.le_add_left 1 30

theorem newYear_hour : 0 ≤ 23 := Nat.zero_le 23

theorem newYear_minute : 0 ≤ 59 := Nat.zero_le 59

/-- The beginning of 2026. -/
def newYearMoment : broker_client.Moment where
  counter := 1
  issued := ⟨⟨2026, 1, 1, calendar.Date.first.month_pos, calendar.Date.first.month_le,
    calendar.Date.first.day_pos, newYear_day⟩, 0, 0, 0, newYear_hour, newYear_minute,
    newYear_minute⟩
  microsecondsSinceEpoch := 1767225600000000

/-- A health request of the client. -/
def healthRequest : Value :=
  broker_client.request (clientEndpoint zeroServer) newYearMoment "health" none

theorem length_payloadHash (payload : Option Value) :
    (broker_client.payloadHash payload).toList.length = 71 := by
  have hdigits : ∀ bytes, (hex.encode (fips.digest bytes)).toList.length = 64 := by
    intro bytes
    rw [hex.encode, String.toList_ofList, hex.digits_length, fips.digest_length]
  rw [broker_client.payloadHash, broker_client.sha256Tagged_eq, String.toList_append,
    List.length_append, hdigits]
  decide

/-- The request stands on a line whatever its payload hash is. -/
theorem isLine_healthRequest {hash : String} (h : hash.toList.length = 71) :
    isLine (utf8.encode (to_string (.object [
      ("request_id", .string "flutter-request-1"),
      ("session_id", .null),
      ("operation", .string "health"),
      ("payload_hash", .string hash),
      ("nonce", .string "flutter-nonce-1767225600000000-1"),
      ("issued_at", .string "2026-01-01T00:00:00Z"),
      ("metadata", .object [("client", .string "desktop_flutter")])]))) = true := by
  apply isLine_to_string
  have hhash := length_printString_le hash
  rw [h] at hhash
  have hfixed : ∀ s ∈ ["request_id", "flutter-request-1", "session_id", "operation", "health",
      "payload_hash", "nonce", "flutter-nonce-1767225600000000-1", "issued_at",
      "2026-01-01T00:00:00Z", "metadata", "client", "desktop_flutter"],
      (printString raw s).length ≤ 428 := by
    intro s hs
    refine (length_printString_le s).trans ?_
    revert s
    decide
  simp only [List.forall_mem_cons] at hfixed
  simp [print, printFields]
  omega

theorem health_fits :
    (utf8.encode (broker_client.jsonEncode healthRequest)).length + 1 ≤ 65536 := by
  have hrequest : healthRequest = .object [
      ("request_id", .string "flutter-request-1"),
      ("session_id", .null),
      ("operation", .string "health"),
      ("payload_hash", .string (broker_client.payloadHash none)),
      ("nonce", .string "flutter-nonce-1767225600000000-1"),
      ("issued_at", .string "2026-01-01T00:00:00Z"),
      ("metadata", .object [("client", .string "desktop_flutter")])] := by
    have hid : broker_client.requestId newYearMoment = "flutter-request-1" := by decide
    have hnonce : broker_client.nonce newYearMoment = "flutter-nonce-1767225600000000-1" := by
      decide
    have hissued : broker_client.rfc3339Seconds newYearMoment.issued = "2026-01-01T00:00:00Z" := by
      decide
    rw [healthRequest, broker_client.request, hid, hnonce, hissued, if_pos rfl]
    rfl
  have htext : broker_client.jsonEncode healthRequest = to_string healthRequest := rfl
  have hline := isLine_healthRequest (length_payloadHash none)
  rw [← hrequest, ← htext, isLine, Bool.and_eq_true, decide_eq_true_eq] at hline
  exact hline.2

/-- The request arrives in one chunk. -/
theorem carries_health :
    Carries zeroServer healthRequest
      (delivers [broker_client.written (clientEndpoint zeroServer) healthRequest]) where
  opened := rfl
  reader := by
    refine ⟨[broker_client.written (clientEndpoint zeroServer) healthRequest], ?_, rfl,
      List.flatten_singleton⟩
    intro chunk hchunk
    rw [List.mem_singleton.mp hchunk, broker_client.written, utf8.encode_append]
    simp [utf8.encode]
  fits := health_fits
  write := rfl

theorem health_is_local_call :
    broker_client.connect zeroServer.endpointFile = some (clientEndpoint zeroServer) ∧
      IsLocalCall (fun _ => "") zeroServer memoryWorld healthRequest
        (delivers [broker_client.written (clientEndpoint zeroServer) healthRequest]) := by
  obtain ⟨hconnect, hcall⟩ :=
    @remote_call_is_local_call .ascii (fun _ => "") zeroServer (by decide)
  exact ⟨hconnect, hcall memoryWorld _ newYearMoment "health" none carries_health⟩

end remote_call
