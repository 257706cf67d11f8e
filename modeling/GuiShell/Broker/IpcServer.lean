-- The loopback server of the broker (broker/ipc_server.rs): the lines of a connection, the one
-- call that a connection makes, and the loop that goes through the connections.
import GuiShell.Broker.ResponseSchema
import GuiShell.Broker.Runs

open json serde_json authority broker_audit files store protocol

namespace ipc_server

variable {crates : Crates}

def AUTH_LINE_MAX_BYTES : Nat := 256

/-! ## Lines -/

inductive IpcLineError where
  | Io (message : String)
  | Oversized
  deriving DecidableEq

/-- What the reads of a stream give in turn. An empty chunk is the end of the stream, and so
is the end of the list. -/
abbrev Reader := List (Except String Bytes)

/-- The newline. -/
def newline : UInt8 := UInt8.ofNat 10

def carriageReturn : UInt8 := UInt8.ofNat 13

/-- The bytes that the loop takes of a chunk: up to a newline, or all of them. -/
def takeOf (available : Bytes) : Nat :=
  match available.findIdx? fun byte => byte = newline with
  | some position => position + 1
  | none => available.length

/-- `consume`, with `available` at the front. -/
def consume (take : Nat) (available : Bytes) (reader : Reader) : Reader :=
  if take < available.length then .ok (available.drop take) :: reader else reader

/-- The loop of `read_limited_line`, with what it has in its buffer. The result is the buffer,
or none at the end of the stream with nothing in it. -/
def fillLine (max_bytes : Nat) : Bytes → Reader → Except IpcLineError (Option Bytes) × Reader
  | buffer, [] => (.ok (if buffer = [] then none else some buffer), [])
  | _, .error error :: reader =>
    (.error (.Io ("broker IPC lineの読取りに失敗: " ++ error)), reader)
  | buffer, .ok available :: reader =>
    if available = [] then
      (.ok (if buffer = [] then none else some buffer), .ok available :: reader)
    else
      let take := takeOf available
      let rest := consume take available reader
      if max_bytes < buffer.length + take then (.error .Oversized, rest)
      else
        let buffer := buffer ++ available.take take
        if buffer.getLast? = some newline then (.ok (some buffer), rest)
        -- Without a newline the whole chunk was taken.
        else fillLine max_bytes buffer reader

/-- The line without the newlines and carriage returns at its end. -/
def trimEnd (buffer : Bytes) : Bytes :=
  (buffer.reverse.dropWhile fun byte => byte = newline || byte = carriageReturn).reverse

section lines

-- How the standard library words the error of `String::from_utf8`.
variable (utf8_error : Bytes → String)

def read_limited_line (reader : Reader) (max_bytes : Nat) :
    Except IpcLineError (Option String) × Reader :=
  match fillLine max_bytes [] reader with
  | (.error error, reader) => (.error error, reader)
  | (.ok none, reader) => (.ok none, reader)
  | (.ok (some buffer), reader) =>
    match utf8.decode (trimEnd buffer) with
    | some line => (.ok (some line), reader)
    | none =>
      (.error (.Io ("broker IPC lineがUTF-8ではない: " ++ utf8_error (trimEnd buffer))), reader)

/-- A line that arrives in one chunk and fits is read as it is. -/
theorem read_limited_line_of_line {line : String} (hnewline : newline ∉ utf8.encode line)
    (hend : (utf8.encode line).getLast? ≠ some carriageReturn) {max_bytes : Nat}
    (hlen : (utf8.encode line).length + 1 ≤ max_bytes) (reader : Reader) :
    read_limited_line utf8_error (.ok (utf8.encode line ++ [newline]) :: reader) max_bytes =
      (.ok (some line), reader) := by
  have hfind : (utf8.encode line).findIdx? (fun byte => byte = newline) = none := by
    rw [List.findIdx?_eq_none_iff]
    intro byte hbyte
    exact decide_eq_false fun h => hnewline (h ▸ hbyte)
  have htake : takeOf (utf8.encode line ++ [newline]) = (utf8.encode line ++ [newline]).length := by
    simp [takeOf, List.findIdx?_append, hfind]
  have hfill : fillLine max_bytes [] (.ok (utf8.encode line ++ [newline]) :: reader) =
      (.ok (some (utf8.encode line ++ [newline])), reader) := by
    rw [fillLine, if_neg (by simp), htake]
    dsimp only
    rw [List.take_length, consume, if_neg (Nat.lt_irrefl _), if_neg (by simpa using hlen),
      List.nil_append, List.getLast?_concat, if_pos rfl]
  have htrim : trimEnd (utf8.encode line ++ [newline]) = utf8.encode line := by
    unfold trimEnd
    rw [List.reverse_concat, List.dropWhile_cons_of_pos (by simp)]
    rcases hrev : (utf8.encode line).reverse with _ | ⟨byte, rest⟩
    · rw [List.reverse_eq_nil_iff.mp hrev]
      rfl
    · have hline : utf8.encode line = rest.reverse ++ [byte] := by
        rw [← List.reverse_reverse (utf8.encode line), hrev, List.reverse_cons]
      have hkept : ¬ (decide (byte = newline) || decide (byte = carriageReturn)) = true := by
        rw [hline] at hnewline hend
        simp only [List.mem_append, List.mem_singleton, not_or] at hnewline
        simp only [List.getLast?_concat, ne_eq, Option.some.injEq] at hend
        simpa using ⟨Ne.symm hnewline.2, hend⟩
      rw [List.dropWhile_cons, if_neg hkept, ← hrev, List.reverse_reverse]
  rw [read_limited_line, hfill]
  dsimp only
  rw [htrim, utf8.decode_encode]

/-! ## Connections -/

/-- What a connection meets: its socket options, the reads and the write of its stream, and
the files and clocks of the call that it makes. -/
structure Connection where
  set_read_timeout : Except String Unit
  set_write_timeout : Except String Unit
  try_clone : Except String Unit
  reader : Reader
  write : Except String Unit
  outside : Outside

/-- What becomes of a connection: what `handle_stream` returns, the response that it writes
or fails to write, and the world after it. -/
structure Exchange (crates : Crates) where
  result : Except String Bool
  response : Option BrokerResponse
  world : World crates

/-- The options that `handle_stream` sets and the clone that it reads from. -/
def Connection.opened (connection : Connection) : Except String Unit := do
  connection.set_read_timeout.mapError ("IPC read timeoutの設定に失敗: " ++ ·)
  connection.set_write_timeout.mapError ("IPC write timeoutの設定に失敗: " ++ ·)
  connection.try_clone.mapError ("IPC streamのcloneに失敗: " ++ ·)

/-- The encoding of a response does not fail. -/
def Connection.write_response (connection : Connection) : Except String Unit :=
  connection.write.mapError ("broker responseの書込みに失敗: " ++ ·)

/-- Writes the response of a call, and returns `shutdown` when that succeeds. -/
def Connection.answer (connection : Connection) (shutdown : Bool)
    (called : BrokerResponse × World crates) : Exchange crates where
  result := connection.write_response.map fun () => shutdown
  response := some called.1
  world := called.2

def handle_stream (session_secret : String) (max_request_bytes : Nat) (broker : World crates)
    (stream : Connection) : Exchange crates :=
  let reject (code message : String) : Exchange crates :=
    stream.answer false (broker.reject_ipc stream.outside code message true)
  match stream.opened with
  | .error message => ⟨.error message, none, broker⟩
  | .ok () =>
    let (auth_line, reader) := read_limited_line utf8_error stream.reader AUTH_LINE_MAX_BYTES
    match auth_line with
    | .ok none => reject "broker_ipc_malformed" "broker IPC auth line is missing"
    | .error .Oversized =>
      reject "broker_request_oversized" "broker IPC auth line exceeds the configured request limit"
    | .error (.Io message) => ⟨.error message, none, broker⟩
    | .ok (some auth_line) =>
      if auth_line ≠ session_secret then
        reject "broker_authentication_failed" "broker IPC authentication failed"
      else
        match (read_limited_line utf8_error reader max_request_bytes).1 with
        | .ok none => reject "broker_ipc_malformed" "broker IPC request envelope is missing"
        | .error .Oversized =>
          reject "broker_request_oversized"
            "broker IPC request exceeds the configured request limit"
        | .error (.Io message) => ⟨.error message, none, broker⟩
        | .ok (some request_json) =>
          let called := broker.handle_json stream.outside request_json
          stream.answer called.1.shutdown_requested called

/-! ## The server loop -/

/-- A connection that the loop has served, with the world before it. -/
structure Served (crates : Crates) where
  before : World crates
  connection : Connection
  exchange : Exchange crates

/-- The loop of `run_loopback_server` over what `incoming` gives: a connection, or an error. -/
def run_loopback_server (session_secret : String) (max_request_bytes : Nat) :
    World crates → List (Except String Connection) → List (Served crates)
  | _, [] => []
  | broker, .error _ :: incoming =>
    run_loopback_server session_secret max_request_bytes broker incoming
  | broker, .ok connection :: incoming =>
    let exchange := handle_stream utf8_error session_secret max_request_bytes broker connection
    ⟨broker, connection, exchange⟩ ::
      match exchange.result with
      | .ok true => []
      | .ok false | .error _ =>
        run_loopback_server session_secret max_request_bytes exchange.world incoming

end lines

end ipc_server
