-- The requests of the Dart client (broker_client.dart): the endpoint that it reads, the
-- envelope that it sends, and the response that it makes out of what comes back.
import GuiShell.Calendar
import GuiShell.Desktop.BrokerClient
import GuiShell.Dict

open json

namespace broker_client

/-! ## Decoding -/

mutual
/-- The value that a JSON value is decoded to. Of two fields with one key the later one stays, in
the place of the first one. -/
def decoded : Value → Value
  | .array items => .array (decodedItems items)
  | .object fields => .object (dict.ofItems (decodedFields fields))
  | value => value
def decodedItems : List Value → List Value
  | [] => []
  | value :: items => decoded value :: decodedItems items
def decodedFields : List (String × Value) → List (String × Value)
  | [] => []
  | (key, value) :: fields => (key, decoded value) :: decodedFields fields
end

/-- `jsonDecode`. A number stays as the text has it. -/
def jsonDecode (text : String) : Option Value := (parse text).map decoded

/-- `json[key] as String? ?? default`, none when the cast fails. -/
def stringOr (fields : List (String × Value)) (key default : String) : Option String :=
  match (sorted_map.get key fields).getD .null with
  | .null => some default
  | .string s => some s
  | _ => none

/-- `json[key] as int? ?? default`. An integer beyond 64 bits is decoded to a double. -/
def intOr (fields : List (String × Value)) (key : String) (default : Int) : Option Int :=
  match (sorted_map.get key fields).getD .null with
  | .null => some default
  | .number (.int i) =>
    if -9223372036854775808 ≤ i ∧ i < 9223372036854775808 then some i else none
  | _ => none

/-! ## The endpoint -/

structure BrokerEndpoint where
  host : String
  port : Int
  sessionId : String
  sessionSecret : String
  transport : String
  maxRequestBytes : Int
  deriving DecidableEq

def BrokerEndpoint.fromJson (fields : List (String × Value)) : Option BrokerEndpoint := do
  let host ← stringOr fields "host" "127.0.0.1"
  let port ← intOr fields "port" 0
  let sessionId ← stringOr fields "session_id" ""
  let sessionSecret ← stringOr fields "session_secret" ""
  let transport ← stringOr fields "transport" "authenticated_loopback_tcp"
  let maxRequestBytes ← intOr fields "max_request_bytes" 0
  some { host, port, sessionId, sessionSecret, transport, maxRequestBytes }

/-- The client of an endpoint file, none when `connect` throws. -/
def connect (file : String) : Option BrokerEndpoint :=
  match jsonDecode file with
  | some (.object fields) => BrokerEndpoint.fromJson fields
  | _ => none

/-! ## The request -/

/-- `DateTime` in UTC, without the fraction of its second. -/
structure DateTime where
  date : calendar.Date
  hour : Nat
  minute : Nat
  second : Nat
  hour_le : hour ≤ 23
  minute_le : minute ≤ 59
  second_le : second ≤ 59

/-- `value.toString().padLeft(width, '0')`. -/
def padLeft (value width : Nat) : String :=
  let digits := Nat.toDigits 10 value
  .ofList (List.replicate (width - digits.length) '0' ++ digits)

def rfc3339Seconds (value : DateTime) : String :=
  padLeft value.date.year 4 ++ "-" ++ padLeft value.date.month 2 ++ "-" ++
    padLeft value.date.day 2 ++ "T" ++ padLeft value.hour 2 ++ ":" ++
    padLeft value.minute 2 ++ ":" ++ padLeft value.second 2 ++ "Z"

/-- What a request takes from outside: the counter after its increment, and two readings of the
clock. -/
structure Moment where
  counter : Nat
  issued : DateTime
  microsecondsSinceEpoch : Int

def requestId (moment : Moment) : String := "flutter-request-" ++ Nat.repr moment.counter

def nonce (moment : Moment) : String :=
  "flutter-nonce-" ++ .ofList (intText moment.microsecondsSinceEpoch) ++ "-" ++
    Nat.repr moment.counter

def request (endpoint : BrokerEndpoint) (moment : Moment) (operation : String)
    (payload : Option (List (String × Value))) : Value := .object ([
  ("request_id", .string (requestId moment)),
  ("session_id", if operation = "health" then .null else .string endpoint.sessionId),
  ("operation", .string operation),
  ("payload_hash", .string (payloadHash (payload.map .object))),
  ("nonce", .string (nonce moment)),
  ("issued_at", .string (rfc3339Seconds moment.issued)),
  ("metadata", .object [("client", .string "desktop_flutter")])] ++
    match payload with
    | some fields => [("payload", .object fields)]
    | none => [])

/-- The bytes that are written to the socket. -/
def written (endpoint : BrokerEndpoint) (request : Value) : Bytes :=
  utf8.encode (endpoint.sessionSecret ++ "\n") ++ utf8.encode (jsonEncode request ++ "\n")

/-! ## The response -/

/-- Why there is no response: the text of a `BrokerClientException`, or another exception. -/
inductive RequestError where
  | broker (message : String)
  | format
  deriving DecidableEq

/-- The characters that `trim` takes off. -/
def isTrimmed (c : Char) : Bool :=
  (9 ≤ c.toNat && c.toNat ≤ 13) || (8192 ≤ c.toNat && c.toNat ≤ 8202) ||
    [32, 133, 160, 5760, 8232, 8233, 8239, 8287, 12288, 65279].contains c.toNat

def trim (chars : List Char) : List Char :=
  ((chars.dropWhile isTrimmed).reverse.dropWhile isTrimmed).reverse

/-- `utf8.decoder`, which takes a byte order mark off. -/
def decodeUtf8 (raw : Bytes) : Option (List Char) :=
  (utf8.decode raw).map fun text =>
    match text.toList with
    | '\uFEFF' :: rest => rest
    | chars => chars

/-- What `request` returns when the socket gives `raw` up to its end. -/
def readResponse (raw : Bytes) : Except RequestError (List (String × Value)) :=
  match decodeUtf8 raw with
  | none => .error .format
  | some chars =>
    match (((trim chars).splitOn '\n').filter (· ≠ [])).getLast? with
    | none => .error (.broker "broker 応答が空です")
    | some line =>
      match jsonDecode (.ofList line) with
      | some (.object fields) => .ok fields
      | some _ => .error (.broker "broker 応答が object ではありません")
      | none => .error .format

end broker_client
