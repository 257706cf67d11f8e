-- The files of the broker's durable store (broker/store.rs) and the records in them: audit
-- events and replay nonces on lines, the audit anchor and the session as one record each.
import GuiShell.Broker.Audit
import GuiShell.Broker.Crates
import GuiShell.Broker.Serde
import GuiShell.JsonLines

open json audit_hash broker_audit serde_json files json_lines

/-- An `i64`. -/
structure I64 where
  val : Int
  lower : -9223372036854775808 ≤ val
  upper : val < 9223372036854775808
  deriving DecidableEq

namespace I64

@[ext] theorem ext {a b : I64} (h : a.val = b.val) : a = b := by
  cases a; cases b; cases h; rfl

instance : LE I64 := ⟨fun a b => a.val ≤ b.val⟩

instance : LT I64 := ⟨fun a b => a.val < b.val⟩

instance (a b : I64) : Decidable (a ≤ b) := inferInstanceAs (Decidable (a.val ≤ b.val))

instance (a b : I64) : Decidable (a < b) := inferInstanceAs (Decidable (a.val < b.val))

theorem le_def {a b : I64} : a ≤ b ↔ a.val ≤ b.val := Iff.rfl

theorem lt_def {a b : I64} : a < b ↔ a.val < b.val := Iff.rfl

def saturating_sub (a b : I64) : Int :=
  max (-9223372036854775808) (min 9223372036854775807 (a.val - b.val))

end I64

namespace store

def REPLAY_NONCE_RETENTION_SECONDS : Int := 24 * 60 * 60

def MAX_REPLAY_NONCE_RECORDS : Nat := 100000

inductive BrokerStoreError where
  | Io (message : String)
  | MalformedAuditState (message : String)
  | TamperedAuditState (message : String)
  | MalformedReplayState (message : String)
  | MalformedSessionState (message : String)
  deriving DecidableEq

def BrokerStoreError.message : BrokerStoreError → String
  | .Io message | .MalformedAuditState message | .TamperedAuditState message
  | .MalformedReplayState message | .MalformedSessionState message => message

/-- The directory of the store and what stands in it. -/
inductive StoreFile where
  | root | audit | audit_anchor | audit_anchor_key | audit_anchor_tmp | replay | replay_tmp
  | session | session_tmp
  deriving DecidableEq

/-- `path.with_extension("tmp")` of the files that are written through it. -/
def StoreFile.temporary_path : StoreFile → StoreFile
  | .audit_anchor => .audit_anchor_tmp
  | .replay => .replay_tmp
  | .session => .session_tmp
  | file => file

def StoreFile.name : StoreFile → String
  | .root => ""
  | .audit => "audit.jsonl"
  | .audit_anchor => "audit_anchor.json"
  | .audit_anchor_key => "audit_anchor.key"
  | .audit_anchor_tmp => "audit_anchor.tmp"
  | .replay => "replay_nonces.jsonl"
  | .replay_tmp => "replay_nonces.tmp"
  | .session => "session.json"
  | .session_tmp => "session.tmp"

structure BrokerPersistentStore where
  audit_anchor_key : Bytes
  deriving DecidableEq

structure BrokerPersistentState (sha256 : Bytes → Bytes) where
  audit_log : BrokerAuditLog sha256
  seen_nonces : SortedMap String I64

/-! ## The records -/

structure ReplayNonceRecord where
  nonce : String
  recorded_at_epoch_seconds : Option I64
  deriving DecidableEq

structure SessionRecord where
  session_id : String
  state : String
  evidence_source : String
  deriving DecidableEq

/-- The count is a `usize`. It is a number of events here, with no bound. -/
structure AuditAnchorRecord where
  version : Nat
  event_count : Nat
  head_event_hash : Option String
  anchor_hmac : String
  deriving DecidableEq

def optionString : Option String → Value
  | none => .null
  | some s => .string s

def asOptionI64 : Option Value → Option (Option I64)
  | none | some .null => some none
  | some (.number (.int i)) =>
    if h : -9223372036854775808 ≤ i ∧ i < 9223372036854775808 then some (some ⟨i, h.1, h.2⟩)
    else none
  | _ => none

def eventFields (event : BrokerAuditEvent) : List (String × Value) := [
  ("event_id", .string event.event_id),
  ("request_id", .string event.request_id),
  ("operation", .string event.operation),
  ("decision", .string event.decision),
  ("reason", .string event.reason),
  ("evidence_source", .string event.evidence_source),
  ("payload_hash", .string event.payload_hash),
  ("previous_event_hash", optionString event.previous_event_hash),
  ("event_hash", .string event.event_hash)]

def decodeEvent (v : Value) : Option BrokerAuditEvent :=
  match recordFields ["event_id", "request_id", "operation", "decision", "reason",
    "evidence_source", "payload_hash", "previous_event_hash", "event_hash"] v with
  | some [event_id, request_id, operation, decision, reason, evidence_source, payload_hash,
      previous_event_hash, event_hash] => do
    let event_id ← asString event_id
    let request_id ← asString request_id
    let operation ← asString operation
    let decision ← asString decision
    let reason ← asString reason
    let evidence_source ← asString evidence_source
    let payload_hash ← asString payload_hash
    let previous_event_hash ← asOptionString previous_event_hash
    let event_hash ← asString event_hash
    some { event_id, request_id, operation, decision, reason, evidence_source, payload_hash,
           previous_event_hash, event_hash }
  | _ => none

def eventCodec : Codec BrokerAuditEvent where
  fields := eventFields
  decode := decodeEvent
  decode_fields event := by
    obtain ⟨_, _, _, _, _, _, _, previous, _⟩ := event
    cases previous <;> rfl

def nonceFields (record : ReplayNonceRecord) : List (String × Value) := [
  ("nonce", .string record.nonce),
  ("recorded_at_epoch_seconds", match record.recorded_at_epoch_seconds with
    | none => .null
    | some seconds => .number (.int seconds.val))]

def decodeNonce (v : Value) : Option ReplayNonceRecord :=
  match recordFields ["nonce", "recorded_at_epoch_seconds"] v with
  | some [nonce, recorded_at_epoch_seconds] => do
    let nonce ← asString nonce
    let recorded_at_epoch_seconds ← asOptionI64 recorded_at_epoch_seconds
    some { nonce, recorded_at_epoch_seconds }
  | _ => none

theorem asOptionI64_val (seconds : I64) :
    asOptionI64 (some (.number (.int seconds.val))) = some (some seconds) := by
  rw [asOptionI64, dif_pos ⟨seconds.lower, seconds.upper⟩]

def nonceCodec : Codec ReplayNonceRecord where
  fields := nonceFields
  decode := decodeNonce
  decode_fields record := by
    obtain ⟨nonce, seconds⟩ := record
    cases seconds with
    | none => rfl
    | some seconds =>
      change (asOptionI64 (some (.number (.int seconds.val)))).bind
        (fun s => some (ReplayNonceRecord.mk nonce s)) = _
      rw [asOptionI64_val]
      rfl

def sessionValue (record : SessionRecord) : Value := .object [
  ("session_id", .string record.session_id),
  ("state", .string record.state),
  ("evidence_source", .string record.evidence_source)]

def decodeSession (v : Value) : Option SessionRecord :=
  match recordFields ["session_id", "state", "evidence_source"] v with
  | some [session_id, state, evidence_source] => do
    let session_id ← asString session_id
    let state ← asString state
    let evidence_source ← asString evidence_source
    some { session_id, state, evidence_source }
  | _ => none

def anchorValue (record : AuditAnchorRecord) : Value := .object [
  ("version", .number (.int record.version)),
  ("event_count", .number (.int record.event_count)),
  ("head_event_hash", optionString record.head_event_hash),
  ("anchor_hmac", .string record.anchor_hmac)]

def asCount : Option Value → Option Nat
  | some (.number (.int (.ofNat n))) => some n
  | _ => none

def asU32 : Option Value → Option Nat
  | some (.number (.int (.ofNat n))) => if n < 4294967296 then some n else none
  | _ => none

def decodeAnchor (v : Value) : Option AuditAnchorRecord :=
  match recordFields ["version", "event_count", "head_event_hash", "anchor_hmac"] v with
  | some [version, event_count, head_event_hash, anchor_hmac] => do
    let version ← asU32 version
    let event_count ← asCount event_count
    let head_event_hash ← asOptionString head_event_hash
    let anchor_hmac ← asString anchor_hmac
    some { version, event_count, head_event_hash, anchor_hmac }
  | _ => none

theorem decodeAnchor_anchorValue (record : AuditAnchorRecord) (h : record.version = 1) :
    decodeAnchor (anchorValue record) = some record := by
  obtain ⟨version, count, head, hmac⟩ := record
  obtain rfl : version = 1 := h
  cases head <;> rfl

end store
