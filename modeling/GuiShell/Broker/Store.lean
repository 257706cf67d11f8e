-- The durable store of the broker (broker/store.rs): opening a directory, appending an
-- audit event under its anchor, and recording a replay nonce.
import GuiShell.Broker.StoreRecords
import Mathlib.Data.List.Sort

open json audit_hash broker_audit serde_json files json_lines

namespace store

variable (crates : Crates) (faults : Faults StoreFile)

abbrev StoreM := FileM StoreFile BrokerStoreError

def atomic_write (path : StoreFile) (chars : List Char) : FileM StoreFile String Unit := do
  write faults path.temporary_path chars
  rename faults path.temporary_path path

def ensure_file_exists (path : StoreFile) : StoreM Unit :=
  mapError (fun error => .Io ("broker store file " ++ path.name ++ "の初期化に失敗: " ++ error))
    (ensure faults path)

/-- `random` is what `getrandom` gives. -/
def load_or_create_anchor_key (random : Except String { key : Bytes // key.length = 32 }) :
    StoreM Bytes := do
  if ← fileExists .audit_anchor_key then
    let raw ← mapError (fun error =>
      .MalformedAuditState ("broker audit anchor keyの読取りに失敗: " ++ error))
      (readToString faults .audit_anchor_key)
    match hex.readDigits (trim raw) with
    | some key => return key
    | none => throw (.MalformedAuditState
        ("broker audit anchor keyがmalformed: " ++ crates.hex_error (trim raw)))
  else
    let key ← mapError (fun error => .Io ("broker audit anchor keyの生成に失敗: " ++ error))
      (outcome random)
    mapError (fun error => .Io ("broker audit anchor keyの作成に失敗: " ++ error))
      (create faults .audit_anchor_key)
    mapError (fun error => .Io ("broker audit anchor keyの書込みに失敗: " ++ error))
      (write faults .audit_anchor_key (hex.digits key.val))
    mapError (fun error => .Io ("broker audit anchor keyのsyncに失敗: " ++ error))
      (attempt faults .sync .audit_anchor_key)
    return key.val

/-! ## The audit log and its anchor -/

/-- The events of the audit file, line by line. -/
def readEvents (content : Content) : Except BrokerStoreError (List BrokerAuditEvent) :=
  foldLines eventCodec
    (fun line => .MalformedAuditState
      ("broker audit eventのline " ++ Nat.repr line ++ "の読取りに失敗: " ++ notUtf8))
    (fun line text => .MalformedAuditState ("broker audit eventのline " ++ Nat.repr line ++
      "がmalformed: " ++ crates.json_error "BrokerAuditEvent" text))
    (fun _ events event => .ok (events ++ [event])) 1 [] (lines content)

/-- The log of the audit file. -/
def auditLogOf (content : Content) : Except BrokerStoreError (BrokerAuditLog crates.sha256) := do
  let events ← readEvents crates content
  (BrokerAuditLog.from_verified_events crates.sha256 events).mapError .TamperedAuditState

def load_audit_log : StoreM (BrokerAuditLog crates.sha256) := do
  let content ← mapError (fun error => .Io ("broker audit storeのopenに失敗: " ++ error))
    (read faults .audit)
  outcome (auditLogOf crates content)

def anchorInput (event_count : Nat) (head_event_hash : Option String) : String :=
  "version=1|event_count=" ++ Nat.repr event_count ++ "|head_event_hash=" ++ head_event_hash.getD ""

def build_audit_anchor (sha256 : Bytes → Bytes) (store : BrokerPersistentStore)
    (audit_log : BrokerAuditLog sha256) : AuditAnchorRecord :=
  let event_count := audit_log.events.length
  let head_event_hash := audit_log.events.getLast?.map (·.event_hash)
  { version := 1
    event_count
    head_event_hash
    anchor_hmac := hmac_sha256_tagged sha256 store.audit_anchor_key
      (utf8.encode (anchorInput event_count head_event_hash)) }

def anchorText (record : AuditAnchorRecord) : List Char := print pretty raw 0 (anchorValue record)

def verify_audit_anchor (store : BrokerPersistentStore) (audit_log : BrokerAuditLog crates.sha256) :
    StoreM Unit := do
  if ← fileExists .audit_anchor then
    let raw ← mapError (fun error =>
      .MalformedAuditState ("broker audit anchorの読取りに失敗: " ++ error))
      (readToString faults .audit_anchor)
    match (parse (.ofList raw)).bind decodeAnchor with
    | none => throw (.MalformedAuditState
        ("broker audit anchorがmalformed: " ++ crates.json_error "AuditAnchorRecord" raw))
    | some record =>
      if record = build_audit_anchor crates.sha256 store audit_log then return ()
      else throw (.TamperedAuditState "broker audit anchor HMACがaudit headと一致しない")
  else if audit_log.events = [] then return ()
  else throw (.TamperedAuditState "空でないaudit logにbroker audit anchorがない")

def write_audit_anchor (store : BrokerPersistentStore) (audit_log : BrokerAuditLog crates.sha256) :
    StoreM Unit :=
  mapError (fun error => .Io ("broker audit anchorの書込みに失敗: " ++ error))
    (atomic_write faults .audit_anchor (anchorText (build_audit_anchor crates.sha256 store audit_log)))

def append_audit_event (store : BrokerPersistentStore) (event : BrokerAuditEvent) : StoreM Unit := do
  mapError (fun error => .Io ("audit eventの追記に失敗: " ++ error))
    (appendLine faults .audit (eventCodec.line event))
  let anchored_log ← load_audit_log crates faults
  write_audit_anchor crates faults store anchored_log

/-! ## The replay nonces -/

def nonce_is_retained (recorded_at_epoch_seconds now_epoch_seconds : I64) : Bool :=
  now_epoch_seconds.saturating_sub recorded_at_epoch_seconds ≤ REPLAY_NONCE_RETENTION_SECONDS

/-- What the loop does with the record of one line. -/
def keepNonce (now_epoch_seconds : I64) (line : Nat) (nonces : SortedMap String I64)
    (record : ReplayNonceRecord) : Except BrokerStoreError (SortedMap String I64) :=
  if trim record.nonce.toList = [] then
    .error (.MalformedReplayState ("replay nonceのline " ++ Nat.repr line ++ "が空である"))
  else
    let recorded_at := record.recorded_at_epoch_seconds.getD now_epoch_seconds
    if nonce_is_retained recorded_at now_epoch_seconds then
      .ok (nonces.insert record.nonce recorded_at)
    else .ok nonces

/-- The first key with the least time. -/
def oldest_key : List (String × I64) → Option (String × I64)
  | [] => none
  | e :: rest =>
    match oldest_key rest with
    | none => some e
    | some e' => if e.2 ≤ e'.2 then some e else some e'

/-- Removes the oldest nonce while there are too many. -/
def dropOldest : Nat → SortedMap String I64 → SortedMap String I64
  | 0, nonces => nonces
  | fuel + 1, nonces =>
    if MAX_REPLAY_NONCE_RECORDS < nonces.len then
      match oldest_key nonces.entries with
      | some oldest => dropOldest fuel (nonces.remove oldest.1)
      | none => nonces
    else nonces

def replayNoncesOf (content : Content) (now_epoch_seconds : I64) :
    Except BrokerStoreError (SortedMap String I64) := do
  let nonces ← foldLines nonceCodec
    (fun line => .MalformedReplayState
      ("replay nonceのline " ++ Nat.repr line ++ "の読取りに失敗: " ++ notUtf8))
    (fun line text => .MalformedReplayState ("replay nonceのline " ++ Nat.repr line ++
      "がmalformed: " ++ crates.json_error "ReplayNonceRecord" text))
    (keepNonce now_epoch_seconds) 1 .empty (lines content)
  .ok (dropOldest nonces.len nonces)

def load_replay_nonces (now_epoch_seconds : I64) : StoreM (SortedMap String I64) := do
  let content ← mapError (fun error => .Io ("broker replay storeのopenに失敗: " ++ error))
    (read faults .replay)
  outcome (replayNoncesOf crates content now_epoch_seconds)

/-- The order of the compacted file: by time, and by nonce at one time. -/
def recordOrder (left right : String × I64) : Prop :=
  left.2 < right.2 ∨ (left.2 = right.2 ∧ left.1 ≤ right.1)

instance : DecidableRel recordOrder := fun left right =>
  inferInstanceAs (Decidable (left.2 < right.2 ∨ (left.2 = right.2 ∧ left.1 ≤ right.1)))

/-- The records of the compacted file. -/
def compactRecords (nonces : SortedMap String I64) : List ReplayNonceRecord :=
  (nonces.entries.insertionSort recordOrder).map fun e => ⟨e.1, some e.2⟩

def compact_replay_nonces (nonces : SortedMap String I64) : StoreM Unit :=
  mapError (fun error => .Io ("replay nonce storeのcompactに失敗: " ++ error))
    (atomic_write faults .replay (nonceCodec.text (compactRecords nonces)))

def append_replay_nonce (nonce : String) (recorded_at_epoch_seconds : I64) :
    StoreM (SortedMap String I64) := do
  mapError (fun error => .Io ("replay nonceの追記に失敗: " ++ error))
    (appendLine faults .replay (nonceCodec.line ⟨nonce, some recorded_at_epoch_seconds⟩))
  let nonces ← load_replay_nonces crates faults recorded_at_epoch_seconds
  compact_replay_nonces faults nonces
  return nonces

/-! ## The session and the directory -/

def load_existing_session_if_present : StoreM Unit := do
  if ← fileExists .session then
    let raw ← mapError (fun error =>
      .MalformedSessionState ("broker session stateの読取りに失敗: " ++ error))
      (readToString faults .session)
    if trim raw = [] then throw (.MalformedSessionState "broker session stateが空である")
    else
      match (parse (.ofList raw)).bind decodeSession with
      | none => throw (.MalformedSessionState
          ("broker session stateがmalformed: " ++ crates.json_error "SessionRecord" raw))
      | some record =>
        if trim record.session_id.toList = [] ∨ record.state ≠ "active" then
          throw (.MalformedSessionState "broker session stateがinvalidである")
        else return ()
  else return ()

def sessionRecord (session_id : String) : SessionRecord := ⟨session_id, "active", "LIVE_RUNTIME"⟩

def sessionText (session_id : String) : List Char :=
  print pretty raw 0 (sessionValue (sessionRecord session_id))

def write_session (session_id : String) : StoreM Unit :=
  mapError (fun error => .Io ("broker session stateの書込みに失敗: " ++ error))
    (atomic_write faults .session (sessionText session_id))

/-- `now` is the clock, and `random` what `getrandom` gives. -/
def open_or_create (session_id : String) (now : I64)
    (random : Except String { key : Bytes // key.length = 32 }) :
    StoreM (BrokerPersistentStore × BrokerPersistentState crates.sha256) := do
  mapError (fun error => .Io ("broker store directoryの作成に失敗: " ++ error))
    (attempt faults .createDir .root)
  let audit_anchor_key ← load_or_create_anchor_key crates faults random
  let store : BrokerPersistentStore := { audit_anchor_key }
  ensure_file_exists faults .audit
  ensure_file_exists faults .replay
  let audit_log ← load_audit_log crates faults
  verify_audit_anchor crates faults store audit_log
  let seen_nonces ← load_replay_nonces crates faults now
  compact_replay_nonces faults seen_nonces
  load_existing_session_if_present crates faults
  write_session faults session_id
  return (store, { audit_log, seen_nonces })

end store
