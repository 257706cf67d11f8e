-- The durable audit log of the Python shell (JsonPersistence in persistence.py): a log of lines,
-- and an anchor that is made anew from the log with every event. The check of a log reads both;
-- an append checks the chain of the log only.
import GuiShell.ShellCore.AuditLog

open json files

namespace shell_core.persistence

inductive StoreFile where
  | audit | audit_anchor | audit_anchor_tmp | audit_anchor_key
  deriving DecidableEq

/-- What stops a call: a ValueError with its text, or an error of another type. -/
inductive Raised where
  | value_error (text : String)
  | other (text : String)

abbrev StoreM := FileM StoreFile Raised

/-- What the shell has from the interpreter and from outside. -/
structure Host where
  floats : Floats
  /-- `hashlib.sha256`. -/
  sha256 : Bytes → Bytes
  /-- `str` of a value. -/
  str : Value → String
  /-- `msg` and `str` of a JSONDecodeError. -/
  json_msg : List Char → String
  json_error : List Char → String
  /-- The text of the error of `bytes.fromhex`. -/
  fromhex_error : List Char → String
  /-- What `secrets.token_bytes` gives when the key is made. -/
  token : Bytes

variable (host : Host)

/-- `bytes.fromhex`: spaces may stand between the bytes. -/
def fromhex : List Char → Option Bytes
  | [] => some []
  | [c] => if isAsciiSpace c then some [] else none
  | c :: d :: rest =>
    if isAsciiSpace c then fromhex (d :: rest)
    else do
      let hi ← hex.value c
      let lo ← hex.value d
      let bytes ← fromhex rest
      some (UInt8.ofNat (16 * hi + lo) :: bytes)
where
  isAsciiSpace (c : Char) : Bool := (0x09 ≤ c.toNat && c.toNat ≤ 0x0d) || c = ' '

/-- The record that anchors the events under a key. -/
def anchorRecord (key : Bytes) (events : List Dict) : Dict :=
  let body : Dict := [
    ("version", .number (.int 1)),
    ("event_count", .number (.int events.length)),
    ("head_event_hash", audit_chain.head events)]
  let message := utf8.encode (dumps (.object body))
  body ++ [("anchor_hmac", .string (audit_hash.hmac_sha256_tagged host.sha256 key message))]

/-- `json.dumps(record, sort_keys=True, indent=2)` and a newline. -/
def anchorText (record : Dict) : List Char :=
  print pretty ascii 0 (Value.object record).sortKeys ++ ['\n']

/-- The check of the chain. An id that has no hash raises a TypeError. -/
def checkChain (events : List Dict) : StoreM audit_chain.ChainReport :=
  match audit_chain.verify_audit_chain host.sha256 host.floats host.str events with
  | some report => return report
  | none => throw (.other "unhashable type")

/-! ## Calls that can stop at any file operation -/

namespace failing

variable (faults : Faults StoreFile)

/-- `read_text` of a file that is there. -/
def read_text (path : StoreFile) : StoreM (List Char) := do
  let chars ← mapError Raised.other (readToString faults path)
  return universal_newlines chars

/-- `write_text`, which empties the file first. -/
def write_text (path : StoreFile) (text : List Char) : StoreM Unit := do
  mapError Raised.other (create faults path)
  mapError Raised.other (write faults path text)

def audit_anchor_key : StoreM Bytes := do
  if ← fileExists .audit_anchor_key then
    let text ← read_text faults .audit_anchor_key
    match fromhex (normalization.strip text) with
    | some key => return key
    | none => throw (.value_error (host.fromhex_error (normalization.strip text)))
  else
    write_text faults .audit_anchor_key (hex.digits host.token)
    return host.token

def anchor_record (events : List Dict) : StoreM Dict := do
  let key ← audit_anchor_key host faults
  return anchorRecord host key events

def write_audit_anchor (events : List Dict) : StoreM Unit := do
  let record ← anchor_record host faults events
  write_text faults .audit_anchor_tmp (anchorText record)
  mapError Raised.other (files.rename faults .audit_anchor_tmp .audit_anchor)

def audit_events_report : StoreM (List Dict × List String) := do
  if ← fileExists .audit then
    let chars ← mapError Raised.other (readToString faults .audit)
    return reportOf host.floats host.json_msg chars
  else return ([], [])

def audit_events : StoreM (List Dict) := do
  let (events, errors) ← audit_events_report host faults
  if errors = [] then return events else throw (.value_error ("; ".intercalate errors))

/-- The line is written to the end of the file, which is made if it is not there. -/
def append_line (chained : Dict) : StoreM Unit := do
  mapError Raised.other (ensure faults .audit)
  mapError Raised.other (appendLine faults .audit (dumps (.object chained)).toList)

def append_audit_event (event : Dict) : StoreM Dict := do
  let event_id := item event "event_id"
  if truthy event_id = false then throw (.value_error "audit event_id は必須です")
  let events ← audit_events host faults
  let verification ← checkChain host events
  if verification.ok = false then
    throw (.value_error ("不正な audit chain へ追記できません: " ++
      "; ".intercalate verification.errors))
  if events.any fun stored => eq host.floats (item stored "event_id") event_id then
    throw (.value_error ("重複した audit event_id です: " ++ host.str event_id))
  let previous := audit_chain.head events
  let chained := audit_chain.chain_event host.sha256 event previous
  append_line faults chained
  write_audit_anchor host faults (events ++ [chained])
  return chained

end failing

/-! ## Calls whose file operations succeed -/

abbrev read_text (path : StoreFile) : StoreM (List Char) := failing.read_text noFaults path

abbrev write_text (path : StoreFile) (text : List Char) : StoreM Unit :=
  failing.write_text noFaults path text

abbrev audit_anchor_key : StoreM Bytes := failing.audit_anchor_key host noFaults

abbrev anchor_record (events : List Dict) : StoreM Dict :=
  failing.anchor_record host noFaults events

abbrev write_audit_anchor (events : List Dict) : StoreM Unit :=
  failing.write_audit_anchor host noFaults events

abbrev audit_events_report : StoreM (List Dict × List String) :=
  failing.audit_events_report host noFaults

abbrev audit_events : StoreM (List Dict) := failing.audit_events host noFaults

abbrev append_audit_event (event : Dict) : StoreM Dict :=
  failing.append_audit_event host noFaults event

/-! ## The check of the log -/

/-- The errors of the anchor. -/
def verify_audit_anchor (events : List Dict) : StoreM (List String) := do
  if ← fileExists .audit_anchor then
    let text ← read_text .audit_anchor
    match loads host.floats text with
    | none => return ["audit anchor を読み取れません: " ++ host.json_error text]
    | some stored =>
      let expected ← anchor_record host events
      if eq host.floats stored (.object expected) then return []
      else return ["audit anchor HMAC が audit chain head と一致しません"]
  else if events = [] then return []
  else return ["空でない audit chain に audit anchor がありません"]

/-- The result of the check of the log and its anchor. -/
structure Verification where
  ok : Bool
  event_count : Nat
  latest_event_hash : Value
  errors : List String
  anchor_verified : Bool

def verify_audit_chain : StoreM Verification := do
  let (events, errors) ← audit_events_report host
  let result ← checkChain host events
  let anchorErrors ← verify_audit_anchor host events
  return {
    ok := result.ok && errors = [] && anchorErrors = []
    event_count := result.event_count
    latest_event_hash := result.latest_event_hash
    errors := errors ++ result.errors ++ anchorErrors
    anchor_verified := anchorErrors = [] }

/-! ## What the files say -/

variable {host : Host} {disk : Disk StoreFile} {E : Disk StoreFile → Prop}

/-- The text of the log. A log that is not there is empty. -/
def logText (disk : Disk StoreFile) : List Char := ((disk .audit).getD (.text [])).chars

/-- The events of the log, if it is read without an error. -/
def events (host : Host) (disk : Disk StoreFile) : Option (List Dict) :=
  if ((disk .audit).getD (.text [])).broken then none else eventsOf host.floats (logText disk)

/-- The key that the next anchor is made with. -/
def key (host : Host) (disk : Disk StoreFile) : Option Bytes :=
  match disk .audit_anchor_key with
  | none => some host.token
  | some content =>
    if content.broken then none
    else fromhex (normalization.strip (universal_newlines content.chars))

/-- The files once the key is made. -/
def withKey (host : Host) (disk : Disk StoreFile) : Disk StoreFile :=
  match disk .audit_anchor_key with
  | none => Function.update disk .audit_anchor_key (some (.text (hex.digits host.token)))
  | some _ => disk

/-! ## What the functions do -/

theorem wp_readToString_noFaults {path : StoreFile} {content : Content}
    {Q : List Char → Disk StoreFile → Prop} (hc : disk path = some content) :
    wp (mapError Raised.other (readToString noFaults path)) Q E disk ↔
      if content.broken then E disk else Q content.chars disk := by
  rw [wp_mapError, readToString, files.read, attempt]
  simp only [noFaults, wp_bind, wp_pure, wp_get, hc]
  split
  · exact Iff.rfl
  · exact Iff.rfl

theorem wp_read_text {path : StoreFile} {content : Content}
    {Q : List Char → Disk StoreFile → Prop} (hc : disk path = some content) :
    wp (read_text path) Q E disk ↔
      if content.broken then E disk else Q (universal_newlines content.chars) disk := by
  rw [read_text, failing.read_text, wp_bind, wp_readToString_noFaults hc]
  rfl

theorem wp_write_text {path : StoreFile} {text : List Char} {Q : Unit → Disk StoreFile → Prop} :
    wp (write_text path text) Q E disk ↔ Q () (Function.update disk path (some (.text text))) := by
  have hrun : write_text path text disk = .ok ()
      (Function.update (Function.update disk path (some (.text []))) path (some (.text text))) :=
    rfl
  unfold wp
  rw [hrun, Function.update_idem]

theorem wp_audit_anchor_key {Q : Bytes → Disk StoreFile → Prop} :
    wp (audit_anchor_key host) Q E disk ↔
      match key host disk with
      | some key => Q key (withKey host disk)
      | none => E disk := by
  unfold audit_anchor_key failing.audit_anchor_key key withKey
  rw [wp_bind, wp_fileExists]
  rcases hkey : disk .audit_anchor_key with _ | content
  · simp only [Option.isSome_none, Bool.false_eq_true, if_false, wp_bind, wp_write_text, wp_pure]
  · simp only [Option.isSome_some, if_true, wp_bind, wp_read_text hkey]
    by_cases hbroken : content.broken = true
    · simp [hbroken]
    · simp only [if_neg hbroken]
      rcases fromhex (normalization.strip (universal_newlines content.chars)) with _ | key
      · simp
      · simp

theorem wp_anchor_record {l : List Dict} {Q : Dict → Disk StoreFile → Prop} :
    wp (anchor_record host l) Q E disk ↔
      match key host disk with
      | some key => Q (anchorRecord host key l) (withKey host disk)
      | none => E disk := by
  rw [anchor_record, failing.anchor_record, wp_bind, wp_audit_anchor_key]
  rfl

/-- The files with a new anchor. -/
def anchored (host : Host) (key : Bytes) (l : List Dict) (disk : Disk StoreFile) :
    Disk StoreFile :=
  Function.update (Function.update (withKey host disk) .audit_anchor
    (some (.text (anchorText (anchorRecord host key l))))) .audit_anchor_tmp none

/-- The anchor is written to a file of its own, which takes the place of the old one. -/
theorem wp_replace_anchor {text : List Char} {Q : Unit → Disk StoreFile → Prop} :
    wp (do
      write_text .audit_anchor_tmp text
      mapError Raised.other (files.rename noFaults .audit_anchor_tmp .audit_anchor)) Q E disk ↔
      Q () (Function.update (Function.update disk .audit_anchor (some (.text text)))
        .audit_anchor_tmp none) := by
  rw [wp_bind, wp_write_text, wp_mapError, files.rename, attempt]
  simp only [noFaults, wp_bind, wp_pure, wp_get, Function.update_self, wp_put]
  have hdisk : Function.update (Function.update (Function.update disk .audit_anchor_tmp
      (some (.text text))) .audit_anchor (some (.text text))) .audit_anchor_tmp none =
      Function.update (Function.update disk .audit_anchor (some (.text text)))
        .audit_anchor_tmp none := by
    rw [Function.update_comm (by simp), Function.update_idem, Function.update_comm (by simp)]
  rw [hdisk]

theorem wp_write_audit_anchor {l : List Dict} {Q : Unit → Disk StoreFile → Prop} :
    wp (write_audit_anchor host l) Q E disk ↔
      match key host disk with
      | some key => Q () (anchored host key l disk)
      | none => E disk := by
  rw [write_audit_anchor, failing.write_audit_anchor, wp_bind, wp_anchor_record]
  rcases key host disk with _ | key
  · rfl
  · exact wp_replace_anchor

theorem wp_audit_events_report {Q : List Dict × List String → Disk StoreFile → Prop} :
    wp (audit_events_report host) Q E disk ↔
      if ((disk .audit).getD (.text [])).broken then E disk
      else Q (reportOf host.floats host.json_msg (logText disk)) disk := by
  unfold audit_events_report failing.audit_events_report logText
  rw [wp_bind, wp_fileExists]
  rcases hlog : disk .audit with _ | content
  · rfl
  · simp only [Option.isSome_some, if_true, wp_bind, wp_readToString_noFaults hlog,
      Option.getD_some]
    rfl

theorem wp_audit_events {Q : List Dict → Disk StoreFile → Prop} :
    wp (audit_events host) Q E disk ↔
      match events host disk with
      | some l => Q l disk
      | none => E disk := by
  unfold audit_events failing.audit_events events
  rw [wp_bind, wp_audit_events_report]
  split
  · rfl
  · rcases hreport : reportOf host.floats host.json_msg (logText disk) with ⟨l, errors⟩
    dsimp only
    by_cases herrors : errors = []
    · subst herrors
      rw [reportOf_eq_iff.mp hreport]
      rfl
    · rw [if_neg herrors, wp_throw]
      rcases hevents : eventsOf host.floats (logText disk) with _ | l'
      · rfl
      · rw [← @reportOf_eq_iff host.floats host.json_msg, hreport, Prod.mk.injEq] at hevents
        exact absurd hevents.2 herrors

theorem wp_checkChain {l : List Dict} {Q : audit_chain.ChainReport → Disk StoreFile → Prop} :
    wp (checkChain host l) Q E disk ↔
      match audit_chain.verify_audit_chain host.sha256 host.floats host.str l with
      | some report => Q report disk
      | none => E disk := by
  unfold checkChain
  rcases audit_chain.verify_audit_chain host.sha256 host.floats host.str l with _ | report
  · rfl
  · rfl

/-- The log is read without an error, and its chain verifies. -/
structure Sound (host : Host) (disk : Disk StoreFile) (l : List Dict) : Prop where
  events : events host disk = some l
  verified : audit_chain.Verified host.sha256 host.floats host.str l

/-- An append gets as far as to write the event. -/
structure Admits (host : Host) (disk : Disk StoreFile) (event : Dict) (l : List Dict) : Prop where
  sound : Sound host disk l
  truthy_id : truthy (item event "event_id") = true
  new_id : l.any (fun stored => eq host.floats (item stored "event_id") (item event "event_id")) =
    false

/-- The event as it is written. -/
def chainedOn (host : Host) (event : Dict) (l : List Dict) : Dict :=
  audit_chain.chain_event host.sha256 event (audit_chain.head l)

/-- The files with the line of an event. -/
def logged (disk : Disk StoreFile) (chained : Dict) : Disk StoreFile :=
  Function.update disk .audit (some (((disk .audit).getD (.text [])).append
    ((dumps (.object chained)).toList ++ ['\n'])))

theorem wp_append_line {chained : Dict} {Q : Unit → Disk StoreFile → Prop} :
    wp (failing.append_line noFaults chained) Q E disk ↔ Q () (logged disk chained) := by
  have hrun : failing.append_line noFaults chained disk = .ok ()
      (Function.update (Function.update disk .audit (some ((disk .audit).getD (.text [])))) .audit
        (some (((disk .audit).getD (.text [])).append
          ((dumps (.object chained)).toList ++ ['\n'])))) := by
    unfold failing.append_line
    show EStateM.Result.ok () _ = _
    simp [Function.update_self]
  unfold wp
  rw [hrun, Function.update_idem]
  rfl

theorem wp_append_of_not_admits {event : Dict} {Q : Dict → Disk StoreFile → Prop}
    (h : ∀ l, ¬ Admits host disk event l) (hE : E disk) :
    wp (append_audit_event host event) Q E disk := by
  unfold append_audit_event failing.append_audit_event
  dsimp only
  by_cases hid : truthy (item event "event_id") = false
  · rw [if_pos hid, wp_bind, wp_throw]
    exact hE
  · rw [if_neg hid]
    simp only [wp_bind, wp_audit_events]
    rcases hevents : events host disk with _ | l
    · exact hE
    · simp only [wp_checkChain]
      rcases hreport : audit_chain.verify_audit_chain host.sha256 host.floats host.str l with _ | r
      · exact hE
      · dsimp only
        by_cases hok : r.ok = false
        · rw [if_pos hok, wp_bind, wp_throw]
          exact hE
        · rw [if_neg hok]
          have hnew : (l.any fun stored =>
              eq host.floats (item stored "event_id") (item event "event_id")) = true := by
            by_contra hnew
            refine h l ⟨⟨hevents, r, hreport, by simpa using hok⟩, by simpa using hid, ?_⟩
            simpa using hnew
          rw [if_pos hnew, wp_bind, wp_throw]
          exact hE

theorem wp_append_of_admits {event : Dict} {l : List Dict} {Q : Dict → Disk StoreFile → Prop}
    (h : Admits host disk event l) :
    wp (append_audit_event host event) Q E disk ↔
      match key host disk with
      | some key => Q (chainedOn host event l)
          (anchored host key (l ++ [chainedOn host event l])
            (logged disk (chainedOn host event l)))
      | none => E (logged disk (chainedOn host event l)) := by
  obtain ⟨⟨hevents, r, hreport, hok⟩, hid, hnew⟩ := h
  have hkey : key host (logged disk (chainedOn host event l)) = key host disk := by
    unfold key logged
    rw [Function.update_of_ne (by simp)]
  unfold append_audit_event failing.append_audit_event
  dsimp only
  rw [if_neg (by simp [hid])]
  simp only [wp_bind, wp_audit_events, hevents, wp_checkChain, hreport]
  rw [if_neg (by simp [hok]), if_neg (by simp [hnew])]
  simp only [wp_bind, wp_append_line]
  have hwrite := @wp_write_audit_anchor host (logged disk (chainedOn host event l)) E
    (l ++ [chainedOn host event l]) (fun _ => Q (chainedOn host event l))
  rw [hkey] at hwrite
  exact hwrite

/-! ## The check -/

/-- The check of the log and its anchor comes to an end, and its result is ok. -/
def Ok (host : Host) (disk : Disk StoreFile) : Prop :=
  wp (verify_audit_chain host) (fun verification _ => verification.ok = true) (fun _ => False) disk

/-- The anchor is that of the events. An empty log needs none. -/
def AnchorOk (host : Host) (disk : Disk StoreFile) (l : List Dict) : Prop :=
  match disk .audit_anchor with
  | none => l = []
  | some content => content.broken = false ∧ ∃ stored key', key host disk = some key' ∧
      loads host.floats (universal_newlines content.chars) = some stored ∧
      eq host.floats stored (.object (anchorRecord host key' l)) = true

theorem wp_verify_audit_anchor {l : List Dict} :
    wp (verify_audit_anchor host l) (fun errors _ => errors = []) (fun _ => False) disk ↔
      AnchorOk host disk l := by
  unfold verify_audit_anchor AnchorOk
  rw [wp_bind, wp_fileExists]
  rcases hanchor : disk .audit_anchor with _ | content
  · simp only [Option.isSome_none, Bool.false_eq_true, if_false]
    by_cases hl : l = []
    · simp [hl]
    · simp [hl]
  · simp only [Option.isSome_some, if_true, wp_bind, wp_read_text hanchor]
    by_cases hbroken : content.broken = true
    · simp [hbroken]
    · rw [if_neg hbroken]
      rcases loads host.floats (universal_newlines content.chars) with _ | stored
      · simp
      · simp only [wp_bind, wp_anchor_record]
        rcases key host disk with _ | key
        · simp
        · by_cases heq : eq host.floats stored (.object (anchorRecord host key l)) = true
          · simp [heq, hbroken]
          · simp [heq]

theorem ok_iff : Ok host disk ↔ ∃ l, Sound host disk l ∧ AnchorOk host disk l := by
  unfold Ok verify_audit_chain
  rw [wp_bind, wp_audit_events_report]
  constructor
  · intro h
    split at h
    · exact h.elim
    · rename_i hbroken
      rcases hreport : reportOf host.floats host.json_msg (logText disk) with ⟨l, errors⟩
      rw [hreport] at h
      simp only [wp_bind, wp_checkChain] at h
      rcases hchain : audit_chain.verify_audit_chain host.sha256 host.floats host.str l with _ | r
      · rw [hchain] at h
        exact h.elim
      · rw [hchain] at h
        have hall : wp (verify_audit_anchor host l)
            (fun anchorErrors _ => (r.ok = true ∧ errors = []) ∧ anchorErrors = [])
            (fun _ => False) disk := by
          refine h.mono (fun anchorErrors d hd => ?_) fun _ hd => hd
          rw [wp_pure] at hd
          simpa using hd
        have hok : r.ok = true ∧ errors = [] := by
          unfold wp at hall
          split at hall
          · exact hall.1
          · exact hall.elim
        obtain ⟨hok, rfl⟩ := hok
        refine ⟨l, ⟨?_, r, hchain, hok⟩, ?_⟩
        · unfold events
          rw [if_neg hbroken, reportOf_eq_iff.mp hreport]
        · rw [← wp_verify_audit_anchor]
          exact hall.mono (fun _ _ hd => hd.2) fun _ hd => hd
  · rintro ⟨l, ⟨hevents, r, hchain, hok⟩, hanchor⟩
    unfold events at hevents
    split at hevents
    · cases hevents
    · rename_i hbroken
      rw [if_neg hbroken, (@reportOf_eq_iff host.floats host.json_msg _ _).mpr hevents]
      simp only [wp_bind, wp_checkChain, hchain]
      refine (wp_verify_audit_anchor.mpr hanchor).mono (fun errors d herrors => ?_) fun _ h => h
      rw [wp_pure, herrors, hok]
      rfl

/-! ## The files after an event -/

/-- What stands after the last line break of the log is blank, and no text of an event. -/
def BlankTail (disk : Disk StoreFile) : Prop := (tailOf (logText disk)).all isSpace = true

instance (disk : Disk StoreFile) : Decidable (BlankTail disk) :=
  inferInstanceAs (Decidable (_ = true))

theorem events_eq_some {l : List Dict} (h : events host disk = some l) :
    ((disk .audit).getD (.text [])).broken = false ∧
      eventsOf host.floats (logText disk) = some l := by
  unfold events at h
  split at h
  · cases h
  · rename_i hbroken
    exact ⟨by simpa using hbroken, h⟩

theorem logged_audit {l : List Dict} (h : events host disk = some l) (chained : Dict) :
    logged disk chained .audit =
      some (.text (logText disk ++ ((dumps (.object chained)).toList ++ ['\n']))) := by
  obtain ⟨hbroken, -⟩ := events_eq_some h
  unfold logged logText
  rw [Function.update_self, Content.append, if_neg (by simp [hbroken])]

/-- The log is what the audit file says, whatever the others do. -/
theorem events_congr {disk disk' : Disk StoreFile} (h : disk .audit = disk' .audit) :
    events host disk = events host disk' := by
  unfold events logText
  rw [h]

theorem key_congr {disk disk' : Disk StoreFile}
    (h : disk .audit_anchor_key = disk' .audit_anchor_key) : key host disk = key host disk' := by
  unfold key
  rw [h]

theorem events_logged_of_blank {l : List Dict} (h : events host disk = some l)
    (htail : BlankTail disk) {chained : Dict} (hheld : Held host.floats (.object chained)) :
    events host (logged disk chained) = some (l ++ [audit_chain.sortedDict chained]) := by
  unfold events logText
  rw [logged_audit h]
  exact eventsOf_append_event (events_eq_some h).2 htail hheld

theorem tail_logged {l : List Dict} (h : events host disk = some l) (chained : Dict) :
    BlankTail (logged disk chained) := by
  unfold BlankTail logText
  rw [logged_audit h]
  have htail := (append_line (logText disk) (.object chained)).2
  show (tailOf (logText disk ++ ((dumps (.object chained)).toList ++ ['\n']))).all isSpace = true
  rw [htail]
  rfl

theorem anchored_audit (key' : Bytes) (l : List Dict) :
    anchored host key' l disk .audit = disk .audit := by
  unfold anchored withKey
  rw [Function.update_of_ne (by simp), Function.update_of_ne (by simp)]
  rcases disk .audit_anchor_key with _ | content
  · dsimp only
    rw [Function.update_of_ne (by simp)]
  · rfl

/-! ### The key that was made -/

theorem strip_eq_self {l : List Char} (h : ∀ c ∈ l, normalization.isSpace c = false) :
    normalization.strip l = l := by
  unfold normalization.strip
  exact json_lines.dropEnds_eq_self h

theorem hexDigit_facts : ∀ n < 16, normalization.isSpace (hex.digit n) = false ∧
    fromhex.isAsciiSpace (hex.digit n) = false ∧ hex.digit n ≠ '\r' := by decide

theorem fromhex_digits (key : Bytes) : fromhex (hex.digits key) = some key := by
  induction key with
  | nil => rfl
  | cons x key ih =>
    have hx : x.toNat < 256 := x.toNat_lt
    have hdigits : hex.digits (x :: key) =
        hex.digit (x.toNat / 16) :: hex.digit (x.toNat % 16) :: hex.digits key := rfl
    rw [hdigits, fromhex, if_neg (by simp [(hexDigit_facts (x.toNat / 16) (by omega)).2.1]),
      hex.value_digit _ (by omega), hex.value_digit _ (by omega), ih]
    simp only [Option.bind_eq_bind, Option.bind_some, Nat.div_add_mod, UInt8.ofNat_toNat]

theorem key_withKey {key' : Bytes} (h : key host disk = some key') :
    key host (withKey host disk) = some key' := by
  unfold key at h
  unfold withKey key
  rcases hfile : disk .audit_anchor_key with _ | content
  · rw [hfile] at h
    dsimp only at h ⊢
    rw [Function.update_self]
    have hspace : ∀ c ∈ hex.digits host.token, normalization.isSpace c = false := by
      intro c hc
      obtain ⟨n, hn, rfl⟩ := hex.mem_digits hc
      exact (hexDigit_facts n hn).1
    have hreturn : '\r' ∉ hex.digits host.token := by
      intro hc
      obtain ⟨n, hn, hdigit⟩ := hex.mem_digits hc
      exact (hexDigit_facts n hn).2.2 hdigit.symm
    show (if false = true then none else _) = _
    rw [if_neg (by simp)]
    show fromhex (normalization.strip (universal_newlines (hex.digits host.token))) = _
    rw [universal_newlines_of_no_return hreturn, strip_eq_self hspace, fromhex_digits]
    exact h
  · rw [hfile] at h
    simp only [hfile]
    exact h

theorem key_anchored {key' : Bytes} (h : key host disk = some key') (l : List Dict) :
    key host (anchored host key' l disk) = some key' := by
  rw [← key_withKey h]
  apply key_congr
  unfold anchored
  rw [Function.update_of_ne (by simp), Function.update_of_ne (by simp)]

end shell_core.persistence
