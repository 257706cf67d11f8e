-- The durable audit log of the Python shell (JsonPersistence in persistence.py) over files that
-- hold anything: all that `json.loads` reads can stand in them, also NaN, Infinity, surrogates
-- that stand alone and integers that are too long. What it does with the lines that it wrote
-- itself is in the Persistence module.
import GuiShell.PythonRecords
import GuiShell.ShellCore.Persistence

open files python_json

namespace shell_core.tampered_log

open persistence (StoreFile StoreM Raised read_text write_text audit_anchor_key splitlines
  universal_newlines)

/-- What the shell has from the interpreter and from outside, with the json module on any text. -/
structure Host extends persistence.Host where
  python : Interpreter
  /-- `str` of a value. -/
  str_of : PyValue python.Float → String

abbrev Host.Value (host : Host) := PyValue host.python.Float

/-- A dict with string keys. -/
abbrev Host.Dict (host : Host) := PyDict host.python.Float

variable (host : Host)

/-- `get` of a dict, with the default None. -/
def item {Float : Type} (event : PyDict Float) (field : String) : PyValue Float :=
  (sorted_map.get (str field) event).getD .none

/-! ## The chain -/

/-- The hash, or none where `json.dumps` raises. -/
def canonical_hash (payload : host.Value) : Option String := do
  let text ← python_json.dumps host.python payload
  some ("sha256:" ++ hex.encode (host.sha256 (utf8.encode (.ofList text))))

def chain_event (event : host.Dict) (previous_event_hash : host.Value) : Option host.Dict :=
  if python_json.copies host.python (.dict event) then do
    let chained := dict.setItem (str "previous_event_hash") previous_event_hash event
    let chained := sorted_map.erase (str "event_hash") chained
    let event_hash ← canonical_hash host (.dict chained)
    some (dict.setItem (str "event_hash") (.str (str event_hash)) chained)
  else none

/-- What the loop over the events has found so far. -/
structure ChainState where
  previous : host.Value
  seen_event_ids : List host.Value
  errors : List String

/-- The result of a check of the chain. -/
structure ChainReport where
  ok : Bool
  event_count : Nat
  latest_event_hash : host.Value
  errors : List String

/-- The errors about the id of an event, and the ids seen then. An id that cannot stand in a set
raises. A set looks for the same value, so it finds NaN. -/
def checkId (index : Nat) (seen_event_ids : List host.Value) (event_id : host.Value) :
    Option (List host.Value × List String) :=
  if !python_json.truthy host.python event_id then
    some (seen_event_ids, ["event " ++ Nat.repr index ++ " に event_id がありません"])
  else if !python_json.hashable event_id then none
  else if seen_event_ids.any fun seen => python_json.same host.python seen event_id then
    some (seen_event_ids, ["event " ++ Nat.repr index ++ " の event_id " ++ host.str_of event_id ++
      " が重複しています"])
  else some (seen_event_ids ++ [event_id], [])

def checkEvent (index : Nat) (state : ChainState host) (event : host.Dict) :
    Option (ChainState host) := do
  let (seen_event_ids, idErrors) ←
    checkId host index state.seen_event_ids (item event "event_id")
  let expected ← chain_event host (sorted_map.erase (str "event_hash") event) state.previous
  let previousErrors :=
    if python_json.eq host.python (item event "previous_event_hash") state.previous then []
    else ["event " ++ Nat.repr index ++ " の previous hash が一致しません"]
  let hashErrors :=
    if python_json.eq host.python (item event "event_hash") (item expected "event_hash") then []
    else ["event " ++ Nat.repr index ++ " の hash が一致しません"]
  some {
    previous := item event "event_hash"
    seen_event_ids
    errors := state.errors ++ idErrors ++ previousErrors ++ hashErrors }

/-- The report on the events, or none when the check raises. -/
def checkChain (events : List host.Dict) : Option (ChainReport host) :=
  (checked_run.run (checkEvent host) 0 ⟨.none, [], []⟩ events).map fun state => {
    ok := state.errors = []
    event_count := events.length
    latest_event_hash := state.previous
    errors := state.errors }

/-- `events[-1].get("event_hash")`, or None. -/
def head (events : List host.Dict) : host.Value :=
  (events.getLast?.map fun event => item event "event_hash").getD .none

/-! ## The files -/

/-- The events and the errors of the lines from number `index` on, or none when a line raises. -/
def reportFrom (index : Nat) : List (List Char) → Option (List host.Dict × List String)
  | [] => some ([], [])
  | line :: lines =>
    let broken := "audit JSONL の " ++ Nat.repr index ++ " 行目が破損しています: "
    if normalization.strip line = [] then reportFrom (index + 1) lines
    else
      match python_json.loads host.python line with
      | .raises => none
      | .decode_error => (reportFrom (index + 1) lines).map fun report =>
        (report.1, (broken ++ host.json_msg line) :: report.2)
      | .value (.dict event) => (reportFrom (index + 1) lines).map fun report =>
        (event :: report.1, report.2)
      | .value _ => (reportFrom (index + 1) lines).map fun report =>
        (report.1, (broken ++ "event が object ではありません") :: report.2)

def reportOf (text : List Char) : Option (List host.Dict × List String) :=
  reportFrom host 1 (splitlines (universal_newlines text))

/-- A result that none stands for an error in. -/
def orRaise {α : Type} (e : Raised) : Option α → StoreM α
  | some a => pure a
  | none => throw e

def audit_events_report : StoreM (List host.Dict × List String) := do
  if ← fileExists .audit then
    let chars ← mapError Raised.other (readToString noFaults .audit)
    orRaise (.other "json.loads") (reportOf host chars)
  else return ([], [])

def audit_events : StoreM (List host.Dict) := do
  let (events, errors) ← audit_events_report host
  if errors ≠ [] then throw (.value_error ("; ".intercalate errors))
  else if python_json.copies host.python (.list (events.map .dict)) then return events
  else throw (.other "copy.deepcopy")

/-- What the anchor says of the events. -/
def anchorBody (events : List host.Dict) : host.Dict := [
  (str "version", .int 1),
  (str "event_count", .int events.length),
  (str "head_event_hash", head host events)]

/-- The record that anchors the events under a key. -/
def anchorRecord (key : Bytes) (events : List host.Dict) (message : List Char) : host.Dict :=
  anchorBody host events ++ [(str "anchor_hmac",
    .str (str (audit_hash.hmac_sha256_tagged host.sha256 key (utf8.encode (.ofList message)))))]

def anchor_record (events : List host.Dict) : StoreM host.Dict := do
  let message ← orRaise (.other "json.dumps")
    (python_json.dumps host.python (.dict (anchorBody host events)))
  let key ← audit_anchor_key host.toHost
  return anchorRecord host key events message

def write_audit_anchor (events : List host.Dict) : StoreM Unit := do
  let record ← anchor_record host events
  let text ← orRaise (.other "json.dumps") (python_json.dumps_indented host.python (.dict record))
  write_text .audit_anchor_tmp (text ++ ['\n'])
  mapError Raised.other (files.rename noFaults .audit_anchor_tmp .audit_anchor)

/-- The errors of the anchor. -/
def verify_audit_anchor (events : List host.Dict) : StoreM (List String) := do
  if ← fileExists .audit_anchor then
    let text ← read_text .audit_anchor
    match python_json.loads host.python text with
    | .raises => throw (.other "json.loads")
    | .decode_error => return ["audit anchor を読み取れません: " ++ host.json_error text]
    | .value stored =>
      let expected ← anchor_record host events
      if python_json.eq host.python stored (.dict expected) then return []
      else return ["audit anchor HMAC が audit chain head と一致しません"]
  else if events = [] then return []
  else return ["空でない audit chain に audit anchor がありません"]

def append_audit_event (event : host.Dict) : StoreM host.Dict := do
  let event_id := item event "event_id"
  if python_json.truthy host.python event_id = false then
    throw (.value_error "audit event_id は必須です")
  let events ← audit_events host
  let verification ← orRaise (.other "verify_audit_chain") (checkChain host events)
  if verification.ok = false then
    throw (.value_error ("不正な audit chain へ追記できません: " ++
      "; ".intercalate verification.errors))
  if events.any fun stored => python_json.eq host.python (item stored "event_id") event_id then
    throw (.value_error ("重複した audit event_id です: " ++ host.str_of event_id))
  let previous := head host events
  let chained ← orRaise (.other "chain_event") (chain_event host event previous)
  mapError Raised.other (ensure noFaults .audit)
  let line ← orRaise (.other "json.dumps") (python_json.dumps host.python (.dict chained))
  mapError Raised.other (appendLine noFaults .audit line)
  write_audit_anchor host (events ++ [chained])
  if python_json.copies host.python (.dict chained) then return chained
  else throw (.other "copy.deepcopy")

/-- The result of the check of the log and its anchor. -/
structure Verification where
  ok : Bool
  event_count : Nat
  latest_event_hash : host.Value
  errors : List String
  anchor_verified : Bool

def verify_audit_chain : StoreM (Verification host) := do
  let (events, errors) ← audit_events_report host
  let result ← orRaise (.other "verify_audit_chain") (checkChain host events)
  let anchorErrors ← verify_audit_anchor host events
  return {
    ok := result.ok && errors = [] && anchorErrors = []
    event_count := result.event_count
    latest_event_hash := result.latest_event_hash
    errors := errors ++ result.errors ++ anchorErrors
    anchor_verified := anchorErrors = [] }

/-! ## What the log says -/

/-- The events of a line: none or one, and no list for a line that is an error or raises. -/
def readLine (line : List Char) : Option (List host.Dict) :=
  if normalization.strip line = [] then some []
  else
    match python_json.loads host.python line with
    | .value (.dict event) => some [event]
    | _ => none

/-- The events of a log without an error. -/
def eventsOf (text : List Char) : Option (List host.Dict) :=
  ((splitlines (universal_newlines text)).mapM (readLine host)).map List.flatten

variable {host : Host}

theorem reportFrom_eq_iff {index : Nat} {lines : List (List Char)} {events : List host.Dict} :
    reportFrom host index lines = some (events, []) ↔
      (lines.mapM (readLine host)).map List.flatten = some events := by
  induction lines generalizing index events with
  | nil => simp [reportFrom, eq_comm]
  | cons line lines ih =>
    have hcons : ((line :: lines).mapM (readLine host)).map List.flatten =
        (readLine host line).bind fun first =>
          ((lines.mapM (readLine host)).map List.flatten).map fun rest => first ++ rest := by
      rw [List.mapM_cons]
      cases readLine host line with
      | none => rfl
      | some first =>
        cases lines.mapM (readLine host) with
        | none => rfl
        | some rest => rfl
    rw [hcons, reportFrom, readLine]
    by_cases hblank : normalization.strip line = []
    · simp only [if_pos hblank, Option.bind_some, List.nil_append, Option.map_id']
      exact ih
    · simp only [if_neg hblank]
      rcases hload : python_json.loads host.python line with v | _ | _
      · cases v with
        | dict event =>
          rw [Option.map_eq_some_iff, Option.bind_some, Option.map_eq_some_iff]
          constructor
          · rintro ⟨⟨rest, errors⟩, hrest, hreport⟩
            obtain ⟨rfl, rfl⟩ := Prod.mk.inj hreport
            exact ⟨rest, ih.mp hrest, rfl⟩
          · rintro ⟨rest, hrest, rfl⟩
            exact ⟨(rest, []), ih.mpr hrest, rfl⟩
        | _ => simp
      · simp
      · simp

theorem reportOf_eq_iff {text : List Char} {events : List host.Dict} :
    reportOf host text = some (events, []) ↔ eventsOf host text = some events :=
  reportFrom_eq_iff

/-- The events of the lines that end in a break, and then those of the tail. -/
theorem eventsOf_eq_some_iff {text : List Char} {events : List host.Dict} :
    eventsOf host text = some events ↔ ∃ before last,
      (persistence.linesOf text).mapM (readLine host) = some before ∧
        readLine host (persistence.tailOf text) = some last ∧
        events = before.flatten ++ last := by
  have hnil : readLine host [] = some [] := rfl
  unfold eventsOf splitlines persistence.linesOf persistence.tailOf
  dsimp only
  rw [Option.map_eq_some_iff]
  split
  · rename_i htail
    rw [htail, hnil]
    constructor
    · rintro ⟨before, hbefore, rfl⟩
      exact ⟨before, [], hbefore, rfl, (List.append_nil _).symm⟩
    · rintro ⟨before, last, hbefore, hlast, rfl⟩
      obtain rfl := Option.some.inj hlast
      exact ⟨before, hbefore, (List.append_nil _).symm⟩
  · rw [List.mapM_append, List.mapM_cons, List.mapM_nil]
    constructor
    · rintro ⟨all, hall, rfl⟩
      obtain ⟨before, hbefore, hall⟩ := Option.bind_eq_some_iff.mp hall
      obtain ⟨tail, htail, hall⟩ := Option.bind_eq_some_iff.mp hall
      obtain ⟨last, hlast, htail⟩ := Option.bind_eq_some_iff.mp htail
      cases htail
      cases hall
      exact ⟨before, last, hbefore, hlast, by simp⟩
    · rintro ⟨before, last, hbefore, hlast, rfl⟩
      refine ⟨before ++ [last], ?_, by simp⟩
      rw [hbefore, hlast]
      rfl

/-- With a line of its own the log has the events of the line, which joins the tail. -/
theorem eventsOf_append_iff {text line : List Char} (hline : Printable line) (hne : line ≠ [])
    {events : List host.Dict} :
    eventsOf host (text ++ (line ++ ['\n'])) = some events ↔ ∃ before last,
      (persistence.linesOf text).mapM (readLine host) = some before ∧
        readLine host (persistence.tailOf text ++ line) = some last ∧
        events = before.flatten ++ last := by
  obtain ⟨hlines, htail⟩ := persistence.append_printable text hline hne
  rw [eventsOf_eq_some_iff, hlines, htail, List.mapM_append, List.mapM_cons, List.mapM_nil]
  constructor
  · rintro ⟨all, last, hall, hlast, rfl⟩
    obtain ⟨before, hbefore, hall⟩ := Option.bind_eq_some_iff.mp hall
    obtain ⟨tail, htail, hall⟩ := Option.bind_eq_some_iff.mp hall
    obtain ⟨joined, hjoined, htail⟩ := Option.bind_eq_some_iff.mp htail
    cases htail
    cases hall
    cases hlast
    exact ⟨before, joined, hbefore, hjoined, by simp⟩
  · rintro ⟨before, joined, hbefore, hjoined, rfl⟩
    refine ⟨before ++ [joined], [], ?_, rfl, by simp⟩
    rw [hbefore, hjoined]
    rfl

/-- After a tail that is not blank for JSON, and yet no error, an event breaks the line. -/
theorem readLine_of_not_blank {tail inner : List Char} (htail : ¬ tail.all json.isSpace = true)
    {last : List host.Dict} (hread : readLine host tail = some last) :
    readLine host (tail ++ '{' :: inner) = none := by
  have hloads : python_json.loads host.python (tail ++ '{' :: inner) = .decode_error := by
    unfold readLine at hread
    split at hread
    · -- A blank of Python that is none of JSON starts no value.
      rename_i hstrip
      unfold normalization.strip at hstrip
      rw [json_lines.dropEnds_eq_nil_iff] at hstrip
      have hdrop : tail.dropWhile json.isSpace ≠ [] := by
        intro hnil
        exact htail (List.all_eq_true.mpr (List.dropWhile_eq_nil_iff.mp hnil))
      obtain ⟨c, rest, hrest⟩ := List.exists_cons_of_ne_nil hdrop
      have hc : json.isSpace c = false := by
        have hhead := List.head_dropWhile_not json.isSpace hdrop
        simpa [hrest] using hhead
      have hmem : c ∈ tail := (List.dropWhile_sublist json.isSpace).subset (by rw [hrest]; simp)
      have hsplit : tail ++ '{' :: inner =
          tail.takeWhile json.isSpace ++ c :: (rest ++ '{' :: inner) := by
        rw [← List.cons_append, ← hrest, ← List.append_assoc, List.takeWhile_append_dropWhile]
      rw [hsplit]
      exact loads_of_head List.all_takeWhile hc
        (persistence.not_printable_of_isSpace (List.all_eq_true.mp hstrip c hmem) hc)
    · split at hread
      · rename_i event hevent
        exact loads_append_brace hevent inner
      · cases hread
  unfold readLine
  rw [if_neg (persistence.strip_brace tail inner), hloads]

/-! ## Chains that verify -/

def ids (events : List host.Dict) : List host.Value := events.map fun event => item event "event_id"

@[simp] theorem head_nil : head host [] = .none := rfl

@[simp] theorem head_snoc (events : List host.Dict) (event : host.Dict) :
    head host (events ++ [event]) = item event "event_hash" := by
  simp [head]

@[simp] theorem ids_snoc (events : List host.Dict) (event : host.Dict) :
    ids (events ++ [event]) = ids events ++ [item event "event_id"] := by
  simp [ids]

/-- The event has a new id and the two hashes that it must have. -/
structure Links (previous : host.Value) (seen : List host.Value) (event : host.Dict) : Prop where
  truthy_id : python_json.truthy host.python (item event "event_id") = true
  hashable_id : python_json.hashable (item event "event_id") = true
  new_id : seen.any (fun seen => same host.python seen (item event "event_id")) = false
  previous_hash : python_json.eq host.python (item event "previous_event_hash") previous = true
  own_hash : ∃ expected,
    chain_event host (sorted_map.erase (str "event_hash") event) previous = some expected ∧
    python_json.eq host.python (item event "event_hash") (item expected "event_hash") = true

def Verified (events : List host.Dict) : Prop :=
  ∃ report, checkChain host events = some report ∧ report.ok = true

theorem checkId_eq_nil_iff {index : Nat} {seen seen' : List host.Value} {event_id : host.Value} :
    checkId host index seen event_id = some (seen', []) ↔
      python_json.truthy host.python event_id = true ∧ python_json.hashable event_id = true ∧
        seen.any (fun seen => same host.python seen event_id) = false ∧
        seen' = seen ++ [event_id] := by
  unfold checkId
  by_cases hid : python_json.truthy host.python event_id = true
  · by_cases hhash : python_json.hashable event_id = true
    · by_cases hseen : seen.any (fun seen => same host.python seen event_id) = true
      · simp [hid, hhash, hseen]
      · simp [hid, hhash, hseen, eq_comm]
    · simp [hid, hhash]
  · simp [hid]

/-- The check of an event finds no error when there was none before and the event links. -/
theorem checkEvent_eq_nil_iff {index : Nat} {state state' : ChainState host} {event : host.Dict} :
    (checkEvent host index state event = some state' ∧ state'.errors = []) ↔
      state.errors = [] ∧ Links state.previous state.seen_event_ids event ∧
        state' =
          ⟨item event "event_hash", state.seen_event_ids ++ [item event "event_id"], []⟩ := by
  unfold checkEvent
  simp only [Option.bind_eq_bind, Option.bind_eq_some_iff, Option.some.injEq]
  constructor
  · rintro ⟨⟨⟨seen, idErrors⟩, hid, expected, hexpected, rfl⟩, herrors⟩
    simp only [List.append_eq_nil_iff, ite_eq_left_iff, List.cons_ne_nil, imp_false,
      Decidable.not_not] at herrors
    obtain ⟨⟨⟨hstate, hidErrors⟩, hprevious⟩, hhash⟩ := herrors
    subst hidErrors
    obtain ⟨htruthy, hhashable, hfresh, hseen⟩ := checkId_eq_nil_iff.mp hid
    refine ⟨hstate, ⟨htruthy, hhashable, hfresh, hprevious, expected, hexpected, hhash⟩, ?_⟩
    simp [hstate, hprevious, hhash, hseen]
  · rintro ⟨hstate, ⟨htruthy, hhashable, hfresh, hprevious, expected, hexpected, hhash⟩, rfl⟩
    refine ⟨⟨(_, []), checkId_eq_nil_iff.mpr ⟨htruthy, hhashable, hfresh, rfl⟩, expected,
      hexpected, ?_⟩, rfl⟩
    simp [hstate, hprevious, hhash]

/-- Without an error the loop knows the last hash and the ids of the events. -/
theorem tracks : checked_run.Tracks (checkEvent host) (fun state => state.errors = [])
    (fun events => ⟨head host events, ids events, []⟩)
    (fun events event => Links (head host events) (ids events) event) where
  before _ _ _ _ hstep hgood := (checkEvent_eq_nil_iff.mp ⟨hstep, hgood⟩).1
  fits _ events event _ := by
    rw [checkEvent_eq_nil_iff, head_snoc, ids_snoc]
    simp

theorem verified_iff {events : List host.Dict} :
    Verified events ↔
      ∃ state, checked_run.run (checkEvent host) 0 ⟨head host [], ids [], []⟩ events =
        some state ∧ state.errors = [] := by
  unfold Verified checkChain
  simp [ids]

theorem verified_nil : Verified ([] : List host.Dict) := verified_iff.mpr ⟨_, rfl, rfl⟩

/-- One more event verifies exactly when it links to a chain that verifies. -/
theorem verified_snoc {events : List host.Dict} {event : host.Dict} :
    Verified (events ++ [event]) ↔
      Verified events ∧ Links (head host events) (ids events) event := by
  rw [verified_iff, verified_iff]
  exact tracks.good_snoc_iff

theorem eq_str_iff {python : Interpreter} {v : PyValue python.Float} {s : Str} :
    python_json.eq python v (.str s) = true ↔ v = .str s := by
  cases v <;> simp [python_json.eq, same, python_json.asNumber]

theorem same_str_iff {python : Interpreter} {v : PyValue python.Float} {s : Str} :
    same python v (.str s) = true ↔ v = .str s := by
  cases v <;> simp [same, python_json.asNumber]

/-- The text of a hash. -/
def hashText (host : Host) (text : List Char) : String :=
  "sha256:" ++ hex.encode (host.sha256 (utf8.encode (.ofList text)))

theorem item_chain_event_hash {event chained : host.Dict} {previous : host.Value}
    (h : chain_event host event previous = some chained) :
    ∃ text, item chained "event_hash" = .str (str (hashText host text)) := by
  unfold chain_event at h
  split at h
  · obtain ⟨hash, hhash, h⟩ := Option.bind_eq_some_iff.mp h
    obtain ⟨text, -, htext⟩ := Option.bind_eq_some_iff.mp hhash
    cases h
    cases htext
    refine ⟨text, ?_⟩
    unfold item
    rw [dict.get_setItem, if_pos rfl]
    rfl
  · cases h

/-- The head of a chain that verifies is None or a hash. -/
theorem head_of_verified {events : List host.Dict} (h : Verified events) :
    head host events = .none ∨ ∃ text, head host events = .str (str (hashText host text)) := by
  induction events using List.reverseRecOn with
  | nil => exact .inl rfl
  | append_singleton events event _ =>
    obtain ⟨-, hlinks⟩ := verified_snoc.mp h
    obtain ⟨expected, hexpected, heq⟩ := hlinks.own_hash
    obtain ⟨text, htext⟩ := item_chain_event_hash hexpected
    rw [htext, eq_str_iff] at heq
    exact .inr ⟨text, by rw [head_snoc, heq]⟩

end shell_core.tampered_log
