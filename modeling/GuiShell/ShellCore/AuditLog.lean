-- The text of the audit log of the Python shell (audit_events_report in persistence.py), line by
-- line, and what an appended line does to it. The line joins whatever stands after the last line
-- break, so it reads back as an event only where nothing but JSON spaces stands there.
import GuiShell.JsonLines
import GuiShell.ShellCore.AuditChain
import GuiShell.ShellCore.Normalization

open json

namespace shell_core.persistence

/-! ## Lines -/

/-- What reading a file in text mode makes of its line ends. A newline after a carriage return
ends no line of its own. -/
def newlinesFrom (afterReturn : Bool) : List Char → List Char
  | [] => []
  | c :: rest =>
    if c = '\r' then '\n' :: newlinesFrom true rest
    else if c = '\n' ∧ afterReturn = true then newlinesFrom false rest
    else c :: newlinesFrom false rest

def universal_newlines (text : List Char) : List Char := newlinesFrom false text

/-- The characters that end a line for `str.splitlines`. -/
def isBreak (c : Char) : Bool :=
  let n := c.toNat
  (0x0a ≤ n && n ≤ 0x0d) || (0x1c ≤ n && n ≤ 0x1e) || n = 0x85 || n = 0x2028 || n = 0x2029

/-- The lines with a break after them, and what stands after the last break. `line` holds the
characters since the last break. -/
def splitFrom (line : List Char) : List Char → List (List Char) × List Char
  | [] => ([], line)
  | c :: rest =>
    if isBreak c then (line :: (splitFrom [] rest).1, (splitFrom [] rest).2)
    else splitFrom (line ++ [c]) rest

def splitlines (text : List Char) : List (List Char) :=
  let (lines, tail) := splitFrom [] text
  if tail = [] then lines else lines ++ [tail]

/-! ## Events -/

section report

variable (floats : Floats) (json_msg : List Char → String)

/-- The events and the errors of the lines from number `index` on. -/
def reportFrom (index : Nat) : List (List Char) → List Dict × List String
  | [] => ([], [])
  | line :: lines =>
    let (events, errors) := reportFrom (index + 1) lines
    let broken := "audit JSONL の " ++ Nat.repr index ++ " 行目が破損しています: "
    if normalization.strip line = [] then (events, errors)
    else
      match loads floats line with
      | none => (events, (broken ++ json_msg line) :: errors)
      | some (.object event) => (event :: events, errors)
      | some _ => (events, (broken ++ "event が object ではありません") :: errors)

/-- The report on the text of the log. -/
def reportOf (text : List Char) : List Dict × List String :=
  reportFrom floats json_msg 1 (splitlines (universal_newlines text))

/-- The events of a line: none or one, and no list for a line in error. -/
def readLine (line : List Char) : Option (List Dict) :=
  if normalization.strip line = [] then some []
  else
    match loads floats line with
    | some (.object event) => some [event]
    | _ => none

def readLines : List (List Char) → Option (List Dict)
  | [] => some []
  | line :: lines => do
    let events ← readLine floats line
    let more ← readLines lines
    some (events ++ more)

/-- The events of a log without an error. -/
def eventsOf (text : List Char) : Option (List Dict) :=
  readLines floats (splitlines (universal_newlines text))

end report

variable {floats : Floats} {json_msg : List Char → String}

theorem reportFrom_eq_iff {index : Nat} {lines : List (List Char)} {events : List Dict} :
    reportFrom floats json_msg index lines = (events, []) ↔
      readLines floats lines = some events := by
  induction lines generalizing index events with
  | nil => simp [reportFrom, readLines, eq_comm]
  | cons line lines ih =>
    rw [reportFrom, readLines, readLine]
    by_cases hblank : normalization.strip line = []
    · simp only [if_pos hblank, Option.bind_eq_bind, Option.bind_some, List.nil_append,
        Option.bind_eq_some_iff, Option.some.injEq, exists_eq_right]
      exact ih
    · simp only [if_neg hblank]
      rcases hload : loads floats line with _ | v
      · simp
      · cases v with
        | object event =>
          simp only [Prod.mk.injEq, Option.bind_eq_bind, Option.bind_some, Option.bind_eq_some_iff,
            Option.some.injEq]
          constructor
          · rintro ⟨rfl, herrors⟩
            exact ⟨_, ih.mp (Prod.ext rfl herrors), rfl⟩
          · rintro ⟨more, hmore, rfl⟩
            have hrest : reportFrom floats json_msg (index + 1) lines = (more, []) := ih.mpr hmore
            rw [hrest]
            exact ⟨rfl, rfl⟩
        | _ => simp

theorem reportOf_eq_iff {text : List Char} {events : List Dict} :
    reportOf floats json_msg text = (events, []) ↔ eventsOf floats text = some events :=
  reportFrom_eq_iff

theorem readLines_append (lines more : List (List Char)) :
    readLines floats (lines ++ more) = (readLines floats lines).bind fun events =>
      (readLines floats more).map fun events' => events ++ events' := by
  induction lines with
  | nil =>
    rcases h : readLines floats more with _ | events
    · simp [readLines, h]
    · simp [readLines, h]
  | cons line lines ih =>
    rw [List.cons_append, readLines, readLines, ih]
    rcases readLine floats line with _ | events
    · rfl
    · rcases readLines floats lines with _ | events'
      · rfl
      · rcases readLines floats more with _ | events''
        · rfl
        · simp

theorem readLines_singleton (line : List Char) :
    readLines floats [line] = readLine floats line := by
  rcases h : readLine floats line with _ | events
  · simp [readLines, h]
  · simp [readLines, h]

/-! ## An appended line -/

theorem splitFrom_append (line text more : List Char) :
    splitFrom line (text ++ more) =
      ((splitFrom line text).1 ++ (splitFrom (splitFrom line text).2 more).1,
        (splitFrom (splitFrom line text).2 more).2) := by
  induction text generalizing line with
  | nil => simp [splitFrom]
  | cons c text ih =>
    rw [List.cons_append, splitFrom, splitFrom]
    by_cases hc : isBreak c = true
    · simp only [if_pos hc, ih, List.cons_append]
    · simp only [if_neg hc, ih]

theorem splitFrom_line {line more : List Char} (h : ∀ c ∈ more, isBreak c = false) :
    splitFrom line (more ++ ['\n']) = ([line ++ more], []) := by
  induction more generalizing line with
  | nil => simp [splitFrom, isBreak]
  | cons c more ih =>
    rw [List.cons_append, splitFrom, if_neg (by simp [h c List.mem_cons_self]),
      ih fun x hx => h x (List.mem_cons_of_mem _ hx), List.append_assoc, List.singleton_append]

theorem universal_newlines_of_no_return {text : List Char} (h : '\r' ∉ text) :
    universal_newlines text = text := by
  unfold universal_newlines
  induction text with
  | nil => rfl
  | cons c text ih =>
    rw [List.mem_cons, not_or] at h
    rw [newlinesFrom, if_neg (Ne.symm h.1), if_neg (by simp), ih h.2]

/-- Texts are read one after the other when no newline starts the second one. -/
theorem universal_newlines_append (text : List Char) {more : List Char}
    (h : more.head? ≠ some '\n') :
    universal_newlines (text ++ more) = universal_newlines text ++ universal_newlines more := by
  have hflag : ∀ afterReturn, newlinesFrom afterReturn more = newlinesFrom false more := by
    intro afterReturn
    rcases more with _ | ⟨c, more⟩
    · rfl
    · have hc : c ≠ '\n' := by simpa using h
      simp [newlinesFrom, hc]
  have happend : ∀ afterReturn, newlinesFrom afterReturn (text ++ more) =
      newlinesFrom afterReturn text ++ newlinesFrom false more := by
    induction text with
    | nil => exact hflag
    | cons c text ih =>
      intro afterReturn
      rw [List.cons_append, newlinesFrom, newlinesFrom, ih true, ih false]
      split
      · rfl
      · split
        · rfl
        · rfl
  exact happend false

/-- What stands after the last line break of the log. -/
def tailOf (text : List Char) : List Char := (splitFrom [] (universal_newlines text)).2

/-- The lines of the log that end in a break. -/
def linesOf (text : List Char) : List (List Char) := (splitFrom [] (universal_newlines text)).1

theorem eventsOf_eq (text : List Char) :
    eventsOf floats text = (readLines floats (linesOf text)).bind fun events =>
      (readLine floats (tailOf text)).map fun events' => events ++ events' := by
  have hnil : readLine floats [] = some [] := rfl
  unfold eventsOf splitlines linesOf tailOf
  dsimp only
  split
  · rename_i htail
    rw [htail, hnil]
    rcases readLines floats (splitFrom [] (universal_newlines text)).1 with _ | events
    · rfl
    · simp
  · rw [readLines_append, readLines_singleton]

/-- A line is written in printable ASCII. -/
theorem dumps_chars (v : Value) : ∀ c ∈ (dumps v).toList, 0x20 ≤ c.toNat ∧ c.toNat ≤ 0x7e := by
  unfold dumps
  rw [String.toList_ofList]
  exact print_compact_chars ascii (fun c => 0x20 ≤ c.toNat ∧ c.toNat ≤ 0x7e) asciiEscape_range
    (fun _ h => h) 0 v.sortKeys

theorem dumps_ne_nil (v : Value) : (dumps v).toList ≠ [] := by
  obtain ⟨c, t, h, -, -⟩ := print_head ascii compact 0 v.sortKeys
  unfold dumps
  rw [String.toList_ofList, h]
  simp

/-- A line of printable characters joins the tail, and nothing stands after it. -/
theorem append_printable (text : List Char) {line : List Char}
    (hline : ∀ c ∈ line, 0x20 ≤ c.toNat ∧ c.toNat ≤ 0x7e) (hne : line ≠ []) :
    linesOf (text ++ (line ++ ['\n'])) = linesOf text ++ [tailOf text ++ line] ∧
      tailOf (text ++ (line ++ ['\n'])) = [] := by
  have hbreak : ∀ c ∈ line, isBreak c = false := by
    intro c hc
    have hrange := hline c hc
    unfold isBreak
    simp
    omega
  have hreturn : '\r' ∉ line ++ ['\n'] := by
    intro hmem
    rcases List.mem_append.mp hmem with hmem | hmem
    · exact absurd (hline _ hmem) (by decide)
    · simp at hmem
  have hhead : (line ++ ['\n']).head? ≠ some '\n' := by
    obtain ⟨c, t, rfl⟩ := List.exists_cons_of_ne_nil hne
    rw [List.cons_append, List.head?_cons]
    intro hc
    have hrange := hline c List.mem_cons_self
    rw [Option.some.injEq] at hc
    subst hc
    exact absurd hrange (by decide)
  unfold linesOf tailOf
  rw [universal_newlines_append text hhead, universal_newlines_of_no_return hreturn,
    splitFrom_append, splitFrom_line hbreak]
  exact ⟨rfl, rfl⟩

/-- An appended line joins the tail, and nothing stands after it. -/
theorem append_line (text : List Char) (v : Value) :
    linesOf (text ++ ((dumps v).toList ++ ['\n'])) =
        linesOf text ++ [tailOf text ++ (dumps v).toList] ∧
      tailOf (text ++ ((dumps v).toList ++ ['\n'])) = [] :=
  append_printable text (dumps_chars v) (dumps_ne_nil v)

theorem eventsOf_append_line (text : List Char) (v : Value) :
    eventsOf floats (text ++ ((dumps v).toList ++ ['\n'])) =
      (readLines floats (linesOf text)).bind fun events =>
        (readLine floats (tailOf text ++ (dumps v).toList)).map fun events' => events ++ events' := by
  obtain ⟨hlines, htail⟩ := append_line text v
  rw [eventsOf_eq, hlines, htail, readLines_append, readLines_singleton]
  have hnil : readLine floats [] = some [] := rfl
  rw [hnil]
  rcases readLines floats (linesOf text) with _ | events
  · rfl
  · rcases readLine floats (tailOf text ++ (dumps v).toList) with _ | events'
    · rfl
    · simp

/-! ### What is read back -/

theorem dumps_object (event : Dict) : ∃ inner, (dumps (.object event)).toList = '{' :: inner := by
  unfold dumps
  rw [String.toList_ofList, audit_chain.sortKeys_object]
  rcases audit_chain.sortedDict event with _ | ⟨⟨k, v⟩, fields⟩
  · exact ⟨_, rfl⟩
  · exact ⟨_, rfl⟩

theorem strip_brace (before inner : List Char) :
    normalization.strip (before ++ '{' :: inner) ≠ [] := by
  unfold normalization.strip
  rw [Ne, json_lines.dropEnds_eq_nil_iff, List.all_append, List.all_cons]
  simp [normalization.isSpace]

/-- A text with the line of an event in it is not blank. -/
theorem strip_line (before : List Char) (event : Dict) :
    normalization.strip (before ++ (dumps (.object event)).toList) ≠ [] := by
  obtain ⟨inner, h⟩ := dumps_object event
  rw [h]
  exact strip_brace before inner

theorem all_isSpace_strip {l : List Char} (h : l.all isSpace = true) :
    normalization.strip l = [] := by
  unfold normalization.strip
  rw [json_lines.dropEnds_eq_nil_iff]
  rw [List.all_eq_true] at h ⊢
  intro c hc
  have hspace := h c hc
  simp only [isSpace, Bool.or_eq_true, decide_eq_true_eq] at hspace
  rcases hspace with ((rfl | rfl) | rfl) | rfl
  · rfl
  · rfl
  · rfl
  · rfl

/-- After a blank tail the event of the line is read back with sorted keys. -/
theorem readLine_of_blank {tail : List Char} (htail : tail.all isSpace = true) {event : Dict}
    (hheld : Held floats (.object event)) :
    readLine floats (tail ++ (dumps (.object event)).toList) =
      some [audit_chain.sortedDict event] := by
  unfold readLine
  rw [if_neg (strip_line tail event)]
  have hloads : loads floats (tail ++ (dumps (.object event)).toList) =
      some (.object (audit_chain.sortedDict event)) := by
    have hprint := hheld.loads_print htail (List.all_nil) compact ascii 0
    rw [List.append_nil] at hprint
    unfold dumps
    rw [String.toList_ofList]
    exact hprint
  rw [hloads]

/-- A blank of Python that is none of JSON is no printable character. -/
theorem not_printable_of_isSpace {c : Char} (h : normalization.isSpace c = true)
    (hjson : isSpace c = false) : ¬ (0x20 ≤ c.toNat ∧ c.toNat ≤ 0x7e) := by
  rintro ⟨hlow, hhigh⟩
  have hne : c ≠ ' ' := by
    rintro rfl
    exact absurd hjson (by decide)
  have hn : c.toNat ≠ 0x20 := by
    intro hn
    apply hne
    rw [← Char.ofNat_toNat c, hn]
  unfold normalization.isSpace at h
  simp only [Bool.or_eq_true, Bool.and_eq_true, decide_eq_true_eq] at h
  omega

/-- An event that is appended after a blank tail is read back. -/
theorem eventsOf_append_event {text : List Char} {events : List Dict} {event : Dict}
    (hevents : eventsOf floats text = some events) (htail : (tailOf text).all isSpace = true)
    (hheld : Held floats (.object event)) :
    eventsOf floats (text ++ ((dumps (.object event)).toList ++ ['\n'])) =
      some (events ++ [audit_chain.sortedDict event]) := by
  have hblank : readLine floats (tailOf text) = some [] := by
    unfold readLine
    rw [if_pos (all_isSpace_strip htail)]
  rw [eventsOf_eq, hblank] at hevents
  rw [eventsOf_append_line, readLine_of_blank htail hheld]
  rcases hlines : readLines floats (linesOf text) with _ | events'
  · rw [hlines] at hevents
    cases hevents
  · rw [hlines] at hevents
    simp only [Option.bind_some, Option.map_some, List.append_nil, Option.some.injEq] at hevents ⊢
    rw [hevents]

end shell_core.persistence
