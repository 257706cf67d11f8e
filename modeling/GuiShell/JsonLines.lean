-- Files of JSON lines, one record on each line. A program that reads such a file passes
-- over blank lines and stops at the first line that it cannot read.
import GuiShell.Files
import GuiShell.Json.Escapers
import GuiShell.Json.Trailing
import Mathlib.Data.List.TakeWhile

open json

namespace json_lines

/-! ## Lines -/

/-- `char::is_whitespace`: the characters that Unicode calls White_Space. -/
def isWhitespace (c : Char) : Bool :=
  let n := c.toNat
  (0x09 ≤ n && n ≤ 0x0d) || n = 0x20 || n = 0x85 || n = 0xa0 || n = 0x1680 ||
    (0x2000 ≤ n && n ≤ 0x200a) || n = 0x2028 || n = 0x2029 || n = 0x202f || n = 0x205f || n = 0x3000

/-- `str::trim`. -/
def trim (l : List Char) : List Char :=
  ((l.dropWhile isWhitespace).reverse.dropWhile isWhitespace).reverse

/-- Nothing stays between the two ends exactly when all is dropped. -/
theorem dropEnds_eq_nil_iff (p : Char → Bool) (l : List Char) :
    ((l.dropWhile p).reverse.dropWhile p).reverse = [] ↔ l.all p = true := by
  rw [List.reverse_eq_nil_iff, List.dropWhile_eq_nil_iff, List.all_eq_true]
  constructor
  · intro h
    -- A character that stays after the first drop is not dropped, so none stays.
    by_contra hne
    have hnil : l.dropWhile p ≠ [] := fun hd => hne (List.dropWhile_eq_nil_iff.mp hd)
    have hhead := List.head_dropWhile_not p hnil
    have := h _ (List.mem_reverse.mpr (List.head_mem hnil))
    rw [hhead] at this
    cases this
  · intro h c hc
    exact h c ((List.dropWhile_sublist _).subset (List.mem_reverse.mp hc))

theorem trim_eq_nil_iff (l : List Char) : trim l = [] ↔ l.all isWhitespace = true :=
  dropEnds_eq_nil_iff isWhitespace l

theorem dropEnds_eq_self {p : Char → Bool} {l : List Char} (h : ∀ c ∈ l, p c = false) :
    ((l.dropWhile p).reverse.dropWhile p).reverse = l := by
  have hdrop : ∀ l : List Char, (∀ c ∈ l, p c = false) → l.dropWhile p = l := by
    intro l h
    cases l with
    | nil => rfl
    | cons c l => rw [List.dropWhile_cons_of_neg (by simp [h c List.mem_cons_self])]
  rw [hdrop l h, hdrop l.reverse fun c hc => h c (List.mem_reverse.mp hc), List.reverse_reverse]

theorem trim_eq_self {l : List Char} (h : ∀ c ∈ l, isWhitespace c = false) : trim l = l :=
  dropEnds_eq_self h

/-- A line that ends in a newline loses the carriage return before it. -/
def dropReturn (line : List Char) : List Char :=
  if line.getLast? = some '\r' then line.dropLast else line

/-- The lines of a text, where `line` holds the characters since the last newline. -/
def linesFrom (line : List Char) : List Char → List (List Char)
  | [] => if line = [] then [] else [line]
  | c :: rest =>
    if c = '\n' then dropReturn line :: linesFrom [] rest else linesFrom (line ++ [c]) rest

/-- The lines of a file. A line that is not UTF-8 is none. -/
def lines (content : files.Content) : List (Option (List Char)) :=
  (linesFrom [] content.chars).map some ++ if content.broken then [none] else []

def joinLines (ls : List (List Char)) : List Char := ls.flatMap fun line => line ++ ['\n']

theorem joinLines_append (ls ms : List (List Char)) :
    joinLines (ls ++ ms) = joinLines ls ++ joinLines ms := by simp [joinLines]

theorem joinLines_singleton (line : List Char) : joinLines [line] = line ++ ['\n'] := by
  simp [joinLines]

theorem linesFrom_append {line more : List Char} (h : '\n' ∉ more) (rest : List Char) :
    linesFrom line (more ++ '\n' :: rest) = dropReturn (line ++ more) :: linesFrom [] rest := by
  induction more generalizing line with
  | nil => simp [linesFrom]
  | cons c more ih =>
    have hc : c ≠ '\n' := fun hc => h (hc ▸ List.mem_cons_self)
    rw [List.cons_append, linesFrom, if_neg hc, ih fun hm => h (List.mem_cons_of_mem _ hm),
      List.append_assoc, List.singleton_append]

/-- A line that can stand in a file of lines as it is. -/
def IsLine (line : List Char) : Prop := '\n' ∉ line ∧ line.getLast? ≠ some '\r'

theorem linesFrom_joinLines {ls : List (List Char)} (h : ∀ line ∈ ls, IsLine line) :
    linesFrom [] (joinLines ls) = ls := by
  induction ls with
  | nil => rfl
  | cons line ls ih =>
    obtain ⟨hn, hr⟩ := h line List.mem_cons_self
    have hj : joinLines (line :: ls) = line ++ '\n' :: joinLines ls := by simp [joinLines]
    rw [hj, linesFrom_append hn, List.nil_append, dropReturn, if_neg hr,
      ih fun l hl => h l (List.mem_cons_of_mem _ hl)]

/-- A text is some lines and what comes after the last newline, which goes into the line that is
written next. -/
theorem exists_tail (chars : List Char) : ∃ (ls : List (List Char)) (tail : List Char),
    linesFrom [] chars = ls ++ (if tail = [] then [] else [tail]) ∧
      ∀ more, '\n' ∉ more →
        linesFrom [] (chars ++ (more ++ ['\n'])) = ls ++ [dropReturn (tail ++ more)] := by
  have hfrom : ∀ line, '\n' ∉ line → ∃ (ls : List (List Char)) (tail : List Char),
      linesFrom line chars = ls ++ (if tail = [] then [] else [tail]) ∧
        ∀ more, '\n' ∉ more →
          linesFrom line (chars ++ (more ++ ['\n'])) = ls ++ [dropReturn (tail ++ more)] := by
    induction chars with
    | nil =>
      intro line _
      refine ⟨[], line, rfl, fun more hmore => ?_⟩
      rw [List.nil_append, linesFrom_append hmore]
      rfl
    | cons c chars ih =>
      intro line hline
      by_cases hc : c = '\n'
      · obtain ⟨ls, tail, hlines, happend⟩ := ih [] List.not_mem_nil
        refine ⟨dropReturn line :: ls, tail, ?_, fun more hmore => ?_⟩
        · rw [linesFrom, if_pos hc, hlines]
          rfl
        · rw [List.cons_append, linesFrom, if_pos hc, happend more hmore]
          rfl
      · have hnext : '\n' ∉ line ++ [c] := by
          simp only [List.mem_append, List.mem_singleton, not_or]
          exact ⟨hline, Ne.symm hc⟩
        obtain ⟨ls, tail, hlines, happend⟩ := ih (line ++ [c]) hnext
        refine ⟨ls, tail, ?_, fun more hmore => ?_⟩
        · rw [linesFrom, if_neg hc, hlines]
        · rw [List.cons_append, linesFrom, if_neg hc, happend more hmore]
  exact hfrom [] List.not_mem_nil

/-! ## Records on lines -/

/-- How a record is written as an object and read back. -/
structure Codec (ρ : Type) where
  fields : ρ → List (String × Value)
  decode : Value → Option ρ
  decode_fields : ∀ record, decode (.object (fields record)) = some record

variable {ρ α ε : Type} (codec : Codec ρ)

/-- The line of a record. -/
def Codec.line (record : ρ) : List Char := print compact raw 0 (.object (codec.fields record))

def Codec.read (text : List Char) : Option ρ := (parse (.ofList text)).bind codec.decode

/-- The text of a file of records. -/
def Codec.text (records : List ρ) : List Char := joinLines (records.map codec.line)

/-- Goes through the lines of a file, with the number of each line. -/
def foldLines (unreadable : Nat → ε) (malformed : Nat → List Char → ε)
    (step : Nat → α → ρ → Except ε α) : Nat → α → List (Option (List Char)) → Except ε α
  | _, acc, [] => .ok acc
  | number, _, none :: _ => .error (unreadable number)
  | number, acc, some line :: rest =>
    if trim line = [] then foldLines unreadable malformed step (number + 1) acc rest
    else
      match codec.read line with
      | none => .error (malformed number line)
      | some record =>
        match step number acc record with
        | .ok acc => foldLines unreadable malformed step (number + 1) acc rest
        | .error e => .error e

/-- The same on the records themselves. -/
def foldRecords (step : Nat → α → ρ → Except ε α) : Nat → α → List ρ → Except ε α
  | _, acc, [] => .ok acc
  | number, acc, record :: rest =>
    match step number acc record with
    | .ok acc => foldRecords step (number + 1) acc rest
    | .error e => .error e

/-- The loop that collects the records. -/
theorem foldRecords_collect (number : Nat) (acc records : List ρ) :
    foldRecords (ε := ε) (fun _ records record => .ok (records ++ [record])) number acc records =
      .ok (acc ++ records) := by
  induction records generalizing number acc with
  | nil => rw [List.append_nil]; rfl
  | cons record records ih =>
    rw [foldRecords]
    dsimp only
    rw [ih, List.append_assoc, List.singleton_append]

theorem Codec.read_line (record : ρ) : codec.read (codec.line record) = some record := by
  rw [Codec.read, Codec.line, parse_print, Option.bind_some, codec.decode_fields]

/-- The line of a record stands between the brackets of an object. -/
theorem Codec.line_eq (record : ρ) : ∃ inner, codec.line record = '{' :: (inner ++ ['}']) := by
  unfold Codec.line
  rcases hf : codec.fields record with _ | ⟨⟨k, v⟩, fields⟩
  · exact ⟨[], rfl⟩
  · refine ⟨printString raw k ++ ':' :: (print compact raw 1 v ++ printFields compact raw 1 fields), ?_⟩
    simp [print]

theorem Codec.isLine_line (record : ρ) : IsLine (codec.line record) := by
  refine ⟨newline_not_mem_print 0 _, ?_⟩
  obtain ⟨inner, h⟩ := codec.line_eq record
  rw [h, ← List.cons_append, List.getLast?_concat]
  decide

theorem Codec.trim_line (record : ρ) : trim (codec.line record) ≠ [] := by
  rw [ne_eq, trim_eq_nil_iff]
  obtain ⟨inner, h⟩ := codec.line_eq record
  rw [h, List.all_cons]
  exact fun hall => absurd ((Bool.and_eq_true_iff.mp hall).1) (by decide)

theorem Codec.lines_text (records : List ρ) :
    lines (.text (codec.text records)) = records.map fun record => some (codec.line record) := by
  rw [lines, files.Content.text, Codec.text, linesFrom_joinLines]
  · simp
  · intro line hl
    obtain ⟨record, _, rfl⟩ := List.mem_map.mp hl
    exact codec.isLine_line record

theorem Codec.text_snoc (records : List ρ) (record : ρ) :
    codec.text records ++ (codec.line record ++ ['\n']) = codec.text (records ++ [record]) := by
  rw [Codec.text, Codec.text, List.map_append, joinLines_append, List.map_singleton,
    joinLines_singleton]

/-- A file of records reads as its records. -/
theorem foldLines_text (unreadable : Nat → ε) (malformed : Nat → List Char → ε)
    (step : Nat → α → ρ → Except ε α) (number : Nat) (acc : α) (records : List ρ) :
    foldLines codec unreadable malformed step number acc (lines (.text (codec.text records))) =
      foldRecords step number acc records := by
  rw [codec.lines_text]
  induction records generalizing number acc with
  | nil => rfl
  | cons record records ih =>
    rw [List.map_cons, foldLines, if_neg (codec.trim_line record), codec.read_line, foldRecords]
    dsimp only
    cases step number acc record with
    | ok acc => exact ih (number + 1) acc
    | error e => rfl

/-! ## The records of a file -/

/-- The records on some lines. A blank line has none. -/
def Codec.recordsOf (ls : List (Option (List Char))) : List ρ :=
  ls.filterMap fun line => line.bind codec.read

theorem Codec.recordsOf_append (ls ms : List (Option (List Char))) :
    codec.recordsOf (ls ++ ms) = codec.recordsOf ls ++ codec.recordsOf ms :=
  List.filterMap_append

theorem Codec.recordsOf_text (records : List ρ) :
    codec.recordsOf (lines (.text (codec.text records))) = records := by
  have hread : ((fun line => line.bind codec.read) ∘ fun record => some (codec.line record)) =
      some := by
    funext record
    exact codec.read_line record
  rw [codec.lines_text, Codec.recordsOf, List.filterMap_map, hread, List.filterMap_some]

theorem isNumberChar_of_isWhitespace {c : Char} (h : isWhitespace c = true) :
    isNumberChar c = false := by
  by_contra hnumber
  rw [Bool.not_eq_false] at hnumber
  simp only [isNumberChar, Bool.or_eq_true, decide_eq_true_eq] at hnumber
  rcases hnumber with ((((hdigit | rfl) | rfl) | rfl) | rfl) | rfl
  · simp only [Char.isDigit, Bool.and_eq_true, decide_eq_true_eq, ge_iff_le] at hdigit
    have h1 : (48 : Nat) ≤ c.toNat := hdigit.1
    have h2 : c.toNat ≤ (57 : Nat) := hdigit.2
    simp only [isWhitespace, Bool.or_eq_true, Bool.and_eq_true, decide_eq_true_eq] at h
    omega
  all_goals exact absurd h (by decide)

/-- A text that starts with a space of Unicode that is none of JSON has no value. -/
theorem parse_blank_append {w : List Char} (hw : w.all isWhitespace = true)
    (hspace : skipSpace w ≠ []) (l : List Char) : parse (.ofList (w ++ l)) = none := by
  rcases hskip : skipSpace w with _ | ⟨c, rest⟩
  · exact absurd hskip hspace
  · have hsplit : w.takeWhile isSpace ++ c :: rest = w := by
      rw [← hskip]
      exact List.takeWhile_append_dropWhile
    have hc : isWhitespace c = true :=
      List.all_eq_true.mp hw c (hsplit ▸ List.mem_append_right _ List.mem_cons_self)
    have hhead : isSpace c = false := by
      have hdrop : w.dropWhile isSpace = c :: rest := hskip
      have hne : w.dropWhile isSpace ≠ [] := by
        rw [hdrop]
        exact List.cons_ne_nil c rest
      have hfirst := List.head_dropWhile_not isSpace hne
      simpa only [hdrop, List.head_cons] using hfirst
    rw [← hsplit, List.append_assoc, List.cons_append]
    apply parse_eq_none_of_head List.all_takeWhile hhead (isNumberChar_of_isWhitespace hc)
    refine ⟨?_, ?_, ?_, ?_, ?_, ?_⟩ <;> (rintro rfl; exact absurd hc (by decide))

/-- A blank line is no JSON text. -/
theorem Codec.read_blank {line : List Char} (h : trim line = []) : codec.read line = none := by
  rw [trim_eq_nil_iff] at h
  by_cases hskip : skipSpace line = []
  · rw [Codec.read, parse, String.toList_ofList, readValue_blank hskip]
    rfl
  · have hnone := parse_blank_append h hskip []
    rw [List.append_nil] at hnone
    rw [Codec.read, hnone]
    rfl

/-- The line is blank, or it holds a record. -/
def Codec.Readable (line : Option (List Char)) : Prop :=
  ∃ text, line = some text ∧ (trim text = [] ∨ ∃ record, codec.read text = some record)

/-- Every line of a file that loads is readable, and the loop takes the records in turn. -/
theorem foldLines_ok {unreadable : Nat → ε} {malformed : Nat → List Char → ε}
    {step : Nat → α → ρ → Except ε α} {keep : α → ρ → α} {P : ρ → Prop}
    (hstep : ∀ number acc record acc', step number acc record = .ok acc' →
      P record ∧ acc' = keep acc record)
    {number : Nat} {acc result : α} {ls : List (Option (List Char))}
    (h : foldLines codec unreadable malformed step number acc ls = .ok result) :
    (∀ line ∈ ls, codec.Readable line) ∧ (∀ record ∈ codec.recordsOf ls, P record) ∧
      result = (codec.recordsOf ls).foldl keep acc := by
  induction ls generalizing number acc with
  | nil =>
    cases h
    exact ⟨fun line hl => absurd hl List.not_mem_nil,
      fun record hr => absurd hr List.not_mem_nil, rfl⟩
  | cons line ls ih =>
    rcases line with _ | text
    · cases h
    · rw [foldLines] at h
      by_cases hblank : trim text = []
      · rw [if_pos hblank] at h
        obtain ⟨hread, hrecords, hresult⟩ := ih h
        have hnone : codec.recordsOf (some text :: ls) = codec.recordsOf ls :=
          List.filterMap_cons_none (codec.read_blank hblank)
        rw [hnone]
        refine ⟨?_, hrecords, hresult⟩
        intro line hl
        rcases List.mem_cons.mp hl with rfl | hl
        · exact ⟨text, rfl, .inl hblank⟩
        · exact hread line hl
      · rw [if_neg hblank] at h
        split at h
        · cases h
        · rename_i record hrecord
          have hsome : codec.recordsOf (some text :: ls) = record :: codec.recordsOf ls :=
            List.filterMap_cons_some hrecord
          rw [hsome]
          split at h
          · rename_i acc' hacc
            obtain ⟨hP, hkeep⟩ := hstep _ _ _ _ hacc
            obtain ⟨hread, hrecords, hresult⟩ := ih h
            refine ⟨?_, ?_, ?_⟩
            · intro line hl
              rcases List.mem_cons.mp hl with rfl | hl
              · exact ⟨text, rfl, .inr ⟨record, hrecord⟩⟩
              · exact hread line hl
            · intro record' hr
              rcases List.mem_cons.mp hr with rfl | hr
              · exact hP
              · exact hrecords record' hr
            · rw [hresult, hkeep, List.foldl_cons]
          · cases h

/-! ### A line that is written -/

/-- A record is read from what shows its own end. -/
def Codec.Bracketed : Prop := ∀ v record, codec.decode v = some record →
  (∃ fields, v = .object fields) ∨ ∃ items, v = .array items

/-- What stands before a line without a newline goes into it. Only spaces of JSON leave it
readable. -/
theorem Codec.read_append_line (hbracketed : codec.Bracketed) {tail : List Char} {record : ρ}
    (htail : codec.Readable (some tail)) (hline : codec.Readable (some (tail ++ codec.line record))) :
    trim tail = [] ∧ codec.read (tail ++ codec.line record) = some record := by
  obtain ⟨inner, hinner⟩ := codec.line_eq record
  have hrecord : ∃ record', codec.read (tail ++ codec.line record) = some record' := by
    obtain ⟨text, htext, hblank | hread⟩ := hline
    · cases htext
      rw [trim_eq_nil_iff, List.all_append, hinner, List.all_cons] at hblank
      exact absurd hblank (by simp [show isWhitespace '{' = false from by decide])
    · cases htext
      exact hread
  obtain ⟨record', hread⟩ := hrecord
  obtain ⟨text, htext, hblank | ⟨record'', htail⟩⟩ := htail <;> cases htext
  · refine ⟨hblank, ?_⟩
    rw [trim_eq_nil_iff] at hblank
    by_cases hskip : skipSpace tail = []
    · have hspaces : tail.all isSpace = true :=
        List.all_eq_true.mpr (List.dropWhile_eq_nil_iff.mp hskip)
      have hparse := @parse_spaces tail [] hspaces rfl compact raw 0
        (.object (codec.fields record))
      rw [List.append_nil] at hparse
      rw [Codec.read, Codec.line, hparse, Option.bind_some, codec.decode_fields]
    · rw [Codec.read, parse_blank_append hblank hskip] at hread
      cases hread
  · -- A record and more after it is no record.
    have hskip : skipSpace (codec.line record) ≠ [] := by
      rw [hinner, skipSpace_cons rfl]
      exact List.cons_ne_nil _ _
    rw [Codec.read, Option.bind_eq_some_iff] at htail
    obtain ⟨v, hv, hdecode⟩ := htail
    have hnone : parse (.ofList (tail ++ codec.line record)) = none := by
      rcases hbracketed v record'' hdecode with ⟨fields, rfl⟩ | ⟨items, rfl⟩
      · exact parse_append_eq_none hv hskip
      · exact parse_array_append_eq_none hv hskip
    rw [Codec.read, hnone] at hread
    cases hread

/-- Where a file is readable before a line is written and after, the line adds its record. -/
theorem Codec.recordsOf_append_line (hbracketed : codec.Bracketed) {content : files.Content}
    {record : ρ} (hold : ∀ line ∈ lines content, codec.Readable line)
    (hnew : ∀ line ∈ lines (content.append (codec.line record ++ ['\n'])), codec.Readable line) :
    codec.recordsOf (lines (content.append (codec.line record ++ ['\n']))) =
      codec.recordsOf (lines content) ++ [record] := by
  obtain ⟨chars, broken⟩ := content
  cases broken with
  | true =>
    obtain ⟨text, htext, _⟩ := hold none (List.mem_append_right _ List.mem_cons_self)
    cases htext
  | false =>
    obtain ⟨ls, tail, hlines, happend⟩ := exists_tail chars
    have hline := codec.isLine_line record
    obtain ⟨inner, hinner⟩ := codec.line_eq record
    have hreturn : dropReturn (tail ++ codec.line record) = tail ++ codec.line record := by
      rw [dropReturn, if_neg]
      rw [hinner, ← List.cons_append, ← List.append_assoc, List.getLast?_concat]
      decide
    have hafter : lines ((files.Content.mk chars false).append (codec.line record ++ ['\n'])) =
        ls.map some ++ [some (tail ++ codec.line record)] := by
      have hlines' := happend _ hline.1
      rw [hreturn] at hlines'
      simp [lines, files.Content.append, files.Content.text, hlines']
    have hbefore : lines (files.Content.mk chars false) =
        ls.map some ++ (if tail = [] then [] else [some tail]) := by
      rw [lines, hlines, List.map_append]
      split <;> simp
    rw [hafter] at hnew ⊢
    rw [hbefore] at hold ⊢
    rw [codec.recordsOf_append, codec.recordsOf_append, List.append_assoc]
    congr 1
    by_cases htail : tail = []
    · subst htail
      have hread : (some (codec.line record)).bind codec.read = some record :=
        codec.read_line record
      simp [Codec.recordsOf, hread]
    · rw [if_neg htail] at hold ⊢
      obtain ⟨hblank, hread⟩ := codec.read_append_line hbracketed
        (hold _ (List.mem_append_right _ List.mem_cons_self))
        (hnew _ (List.mem_append_right _ List.mem_cons_self))
      have hnone := codec.read_blank hblank
      simp [Codec.recordsOf, hread, hnone]

end json_lines
