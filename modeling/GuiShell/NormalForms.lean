-- The normal forms of keys in Rust and in Python, side by side: which texts have the same one on
-- both sides, by their characters, and that the one of Python says which one Rust has.
import GuiShell.Broker.AuthoritySpellings
import GuiShell.ShellCore.Normalization

open json_lines shell_core.normalization authority

namespace normal_forms

/-! ## Runs of characters -/

section runs

variable {p q : Char → Bool}

/-- Squeezing the runs of two kinds of characters, the one kind after the other. -/
theorem replaceRuns_replaceRuns (hq : q '_' = true) {a b : Bool} (hab : a = true → b = true)
    (l : List Char) :
    replaceRuns q b (replaceRuns p a l) = replaceRuns (fun c => p c || q c) b l := by
  induction l generalizing a b with
  | nil => rfl
  | cons c l ih =>
    by_cases hp : p c = true
    · cases a with
      | true => simp [replaceRuns, hp, hab rfl, ih]
      | false => cases b <;> simp [replaceRuns, hp, hq, ih]
    · by_cases hqc : q c = true
      · cases b <;> simp [replaceRuns, hp, hqc, ih]
      · simp [replaceRuns, hp, hqc, ih]

theorem replaceRuns_congr {b : Bool} {l : List Char} (h : ∀ c ∈ l, p c = q c) :
    replaceRuns p b l = replaceRuns q b l := by
  induction l generalizing b with
  | nil => rfl
  | cons c l ih =>
    have hl : ∀ b, replaceRuns p b l = replaceRuns q b l := fun b =>
      ih fun d hd => h d (List.mem_cons_of_mem _ hd)
    rw [replaceRuns, replaceRuns, h c List.mem_cons_self, hl, hl]

/-- What is no part of a run stands in the result. -/
theorem mem_replaceRuns {b : Bool} {l : List Char} {c : Char} (hc : c ∈ l) (hp : p c = false) :
    c ∈ replaceRuns p b l := by
  induction l generalizing b with
  | nil => cases hc
  | cons d l ih =>
    rw [replaceRuns]
    rcases List.mem_cons.mp hc with rfl | hc
    · simp [hp]
    · split
      · split
        · exact ih hc
        · exact List.mem_cons_of_mem _ (ih hc)
      · exact List.mem_cons_of_mem _ (ih hc)

theorem replaceRuns_concat {b : Bool} {l : List Char} {c : Char} (hc : p c = true) :
    replaceRuns p b (l ++ [c]) = replaceRuns p b l ∨
      replaceRuns p b (l ++ [c]) = replaceRuns p b l ++ ['_'] := by
  induction l generalizing b with
  | nil => cases b <;> simp [replaceRuns, hc]
  | cons d l ih =>
    rw [List.cons_append, replaceRuns, replaceRuns]
    by_cases hd : p d = true
    · cases b with
      | true => simpa [hd] using ih
      | false => simpa [hd] using ih
    · simpa [hd] using ih

/-- A run that has begun already puts out no underscore of its own. -/
theorem replaceRuns_true (l : List Char) :
    replaceRuns p false l = replaceRuns p true l ∨
      replaceRuns p false l = '_' :: replaceRuns p true l := by
  cases l with
  | nil => exact .inl rfl
  | cons c l => by_cases hc : p c = true <;> simp [replaceRuns, hc]

end runs

/-! ## The two loops -/

/-- What the loop of Rust takes for the end of a word. -/
def parts (c : Char) : Bool := !c.isAlphanum

theorem splitCamel_eq (c : Char) (l : List Char) :
    splitCamel (c :: l) = c :: weave l (humps (c.isLower || c.isDigit) l) := by
  induction l generalizing c with
  | nil => rfl
  | cons d l ih =>
    rw [splitCamel, ih, humps, weave, Bool.and_comm]
    by_cases h : (d.isUpper && (c.isLower || c.isDigit)) = true <;> simp [h]

/-- Python parts the humps of a word as Rust does. -/
theorem splitCamel_eq_weave (l : List Char) : splitCamel l = weave l (humps false l) := by
  cases l with
  | nil => rfl
  | cons c l =>
    rw [splitCamel_eq, humps, weave, Bool.and_false]
    rfl

theorem toLower_of_parts {c : Char} (hc : parts c = true) : c.toLower = c := by
  apply toLower_eq_self
  apply isUpper_of_not_alphanum
  simpa [parts] using hc

theorem small_of_parts {c : Char} (hc : parts c = true) : (c.isLower || c.isDigit) = false := by
  have hnot : c.isAlphanum = false := by simpa only [parts, Bool.not_eq_true'] using hc
  have halpha : ((c.isUpper || c.isLower) || c.isDigit) = false := hnot
  rw [Bool.or_assoc, Bool.or_eq_false_iff] at halpha
  exact halpha.2

theorem parts_toLower (c : Char) : parts c.toLower = parts c := by
  by_cases hc : parts c = true
  · rw [toLower_of_parts hc]
  · have halpha : c.isAlphanum = true := by simpa [parts] using hc
    have hword : isWordChar c = true := by rw [isWordChar, halpha, Bool.true_or]
    have hlower := (wordChar_toLower hword).1
    have hne : c.toLower ≠ '_' := by
      intro hunderscore
      rw [toLower_eq_underscore hunderscore] at halpha
      exact absurd halpha (by decide)
    rw [isWordChar, decide_eq_false hne, Bool.or_false] at hlower
    rw [parts, parts, hlower, halpha]

/-- The loop of Rust: it parts the humps, takes small letters and squeezes what parts words. -/
theorem foldl_tokenStep {s : TokenState} (hs : s.Ends) (l : List Char) :
    (l.foldl tokenStep s).result = s.result ++ replaceRuns parts s.previous_was_underscore
      ((weave l (humps s.previous_was_lower_or_digit l)).map Char.toLower) := by
  induction l generalizing s with
  | nil => simp [weave, replaceRuns]
  | cons c l ih =>
    rw [List.foldl_cons, ih (tokenStep_ends hs c), humps, weave]
    by_cases hc : c.isAlphanum = true
    · have hparts : parts c.toLower = false := by rw [parts_toLower, parts, hc]; rfl
      have hunderscore : parts '_' = true := by decide
      unfold tokenStep
      simp only [hc, if_true]
      by_cases hhump : (c.isUpper && s.previous_was_lower_or_digit) = true
      · have hprevious : s.previous_was_underscore = false := by
          apply Bool.eq_false_iff.mpr
          intro h
          rw [(hs h).1, Bool.and_false] at hhump
          cases hhump
        have hlower : '_'.toLower = '_' := by decide
        simp [hhump, hprevious, replaceRuns, hparts, hunderscore, hlower]
      · simp [hhump, replaceRuns, hparts]
    · have hparts : parts c = true := by simpa [parts] using hc
      have hupper : c.isUpper = false := isUpper_of_not_alphanum (by simpa using hc)
      have hsmall := small_of_parts hparts
      unfold tokenStep
      simp only [hc, hupper, Bool.false_and, Bool.false_eq_true, if_false]
      cases hprevious : s.previous_was_underscore with
      | true =>
        obtain ⟨hlower, -⟩ := hs hprevious
        simp [replaceRuns, toLower_of_parts hparts, hparts, hsmall, hlower]
      | false =>
        simp [replaceRuns, toLower_of_parts hparts, hparts, hsmall]

theorem tokenized_eq (l : List Char) :
    tokenized l = replaceRuns parts false ((splitCamel l).map Char.toLower) := by
  have hends : TokenState.Ends ⟨[], false, false⟩ := fun h => absurd h Bool.false_ne_true
  rw [tokenized, foldl_tokenStep hends, List.nil_append, splitCamel_eq_weave]

/-! ### The ends of a text -/

theorem trim_matches_cons (l : List Char) : trim_matches '_' ('_' :: l) = trim_matches '_' l := by
  unfold trim_matches
  rw [List.dropWhile_cons_of_pos (by simp)]

theorem trim_matches_concat (l : List Char) :
    trim_matches '_' (l ++ ['_']) = trim_matches '_' l := by
  unfold trim_matches
  rw [List.dropWhile_append]
  by_cases hl : (l.dropWhile fun x => x = '_').isEmpty = true
  · rw [if_pos hl, List.isEmpty_iff.mp hl]
    simp
  · rw [if_neg hl, List.reverse_append, List.reverse_singleton, List.singleton_append,
      List.dropWhile_cons_of_pos (by simp)]

/-- What the loop of Rust makes of a text, without the underscores at its ends. -/
def core (l : List Char) : List Char := trim_matches '_' (tokenized l)

theorem core_cons {c : Char} (hc : parts c = true) (l : List Char) : core (c :: l) = core l := by
  unfold core
  rw [tokenized_eq, tokenized_eq, splitCamel_eq, small_of_parts hc, ← splitCamel_eq_weave,
    List.map_cons, toLower_of_parts hc, replaceRuns, if_pos hc]
  simp only [Bool.false_eq_true, if_false]
  rcases replaceRuns_true (p := parts) ((splitCamel l).map Char.toLower) with h | h
  · rw [trim_matches_cons, h]
  · rw [← h]

theorem weave_humps_concat {c : Char} (hc : c.isUpper = false) (b : Bool) (l : List Char) :
    weave (l ++ [c]) (humps b (l ++ [c])) = weave l (humps b l) ++ [c] := by
  induction l generalizing b with
  | nil => simp [weave, humps, hc]
  | cons d l ih => rw [List.cons_append, humps, weave, humps, weave, ih, List.append_assoc]

theorem core_concat {c : Char} (hc : parts c = true) (l : List Char) :
    core (l ++ [c]) = core l := by
  have hupper : c.isUpper = false := isUpper_of_not_alphanum (by simpa [parts] using hc)
  unfold core
  rw [tokenized_eq, tokenized_eq, splitCamel_eq_weave, weave_humps_concat hupper,
    ← splitCamel_eq_weave, List.map_append, List.map_singleton, toLower_of_parts hc]
  rcases replaceRuns_concat (b := false) (l := (splitCamel l).map Char.toLower) hc with h | h
  · rw [h]
  · rw [h, trim_matches_concat]

/-- Dropping characters that part words from both ends of a text leaves its core. -/
theorem core_strip {p : Char → Bool} (hp : ∀ c, p c = true → parts c = true) (l : List Char) :
    core ((l.dropWhile p).reverse.dropWhile p).reverse = core l := by
  have hsame := @strip_eq p (fun m => decide (core m = core l))
    (fun c m hc => by rw [core_cons (hp c hc)]) (fun c m hc => by rw [core_concat (hp c hc)]) l
  simpa using hsame

theorem parts_of_isSpace {c : Char} (hc : isSpace c = true) :
    parts c = true := by
  unfold parts
  rw [Bool.not_eq_true', Bool.eq_false_iff, Ne, isAlphanum_iff]
  simp only [isSpace, Bool.or_eq_true, Bool.and_eq_true,
    decide_eq_true_eq] at hc
  omega

theorem parts_of_isWhitespace {c : Char} (hc : isWhitespace c = true) : parts c = true := by
  rw [parts, isAlphanum_of_isWhitespace hc]
  rfl

/-! ### The characters of a normal form -/

theorem mem_splitCamel {l : List Char} {c : Char} (hc : c ∈ splitCamel l) : c ∈ l ∨ c = '_' := by
  induction l with
  | nil => cases hc
  | cons d l ih =>
    cases l with
    | nil => exact .inl hc
    | cons e l =>
      rw [splitCamel] at hc
      split at hc
      · simp only [List.mem_cons] at hc ih ⊢
        rcases hc with rfl | rfl | hc
        · exact .inl (.inl rfl)
        · exact .inr rfl
        · exact (ih hc).imp_left .inr
      · rcases List.mem_cons.mp hc with rfl | hc
        · exact .inl List.mem_cons_self
        · exact (ih hc).imp_left (List.mem_cons_of_mem _)

theorem mem_strip {l : List Char} {c : Char} (hc : c ∈ strip l) : c ∈ l := by
  unfold strip at hc
  have hback := (List.dropWhile_suffix _).subset (List.mem_reverse.mp hc)
  exact (List.dropWhile_suffix _).subset (List.mem_reverse.mp hback)

theorem mem_of_mem_replaceRuns {p : Char → Bool} {b : Bool} {l : List Char} {c : Char}
    (h : c ∈ replaceRuns p b l) : c = '_' ∨ c ∈ l ∧ p c = false := by
  induction l generalizing b with
  | nil => cases h
  | cons d l ih =>
    rw [replaceRuns] at h
    by_cases hp : p d = true
    · cases b with
      | true =>
        simp only [hp, if_true] at h
        exact (ih h).imp_right fun hc => ⟨List.mem_cons_of_mem _ hc.1, hc.2⟩
      | false =>
        simp only [hp, if_true, Bool.false_eq_true, if_false] at h
        rcases List.mem_cons.mp h with rfl | h
        · exact .inl rfl
        · exact (ih h).imp_right fun hc => ⟨List.mem_cons_of_mem _ hc.1, hc.2⟩
    · rw [if_neg hp] at h
      rcases List.mem_cons.mp h with rfl | h
      · exact .inr ⟨List.mem_cons_self, Bool.eq_false_iff.mpr hp⟩
      · exact (ih h).imp_right fun hc => ⟨List.mem_cons_of_mem _ hc.1, hc.2⟩

theorem dropWhile_eq_self {p : Char → Bool} {l : List Char} (h : ∀ c ∈ l, p c = false) :
    l.dropWhile p = l := by
  cases l with
  | nil => rfl
  | cons c l => simp [h c List.mem_cons_self]

theorem strip_eq_self {l : List Char} (h : ∀ c ∈ l, isSpace c = false) :
    strip l = l := by
  have hback : ∀ c ∈ l.reverse, isSpace c = false :=
    fun c hc => h c (List.mem_reverse.mp hc)
  rw [strip, dropWhile_eq_self h, dropWhile_eq_self hback, List.reverse_reverse]

theorem splitCamel_eq_self {l : List Char} (h : ∀ c ∈ l, c.isUpper = false) :
    splitCamel l = l := by
  induction l with
  | nil => rfl
  | cons c l ih =>
    cases l with
    | nil => rfl
    | cons d l =>
      have hd : d.isUpper = false := h d (List.mem_cons_of_mem _ List.mem_cons_self)
      rw [splitCamel, hd, Bool.and_false, if_neg Bool.false_ne_true,
        ih fun e he => h e (List.mem_cons_of_mem _ he)]

theorem isUpper_toLower (c : Char) : c.toLower.isUpper = false := by
  rw [Bool.eq_false_iff, Ne, authority.isUpper_iff, authority.toNat_toLower]
  split <;> omega

/-! ### The ends of a normal form -/

theorem replaceRuns_concat_not {p : Char → Bool} {b : Bool} {l : List Char} {c : Char}
    (hc : p c = false) : replaceRuns p b (l ++ [c]) = replaceRuns p b l ++ [c] := by
  induction l generalizing b with
  | nil => simp [replaceRuns, hc]
  | cons d l ih =>
    rw [List.cons_append, replaceRuns, replaceRuns]
    split
    · split
      · exact ih
      · rw [ih, List.cons_append]
    · rw [ih, List.cons_append]

/-- What ends in a run ends in an underscore, unless all of it belongs to a run before. -/
theorem getLast?_replaceRuns {p : Char → Bool} {b : Bool} {l : List Char} {c : Char}
    (hc : p c = true) : (replaceRuns p b (l ++ [c])).getLast? = some '_' ∨
      b = true ∧ replaceRuns p b (l ++ [c]) = [] := by
  induction l generalizing b with
  | nil => cases b <;> simp [replaceRuns, hc]
  | cons d l ih =>
    rw [List.cons_append, replaceRuns]
    by_cases hd : p d = true
    · rw [if_pos hd]
      cases b with
      | true => simpa using @ih true
      | false =>
        rcases @ih true with h | ⟨-, h⟩
        · exact .inl (by simp [List.getLast?_cons, h])
        · exact .inl (by simp [h])
    · rw [if_neg hd]
      rcases @ih false with h | ⟨h, -⟩
      · exact .inl (by simp [List.getLast?_cons, h])
      · cases h

theorem mem_splitCamel_of_mem {l : List Char} {c : Char} (hc : c ∈ l) : c ∈ splitCamel l := by
  induction l with
  | nil => cases hc
  | cons d l ih =>
    cases l with
    | nil => exact hc
    | cons e l =>
      rw [splitCamel]
      rcases List.mem_cons.mp hc with rfl | hc
      · split <;> exact List.mem_cons_self
      · split
        · exact List.mem_cons_of_mem _ (List.mem_cons_of_mem _ (ih hc))
        · exact List.mem_cons_of_mem _ (ih hc)

theorem splitCamel_concat (l : List Char) (c : Char) : ∃ m, splitCamel (l ++ [c]) = m ++ [c] := by
  have hlast : (splitCamel (l ++ [c])).getLast? = some c := by
    rw [splitCamel_eq_weave, getLast?_weave (length_humps ..), List.getLast?_concat]
  exact List.getLast?_eq_some_iff.mp hlast

/-- Neither end of a stripped text is a space. -/
theorem isSpace_strip {l : List Char} {c : Char}
    (hc : (strip l).head? = some c ∨ (strip l).getLast? = some c) :
    isSpace c = false := by
  have hdrop : ∀ {l : List Char}, (l.dropWhile isSpace).head? = some c →
      isSpace c = false := by
    intro l h
    have hnot := List.head?_dropWhile_not isSpace l
    rw [h] at hnot
    simpa using hnot
  unfold strip at hc
  rcases hc with hc | hc
  · obtain ⟨front, hfront⟩ := List.dropWhile_suffix (l := (l.dropWhile isSpace).reverse) isSpace
    have hsplit := congrArg List.reverse hfront
    rw [List.reverse_append, List.reverse_reverse] at hsplit
    rw [List.head?_eq_some_iff] at hc
    obtain ⟨rest, hrest⟩ := hc
    apply @hdrop l
    rw [← hsplit, hrest]
    rfl
  · rw [List.getLast?_reverse] at hc
    exact hdrop hc

/-! ## The two normal forms -/

/-- The characters of a text that both sides look at. -/
def visible (unicode : Unicode) (text : String) : List Char :=
  (unicode.nfkc text).toList.filter fun character => character ∉ ZERO_WIDTH_CHARACTERS

/-- What both sides take for the end of a word. Rust takes more for it. -/
def separates (c : Char) : Bool := (isSpace c || c = '-') || c = '_'

/-- Letters, digits and separators, with no separator at an end. -/
structure PlainChars (l : List Char) : Prop where
  chars : ∀ c ∈ l, c.isAlphanum = true ∨ separates c = true
  first : ∀ c, l.head? = some c → c.isAlphanum = true
  last : ∀ c, l.getLast? = some c → c.isAlphanum = true

theorem plainChars_iff {l : List Char} : PlainChars l ↔
    l.all (fun c => c.isAlphanum || separates c) = true ∧
      l.head?.all Char.isAlphanum = true ∧ l.getLast?.all Char.isAlphanum = true := by
  simp only [List.all_eq_true, Bool.or_eq_true, Option.all_eq_true]
  exact ⟨fun h => ⟨h.chars, h.first, h.last⟩, fun h => ⟨h.1, h.2.1, h.2.2⟩⟩

instance : DecidablePred PlainChars := fun _ => decidable_of_iff' _ plainChars_iff

/-- A text whose characters, without the spaces around them, are plain. -/
def Plain (unicode : Unicode) (text : String) : Prop := PlainChars (strip (visible unicode text))

instance (unicode : Unicode) : DecidablePred (Plain unicode) := fun text =>
  inferInstanceAs (Decidable (PlainChars (strip (visible unicode text))))

/-- What `str.casefold` makes of ASCII characters and of the spaces among some characters. -/
structure Folds (unicode : Unicode) (l : List Char) : Prop where
  ascii : ∀ c : Char, c.toNat < 0x80 → unicode.casefold c = [c.toLower]
  spaces : ∀ c ∈ l, isSpace c = true → unicode.casefold c = [c]

/-- A character beyond ASCII that is no space. -/
def Foreign (c : Char) : Prop := 0x80 ≤ c.toNat ∧ isSpace c = false

/-- The foreign characters of a text fold to foreign ones. (Of the characters that NFKC leaves in a
text, those that do not are ß, ẞ, İ, ǰ, ẖ, ẗ, ẘ and ẙ.) -/
def FoldsApart (unicode : Unicode) (text : String) : Prop :=
  ∀ c ∈ visible unicode text, Foreign c →
    unicode.casefold c ≠ [] ∧ ∀ d ∈ unicode.casefold c, Foreign d

variable {crates : Crates} {unicode : Unicode} {text : String} {l : List Char}

theorem parts_of_separates {c : Char} (hc : separates c = true) : parts c = true := by
  simp only [separates, Bool.or_eq_true, decide_eq_true_eq] at hc
  rcases hc with (hspace | rfl) | rfl
  · exact parts_of_isSpace hspace
  · decide
  · decide

theorem parts_of_alphanum {c : Char} (hc : c.isAlphanum = true) : parts c = false := by
  rw [parts, hc]
  rfl

theorem ascii_of_alphanum {c : Char} (hc : c.isAlphanum = true) : c.toNat < 0x80 := by
  rw [isAlphanum_iff] at hc
  omega

theorem core_strip_spaces (l : List Char) : core (strip l) = core l := by
  unfold strip
  exact core_strip (fun c => parts_of_isSpace) l

theorem rust_form (hnfkc : crates.nfkc text = unicode.nfkc text) :
    normalize_authority_token crates text = .ofList (core (visible unicode text)) := by
  have hkept :
      (unicode.nfkc text).toList.filter (fun c => !isZeroWidth c) = visible unicode text := by
    unfold visible
    congr 1
    funext c
    simp [isZeroWidth, ZERO_WIDTH_CHARACTERS, Bool.and_assoc]
  unfold normalize_authority_token
  simp only [hnfkc, hkept]
  show String.ofList (core (trim (visible unicode text))) = _
  rw [trim, core_strip fun c => parts_of_isWhitespace]

theorem python_form (unicode : Unicode) (text : String) : normalize_key unicode text =
    .ofList (replaceRuns separates false
      ((splitCamel (strip (visible unicode text))).flatMap unicode.casefold)) := by
  unfold normalize_key
  dsimp only
  rw [replaceRuns_replaceRuns (by decide) fun h => h]
  rfl

/-! ### Plain texts -/

theorem flatMap_casefold (hfolds : Folds unicode l)
    (hchars : ∀ c ∈ l, c.isAlphanum = true ∨ separates c = true) :
    (splitCamel l).flatMap unicode.casefold = (splitCamel l).map Char.toLower := by
  rw [List.map_eq_flatMap]
  apply List.flatMap_congr
  intro c hc
  rcases mem_splitCamel hc with hc | rfl
  · rcases hchars c hc with halpha | hseparates
    · exact hfolds.ascii c (ascii_of_alphanum halpha)
    · rw [toLower_of_parts (parts_of_separates hseparates)]
      simp only [separates, Bool.or_eq_true, decide_eq_true_eq] at hseparates
      rcases hseparates with (hspace | rfl) | rfl
      · exact hfolds.spaces c hc hspace
      · exact hfolds.ascii '-' (by decide)
      · exact hfolds.ascii '_' (by decide)
  · exact hfolds.ascii '_' (by decide)

/-- On plain characters the separators are all that parts words. -/
theorem replaceRuns_separates (hchars : ∀ c ∈ l, c.isAlphanum = true ∨ separates c = true) :
    replaceRuns separates false ((splitCamel l).map Char.toLower) = tokenized l := by
  rw [tokenized_eq]
  apply replaceRuns_congr
  intro c hc
  obtain ⟨d, hd, rfl⟩ := List.mem_map.mp hc
  have hplain : d.isAlphanum = true ∨ separates d = true := by
    rcases mem_splitCamel hd with hd | rfl
    · exact hchars d hd
    · exact .inr (by decide)
  rcases hplain with halpha | hseparates
  · have hnot : parts d.toLower = false := (parts_toLower d).trans (parts_of_alphanum halpha)
    rw [hnot, Bool.eq_false_iff]
    intro hseparates
    rw [parts_of_separates hseparates] at hnot
    cases hnot
  · rw [toLower_of_parts (parts_of_separates hseparates), hseparates,
      parts_of_separates hseparates]

theorem toLower_ne_underscore {c : Char} (hc : c.isAlphanum = true) : c.toLower ≠ '_' := by
  intro h
  rw [toLower_eq_underscore h] at hc
  cases hc

theorem core_of_plain (h : PlainChars l) : core l = tokenized l := by
  unfold core
  apply trim_matches_eq_self
  · cases l with
    | nil => decide
    | cons c l =>
      have halpha := h.first c rfl
      have hparts : parts c.toLower = false := (parts_toLower c).trans (parts_of_alphanum halpha)
      rw [tokenized_eq, splitCamel_eq, List.map_cons, replaceRuns, hparts, if_neg (by simp)]
      simpa using toLower_ne_underscore halpha
  · rcases List.eq_nil_or_concat l with rfl | ⟨front, c, rfl⟩
    · decide
    · rw [List.concat_eq_append] at h ⊢
      have halpha := h.last c List.getLast?_concat
      have hparts : parts c.toLower = false := (parts_toLower c).trans (parts_of_alphanum halpha)
      obtain ⟨m, hm⟩ := splitCamel_concat front c
      rw [tokenized_eq, hm, List.map_append, List.map_singleton, replaceRuns_concat_not hparts,
        List.getLast?_concat]
      simpa using toLower_ne_underscore halpha

/-- A plain text has the same normal form on both sides. -/
theorem forms_of_plain (hnfkc : crates.nfkc text = unicode.nfkc text)
    (hfolds : Folds unicode (strip (visible unicode text))) (h : Plain unicode text) :
    normalize_key unicode text = normalize_authority_token crates text := by
  rw [rust_form hnfkc, python_form, flatMap_casefold hfolds h.chars, replaceRuns_separates h.chars,
    ← core_strip_spaces, core_of_plain h]

/-! ### Foreign characters -/

theorem mem_folded {c d : Char} (hc : c ∈ l) (hd : d ∈ unicode.casefold c) :
    d ∈ (splitCamel l).flatMap unicode.casefold :=
  List.mem_flatMap.mpr ⟨c, mem_splitCamel_of_mem hc, hd⟩

/-- What stands in the normal form of a word is a word character, or separates. -/
theorem separates_of_normal {m : List Char} (h : Normal (replaceRuns separates false m)) {c : Char}
    (hc : c ∈ m) : isWordChar c = true ∨ separates c = true := by
  by_cases hseparates : separates c = true
  · exact .inr hseparates
  · exact .inl (h.chars c (mem_replaceRuns hc (Bool.not_eq_true _ ▸ hseparates))).1

theorem not_separates_of_foreign {c : Char} (hc : Foreign c) :
    isWordChar c = false ∧ separates c = false := by
  have hne : ∀ d : Char, d.toNat < 0x80 → c ≠ d := by
    rintro d hd rfl
    exact absurd hc.1 (by omega)
  constructor
  · rw [Bool.eq_false_iff]
    intro hword
    exact absurd (wordChar_ascii hword) (by have := hc.1; omega)
  · rw [separates, hc.2, decide_eq_false (hne '-' (by decide)),
      decide_eq_false (hne '_' (by decide))]
    rfl

/-- A text whose normal form in Python is a normal form of Rust is plain, when its foreign
characters fold to foreign ones. -/
theorem plain_of_normal (hfolds : Folds unicode (strip (visible unicode text)))
    (hapart : FoldsApart unicode text) (h : Normal (normalize_key unicode text).toList) :
    Plain unicode text := by
  rw [python_form, String.toList_ofList] at h
  have hmem : ∀ c ∈ strip (visible unicode text), c ∈ visible unicode text :=
    fun c hc => mem_strip hc
  have hends := fun {c} => @isSpace_strip (visible unicode text) c
  unfold Plain
  generalize strip (visible unicode text) = l at hfolds h hmem hends ⊢
  have hchars : ∀ c ∈ l, c.isAlphanum = true ∨ separates c = true := by
    intro c hc
    by_cases hspace : isSpace c = true
    · exact .inr (by simp [separates, hspace])
    rw [Bool.not_eq_true] at hspace
    rcases Nat.lt_or_ge c.toNat 0x80 with hascii | hbeyond
    · by_cases halpha : c.isAlphanum = true
      · exact .inl halpha
      rw [Bool.not_eq_true] at halpha
      have hfold : c ∈ unicode.casefold c := by
        rw [hfolds.ascii c hascii, toLower_eq_self (isUpper_of_not_alphanum halpha)]
        exact List.mem_singleton_self c
      rcases separates_of_normal h (mem_folded hc hfold) with hword | hseparates
      · rw [isWordChar, halpha, Bool.false_or, decide_eq_true_eq] at hword
        exact .inr (by rw [hword]; decide)
      · exact .inr hseparates
    · obtain ⟨hne, hforeign⟩ := hapart c (hmem c hc) ⟨hbeyond, hspace⟩
      obtain ⟨d, hd⟩ := List.exists_mem_of_ne_nil _ hne
      obtain ⟨hword, hseparates⟩ := not_separates_of_foreign (hforeign d hd)
      rcases separates_of_normal h (mem_folded hc hd) with h | h
      · rw [hword] at h
        cases h
      · rw [hseparates] at h
        cases h
  -- A separator at an end is no space, and would give an underscore there.
  have hmark : ∀ c ∈ l, isSpace c = false → separates c = true → unicode.casefold c = [c] := by
    intro c hc hspace hseparates
    rw [separates, hspace, Bool.false_or, Bool.or_eq_true, decide_eq_true_eq,
      decide_eq_true_eq] at hseparates
    rcases hseparates with rfl | rfl
    · exact hfolds.ascii '-' (by decide)
    · exact hfolds.ascii '_' (by decide)
  refine ⟨hchars, fun c hc => ?_, fun c hc => ?_⟩
  · obtain ⟨rest, rfl⟩ := List.head?_eq_some_iff.mp hc
    refine (hchars c List.mem_cons_self).resolve_right fun hseparates => h.first ?_
    rw [splitCamel_eq, List.flatMap_cons,
      hmark c List.mem_cons_self (hends (.inl hc)) hseparates, List.singleton_append, replaceRuns,
      if_pos hseparates]
    rfl
  · obtain ⟨front, rfl⟩ := List.getLast?_eq_some_iff.mp hc
    have hlast : c ∈ front ++ [c] := List.mem_append_right _ (List.mem_singleton_self c)
    refine (hchars c hlast).resolve_right fun hseparates => h.last ?_
    obtain ⟨m, hm⟩ := splitCamel_concat front c
    rw [hm, List.flatMap_append, List.flatMap_singleton,
      hmark c hlast (hends (.inr hc)) hseparates]
    exact (getLast?_replaceRuns hseparates).resolve_right fun h => Bool.false_ne_true h.1

/-- Where the normal forms are the same, and foreign characters fold to foreign ones, the text is
plain. -/
theorem forms_eq_iff (hnfkc : crates.nfkc text = unicode.nfkc text)
    (hfolds : Folds unicode (strip (visible unicode text))) (hapart : FoldsApart unicode text) :
    normalize_key unicode text = normalize_authority_token crates text ↔ Plain unicode text := by
  refine ⟨fun h => plain_of_normal hfolds hapart ?_, forms_of_plain hnfkc hfolds⟩
  rw [h]
  exact normal_normalize crates text

/-- The words that Python looks for as keys. -/
def keyNames : List String := AUTHORITY_KEYS ++ AUTHORITY_KEY_ALIASES.map Prod.fst

theorem normal_of_word {word : String} (h : word ∈ keyNames ++ AUTHORITY_VALUES) :
    Normal word.toList := by
  have hall : (keyNames ++ AUTHORITY_VALUES).all (fun word => isNormal word.toList) = true := by
    decide +kernel
  exact normal_of_isNormal (List.all_eq_true.mp hall word h)

theorem python_claims_iff (key : String) :
    (shell_core.normalization.canonical_authority_key unicode key).isSome = true ↔
      normalize_key unicode key ∈ keyNames := by
  unfold shell_core.normalization.canonical_authority_key keyNames
  dsimp only
  rw [List.mem_append]
  by_cases hkey : normalize_key unicode key ∈ AUTHORITY_KEYS
  · simp [hkey]
  rw [if_neg hkey, or_iff_right hkey, sorted_map.isSome_get_iff]

/-- Rust looks for the same words as keys. -/
theorem rust_claims_iff (key : String) : keyClaimsAuthority crates key = true ↔
    normalize_authority_token crates key ∈ keyNames := by
  have hfound : keyNames.all (fun name => decide (name.toList ∈ keyWords)) = true := by
    decide +kernel
  have hlooked : keyWords.all (fun word => decide (word ∈ keyNames.map String.toList)) = true := by
    decide +kernel
  rw [keyClaimsAuthority, mem_keyWords_iff]
  constructor
  · intro h
    have hword := of_decide_eq_true (List.all_eq_true.mp hlooked _ h)
    obtain ⟨name, hname, hsame⟩ := List.mem_map.mp hword
    rwa [← String.toList_inj.mp hsame]
  · exact fun h => of_decide_eq_true (List.all_eq_true.mp hfound _ h)

/-- And for the same words as values. -/
theorem rust_value_iff (word : String) :
    authority_value_present word = true ↔ word ∈ AUTHORITY_VALUES := by
  rw [authority_value_present, decide_eq_true_eq, AUTHORITY_VALUES]

end normal_forms
