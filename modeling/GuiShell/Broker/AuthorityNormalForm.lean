-- The normal form of a word (protocol.rs). Normalization gives small letters, digits and single
-- underscores, breaks a word before each capital that follows a small letter, and changes nothing
-- when it is done again.
import GuiShell.Broker.AuthorityWords
import Mathlib.Data.List.Chain

open json_lines

namespace authority

/-! ## Humps -/

/-- For each character, whether it is a capital that follows a small letter or a digit. -/
def humps (previous_was_lower_or_digit : Bool) : List Char → List Bool
  | [] => []
  | c :: l => (c.isUpper && previous_was_lower_or_digit) :: humps (c.isLower || c.isDigit) l

/-- The text with an underscore before each character that is marked. -/
def weave : List Char → List Bool → List Char
  | c :: l, mark :: marks => (if mark then ['_', c] else [c]) ++ weave l marks
  | _, _ => []

@[simp] theorem length_humps (b : Bool) (l : List Char) : (humps b l).length = l.length := by
  induction l generalizing b with
  | nil => rfl
  | cons c l ih => rw [humps, List.length_cons, ih, List.length_cons]

theorem length_weave {l : List Char} {marks : List Bool} (h : marks.length = l.length) :
    (weave l marks).length = l.length + marks.count true := by
  induction l generalizing marks with
  | nil =>
    rw [List.length_nil, List.length_eq_zero_iff] at h
    subst h
    rfl
  | cons c l ih =>
    cases marks with
    | nil => simp at h
    | cons mark marks =>
      simp only [List.length_cons, Nat.add_right_cancel_iff] at h
      cases mark
      · simp [weave, ih h]
        omega
      · simp [weave, ih h]
        omega

theorem weave_eq_self {l : List Char} {marks : List Bool} (h : marks.length = l.length)
    (hmarks : true ∉ marks) : weave l marks = l := by
  induction l generalizing marks with
  | nil => rw [weave]; simp
  | cons c l ih =>
    cases marks with
    | nil => simp at h
    | cons mark marks =>
      simp only [List.length_cons, Nat.add_right_cancel_iff] at h
      simp only [List.mem_cons, not_or] at hmarks
      have hmark : mark = false := by simpa using hmarks.1
      rw [weave, hmark, ih h hmarks.2]
      rfl

/-- Only a text without marks is its own weave. -/
theorem unmarked_of_weave_eq {l : List Char} {marks : List Bool} (h : marks.length = l.length)
    (heq : weave l marks = l) : true ∉ marks := by
  have hlength := length_weave h
  rw [heq] at hlength
  rw [← List.count_eq_zero]
  omega

/-- The letters of a text, without its underscores. -/
def letters (l : List Char) : List Char := l.filter fun c => c ≠ '_'

theorem letters_weave {l : List Char} {marks : List Bool} (h : marks.length = l.length) :
    letters (weave l marks) = letters l := by
  unfold letters
  induction l generalizing marks with
  | nil => rw [weave]; simp
  | cons c l ih =>
    cases marks with
    | nil => simp at h
    | cons mark marks =>
      simp only [List.length_cons, Nat.add_right_cancel_iff] at h
      rw [weave, List.filter_append, ih h]
      cases mark
      · exact (List.filter_append ..).symm
      · exact (List.filter_append ['_', c] l).symm.trans (by simp)

/-- Where there was no underscore, the weave shows its marks. -/
theorem weave_injective {l : List Char} (hl : '_' ∉ l) {marks marks' : List Bool}
    (h : marks.length = l.length) (h' : marks'.length = l.length)
    (heq : weave l marks = weave l marks') : marks = marks' := by
  induction l generalizing marks marks' with
  | nil =>
    rw [List.length_nil, List.length_eq_zero_iff] at h h'
    rw [h, h']
  | cons c l ih =>
    simp only [List.mem_cons, not_or] at hl
    cases marks with
    | nil => simp at h
    | cons mark marks =>
      cases marks' with
      | nil => simp at h'
      | cons mark' marks' =>
        simp only [List.length_cons, Nat.add_right_cancel_iff] at h h'
        cases mark <;> cases mark'
        · simp only [weave, Bool.false_eq_true, if_false, List.cons_append, List.nil_append,
            List.cons.injEq, true_and] at heq
          rw [ih hl.2 h h' heq]
        · simp [weave, Ne.symm hl.1] at heq
        · simp [weave, hl.1] at heq
        · simp only [weave, if_true, List.cons_append, List.nil_append, List.cons.injEq,
            true_and] at heq
          rw [ih hl.2 h h' heq]

/-- A text is its own weave, or it is broken at its first mark. -/
theorem weave_cases {l : List Char} {marks : List Bool} (h : marks.length = l.length) :
    true ∉ marks ∨ ∃ a b marks', l = a ++ b ∧ b ≠ [] ∧ marks'.length = b.length ∧
      weave l marks = a ++ '_' :: weave b marks' ∧ (marks.head? ≠ some true → a ≠ []) := by
  induction l generalizing marks with
  | nil =>
    rw [List.length_nil, List.length_eq_zero_iff] at h
    subst h
    exact .inl (by simp)
  | cons c l ih =>
    cases marks with
    | nil => simp at h
    | cons mark marks =>
      simp only [List.length_cons, Nat.add_right_cancel_iff] at h
      cases mark
      · rcases ih h with hnone | ⟨a, b, marks', rfl, hb, hlength, hweave, -⟩
        · exact .inl (by simpa using hnone)
        · refine .inr ⟨c :: a, b, marks', rfl, hb, hlength, ?_, fun _ => by simp⟩
          simp [weave, hweave]
      · refine .inr ⟨[], c :: l, false :: marks, rfl, by simp, by simp [h], ?_, by simp⟩
        simp [weave]

/-! ## Small letters -/

theorem toNat_toLower (c : Char) : c.toLower.toNat =
    if 65 ≤ c.toNat ∧ c.toNat ≤ 90 then c.toNat + 32 else c.toNat := by
  unfold Char.toLower
  by_cases h : 65 ≤ c.toNat ∧ c.toNat ≤ 90
  · have hval : c.val ≥ 'A'.val ∧ c.val ≤ 'Z'.val := h
    rw [dif_pos hval, if_pos h]
    show (c.val + ('a'.val - 'A'.val)).toNat = c.val.toNat + 32
    rw [UInt32.toNat_add]
    have hlt : c.val.toNat ≤ 90 := h.2
    have h32 : ('a'.val - 'A'.val).toNat = 32 := by decide
    rw [h32]
    omega
  · have hval : ¬ (c.val ≥ 'A'.val ∧ c.val ≤ 'Z'.val) := h
    rw [dif_neg hval, if_neg h]

theorem isUpper_iff (c : Char) : c.isUpper = true ↔ 65 ≤ c.toNat ∧ c.toNat ≤ 90 := by
  have hcases : c.isUpper = decide (65 ≤ c.toNat ∧ c.toNat ≤ 90) := rfl
  rw [hcases, decide_eq_true_eq]

theorem toLower_eq_underscore {c : Char} (h : c.toLower = '_') : c = '_' := by
  have hnat := congrArg Char.toNat h
  have h95 : '_'.toNat = 95 := by decide
  rw [toNat_toLower, h95] at hnat
  apply Char.toNat_inj.mp
  rw [h95]
  split at hnat
  · omega
  · exact hnat

/-! ## The normal form of a word -/

/-- The characters of the words: letters, digits and underscores. -/
def isWordChar (c : Char) : Bool := c.isAlphanum || c = '_'

theorem isWordChar_iff (c : Char) : isWordChar c = true ↔
    ((65 ≤ c.toNat ∧ c.toNat ≤ 90) ∨ (97 ≤ c.toNat ∧ c.toNat ≤ 122)) ∨
      (48 ≤ c.toNat ∧ c.toNat ≤ 57) ∨ c = '_' := by
  rw [isWordChar, Bool.or_eq_true, isAlphanum_iff, decide_eq_true_eq, or_assoc]

/-- The small letter of a word character is one, and no capital. -/
theorem wordChar_toLower {c : Char} (hc : isWordChar c = true) :
    isWordChar c.toLower = true ∧ c.toLower.isUpper = false := by
  rw [isWordChar_iff] at hc ⊢
  rw [Bool.eq_false_iff, Ne, isUpper_iff, toNat_toLower]
  by_cases hunderscore : c = '_'
  · subst hunderscore
    exact ⟨.inr (.inr (by decide)), by decide⟩
  · simp only [hunderscore, or_false] at hc
    refine ⟨?_, ?_⟩
    · rcases hc with (hc | hc) | hc
      · rw [if_pos hc]
        omega
      · rw [if_neg (by omega)]
        omega
      · rw [if_neg (by omega)]
        omega
    · split
      · omega
      · assumption

/-- Two underscores do not stand together. -/
def Single (l : List Char) : Prop := l.IsChain fun a b => ¬ (a = '_' ∧ b = '_')

/-- On a word the loop puts out each character in small, and an underscore before each hump. -/
theorem tokenStep_wordChar {s : TokenState} (hs : s.Ends) {c : Char} (hc : isWordChar c = true)
    (hnext : s.previous_was_underscore = true → c ≠ '_') :
    tokenStep s c = {
      result := s.result ++
        (if c.isUpper && s.previous_was_lower_or_digit then ['_', c.toLower] else [c.toLower])
      previous_was_underscore := decide (c = '_')
      previous_was_lower_or_digit := c.isLower || c.isDigit } := by
  by_cases hunderscore : c = '_'
  · subst hunderscore
    have hprevious : s.previous_was_underscore = false :=
      Bool.eq_false_iff.mpr fun h => hnext h rfl
    have hupper : '_'.isUpper = false := by decide
    have halpha : '_'.isAlphanum = false := by decide
    unfold tokenStep
    simp only [hupper, halpha, hprevious, Bool.false_and, Bool.false_eq_true, if_false,
      Bool.not_false, if_true, TokenState.mk.injEq]
    exact ⟨rfl, rfl, rfl⟩
  · have halpha : c.isAlphanum = true := by
      simpa [isWordChar, hunderscore] using hc
    unfold tokenStep
    simp only [halpha, if_true, hunderscore, decide_false, TokenState.mk.injEq, and_true]
    by_cases hhump : (c.isUpper && s.previous_was_lower_or_digit) = true
    · have hprevious : s.previous_was_underscore = false := by
        rw [Bool.and_eq_true] at hhump
        refine Bool.eq_false_iff.mpr fun h => ?_
        rw [(hs h).1] at hhump
        exact absurd hhump.2 (by simp)
      simp [hhump, hprevious]
    · rw [Bool.not_eq_true] at hhump
      simp [hhump]

theorem foldl_word {s : TokenState} (hs : s.Ends) {l : List Char}
    (hl : ∀ c ∈ l, isWordChar c = true) (hsingle : Single l)
    (hhead : s.previous_was_underscore = true → l.head? ≠ some '_') :
    (l.foldl tokenStep s).result =
      s.result ++ weave (l.map Char.toLower) (humps s.previous_was_lower_or_digit l) := by
  induction l generalizing s with
  | nil => simp [weave, humps]
  | cons c l ih =>
    have hstep := tokenStep_wordChar hs (hl c List.mem_cons_self)
      fun h hc => hhead h (by rw [hc]; rfl)
    have hchain := List.isChain_cons.mp hsingle
    have hends : (tokenStep s c).Ends := tokenStep_ends hs c
    rw [List.foldl_cons, ih hends (fun d hd => hl d (List.mem_cons_of_mem _ hd)) hchain.2]
    · rw [hstep, List.map_cons, humps, weave, List.append_assoc]
    · intro hprevious hnext
      rw [hstep] at hprevious
      exact hchain.1 '_' hnext ⟨of_decide_eq_true hprevious, rfl⟩

theorem tokenized_word {l : List Char} (hl : ∀ c ∈ l, isWordChar c = true) (hsingle : Single l) :
    tokenized l = weave (l.map Char.toLower) (humps false l) := by
  have hstart : TokenState.Ends ⟨[], false, false⟩ := fun h => absurd h Bool.false_ne_true
  exact foldl_word hstart hl hsingle fun h => absurd h Bool.false_ne_true

/-! ### The ends -/

theorem head?_weave {l : List Char} {marks : List Bool} (h : marks.length = l.length)
    (hfirst : marks.head? ≠ some true) : (weave l marks).head? = l.head? := by
  cases l with
  | nil => rw [weave]; simp
  | cons c l =>
    cases marks with
    | nil => simp at h
    | cons mark marks =>
      have hmark : mark = false := by simpa using hfirst
      rw [weave, hmark]
      rfl

theorem getLast?_weave {l : List Char} {marks : List Bool} (h : marks.length = l.length) :
    (weave l marks).getLast? = l.getLast? := by
  induction l generalizing marks with
  | nil => rw [weave]; simp
  | cons c l ih =>
    cases marks with
    | nil => simp at h
    | cons mark marks =>
      simp only [List.length_cons, Nat.add_right_cancel_iff] at h
      rw [weave, List.getLast?_append, ih h, List.getLast?_cons]
      cases mark
      · cases l.getLast? <;> rfl
      · cases l.getLast? <;> rfl

theorem head?_humps (l : List Char) : (humps false l).head? ≠ some true := by
  cases l with
  | nil => simp [humps]
  | cons c l => simp [humps]

theorem trim_matches_eq_self {l : List Char} (hfirst : l.head? ≠ some '_')
    (hlast : l.getLast? ≠ some '_') : trim_matches '_' l = l := by
  have hdrop : ∀ l : List Char, l.head? ≠ some '_' → l.dropWhile (fun x => x = '_') = l := by
    intro l h
    cases l with
    | nil => rfl
    | cons c l =>
      rw [List.dropWhile_cons_of_neg]
      simpa using h
  unfold trim_matches
  rw [hdrop l hfirst, hdrop l.reverse (by rwa [List.head?_reverse]), List.reverse_reverse]

variable {crates : Crates}

theorem not_isWhitespace_of_wordChar {c : Char} (hc : isWordChar c = true) :
    isWhitespace c = false := by
  apply Bool.eq_false_iff.mpr
  intro hspace
  by_cases hunderscore : c = '_'
  · subst hunderscore
    exact absurd hspace (by decide)
  · rw [isWordChar, isAlphanum_of_isWhitespace hspace] at hc
    simp [hunderscore] at hc

/-- A text that is a word but for characters of zero width is broken at its humps only. -/
theorem normalize_of_word {text : String} {l : List Char}
    (htext : (crates.nfkc text).toList.filter (fun c => !isZeroWidth c) = l)
    (hl : ∀ c ∈ l, isWordChar c = true) (hsingle : Single l) (hfirst : l.head? ≠ some '_')
    (hlast : l.getLast? ≠ some '_') :
    normalize_authority_token crates text =
      .ofList (weave (l.map Char.toLower) (humps false l)) := by
  have hlength : (humps false l).length = (l.map Char.toLower).length := by simp
  have hunderscore : ∀ o : Option Char, o ≠ some '_' → o.map Char.toLower ≠ some '_' := by
    intro o hne hlower
    obtain ⟨c, rfl, hc⟩ := Option.map_eq_some_iff.mp hlower
    exact hne (by rw [toLower_eq_underscore hc])
  unfold normalize_authority_token
  simp only [htext]
  have htrim : trim l = l := dropEnds_eq_self fun c hc => not_isWhitespace_of_wordChar (hl c hc)
  rw [htrim]
  show String.ofList (trim_matches '_' (tokenized l)) = _
  rw [tokenized_word hl hsingle, trim_matches_eq_self]
  · rw [head?_weave hlength (head?_humps l), List.head?_map]
    exact hunderscore _ hfirst
  · rw [getLast?_weave hlength, List.getLast?_map]
    exact hunderscore _ hlast

/-! ### Normalizing again -/

/-- What normalization gives: a word in small letters, with an underscore at neither end. -/
structure Normal (l : List Char) : Prop where
  chars : ∀ c ∈ l, isWordChar c = true ∧ c.isUpper = false
  single : Single l
  first : l.head? ≠ some '_'
  last : l.getLast? ≠ some '_'

/-- What holds of the state of the loop. -/
structure TokenState.Sound (s : TokenState) : Prop where
  chars : ∀ c ∈ s.result, isWordChar c = true ∧ c.isUpper = false
  single : Single s.result
  last : s.previous_was_underscore = false → s.result.getLast? ≠ some '_'

theorem single_concat {l : List Char} (h : Single l) {c : Char}
    (hc : l.getLast? = some '_' → c ≠ '_') : Single (l ++ [c]) := by
  refine List.isChain_append.mpr ⟨h, List.isChain_singleton c, ?_⟩
  rintro x hx y hy ⟨rfl, rfl⟩
  rw [List.head?_cons, Option.mem_some_iff] at hy
  exact hc hx hy

/-- One more character, which is no second underscore. -/
theorem TokenState.Sound.push {s : TokenState} (h : s.Sound) {c : Char}
    (hchar : isWordChar c = true ∧ c.isUpper = false)
    (hc : s.result.getLast? = some '_' → c ≠ '_') (lower_or_digit : Bool) :
    TokenState.Sound ⟨s.result ++ [c], decide (c = '_'), lower_or_digit⟩ where
  chars d hd := by
    rcases List.mem_append.mp hd with hd | hd
    · exact h.chars d hd
    · rw [List.mem_singleton.mp hd]
      exact hchar
  single := single_concat h.single hc
  last hne := by
    rw [List.getLast?_concat, Ne, Option.some.injEq]
    exact of_decide_eq_false hne

theorem tokenStep_sound {s : TokenState} (h : s.Sound) (c : Char) : (tokenStep s c).Sound := by
  have hunderscore : isWordChar '_' = true ∧ '_'.isUpper = false := by decide
  by_cases halpha : c.isAlphanum = true
  · have hlower : isWordChar c.toLower = true ∧ c.toLower.isUpper = false :=
      wordChar_toLower (by rw [isWordChar, halpha, Bool.true_or])
    have hne : c.toLower ≠ '_' := by
      intro hc
      rw [toLower_eq_underscore hc] at halpha
      exact absurd halpha (by decide)
    unfold tokenStep
    simp only [halpha, if_true]
    by_cases hhump : (c.isUpper && s.previous_was_lower_or_digit && !s.previous_was_underscore) = true
    · rw [if_pos hhump]
      have hlast : s.result.getLast? ≠ some '_' := h.last (by simp_all)
      have hbreak := h.push hunderscore (fun hsome => absurd hsome hlast) false
      have hpush := hbreak.push hlower (fun _ => hne) (c.isLower || c.isDigit)
      rwa [decide_eq_false hne] at hpush
    · rw [if_neg hhump]
      have hpush := h.push hlower (fun _ => hne) (c.isLower || c.isDigit)
      rwa [decide_eq_false hne] at hpush
  · rw [Bool.not_eq_true] at halpha
    unfold tokenStep
    simp only [halpha, isUpper_of_not_alphanum halpha, Bool.false_and, Bool.false_eq_true, if_false]
    by_cases hprevious : s.previous_was_underscore = true
    · simp only [hprevious, Bool.not_true, Bool.false_eq_true, if_false]
      exact ⟨h.chars, h.single, fun hfalse => by simp at hfalse⟩
    · rw [Bool.not_eq_true] at hprevious
      simp only [hprevious, Bool.not_false, if_true]
      exact h.push hunderscore (fun hsome => absurd hsome (h.last hprevious)) false

theorem foldl_sound {s : TokenState} (h : s.Sound) (l : List Char) :
    (l.foldl tokenStep s).Sound := by
  induction l generalizing s with
  | nil => exact h
  | cons c l ih => exact ih (tokenStep_sound h c)

theorem normal_trim {l : List Char} (hchars : ∀ c ∈ l, isWordChar c = true ∧ c.isUpper = false)
    (hsingle : Single l) : Normal (trim_matches '_' l) := by
  have hdrop : ∀ m : List Char, (m.dropWhile fun x => x = '_').head? ≠ some '_' := by
    intro m hm
    have := List.head?_dropWhile_not (fun x => decide (x = '_')) m
    rw [hm] at this
    simp at this
  have hends : ∀ m : List Char, (m.dropWhile fun x => x = '_') <:+ m := fun m =>
    List.dropWhile_suffix _
  have hbegins : trim_matches '_' l <+: l.dropWhile fun x => x = '_' := by
    unfold trim_matches
    have hback := List.reverse_prefix.mpr (hends (l.dropWhile fun x => x = '_').reverse)
    rwa [List.reverse_reverse] at hback
  have hwithin : trim_matches '_' l <:+: l := hbegins.isInfix.trans (hends l).isInfix
  refine ⟨fun c hc => hchars c (hwithin.subset hc), hsingle.infix hwithin, ?_, ?_⟩
  · intro hfirst
    obtain ⟨rest, hrest⟩ := hbegins
    have hhead := hdrop l
    rw [← hrest, List.head?_append, hfirst] at hhead
    exact hhead rfl
  · unfold trim_matches
    rw [List.getLast?_reverse]
    exact hdrop _

theorem normal_normalize (crates : Crates) (value : String) :
    Normal (normalize_authority_token crates value).toList := by
  have hstart : TokenState.Sound ⟨[], false, false⟩ :=
    ⟨by simp, List.isChain_nil, by simp⟩
  unfold normalize_authority_token
  rw [String.toList_ofList]
  have hsound := foldl_sound hstart
    (trim ((crates.nfkc value).toList.filter fun c => !isZeroWidth c))
  exact normal_trim hsound.chars hsound.single

/-- What `nfkc` does at ASCII texts. -/
def KeepsAscii (crates : Crates) : Prop :=
  ∀ text : List Char, (∀ c ∈ text, c.toNat < 0x80) → crates.nfkc (.ofList text) = .ofList text

theorem wordChar_ascii {c : Char} (hc : isWordChar c = true) : c.toNat < 0x80 := by
  rw [isWordChar_iff] at hc
  rcases hc with hc | hc | rfl
  · omega
  · omega
  · decide

theorem not_isZeroWidth_of_ascii {c : Char} (hc : c.toNat < 0x80) : isZeroWidth c = false := by
  simp only [isZeroWidth, Bool.or_eq_false_iff, decide_eq_false_iff_not]
  refine ⟨⟨⟨?_, ?_⟩, ?_⟩, ?_⟩ <;> rintro rfl <;> exact absurd hc (by decide)

theorem toLower_eq_self {c : Char} (h : c.isUpper = false) : c.toLower = c := by
  rw [Bool.eq_false_iff, Ne, isUpper_iff] at h
  apply Char.toNat_inj.mp
  rw [toNat_toLower, if_neg h]

theorem humps_of_not_upper {l : List Char} (h : ∀ c ∈ l, c.isUpper = false) (b : Bool) :
    true ∉ humps b l := by
  induction l generalizing b with
  | nil => simp [humps]
  | cons c l ih =>
    rw [humps, h c List.mem_cons_self, Bool.false_and, List.mem_cons, not_or]
    exact ⟨by simp, ih (fun d hd => h d (List.mem_cons_of_mem _ hd)) _⟩

theorem normalize_of_normal (h : KeepsAscii crates) {l : List Char} (hl : Normal l) :
    normalize_authority_token crates (.ofList l) = .ofList l := by
  have hword : ∀ c ∈ l, isWordChar c = true := fun c hc => (hl.chars c hc).1
  have hascii : ∀ c ∈ l, c.toNat < 0x80 := fun c hc => wordChar_ascii (hword c hc)
  have htext : (crates.nfkc (.ofList l)).toList.filter (fun c => !isZeroWidth c) = l := by
    rw [h l hascii, String.toList_ofList, List.filter_eq_self]
    intro c hc
    rw [not_isZeroWidth_of_ascii (hascii c hc)]
    rfl
  have hlower : l.map Char.toLower = l := by
    rw [List.map_congr_left fun c hc => toLower_eq_self (hl.chars c hc).2, List.map_id']
  rw [normalize_of_word htext hword hl.single hl.first hl.last, hlower, weave_eq_self (by simp)]
  exact humps_of_not_upper (fun c hc => (hl.chars c hc).2) false

/-- A normalized text is its own normal form. -/
theorem normalize_normalize (h : KeepsAscii crates) (value : String) :
    normalize_authority_token crates (normalize_authority_token crates value) =
      normalize_authority_token crates value := by
  have := normalize_of_normal h (normal_normalize crates value)
  rwa [String.ofList_toList] at this

end authority
