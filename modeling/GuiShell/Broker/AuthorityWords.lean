-- The words of a normalized text. Normalization starts a new word at every character that is
-- no ASCII letter or digit, so the words of a JSON text are those of its keys and strings, as
-- the text escapes them.
import GuiShell.Broker.AuthorityTokens

open json serde_json json_lines

namespace authority

/-! ## Words -/

/-- A word that counts by itself. -/
def isAuthorityWord (token : List Char) : Bool :=
  (canonical_authority_key (.ofList token)).isSome || authority_value_present (.ofList token)

/-- One of the words between the underscores counts. -/
def hasWord (l : List Char) : Bool := (l.splitOn '_').any isAuthorityWord

theorem authority_token_present_eq (normalized : String) :
    authority_token_present normalized = hasWord normalized.toList := rfl

theorem hasWord_nil : hasWord [] = false := by decide

theorem hasWord_append_cons (a b : List Char) :
    hasWord (a ++ '_' :: b) = (hasWord a || hasWord b) := by
  unfold hasWord
  rw [List.splitOn_append_cons_self, List.any_append]

theorem hasWord_cons (l : List Char) : hasWord ('_' :: l) = hasWord l := by
  have := hasWord_append_cons [] l
  rwa [hasWord_nil, Bool.false_or] at this

theorem hasWord_concat (l : List Char) : hasWord (l ++ ['_']) = hasWord l := by
  rw [hasWord_append_cons, hasWord_nil, Bool.or_false]

/-- What does not see the characters at the ends of a list does not see them trimmed. -/
theorem strip_eq {p : Char → Bool} {f : List Char → Bool}
    (hleft : ∀ c l, p c = true → f (c :: l) = f l) (hright : ∀ c l, p c = true → f (l ++ [c]) = f l)
    (l : List Char) : f ((l.dropWhile p).reverse.dropWhile p).reverse = f l := by
  have hfront : f (l.dropWhile p) = f l := by
    induction l with
    | nil => rfl
    | cons c l ih =>
      by_cases hc : p c = true
      · rw [List.dropWhile_cons_of_pos hc, ih, hleft c l hc]
      · rw [List.dropWhile_cons_of_neg hc]
  have hback : ∀ m : List Char, f (m.dropWhile p).reverse = f m.reverse := by
    intro m
    induction m with
    | nil => rfl
    | cons c m ih =>
      by_cases hc : p c = true
      · rw [List.dropWhile_cons_of_pos hc, ih, List.reverse_cons, hright c _ hc]
      · rw [List.dropWhile_cons_of_neg hc]
  rw [hback, List.reverse_reverse, hfront]

/-! ## The words of a scan -/

/-- The characters that the loop of the normalization comes to. -/
def tokenized (l : List Char) : List Char := (l.foldl tokenStep ⟨[], false, false⟩).result

/-- Two states that go on in the same way. -/
structure TokenState.Extends (r : List Char) (s t : TokenState) : Prop where
  result : t.result = r ++ s.result
  underscore : t.previous_was_underscore = s.previous_was_underscore
  lower_or_digit : t.previous_was_lower_or_digit = s.previous_was_lower_or_digit

theorem TokenState.Extends.step {r : List Char} {s t : TokenState} (h : s.Extends r t) (c : Char) :
    (tokenStep s c).Extends r (tokenStep t c) := by
  obtain ⟨result, underscore, lower_or_digit⟩ := h
  unfold tokenStep
  rw [result, underscore, lower_or_digit]
  split_ifs <;> constructor <;> simp_all

theorem TokenState.Extends.foldl {r : List Char} {s t : TokenState} (h : s.Extends r t)
    (l : List Char) : (l.foldl tokenStep s).Extends r (l.foldl tokenStep t) := by
  induction l generalizing s t with
  | nil => exact h
  | cons c l ih => exact ih (h.step c)

/-- After an underscore the result ends in it. -/
def TokenState.Ends (s : TokenState) : Prop :=
  s.previous_was_underscore = true →
    s.previous_was_lower_or_digit = false ∧ ∃ r, s.result = r ++ ['_']

theorem tokenStep_ends {s : TokenState} (h : s.Ends) (c : Char) : (tokenStep s c).Ends := by
  unfold tokenStep TokenState.Ends at *
  split_ifs <;> simp_all
  exact ⟨s.result ++ ['_'], by simp⟩

theorem foldl_ends {s : TokenState} (h : s.Ends) (l : List Char) : (l.foldl tokenStep s).Ends := by
  induction l generalizing s with
  | nil => exact h
  | cons c l ih => exact ih (tokenStep_ends h c)

theorem isUpper_of_not_alphanum {c : Char} (h : c.isAlphanum = false) : c.isUpper = false := by
  have hcases : ((c.isUpper || c.isLower) || c.isDigit) = false := h
  simp only [Bool.or_eq_false_iff] at hcases
  exact hcases.1.1

/-- A character that is no letter or digit leaves an underscore behind. -/
theorem tokenStep_separator {s : TokenState} (h : s.Ends) {c : Char} (hc : c.isAlphanum = false) :
    ∃ r, tokenStep s c = ⟨r ++ ['_'], true, false⟩ ∧ hasWord r = hasWord s.result := by
  unfold tokenStep
  rw [isUpper_of_not_alphanum hc, hc]
  by_cases hu : s.previous_was_underscore = true
  · obtain ⟨hlower, r, hr⟩ := h hu
    refine ⟨r, ?_, ?_⟩
    · simp [hu, hr, hlower]
    · rw [hr, hasWord_concat]
  · exact ⟨s.result, by simp [hu], rfl⟩

/-- Whether an underscore stands before the text makes no difference to its words. -/
theorem hasWord_after_underscore (l : List Char) :
    hasWord (l.foldl tokenStep ⟨[], true, false⟩).result = hasWord (tokenized l) := by
  cases l with
  | nil => rfl
  | cons c l =>
    by_cases hc : c.isAlphanum = true
    · have hsame : tokenStep ⟨[], true, false⟩ c = tokenStep ⟨[], false, false⟩ c := by
        simp [tokenStep, hc]
      rw [tokenized, List.foldl_cons, List.foldl_cons, hsame]
    · have hupper := isUpper_of_not_alphanum (Bool.eq_false_iff.mpr hc)
      have hextends : (tokenStep ⟨[], true, false⟩ c).Extends ['_']
          (tokenStep ⟨[], false, false⟩ c) := by
        constructor <;> simp [tokenStep, hc]
      rw [tokenized, List.foldl_cons, List.foldl_cons, (hextends.foldl l).result,
        List.singleton_append, hasWord_cons]

/-- A character that is no letter or digit parts the words. -/
theorem hasWord_tokenized_append (a b : List Char) {c : Char} (hc : c.isAlphanum = false) :
    hasWord (tokenized (a ++ c :: b)) = (hasWord (tokenized a) || hasWord (tokenized b)) := by
  have hends : (a.foldl tokenStep ⟨[], false, false⟩).Ends :=
    foldl_ends (fun h => absurd h Bool.false_ne_true) a
  obtain ⟨r, hstep, hr⟩ := tokenStep_separator hends hc
  have hextends : TokenState.Extends (r ++ ['_']) ⟨[], true, false⟩ ⟨r ++ ['_'], true, false⟩ :=
    ⟨by simp, rfl, rfl⟩
  rw [tokenized, List.foldl_append, List.foldl_cons, hstep, (hextends.foldl b).result,
    List.append_assoc, List.singleton_append, hasWord_append_cons, hr, hasWord_after_underscore]
  rfl

theorem isAlphanum_iff (c : Char) : c.isAlphanum = true ↔
    ((65 ≤ c.toNat ∧ c.toNat ≤ 90) ∨ (97 ≤ c.toNat ∧ c.toNat ≤ 122)) ∨
      (48 ≤ c.toNat ∧ c.toNat ≤ 57) := by
  have hcases : c.isAlphanum = ((decide (65 ≤ c.toNat ∧ c.toNat ≤ 90) ||
      decide (97 ≤ c.toNat) && decide (c.toNat ≤ 122)) ||
      decide (48 ≤ c.toNat) && decide (c.toNat ≤ 57)) := rfl
  simp only [hcases, Bool.or_eq_true, Bool.and_eq_true, decide_eq_true_eq]

theorem isAlphanum_of_isWhitespace {c : Char} (h : isWhitespace c = true) :
    c.isAlphanum = false := by
  apply Bool.eq_false_iff.mpr
  intro halpha
  rw [isAlphanum_iff] at halpha
  simp only [isWhitespace, Bool.or_eq_true, Bool.and_eq_true, decide_eq_true_eq] at h
  omega

theorem hasWord_tokenized_cons {c : Char} (hc : c.isAlphanum = false) (l : List Char) :
    hasWord (tokenized (c :: l)) = hasWord (tokenized l) := by
  have := hasWord_tokenized_append [] l hc
  rwa [show hasWord (tokenized []) = false from hasWord_nil, Bool.false_or] at this

theorem hasWord_tokenized_concat {c : Char} (hc : c.isAlphanum = false) (l : List Char) :
    hasWord (tokenized (l ++ [c])) = hasWord (tokenized l) := by
  rw [hasWord_tokenized_append l [] hc, show hasWord (tokenized []) = false from hasWord_nil,
    Bool.or_false]

/-! ## The words of a normalized text -/

variable (crates : Crates)

/-- One of the words of the normalized text counts. -/
def claimsByWord (text : List Char) : Bool :=
  authority_token_present (normalize_authority_token crates (.ofList text))

/-- The trims do not matter to the words. -/
theorem claimsByWord_eq (text : List Char) : claimsByWord crates text =
    hasWord (tokenized ((crates.nfkc (.ofList text)).toList.filter fun c => !isZeroWidth c)) := by
  unfold claimsByWord normalize_authority_token
  rw [authority_token_present_eq, String.toList_ofList]
  refine (strip_eq (f := hasWord) (fun c l hc => ?_) (fun c l hc => ?_) _).trans ?_
  · rw [of_decide_eq_true hc, hasWord_cons]
  · rw [of_decide_eq_true hc, hasWord_concat]
  · exact strip_eq (f := fun l => hasWord (tokenized l))
      (fun c l hc => hasWord_tokenized_cons (isAlphanum_of_isWhitespace hc) l)
      (fun c l hc => hasWord_tokenized_concat (isAlphanum_of_isWhitespace hc) l) _

/-- A whole text that counts as a value has one word, and it counts. -/
theorem authority_token_present_of_value {normalized : String}
    (h : authority_value_present normalized = true) : authority_token_present normalized = true := by
  simp only [authority_value_present, decide_eq_true_eq, List.mem_cons, List.not_mem_nil,
    or_false] at h
  rcases h with rfl | rfl | rfl | rfl | rfl <;> decide

theorem textClaimsAuthority_eq (text : String) :
    textClaimsAuthority crates text = claimsByWord crates text.toList := by
  unfold textClaimsAuthority claimsByWord
  dsimp only
  rw [String.ofList_toList]
  by_cases h : authority_value_present (normalize_authority_token crates text) = true
  · rw [h, authority_token_present_of_value h]
    rfl
  · rw [Bool.eq_false_iff.mpr h, Bool.false_or]

/-! ## The words of a JSON text -/

/-- What `nfkc` does at ASCII characters: it keeps ASCII texts, and the punctuation of JSON
does not combine with what stands around it. -/
structure NormalizesAscii : Prop where
  ascii : ∀ text : List Char, (∀ c ∈ text, c.toNat < 0x80) → crates.nfkc (.ofList text) = .ofList text
  punctuation : ∀ c ∈ ['"', ',', ':', '[', ']', '{', '}'], ∀ a b : List Char,
    crates.nfkc (.ofList (a ++ c :: b)) =
      .ofList ((crates.nfkc (.ofList a)).toList ++ c :: (crates.nfkc (.ofList b)).toList)

variable {crates}

theorem claimsByWord_append (h : NormalizesAscii crates) {c : Char}
    (hc : c ∈ ['"', ',', ':', '[', ']', '{', '}']) (a b : List Char) :
    claimsByWord crates (a ++ c :: b) = (claimsByWord crates a || claimsByWord crates b) := by
  have hplain : c.isAlphanum = false ∧ (!isZeroWidth c) = true := by
    simp only [List.mem_cons, List.not_mem_nil, or_false] at hc
    rcases hc with rfl | rfl | rfl | rfl | rfl | rfl | rfl <;> decide
  rw [claimsByWord_eq, claimsByWord_eq, claimsByWord_eq, h.punctuation c hc, String.toList_ofList,
    List.filter_append, List.filter_cons, if_pos hplain.2, hasWord_tokenized_append _ _ hplain.1]

theorem claimsByWord_nil (h : NormalizesAscii crates) : claimsByWord crates [] = false := by
  rw [claimsByWord_eq, h.ascii [] (by simp), String.toList_ofList]
  exact hasWord_nil

theorem claimsByWord_cons (h : NormalizesAscii crates) {c : Char}
    (hc : c ∈ ['"', ',', ':', '[', ']', '{', '}']) (l : List Char) :
    claimsByWord crates (c :: l) = claimsByWord crates l := by
  have := claimsByWord_append h hc [] l
  rwa [claimsByWord_nil h, Bool.false_or] at this

theorem claimsByWord_concat (h : NormalizesAscii crates) {c : Char}
    (hc : c ∈ ['"', ',', ':', '[', ']', '{', '}']) (l : List Char) :
    claimsByWord crates (l ++ [c]) = claimsByWord crates l := by
  rw [claimsByWord_append h hc, claimsByWord_nil h, Bool.or_false]

/-! ### Numbers and literals -/

/-- The characters of a number after normalization. -/
def isNumeric (c : Char) : Bool := c.isDigit || c = 'e' || c = '_'

theorem isAuthorityWord_of_numeric {token : List Char} (h : token.all isNumeric = true) :
    isAuthorityWord token = false := by
  have hne : ∀ word : String, word.toList.all isNumeric = false → String.ofList token ≠ word := by
    rintro word hword rfl
    rw [String.toList_ofList, h] at hword
    cases hword
  apply Bool.eq_false_iff.mpr
  intro hword
  unfold isAuthorityWord canonical_authority_key authority_value_present at hword
  split at hword
  all_goals first
    | exact absurd ‹_› (hne _ (by decide))
    | simp only [Option.isSome_none, Bool.false_or, decide_eq_true_eq, List.mem_cons,
        List.not_mem_nil, or_false] at hword
      rcases hword with hword | hword | hword | hword | hword <;>
        exact absurd hword (hne _ (by decide))

theorem hasWord_of_numeric {l : List Char} (h : l.all isNumeric = true) : hasWord l = false := by
  induction hn : l.length using Nat.strong_induction_on generalizing l with
  | h n ih =>
    by_cases hmem : '_' ∈ l
    · obtain ⟨a, b, rfl⟩ := List.append_of_mem hmem
      simp only [List.all_append, List.all_cons, Bool.and_eq_true] at h
      simp only [List.length_append, List.length_cons] at hn
      rw [hasWord_append_cons, ih a.length (by omega) h.1 rfl, ih b.length (by omega) h.2.2 rfl]
      rfl
    · rw [hasWord, List.splitOn_eq_singleton hmem, List.any_cons, isAuthorityWord_of_numeric h]
      rfl

theorem isNumeric_toLower {c : Char} (hc : isNumberChar c = true) (halpha : c.isAlphanum = true) :
    isNumeric c.toLower = true := by
  simp only [isNumberChar, Bool.or_eq_true, decide_eq_true_eq] at hc
  rcases hc with ((((hdigit | rfl) | rfl) | rfl) | rfl) | rfl
  · have hlower : c.toLower = c := by
      simp only [Char.isDigit, Bool.and_eq_true, decide_eq_true_eq, ge_iff_le,
        UInt32.le_iff_toNat_le] at hdigit
      unfold Char.toLower
      rw [dif_neg]
      rintro ⟨hupper, _⟩
      simp only [ge_iff_le, UInt32.le_iff_toNat_le] at hupper
      simp at hdigit hupper
      omega
    rw [hlower, isNumeric, hdigit]
    rfl
  all_goals revert halpha; decide

theorem isNumeric_tokenStep {s : TokenState} (h : s.result.all isNumeric = true) {c : Char}
    (hc : isNumberChar c = true) : (tokenStep s c).result.all isNumeric = true := by
  have hunderscore : isNumeric '_' = true := by decide
  have hlower := isNumeric_toLower hc
  unfold tokenStep
  split_ifs <;> simp_all

theorem tokenized_numeric {l : List Char} (h : ∀ c ∈ l, isNumberChar c = true) :
    (tokenized l).all isNumeric = true := by
  have hfold : ∀ (l : List Char) (s : TokenState), (∀ c ∈ l, isNumberChar c = true) →
      s.result.all isNumeric = true → (l.foldl tokenStep s).result.all isNumeric = true := by
    intro l
    induction l with
    | nil => exact fun _ _ hs => hs
    | cons c l ih =>
      exact fun s hl hs => ih _ (fun d hd => hl d (List.mem_cons_of_mem _ hd))
        (isNumeric_tokenStep hs (hl c List.mem_cons_self))
  exact hfold l _ h rfl

/-- The words of an ASCII text are those of its own characters. -/
theorem claimsByWord_ascii (h : NormalizesAscii crates) {l : List Char}
    (hl : ∀ c ∈ l, c.toNat < 0x80) : claimsByWord crates l = hasWord (tokenized l) := by
  rw [claimsByWord_eq, h.ascii l hl, String.toList_ofList, List.filter_eq_self.mpr]
  intro c hc
  have hlt := hl c hc
  simp only [isZeroWidth, Bool.not_eq_true', Bool.or_eq_false_iff, decide_eq_false_iff_not]
  refine ⟨⟨⟨?_, ?_⟩, ?_⟩, ?_⟩ <;> rintro rfl <;> exact absurd hlt (by decide)

theorem claimsByWord_number (h : NormalizesAscii crates) (n : Number) :
    claimsByWord crates n.text = false := by
  rw [claimsByWord_ascii h]
  · exact hasWord_of_numeric (tokenized_numeric n.text_chars)
  · intro c hc
    have := isNumberChar_range (n.text_chars c hc)
    omega

/-! ### Values -/

/-- The characters between the quotes of a string in a JSON text. -/
def escaped (text : String) : List Char := text.toList.flatMap raw.escape

mutual
/-- The keys and the strings at any depth of a value. -/
def texts : Value → List String
  | .object fields => textsOfFields fields
  | .array items => textsOfItems items
  | .string value => [value]
  | _ => []
def textsOfItems : List Value → List String
  | [] => []
  | item :: items => texts item ++ textsOfItems items
def textsOfFields : List (String × Value) → List String
  | [] => []
  | (key, value) :: fields => key :: texts value ++ textsOfFields fields
end

/-- One of the texts, as JSON escapes it, has a word that counts. -/
def anyEscaped (crates : Crates) (l : List String) : Bool :=
  l.any fun text => claimsByWord crates (escaped text)

theorem anyEscaped_append (l m : List String) :
    anyEscaped crates (l ++ m) = (anyEscaped crates l || anyEscaped crates m) := List.any_append

theorem anyEscaped_cons (text : String) (l : List String) :
    anyEscaped crates (text :: l) = (claimsByWord crates (escaped text) || anyEscaped crates l) :=
  List.any_cons

theorem claimsByWord_printString (h : NormalizesAscii crates) (text : String) (rest : List Char) :
    claimsByWord crates (printString raw text ++ rest) =
      (claimsByWord crates (escaped text) || claimsByWord crates rest) := by
  unfold printString
  rw [List.cons_append, claimsByWord_cons h (by decide), List.append_assoc, List.singleton_append,
    claimsByWord_append h (by decide), escaped]

theorem claimsByWord_literal (h : NormalizesAscii crates) {l : List Char}
    (hl : l ∈ [['n', 'u', 'l', 'l'], ['t', 'r', 'u', 'e'], ['f', 'a', 'l', 's', 'e']]) :
    claimsByWord crates l = false := by
  simp only [List.mem_cons, List.not_mem_nil, or_false] at hl
  rw [claimsByWord_ascii h]
  · rcases hl with rfl | rfl | rfl <;> decide
  · rcases hl with rfl | rfl | rfl <;> simp

/-- The words of a value are those of its texts. -/
def WordsOfTexts (crates : Crates) (v : Value) : Prop :=
  ∀ d, claimsByWord crates (print compact raw d v) = anyEscaped crates (texts v)

theorem claimsByWord_printItems (h : NormalizesAscii crates) (d : Nat) {items : List Value}
    (hitems : ∀ v ∈ items, WordsOfTexts crates v) (a : List Char) :
    claimsByWord crates (a ++ (printItems compact raw d items ++ [']'])) =
      (claimsByWord crates a || anyEscaped crates (textsOfItems items)) := by
  induction items generalizing a with
  | nil =>
    rw [printItems, List.nil_append, claimsByWord_concat h (by decide), textsOfItems, anyEscaped,
      List.any_nil, Bool.or_false]
  | cons v items ih =>
    rw [printItems, compact_afterComma, List.nil_append, List.cons_append, List.append_assoc,
      claimsByWord_append h (by decide), ih fun w hw => hitems w (List.mem_cons_of_mem _ hw),
      hitems v List.mem_cons_self, textsOfItems, anyEscaped_append]

theorem claimsByWord_printFields (h : NormalizesAscii crates) (d : Nat)
    {fields : List (String × Value)} (hfields : ∀ k v, (k, v) ∈ fields → WordsOfTexts crates v)
    (a : List Char) :
    claimsByWord crates (a ++ (printFields compact raw d fields ++ ['}'])) =
      (claimsByWord crates a || anyEscaped crates (textsOfFields fields)) := by
  induction fields generalizing a with
  | nil =>
    rw [printFields, List.nil_append, claimsByWord_concat h (by decide), textsOfFields, anyEscaped,
      List.any_nil, Bool.or_false]
  | cons e fields ih =>
    obtain ⟨k, v⟩ := e
    rw [printFields, compact_afterComma, compact_afterColon, List.nil_append, List.nil_append,
      List.cons_append, claimsByWord_append h (by decide), List.append_assoc, List.cons_append,
      List.append_assoc, claimsByWord_printString h, claimsByWord_cons h (by decide),
      ih fun k w hw => hfields k w (List.mem_cons_of_mem _ hw), hfields k v List.mem_cons_self,
      textsOfFields, List.cons_append, anyEscaped_cons, anyEscaped_append]

/-- The words of a JSON text are those of its keys and strings. -/
theorem wordsOfTexts (h : NormalizesAscii crates) (v : Value) : WordsOfTexts crates v := by
  induction v using Value.induct with
  | null => exact fun _ => claimsByWord_literal h List.mem_cons_self
  | bool b =>
    cases b with
    | true => exact fun _ => claimsByWord_literal h (List.mem_cons_of_mem _ List.mem_cons_self)
    | false =>
      exact fun _ => claimsByWord_literal h
        (List.mem_cons_of_mem _ (List.mem_cons_of_mem _ List.mem_cons_self))
  | number n => exact fun _ => claimsByWord_number h n
  | string text =>
    intro d
    have := claimsByWord_printString h text []
    rwa [List.append_nil, claimsByWord_nil h] at this
  | array items ih =>
    intro d
    cases items with
    | nil =>
      exact (claimsByWord_cons h (by decide) _).trans
        ((claimsByWord_cons h (by decide) _).trans (claimsByWord_nil h))
    | cons v items =>
      rw [print, compact_afterOpen, compact_beforeClose, List.nil_append, List.nil_append,
        claimsByWord_cons h (by decide),
        claimsByWord_printItems h _ fun w hw => ih w (List.mem_cons_of_mem _ hw),
        ih v List.mem_cons_self, texts, textsOfItems, anyEscaped_append]
  | object fields ih =>
    intro d
    cases fields with
    | nil =>
      exact (claimsByWord_cons h (by decide) _).trans
        ((claimsByWord_cons h (by decide) _).trans (claimsByWord_nil h))
    | cons e fields =>
      obtain ⟨k, v⟩ := e
      rw [print, compact_afterOpen, compact_afterColon, compact_beforeClose, List.nil_append,
        List.nil_append, List.nil_append, claimsByWord_cons h (by decide),
        claimsByWord_printString h, claimsByWord_cons h (by decide),
        claimsByWord_printFields h _ fun k w hw => ih k w (List.mem_cons_of_mem _ hw),
        ih k v List.mem_cons_self, texts, textsOfFields, List.cons_append, anyEscaped_cons,
        anyEscaped_append]

end authority
