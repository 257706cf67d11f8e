-- The spellings of a word (protocol.rs): capitals in the place of small letters, and characters
-- of zero width anywhere. A spelling with a capital after a small letter is normalized to another
-- word, so the gate for metadata does not find it.
import GuiShell.Broker.AuthorityNormalForm

namespace authority

variable {crates : Crates}

/-! ## The words of the tables -/

/-- The keys of `canonical_authority_key`. -/
def keyWords : List (List Char) := [
  "authority".toList, "authority_context".toList, "admin_context".toList, "authority_trace".toList,
  "approval_state".toList, "approved_by".toList, "permission".toList, "permissions".toList,
  "permissions_granted".toList, "permissiongrant".toList, "permission_grant".toList,
  "grant".toList, "grants".toList, "privilege".toList, "privileges".toList,
  "permission_override".toList, "role".toList, "scope_escalation".toList, "elevated".toList,
  "trust_level".toList]

/-- The values of `authority_value_present`. -/
def valueWords : List (List Char) :=
  ["admin".toList, "all".toList, "approved".toList, "elevated".toList, "root".toList]

theorem mem_keyWords_iff (key : String) :
    (canonical_authority_key key).isSome = true ↔ key.toList ∈ keyWords := by
  have hmem : key.toList ∈ keyWords ↔ key ∈ ["authority", "authority_context", "admin_context",
      "authority_trace", "approval_state", "approved_by", "permission", "permissions",
      "permissions_granted", "permissiongrant", "permission_grant", "grant", "grants", "privilege",
      "privileges", "permission_override", "role", "scope_escalation", "elevated",
      "trust_level"] := by
    simp only [keyWords, List.mem_cons, String.toList_inj, List.not_mem_nil]
  rw [hmem]
  unfold canonical_authority_key
  split <;> simp_all

theorem mem_valueWords_iff (value : String) :
    authority_value_present value = true ↔ value.toList ∈ valueWords := by
  simp only [authority_value_present, decide_eq_true_eq, valueWords, List.mem_cons,
    String.toList_inj, List.not_mem_nil]

def isNormal (w : List Char) : Bool :=
  w.all (fun c => isWordChar c && !c.isUpper) &&
    (w.zip w.tail).all (fun e => !(e.1 = '_' && e.2 = '_')) &&
    (w.head? ≠ some '_' && w.getLast? ≠ some '_')

theorem normal_of_isNormal {w : List Char} (h : isNormal w = true) : Normal w := by
  simp only [isNormal, Bool.and_eq_true, List.all_eq_true, decide_eq_true_eq, Bool.not_eq_true'] at h
  obtain ⟨⟨hchars, hzip⟩, hfirst, hlast⟩ := h
  refine ⟨fun c hc => hchars c hc, ?_, hfirst, hlast⟩
  refine List.isChain_iff_getElem.mpr fun i hi hboth => ?_
  have hmem : (w[i], w[i + 1]) ∈ w.zip w.tail := by
    refine List.mem_iff_getElem.mpr ⟨i, by simp; omega, ?_⟩
    simp
  have := hzip _ hmem
  simp [hboth.1, hboth.2] at this

theorem normal_keyWords {w : List Char} (h : w ∈ keyWords) : Normal w := by
  have hall : keyWords.all isNormal = true := by decide +kernel
  exact normal_of_isNormal (List.all_eq_true.mp hall w h)

theorem normal_valueWords {w : List Char} (h : w ∈ valueWords) : Normal w := by
  have hall : valueWords.all isNormal = true := by decide +kernel
  exact normal_of_isNormal (List.all_eq_true.mp hall w h)

/-- Two keys with the same letters are equal, but for one pair. -/
theorem keyWords_letters {w k : List Char} (hw : w ∈ keyWords) (hk : k ∈ keyWords)
    (h : letters k = letters w) :
    k = w ∨ (w = "permissiongrant".toList ∧ k = "permission_grant".toList) ∨
      (w = "permission_grant".toList ∧ k = "permissiongrant".toList) := by
  have hall : keyWords.all (fun w => keyWords.all fun k => letters k ≠ letters w || k = w ||
      (w = "permissiongrant".toList && k = "permission_grant".toList) ||
      (w = "permission_grant".toList && k = "permissiongrant".toList)) = true := by decide +kernel
  have hpair := List.all_eq_true.mp (List.all_eq_true.mp hall w hw) k hk
  simp only [Bool.or_eq_true, Bool.and_eq_true, decide_eq_true_eq, or_assoc] at hpair
  exact hpair.resolve_left fun hne => hne h

/-- A value holds no shorter word of the tables. -/
theorem valueWords_within {w t : List Char} (hw : w ∈ valueWords) (ht : isAuthorityWord t = true)
    (hwithin : t <:+: w) : t = w := by
  have hall : valueWords.all (fun w => (keyWords ++ valueWords).all fun t =>
      !(t <:+: w) || t = w) = true := by decide +kernel
  have hmem : t ∈ keyWords ++ valueWords := by
    rw [isAuthorityWord, Bool.or_eq_true, mem_keyWords_iff, mem_valueWords_iff,
      String.toList_ofList] at ht
    exact List.mem_append.mpr ht
  have hpair := List.all_eq_true.mp (List.all_eq_true.mp hall w hw) t hmem
  simpa only [Bool.or_eq_true, Bool.not_eq_true', decide_eq_true_eq, decide_eq_false_iff_not,
    hwithin, not_true_eq_false, false_or] using hpair

/-! ## Spellings -/

/-- The second text is the first one with the case of some letters changed and with characters of
zero width put in. -/
inductive Spelling : List Char → List Char → Prop
  | nil : Spelling [] []
  | letter {c c' : Char} {w s : List Char} :
      c'.toLower = c.toLower → Spelling w s → Spelling (c :: w) (c' :: s)
  | zeroWidth {z : Char} {w s : List Char} :
      isZeroWidth z = true → Spelling w s → Spelling w (z :: s)

/-- A text without its characters of zero width. -/
def plain (l : List Char) : List Char := l.filter fun c => !isZeroWidth c

theorem wordChar_of_toLower {c : Char} (h : isWordChar c.toLower = true) : isWordChar c = true := by
  by_cases hunderscore : c.toLower = '_'
  · rw [toLower_eq_underscore hunderscore]
    decide
  · rw [isWordChar_iff] at h ⊢
    rw [toNat_toLower] at h
    split at h
    · omega
    · rcases h with h | h | h
      · exact .inl h
      · exact .inr (.inl h)
      · exact absurd h hunderscore

theorem Spelling.map_plain {w s : List Char} (h : Spelling w s)
    (hw : ∀ c ∈ w, isWordChar c = true ∧ c.isUpper = false) :
    (plain s).map Char.toLower = w := by
  induction h with
  | nil => rfl
  | @letter c c' w s hlower _ ih =>
    have hc := hw c List.mem_cons_self
    have hsame : c'.toLower = c := hlower.trans (toLower_eq_self hc.2)
    have hascii : c'.toNat < 0x80 :=
      wordChar_ascii (wordChar_of_toLower (by rw [hsame]; exact hc.1))
    rw [plain, List.filter_cons_of_pos (by rw [not_isZeroWidth_of_ascii hascii]; rfl),
      List.map_cons, hsame]
    exact congrArg _ (ih fun d hd => hw d (List.mem_cons_of_mem _ hd))
  | zeroWidth hz _ ih =>
    rw [plain, List.filter_cons_of_neg (by simp [hz])]
    exact ih hw

/-- What `nfkc` does at texts of ASCII characters and of characters of zero width. -/
def KeepsPlain (crates : Crates) : Prop :=
  ∀ text : List Char, (∀ c ∈ text, c.toNat < 0x80 ∨ isZeroWidth c = true) →
    crates.nfkc (.ofList text) = .ofList text

theorem Spelling.chars {w s : List Char} (h : Spelling w s)
    (hw : ∀ c ∈ w, isWordChar c = true ∧ c.isUpper = false) :
    ∀ c ∈ s, c.toNat < 0x80 ∨ isZeroWidth c = true := by
  intro c hc
  by_cases hzero : isZeroWidth c = true
  · exact .inr hzero
  · have hmem : c.toLower ∈ (plain s).map Char.toLower :=
      List.mem_map_of_mem (List.mem_filter.mpr ⟨hc, by simpa using hzero⟩)
    rw [h.map_plain hw] at hmem
    exact .inl (wordChar_ascii (wordChar_of_toLower (hw _ hmem).1))

/-- A spelling of a word is normalized to the word, broken at the humps of the spelling. -/
theorem normalize_spelling (h : KeepsPlain crates) {w s : List Char} (hw : Normal w)
    (hs : Spelling w s) :
    normalize_authority_token crates (.ofList s) =
      .ofList (weave w (humps false (plain s))) := by
  have hmap := hs.map_plain hw.chars
  have htext : (crates.nfkc (.ofList s)).toList.filter (fun c => !isZeroWidth c) = plain s := by
    rw [h s (hs.chars hw.chars), String.toList_ofList]
    rfl
  have hword : ∀ c ∈ plain s, isWordChar c = true := by
    intro c hc
    have hmem : c.toLower ∈ (plain s).map Char.toLower := List.mem_map_of_mem hc
    rw [hmap] at hmem
    exact wordChar_of_toLower (hw.chars _ hmem).1
  have hlower : '_'.toLower = '_' := by decide
  have hsingle : Single (plain s) := by
    have hchain := hw.single
    rw [← hmap, Single, List.isChain_map] at hchain
    refine hchain.imp ?_
    rintro a b hne ⟨rfl, rfl⟩
    exact hne ⟨hlower, hlower⟩
  rw [normalize_of_word htext hword hsingle, hmap]
  · intro hfirst
    apply hw.first
    rw [← hmap, List.head?_map, hfirst, Option.map_some, hlower]
  · intro hlast
    apply hw.last
    rw [← hmap, List.getLast?_map, hlast, Option.map_some, hlower]

/-! ## Which spellings are found -/

/-- Where a text has its humps, when the characters of zero width are taken out. -/
def humpsOf (text : String) : List Bool := humps false (plain text.toList)

/-- No capital follows a small letter or a digit. -/
def Unbroken (text : String) : Prop := true ∉ humpsOf text

instance (text : String) : Decidable (Unbroken text) :=
  decidable_of_iff ((humpsOf text).contains true = false) (by simp [Unbroken])

/-- The text is broken before its grant and nowhere else. -/
def BrokenAtGrant (text : String) : Prop := humpsOf text = humpsOf "permissionGrant"

theorem Spelling.length_humps {w s : String} (hs : Spelling w.toList s.toList)
    (hw : Normal w.toList) : (humpsOf s).length = w.toList.length := by
  unfold humpsOf
  rw [authority.length_humps, ← hs.map_plain hw.chars, List.length_map]

theorem normalize_spelling_text (h : KeepsPlain crates) {w s : String} (hw : Normal w.toList)
    (hs : Spelling w.toList s.toList) :
    (normalize_authority_token crates s).toList = weave w.toList (humpsOf s) := by
  have hnormal := normalize_spelling h hw hs
  rw [String.ofList_toList] at hnormal
  rw [hnormal, String.toList_ofList]
  rfl

/-- A spelling of a key is found when it is not broken, or broken into another key. -/
theorem keyClaims_spelling_iff (h : KeepsPlain crates) {w s : String}
    (hkey : (canonical_authority_key w).isSome = true) (hs : Spelling w.toList s.toList) :
    keyClaimsAuthority crates s = true ↔
      Unbroken s ∨ (w = "permissiongrant" ∧ BrokenAtGrant s) := by
  have hmem := (mem_keyWords_iff w).mp hkey
  have hnormal := normal_keyWords hmem
  have hlength := hs.length_humps hnormal
  have hgrant : weave "permissiongrant".toList (humpsOf "permissionGrant") =
      "permission_grant".toList := by decide +kernel
  unfold keyClaimsAuthority
  rw [mem_keyWords_iff, normalize_spelling_text h hnormal hs]
  constructor
  · intro hfound
    rcases keyWords_letters hmem hfound (letters_weave hlength) with
      hsame | ⟨hw, hbroken⟩ | ⟨hw, hjoined⟩
    · exact .inl (unmarked_of_weave_eq hlength hsame)
    · refine .inr ⟨String.toList_inj.mp hw, ?_⟩
      have hplain : '_' ∉ "permissiongrant".toList := by decide +kernel
      have hlengths : (humpsOf "permissionGrant").length = "permissiongrant".toList.length := by
        decide +kernel
      rw [hw] at hlength hbroken
      exact weave_injective hplain hlength hlengths (hbroken.trans hgrant.symm)
    · have hlonger := length_weave hlength
      rw [hjoined, hw] at hlonger
      have hlengths : "permissiongrant".toList.length = 15 ∧
          "permission_grant".toList.length = 16 := by decide +kernel
      omega
  · rintro (hunbroken | ⟨rfl, hbroken⟩)
    · rw [weave_eq_self hlength hunbroken]
      exact hmem
    · have hbroken : humpsOf s = humpsOf "permissionGrant" := hbroken
      rw [hbroken, hgrant]
      decide +kernel

theorem hasWord_of_no_underscore {l : List Char} (hl : '_' ∉ l) :
    hasWord l = isAuthorityWord l := by
  rw [hasWord, List.splitOn_eq_singleton hl]
  simp

/-- The words of a weave stand in the text. -/
theorem exists_infix_of_hasWord {l : List Char} {marks : List Bool} (hl : '_' ∉ l)
    (h : marks.length = l.length) (hword : hasWord (weave l marks) = true) :
    ∃ t, t <:+: l ∧ isAuthorityWord t = true := by
  induction hn : (weave l marks).length using Nat.strong_induction_on generalizing l marks with
  | h n ih =>
    rcases weave_cases h with hnone | ⟨a, b, marks', rfl, -, hlength, hweave, -⟩
    · rw [weave_eq_self h hnone, hasWord_of_no_underscore hl] at hword
      exact ⟨l, List.infix_refl l, hword⟩
    · rw [List.mem_append, not_or] at hl
      rw [hweave, hasWord_append_cons, hasWord_of_no_underscore hl.1, Bool.or_eq_true] at hword
      rcases hword with hword | hword
      · exact ⟨a, (List.prefix_append a b).isInfix, hword⟩
      · have hlt : (weave b marks').length < n := by
          rw [← hn, hweave]
          simp
          omega
        obtain ⟨t, hwithin, ht⟩ := ih _ hlt hl.2 hlength hword rfl
        exact ⟨t, hwithin.trans (List.suffix_append a b).isInfix, ht⟩

/-- A spelling of a value is found when it is not broken. -/
theorem textClaims_spelling_iff (h : KeepsPlain crates) {w s : String}
    (hvalue : authority_value_present w = true) (hs : Spelling w.toList s.toList) :
    textClaimsAuthority crates s = true ↔ Unbroken s := by
  have hmem := (mem_valueWords_iff w).mp hvalue
  have hnormal := normal_valueWords hmem
  have hlength := hs.length_humps hnormal
  have hplain : '_' ∉ w.toList := by
    have hall : valueWords.all (fun w => !w.contains '_') = true := by decide +kernel
    simpa using List.all_eq_true.mp hall _ hmem
  have hhead : (humpsOf s).head? ≠ some true := head?_humps _
  have hclaims : textClaimsAuthority crates s = hasWord (weave w.toList (humpsOf s)) := by
    rw [textClaimsAuthority_eq, claimsByWord, String.ofList_toList, authority_token_present_eq,
      normalize_spelling_text h hnormal hs]
  rw [hclaims]
  constructor
  · intro hfound
    rcases weave_cases hlength with hnone | ⟨a, b, marks', hab, hb, hlength', hweave, ha⟩
    · exact hnone
    · rw [hweave, hasWord_append_cons, Bool.or_eq_true] at hfound
      rw [hab, List.mem_append, not_or] at hplain
      -- What stands on one side of the first break is shorter than the value.
      have hshort : ∃ t, t <:+: w.toList ∧ t.length < w.toList.length ∧
          isAuthorityWord t = true := by
        have hapos := List.length_pos_iff.mpr (ha hhead)
        have hbpos := List.length_pos_iff.mpr hb
        rw [hab, List.length_append]
        rcases hfound with hfound | hfound
        · rw [hasWord_of_no_underscore hplain.1] at hfound
          exact ⟨a, (List.prefix_append a b).isInfix, by omega, hfound⟩
        · obtain ⟨t, hwithin, ht⟩ := exists_infix_of_hasWord hplain.2 hlength' hfound
          have hle := hwithin.length_le
          exact ⟨t, hwithin.trans (List.suffix_append a b).isInfix, by omega, ht⟩
      obtain ⟨t, hwithin, hlt, ht⟩ := hshort
      rw [valueWords_within hmem ht hwithin] at hlt
      omega
  · intro hunbroken
    rw [weave_eq_self hlength hunbroken, hasWord_of_no_underscore hplain, isAuthorityWord,
      String.ofList_toList, hvalue, Bool.or_true]

end authority

namespace protocol

open authority

variable {crates : Crates}

/-- Every metadata list with the text as a key is found. -/
def FoundAsKey (crates : Crates) (text : String) : Prop :=
  ∀ metadata : List BrokerMetadata, (∃ item ∈ metadata, item.key = text) →
    metadata_attempts_authority crates metadata = true

/-- Every metadata list with the text as a value is found. -/
def FoundAsValue (crates : Crates) (text : String) : Prop :=
  ∀ metadata : List BrokerMetadata, (∃ item ∈ metadata, item.value = text) →
    metadata_attempts_authority crates metadata = true

/-- The gate finds a list by one of its keys or of its values. -/
theorem metadata_attempts_authority_eq (metadata : List BrokerMetadata) :
    metadata_attempts_authority crates metadata = metadata.any fun item =>
      keyClaimsAuthority crates item.key || textClaimsAuthority crates item.value := by
  unfold metadata_attempts_authority keyClaimsAuthority textClaimsAuthority
  simp only [Bool.or_assoc]

theorem normalize_empty (h : KeepsPlain crates) : normalize_authority_token crates "" = "" := by
  have hempty : Normal [] := ⟨by simp, List.isChain_nil, by simp, by simp⟩
  exact normalize_of_normal (fun text htext => h text fun c hc => .inl (htext c hc)) hempty

theorem foundAsKey_iff (h : KeepsPlain crates) (text : String) :
    FoundAsKey crates text ↔ keyClaimsAuthority crates text = true := by
  constructor
  · intro hfound
    have hone := hfound [⟨text, ""⟩] ⟨_, List.mem_singleton_self _, rfl⟩
    rw [metadata_attempts_authority_eq, List.any_cons, List.any_nil, Bool.or_false] at hone
    have hempty : (authority_value_present "" || authority_token_present "") = false := by
      decide +kernel
    have hvalue : textClaimsAuthority crates "" = false := by
      unfold textClaimsAuthority
      rwa [normalize_empty h]
    rw [hvalue, Bool.or_false] at hone
    exact hone
  · rintro hkey metadata ⟨item, hitem, rfl⟩
    rw [metadata_attempts_authority_eq, List.any_eq_true]
    exact ⟨item, hitem, by rw [hkey, Bool.true_or]⟩

theorem foundAsValue_iff (h : KeepsPlain crates) (text : String) :
    FoundAsValue crates text ↔ textClaimsAuthority crates text = true := by
  constructor
  · intro hfound
    have hone := hfound [⟨"", text⟩] ⟨_, List.mem_singleton_self _, rfl⟩
    rw [metadata_attempts_authority_eq, List.any_cons, List.any_nil, Bool.or_false] at hone
    have hempty : (canonical_authority_key "").isSome = false := by decide +kernel
    have hkey : keyClaimsAuthority crates "" = false := by
      unfold keyClaimsAuthority
      rwa [normalize_empty h]
    rw [hkey, Bool.false_or] at hone
    exact hone
  · rintro hvalue metadata ⟨item, hitem, rfl⟩
    rw [metadata_attempts_authority_eq, List.any_eq_true]
    exact ⟨item, hitem, by rw [hvalue, Bool.or_true]⟩

/-- A spelling of a word of the tables is found in every metadata list exactly when no capital in
it follows a small letter, or when it spells permissiongrant and breaks before the grant. -/
theorem spellings_found_iff (crates : Crates) (h : KeepsPlain crates) (w s : String)
    (hs : Spelling w.toList s.toList) :
    ((canonical_authority_key w).isSome = true →
      (FoundAsKey crates s ↔ Unbroken s ∨ (w = "permissiongrant" ∧ BrokenAtGrant s))) ∧
    (authority_value_present w = true → (FoundAsValue crates s ↔ Unbroken s)) := by
  refine ⟨fun hkey => ?_, fun hvalue => ?_⟩
  · rw [foundAsKey_iff h, keyClaims_spelling_iff h hkey hs]
  · rw [foundAsValue_iff h, textClaims_spelling_iff h hvalue hs]

theorem keepsPlain_ascii : KeepsPlain .ascii := fun _ _ => rfl

theorem spellings_found_role :
    FoundAsKey .ascii "RO\u200bLe" ↔
      Unbroken "RO\u200bLe" ∨ ("role" = "permissiongrant" ∧ BrokenAtGrant "RO\u200bLe") := by
  have hspelling : Spelling "role".toList "RO\u200bLe".toList :=
    .letter (by decide) (.letter (by decide) (.zeroWidth (by decide) (.letter (by decide)
      (.letter (by decide) .nil))))
  exact (spellings_found_iff .ascii keepsPlain_ascii "role" "RO\u200bLe" hspelling).1 (by decide)

/-- The gate takes the key rOle and the value aDmin for other words. -/
theorem broken_spellings_pass :
    Spelling "role".toList "rOle".toList ∧ ¬ FoundAsKey .ascii "rOle" ∧
      Spelling "admin".toList "aDmin".toList ∧ ¬ FoundAsValue .ascii "aDmin" := by
  refine ⟨?_, ?_, ?_, ?_⟩
  · exact .letter (by decide) (.letter (by decide) (.letter (by decide) (.letter (by decide) .nil)))
  · rw [foundAsKey_iff keepsPlain_ascii]
    decide +kernel
  · exact .letter (by decide) (.letter (by decide) (.letter (by decide) (.letter (by decide)
      (.letter (by decide) .nil))))
  · rw [foundAsValue_iff keepsPlain_ascii]
    decide +kernel

end protocol
