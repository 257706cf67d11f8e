-- What counts as a claim of authority in metadata, in Rust and in Python, side by side. The normal
-- forms differ, but on ASCII texts each word of authority that Python finds Rust finds too.
import GuiShell.Broker.ReadValues
import GuiShell.NormalForms
import GuiShell.NormalizationParity

open json serde_json json_lines shell_core.normalization authority normal_forms
  normalization_parity

namespace metadata_parity

/-! ## The normal forms -/

/-- What the character data of the two sides say of ASCII. -/
structure AsciiData (crates : Crates) (unicode : Unicode) : Prop where
  rust : KeepsAscii crates
  python : ∀ text : List Char, (∀ c ∈ text, c.toNat < 0x80) →
    unicode.nfkc (.ofList text) = .ofList text
  casefold : ∀ c : Char, c.toNat < 0x80 → unicode.casefold c = [c.toLower]

def IsAscii (text : String) : Prop := ∀ c ∈ text.toList, c.toNat < 0x80

variable {crates : Crates} {unicode : Unicode}

theorem rust_normal_form (hdata : AsciiData crates unicode) {text : String} (h : IsAscii text) :
    normalize_authority_token crates text = .ofList (core text.toList) := by
  have htext : crates.nfkc text = text := by
    have := hdata.rust text.toList h
    rwa [String.ofList_toList] at this
  have hplain : text.toList.filter (fun c => !isZeroWidth c) = text.toList := by
    rw [List.filter_eq_self]
    intro c hc
    rw [not_isZeroWidth_of_ascii (h c hc)]
    rfl
  unfold normalize_authority_token
  simp only [htext, hplain]
  show String.ofList (core (trim text.toList)) = _
  rw [trim, core_strip fun c => parts_of_isWhitespace]

theorem python_normal_form (hdata : AsciiData crates unicode) {text : String} (h : IsAscii text) :
    normalize_key unicode text = .ofList (replaceRuns
      (fun c => (shell_core.normalization.isSpace c || c = '-') || c = '_') false
      ((splitCamel (strip text.toList)).map Char.toLower)) := by
  have htext : unicode.nfkc text = text := by
    have := hdata.python text.toList h
    rwa [String.ofList_toList] at this
  have hplain : text.toList.filter (fun character => character ∉ ZERO_WIDTH_CHARACTERS) =
      text.toList := by
    rw [List.filter_eq_self]
    intro c hc
    have hzero := not_isZeroWidth_of_ascii (h c hc)
    simp only [isZeroWidth, Bool.or_eq_false_iff, decide_eq_false_iff_not] at hzero
    simp [ZERO_WIDTH_CHARACTERS, hzero]
  have hfold : (splitCamel (strip text.toList)).flatMap unicode.casefold =
      (splitCamel (strip text.toList)).map Char.toLower := by
    rw [List.map_eq_flatMap]
    apply List.flatMap_congr
    intro c hc
    apply hdata.casefold
    rcases mem_splitCamel hc with hc | rfl
    · exact h c (mem_strip hc)
    · decide
  unfold normalize_key
  simp only [htext, hplain, hfold]
  rw [replaceRuns_replaceRuns (by decide) fun h => h]

/-- Where the form of an ASCII text in Python is a normal form of Rust, it is the one of Rust. -/
theorem normal_forms_agree (hdata : AsciiData crates unicode) {text : String} (h : IsAscii text)
    (hnormal : Normal (normalize_key unicode text).toList) :
    normalize_authority_token crates text = normalize_key unicode text := by
  rw [rust_normal_form hdata h]
  rw [python_normal_form hdata h] at hnormal ⊢
  rw [String.toList_ofList] at hnormal
  have hsame : replaceRuns (fun c => (shell_core.normalization.isSpace c || c = '-') || c = '_')
      false ((splitCamel (strip text.toList)).map Char.toLower) =
        tokenized (strip text.toList) := by
    rw [tokenized_eq]
    apply replaceRuns_congr
    intro c hc
    by_cases hp : ((shell_core.normalization.isSpace c || c = '-') || c = '_') = true
    · rw [hp]
      simp only [Bool.or_eq_true, decide_eq_true_eq] at hp
      rcases hp with (hspace | rfl) | rfl
      · exact (parts_of_isSpace hspace).symm
      · decide
      · decide
    · rw [Bool.not_eq_true] at hp
      have hmem := @mem_replaceRuns (fun c => (shell_core.normalization.isSpace c || c = '-') ||
        c = '_') false _ c hc hp
      have hword := (hnormal.chars c hmem).1
      simp only [Bool.or_eq_false_iff, decide_eq_false_iff_not] at hp
      rw [isWordChar, decide_eq_false hp.2, Bool.or_false] at hword
      simp [parts, hword, hp]
  rw [hsame] at hnormal ⊢
  have hcore : core (strip text.toList) = core text.toList := by
    unfold strip
    exact core_strip (fun c => parts_of_isSpace) _
  rw [← hcore, core, trim_matches_eq_self hnormal.first hnormal.last]

/-! ## Claims -/

theorem keyClaims_of_python (hdata : AsciiData crates unicode) {key : String} (h : IsAscii key)
    (hclaims : (canonical_authority_key unicode key).isSome = true) :
    keyClaimsAuthority crates key = true := by
  have hword := (python_claims_iff key).mp hclaims
  have hnormal := normal_of_word (List.mem_append_left AUTHORITY_VALUES hword)
  rw [rust_claims_iff, normal_forms_agree hdata h hnormal]
  exact hword

theorem textClaims_of_python (hdata : AsciiData crates unicode) {text : String} (h : IsAscii text)
    (hclaims : normalize_key unicode text ∈ AUTHORITY_VALUES) :
    textClaimsAuthority crates text = true := by
  have hnormal := normal_of_word (List.mem_append_right keyNames hclaims)
  unfold textClaimsAuthority
  dsimp only
  rw [normal_forms_agree hdata h hnormal, (rust_value_iff _).mpr hclaims]
  rfl

/-- Somewhere in the value a key or a string claims authority. -/
def Shows (crates : Crates) (v : Value) : Prop :=
  (∃ keys ∈ v.keyLists, ∃ key ∈ keys, keyClaimsAuthority crates key = true) ∨
    ∃ text ∈ v.stringValues, textClaimsAuthority crates text = true

/-- The scan finds a claim in a list of values exactly when it finds one in a value of it. -/
theorem anyItem_eq_true_iff {items : List Value} : anyItem crates items = true ↔
    ∃ v ∈ items, metadata_attempts_authority_value crates v = true := by
  induction items with
  | nil => simp [anyItem]
  | cons v items ih => simp [anyItem, ih]

theorem anyField_eq_true_iff {fields : List (String × Value)} : anyField crates fields = true ↔
    ∃ field ∈ fields, keyClaimsAuthority crates field.1 = true ∨
      metadata_attempts_authority_value crates field.2 = true := by
  induction fields with
  | nil => simp [anyField]
  | cons field fields ih => simp [anyField, ih]

theorem shows_array {items : List Value} (h : Shows crates (.array items)) :
    ∃ v ∈ items, Shows crates v := by
  rcases h with ⟨keys, hkeys, hclaims⟩ | ⟨text, htext, hclaims⟩
  · rw [Value.keyLists, Value.mem_keyListsOfItems] at hkeys
    obtain ⟨v, hv, hkeys⟩ := hkeys
    exact ⟨v, hv, .inl ⟨keys, hkeys, hclaims⟩⟩
  · rw [Value.stringValues, Value.stringValuesOfItems_eq, List.mem_flatMap] at htext
    obtain ⟨v, hv, htext⟩ := htext
    exact ⟨v, hv, .inr ⟨text, htext, hclaims⟩⟩

theorem shows_object {fields : List (String × Value)} (h : Shows crates (.object fields)) :
    (∃ key ∈ fields.map Prod.fst, keyClaimsAuthority crates key = true) ∨
      ∃ k v, (k, v) ∈ fields ∧ Shows crates v := by
  rcases h with ⟨keys, hkeys, hclaims⟩ | ⟨text, htext, hclaims⟩
  · rw [Value.keyLists, List.mem_cons, Value.mem_keyListsOfFields] at hkeys
    rcases hkeys with rfl | ⟨⟨k, v⟩, hmem, hkeys⟩
    · exact .inl hclaims
    · exact .inr ⟨k, v, hmem, .inl ⟨keys, hkeys, hclaims⟩⟩
  · rw [Value.stringValues, Value.stringValuesOfFields_eq, List.mem_flatMap] at htext
    obtain ⟨⟨k, v⟩, hmem, htext⟩ := htext
    exact .inr ⟨k, v, hmem, .inr ⟨text, htext, hclaims⟩⟩

/-- The scan of Rust comes to every key and string of what the broker has read. -/
theorem scan_of_shows {f64 : List Char → Option FloatText} {v w : Value} (hd : v.Distinct)
    (hvalue : valueOf f64 v = some w) (h : Shows crates v) :
    metadata_attempts_authority_value crates w = true := by
  induction v using Value.induct generalizing w with
  | null | bool _ => rcases h with ⟨_, h, _⟩ | ⟨_, h, _⟩ <;> cases h
  | number n => rcases h with ⟨_, h, _⟩ | ⟨_, h, _⟩ <;> cases h
  | string text =>
    cases hvalue
    rcases h with ⟨_, h, _⟩ | ⟨text', h, hclaims⟩
    · cases h
    · rw [Value.stringValues, List.mem_singleton] at h
      rw [h] at hclaims
      exact hclaims
  | array items ih =>
    obtain ⟨items', rfl, hitems⟩ := array_of_valueOf hvalue
    obtain ⟨v, hv, hshows⟩ := shows_array h
    obtain ⟨w, hw, hvw⟩ := exists_of_mem_left hitems hv
    rw [metadata_attempts_authority_value, anyItem_eq_true_iff]
    exact ⟨w, hw, ih v hv (Value.distinct_array.mp hd v hv) hvw hshows⟩
  | object fields ih =>
    obtain ⟨fields', rfl, hkeys, hget⟩ := object_of_valueOf hd hvalue
    rw [metadata_attempts_authority_value, anyField_eq_true_iff]
    rcases shows_object h with ⟨key, hkey, hclaims⟩ | ⟨k, v, hmem, hshows⟩
    · obtain ⟨field, hfield, rfl⟩ := List.mem_map.mp (hkeys.mem_iff.mpr hkey)
      exact ⟨field, hfield, .inl hclaims⟩
    · obtain ⟨hnodup, hdistinct⟩ := Value.distinct_object.mp hd
      have hread := hget k
      rw [sorted_map.get_of_mem hnodup hmem, Option.map_some, Option.map_eq_some_iff] at hread
      obtain ⟨w, hw, hvw⟩ := hread
      exact ⟨(k, w), sorted_map.mem_of_get hw,
        .inr (ih k v hmem (hdistinct k v hmem) hvw.symm hshows)⟩

/-- What Python takes for a claim shows itself to Rust. -/
theorem shows_of_python (hdata : AsciiData crates unicode) {v : Value}
    (hascii : ∀ s ∈ v.strings, IsAscii s)
    (h : (!(authority_keys_in unicode v "").isEmpty || !(authority_values_in unicode
      (strip_authority_keys unicode v) "").isEmpty) = true) : Shows crates v := by
  rw [Bool.or_eq_true, Bool.not_eq_true', Bool.not_eq_true', List.isEmpty_eq_false_iff,
    List.isEmpty_eq_false_iff, ← List.length_pos_iff, ← List.length_pos_iff] at h
  rcases h with h | h
  · rw [python_keys_length] at h
    have hsome : ∃ keys ∈ v.keyLists, 0 < keys.countP (pythonClaims unicode) := by
      by_contra hnone
      push Not at hnone
      apply h.ne'
      rw [overObjects, List.sum_eq_zero_iff_forall_eq_nat]
      intro n hn
      obtain ⟨keys, hkeys, rfl⟩ := List.mem_map.mp hn
      exact Nat.le_zero.mp (hnone keys hkeys)
    obtain ⟨keys, hkeys, hpos⟩ := hsome
    obtain ⟨key, hkey, hclaims⟩ := List.countP_pos_iff.mp hpos
    exact .inl ⟨keys, hkeys, key, hkey,
      keyClaims_of_python hdata (hascii key (Value.mem_strings_of_key hkeys hkey)) hclaims⟩
  · rw [python_values_length] at h
    obtain ⟨text, htext, hclaims⟩ := List.countP_pos_iff.mp h
    have hvalue := keptStrings_subset v ((python_kept v).mem_iff.mp htext)
    exact .inr ⟨text, hvalue, textClaims_of_python hdata
      (hascii text (Value.mem_strings_of_value hvalue)) (of_decide_eq_true hclaims)⟩

end metadata_parity
