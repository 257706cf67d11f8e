-- The payloads that Rust and Python normalize alike, by how their keys and strings are spelled.
import GuiShell.Broker.ReadValues
import GuiShell.NormalForms
import GuiShell.NormalizationParity
import Mathlib.Algebra.Order.BigOperators.Group.List

open json serde_json shell_core.normalization normal_forms

namespace normalization_parity

/-- What the character data of the two sides have in common: the same NFKC, and a case folding
that makes small letters of ASCII capitals and leaves spaces alone. -/
structure SameTables (crates : Crates) (unicode : Unicode) : Prop where
  nfkc : ∀ text, crates.nfkc text = unicode.nfkc text
  ascii : ∀ c : Char, c.toNat < 0x80 → unicode.casefold c = [c.toLower]
  spaces : ∀ c, shell_core.normalization.isSpace c = true → unicode.casefold c = [c]

/-- On neither side the normal form of the text is one of the words. -/
def NoneOf (crates : Crates) (unicode : Unicode) (words : List String) (text : String) : Prop :=
  normalize_key unicode text ∉ words ∧
    authority.normalize_authority_token crates text ∉ words

instance (crates : Crates) (unicode : Unicode) (words : List String) :
    DecidablePred (NoneOf crates unicode words) := fun text =>
  inferInstanceAs (Decidable (normalize_key unicode text ∉ words ∧
    authority.normalize_authority_token crates text ∉ words))

/-- The payload is spelled so that both sides read it alike. In the objects that stay all keys are
plain. Below a field that is dropped, and among the strings that stay, what is not plain is no word
that a side looks for, and keys of one object that one side takes for the same the other takes for
the same too. Where two keys that stay have one normal form, the last of them as Python received
them and the last as Rust did hold alike values. -/
structure SpelledAlike (crates : Crates) (unicode : Unicode) (payload received : Value) : Prop where
  keys : ∀ key ∈ openKeys (pythonName unicode) payload, Plain unicode key
  last : Alike (pythonName unicode) (pythonName unicode) payload received
  claims : ∀ keys ∈ payload.keyLists, ∀ key ∈ keys,
    Plain unicode key ∨ NoneOf crates unicode keyNames key
  values : ∀ text ∈ keptStrings (pythonName unicode) payload,
    Plain unicode text ∨ NoneOf crates unicode AUTHORITY_VALUES text
  collisions : ∀ keys ∈ payload.keyLists, ∀ key ∈ keys, ∀ key' ∈ keys,
    normalize_key unicode key = normalize_key unicode key' ↔
      authority.normalize_authority_token crates key =
        authority.normalize_authority_token crates key'

variable {crates : Crates} {unicode : Unicode} {payload received : Value}

/-! ## Sums and counts -/

theorem overObjects_congr {f g : List String → Nat} {v : Value}
    (h : ∀ keys ∈ v.keyLists, f keys = g keys) : overObjects f v = overObjects g v := by
  unfold overObjects
  rw [List.map_congr_left h]

/-! ## Repeated names -/

section repeats

variable {f g : String → String} {keys : List String}

/-- Where one name says what the other is, it stands for both of them. -/
theorem card_pairs (h : ∀ k ∈ keys, ∀ k' ∈ keys, f k = f k' → g k = g k') :
    (keys.map fun k => (f k, g k)).toFinset.card = (keys.map f).toFinset.card := by
  have himage : (keys.map f).toFinset = (keys.map fun k => (f k, g k)).toFinset.image Prod.fst := by
    ext n
    simp
  rw [himage, Finset.card_image_of_injOn]
  intro x hx y hy hxy
  rw [Finset.mem_coe, List.mem_toFinset, List.mem_map] at hx hy
  obtain ⟨k, hk, rfl⟩ := hx
  obtain ⟨k', hk', rfl⟩ := hy
  exact Prod.ext hxy (h k hk k' hk' hxy)

theorem card_names (keys : List String) : (keys.map g).toFinset =
    (keys.map fun k => (f k, g k)).toFinset.image Prod.snd := by
  ext n
  simp

theorem repeats_le (h : ∀ k ∈ keys, ∀ k' ∈ keys, f k = f k' → g k = g k') :
    repeats f keys ≤ repeats g keys := by
  have hcard : (keys.map g).toFinset.card ≤ (keys.map f).toFinset.card := by
    rw [← card_pairs h, @card_names f g]
    exact Finset.card_image_le
  unfold repeats
  omega

/-- As many keys are repeated exactly when the other name says what the one is, too. -/
theorem repeats_eq_iff (h : ∀ k ∈ keys, ∀ k' ∈ keys, f k = f k' → g k = g k') :
    repeats f keys = repeats g keys ↔ ∀ k ∈ keys, ∀ k' ∈ keys, g k = g k' → f k = f k' := by
  constructor
  · intro hsame k hk k' hk' hgk
    have hf : (keys.map f).toFinset.card ≤ keys.length := by
      simpa using List.toFinset_card_le (keys.map f)
    have hg : (keys.map g).toFinset.card ≤ keys.length := by
      simpa using List.toFinset_card_le (keys.map g)
    have hcard : ((keys.map fun k => (f k, g k)).toFinset.image Prod.snd).card =
        (keys.map fun k => (f k, g k)).toFinset.card := by
      rw [← card_names, card_pairs h]
      unfold repeats at hsame
      omega
    have hinj := Finset.card_image_iff.mp hcard
    have hmem : ∀ k ∈ keys, (f k, g k) ∈ (keys.map fun k => (f k, g k)).toFinset := fun k hk =>
      List.mem_toFinset.mpr (List.mem_map.mpr ⟨k, hk, rfl⟩)
    exact congrArg Prod.fst (hinj (hmem k hk) (hmem k' hk') hgk)
  · intro hback
    exact Nat.le_antisymm (repeats_le h) (repeats_le hback)

end repeats

/-! ## One text -/

section texts

variable {text : String} {words : List String}

theorem SameTables.folds (h : SameTables crates unicode) (l : List Char) : Folds unicode l :=
  ⟨h.ascii, fun c _ => h.spaces c⟩

theorem SameTables.forms (h : SameTables crates unicode) (hplain : Plain unicode text) :
    normalize_key unicode text = authority.normalize_authority_token crates text :=
  forms_of_plain (h.nfkc text) (h.folds _) hplain

/-- A text that is plain, or none of the words, is one of them on both sides or on none. -/
theorem SameTables.word_iff (h : SameTables crates unicode)
    (htext : Plain unicode text ∨ NoneOf crates unicode words text) :
    normalize_key unicode text ∈ words ↔
      authority.normalize_authority_token crates text ∈ words := by
  rcases htext with hplain | ⟨hpython, hrust⟩
  · rw [h.forms hplain]
  · exact iff_of_false hpython hrust

theorem claims_iff (key : String) :
    pythonClaims unicode key = true ↔ normalize_key unicode key ∈ keyNames :=
  python_claims_iff key

theorem rustName_eq (key : String) : rustName crates key =
    if authority.normalize_authority_token crates key ∈ keyNames then none
    else some (authority.normalize_authority_token crates key) := by
  unfold rustName
  simp only [rust_claims_iff]

theorem pythonName_eq (key : String) : pythonName unicode key =
    if normalize_key unicode key ∈ keyNames then none else some (normalize_key unicode key) := by
  unfold pythonName
  by_cases hkey : normalize_key unicode key ∈ keyNames
  · have hsome := (python_claims_iff key).mpr hkey
    rw [if_pos hkey, if_neg (Option.ne_none_iff_isSome.mpr hsome)]
  · have hnone := fun hsome => hkey ((python_claims_iff key).mp hsome)
    rw [if_neg hkey, if_pos (by simpa using hnone)]

theorem SameTables.names (h : SameTables crates unicode) (hplain : Plain unicode text) :
    pythonName unicode text = rustName crates text := by
  rw [pythonName_eq, rustName_eq, h.forms hplain]

end texts

/-! ## Spelled alike, normalized alike -/

/-- What is open in what was read was open in what was sent. -/
theorem openKeys_valueOf {name : String → Option String} {f64 : List Char → Option FloatText}
    {v w : Value} (hd : v.Distinct) (h : valueOf f64 v = some w) :
    openKeys name w ⊆ openKeys name v := by
  induction v using Value.induct generalizing w with
  | null | bool _ | string _ =>
    cases h
    exact List.Subset.refl _
  | number n =>
    simp only [valueOf, Option.map_eq_some_iff] at h
    obtain ⟨_, _, rfl⟩ := h
    exact List.Subset.refl _
  | array items ih =>
    obtain ⟨items', rfl, hitems⟩ := array_of_valueOf h
    intro k hk
    obtain ⟨w, hw, hk⟩ := mem_openKeys_array.mp hk
    obtain ⟨v, hv, hvw⟩ := exists_of_mem_left hitems.flip hw
    exact mem_openKeys_array.mpr ⟨v, hv, ih v hv (Value.distinct_array.mp hd v hv) hvw hk⟩
  | object fields ih =>
    obtain ⟨fields', rfl, hperm, hget⟩ := object_of_valueOf hd h
    obtain ⟨hnodup, hdistinct⟩ := Value.distinct_object.mp hd
    intro k hk
    obtain ⟨⟨l, w⟩, hw, hk⟩ := mem_openKeys_object.mp hk
    have hread := hget l
    rw [sorted_map.get_of_mem (hperm.nodup_iff.mpr hnodup) hw, Option.map_some, eq_comm,
      Option.map_eq_some_iff] at hread
    obtain ⟨v, hv, hvw⟩ := hread
    have hmem := sorted_map.mem_of_get hv
    refine mem_openKeys_object.mpr ⟨(l, v), hmem, ?_⟩
    rcases hk with hk | ⟨hsome, hk⟩
    · exact .inl hk
    · exact .inr ⟨hsome, ih l v hmem (hdistinct l v hmem) hvw hk⟩

/-- On plain keys the two namings make the same of what was read. -/
theorem rename_received (htables : SameTables crates unicode) (hd : payload.Distinct)
    (hreceived : valueOf crates.f64 payload = some received)
    (hkeys : ∀ key ∈ openKeys (pythonName unicode) payload, Plain unicode key) :
    rename (pythonName unicode) received = rename (rustName crates) received :=
  rename_congr fun key hkey => htables.names (hkeys key (openKeys_valueOf hd hreceived hkey))

theorem SpelledAlike.same_normal_forms (htables : SameTables crates unicode)
    (hd : payload.Distinct) (hreceived : valueOf crates.f64 payload = some received)
    (h : SpelledAlike crates unicode payload received) :
    SameNormalForms crates unicode payload received := by
  constructor
  · rw [← rename_eq_iff, ← rename_received htables hd hreceived h.keys, rename_eq_iff]
    exact h.last
  · refine overObjects_congr fun keys hkeys => List.countP_congr fun key hkey => ?_
    rw [claims_iff, rust_claims_iff]
    exact htables.word_iff (h.claims keys hkeys key hkey)
  · refine List.countP_congr fun text htext => ?_
    rw [decide_eq_true_eq, rust_value_iff]
    exact htables.word_iff (h.values text htext)
  · refine overObjects_congr fun keys hkeys => ?_
    have hsame := h.collisions keys hkeys
    rw [repeats_eq_iff fun k hk k' hk' => (hsame k hk k' hk').mp]
    exact fun k hk k' hk' => (hsame k hk k' hk').mpr

/-! ## Normalized alike, spelled alike -/

theorem mem_keyLists_of_openKeys {name : String → Option String} {key : String} {v : Value}
    (h : key ∈ openKeys name v) : ∃ keys ∈ v.keyLists, key ∈ keys := by
  induction v using Value.induct with
  | null | bool _ | number _ | string _ => cases h
  | array items ih =>
    obtain ⟨v, hv, hkey⟩ := mem_openKeys_array.mp h
    obtain ⟨keys, hkeys, hkey⟩ := ih v hv hkey
    exact ⟨keys, Value.mem_keyListsOfItems.mpr ⟨v, hv, hkeys⟩, hkey⟩
  | object fields ih =>
    obtain ⟨⟨k, v⟩, hv, rfl | ⟨-, hkey⟩⟩ := mem_openKeys_object.mp h
    · exact ⟨_, List.mem_cons_self, List.mem_map_of_mem hv⟩
    · obtain ⟨keys, hkeys, hkey⟩ := ih k v hv hkey
      exact ⟨keys, List.mem_cons_of_mem _ (Value.mem_keyListsOfFields.mpr ⟨_, hv, hkeys⟩), hkey⟩

/-- A field that is dropped, with a key in it that the two sides name apart, and one that stays. -/
def nested : DistinctKeys :=
  ⟨.object [("role", .object [("a.b", .null)]), ("to do", .array [.string "x"])], by decide⟩

/-- With plain texts only, no number that is read as another one, and no two keys of an object
that stay with one normal form, the results agree. -/
theorem results_agree_of_plain (htables : SameTables crates unicode) (payload : DistinctKeys)
    (hplain : ∀ text ∈ payload.val.strings, Plain unicode text)
    (hunshared : Unshared (pythonName unicode) payload.val)
    (hread : valueOf crates.f64 payload.val = some payload.val.sortKeys) :
    Agree crates unicode payload.val := by
  have hkey : ∀ keys ∈ payload.val.keyLists, ∀ key ∈ keys, Plain unicode key :=
    fun keys hkeys key hkey => hplain key (Value.mem_strings_of_key hkeys hkey)
  refine (agree_iff_same_normal_forms payload.property).mpr ⟨_, hread, ?_⟩
  refine SpelledAlike.same_normal_forms htables payload.property hread ?_
  constructor
  · intro key hopen
    obtain ⟨keys, hkeys, hmem⟩ := mem_keyLists_of_openKeys hopen
    exact hkey keys hkeys key hmem
  · rw [← rename_eq_iff, rename_sortKeys payload.property hunshared]
  · exact fun keys hkeys key hmem => .inl (hkey keys hkeys key hmem)
  · intro text htext
    exact .inl (hplain text (Value.mem_strings_of_value (keptStrings_subset _ htext)))
  · intro keys hkeys key hmem key' hmem'
    rw [htables.forms (hkey keys hkeys key hmem), htables.forms (hkey keys hkeys key' hmem')]

end normalization_parity
