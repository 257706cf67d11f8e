-- The normalization of inbound payloads in Rust as a firewall: what passes it has no word of
-- authority in it and stays as it is, and what is stripped has no authority key in any case.
import GuiShell.Broker.AuthorityNormalForm
import GuiShell.NormalizationParity

open json normalization_parity

namespace authority

variable (crates : Crates)

/-! ## What the firewall looks for -/

/-- No key of the value, at any depth, is normalized to an authority key. -/
def NoAuthorityKey (v : Value) : Prop :=
  ∀ keys ∈ v.keyLists, ∀ key ∈ keys, keyClaimsAuthority crates key = false

/-- No two keys of one object are normalized to the same key. -/
def NoCollision (v : Value) : Prop :=
  ∀ keys ∈ v.keyLists, (keys.map (normalize_authority_token crates)).Nodup

/-- No string of the value, but for its keys, is normalized to an authority value. -/
def NoAuthorityValue (v : Value) : Prop :=
  ∀ s ∈ v.stringValues, authority_value_present (normalize_authority_token crates s) = false

/-- The second value is the first one with its keys renamed, whatever the order of its fields. -/
inductive SameShape (name : String → String) : Value → Value → Prop
  | null : SameShape name .null .null
  | bool (b : Bool) : SameShape name (.bool b) (.bool b)
  | number (n : Number) : SameShape name (.number n) (.number n)
  | string (s : String) : SameShape name (.string s) (.string s)
  | array {items items' : List Value} :
      List.Forall₂ (SameShape name) items items' → SameShape name (.array items) (.array items')
  | object {fields fields' : List (String × Value)} {values : List Value} :
      List.Forall₂ (SameShape name) (fields.map Prod.snd) values →
      fields'.Perm ((fields.map fun e => name e.1).zip values) →
      SameShape name (.object fields) (.object fields')

variable {crates} {v : Value} {fields : List (String × Value)}

theorem noAuthorityKey_array {items : List Value} : NoAuthorityKey crates (.array items) ↔
    ∀ v ∈ items, NoAuthorityKey crates v := by
  simp only [NoAuthorityKey, Value.keyLists, Value.mem_keyListsOfItems]
  constructor
  · exact fun h v hv keys hk => h keys ⟨v, hv, hk⟩
  · rintro h keys ⟨v, hv, hk⟩
    exact h v hv keys hk

theorem noAuthorityKey_object : NoAuthorityKey crates (.object fields) ↔
    ∀ e ∈ fields, keyClaimsAuthority crates e.1 = false ∧ NoAuthorityKey crates e.2 := by
  simp only [NoAuthorityKey, Value.keyLists, List.mem_cons, Value.mem_keyListsOfFields]
  constructor
  · intro h e he
    exact ⟨h _ (.inl rfl) e.1 (List.mem_map_of_mem he), fun keys hk => h keys (.inr ⟨e, he, hk⟩)⟩
  · rintro h keys (rfl | ⟨e, he, hk⟩) key hkey
    · obtain ⟨e, he, rfl⟩ := List.mem_map.mp hkey
      exact (h e he).1
    · exact (h e he).2 keys hk key hkey

theorem noCollision_array {items : List Value} : NoCollision crates (.array items) ↔
    ∀ v ∈ items, NoCollision crates v := by
  simp only [NoCollision, Value.keyLists, Value.mem_keyListsOfItems]
  constructor
  · exact fun h v hv keys hk => h keys ⟨v, hv, hk⟩
  · rintro h keys ⟨v, hv, hk⟩
    exact h v hv keys hk

theorem noCollision_object : NoCollision crates (.object fields) ↔
    (fields.map fun e => normalize_authority_token crates e.1).Nodup ∧
      ∀ e ∈ fields, NoCollision crates e.2 := by
  simp only [NoCollision, Value.keyLists, List.mem_cons, Value.mem_keyListsOfFields]
  constructor
  · intro h
    have hown := h _ (.inl rfl)
    rw [List.map_map] at hown
    exact ⟨hown, fun e he keys hk => h keys (.inr ⟨e, he, hk⟩)⟩
  · rintro ⟨hown, h⟩ keys (rfl | ⟨e, he, hk⟩)
    · rw [List.map_map]
      exact hown
    · exact h e he keys hk

/-! ## What is stripped -/

theorem strip_array (items : List Value) : strip_authority_keys crates (.array items) =
    .array (items.map (strip_authority_keys crates)) := by
  rw [strip_authority_keys, rust_stripItems]

theorem stripFields_of_noKey (h : ∀ e ∈ fields, keyClaimsAuthority crates e.1 = false) :
    stripFields crates fields =
      fields.map fun e => (normalize_authority_token crates e.1, strip_authority_keys crates e.2) := by
  induction fields with
  | nil => rfl
  | cons e fields ih =>
    rw [stripFields, h e List.mem_cons_self, ih fun x hx => h x (List.mem_cons_of_mem _ hx)]
    rfl

/-- A field that stays comes from a field whose key claims no authority. -/
theorem exists_of_mem_stripFields {e : String × Value} (h : e ∈ stripFields crates fields) :
    ∃ e' ∈ fields, keyClaimsAuthority crates e'.1 = false ∧
      e = (normalize_authority_token crates e'.1, strip_authority_keys crates e'.2) := by
  induction fields with
  | nil => cases h
  | cons e' fields ih =>
    rw [stripFields] at h
    by_cases hkey : keyClaimsAuthority crates e'.1 = true
    · rw [if_pos hkey] at h
      obtain ⟨e'', he'', hfield⟩ := ih h
      exact ⟨e'', List.mem_cons_of_mem _ he'', hfield⟩
    · rw [if_neg hkey] at h
      rcases List.mem_cons.mp h with rfl | h
      · exact ⟨e', List.mem_cons_self, Bool.eq_false_iff.mpr hkey, rfl⟩
      · obtain ⟨e'', he'', hfield⟩ := ih h
        exact ⟨e'', List.mem_cons_of_mem _ he'', hfield⟩

/-- A normalized key claims authority when the key does. -/
theorem keyClaims_normalize (h : KeepsAscii crates) (key : String) :
    keyClaimsAuthority crates (normalize_authority_token crates key) =
      keyClaimsAuthority crates key := by
  unfold keyClaimsAuthority
  rw [normalize_normalize h]

/-- The keys of a stripped value are normal forms of keys that claim no authority. -/
theorem keys_strip {P : String → Prop}
    (hP : ∀ key, keyClaimsAuthority crates key = false → P (normalize_authority_token crates key))
    (v : Value) : ∀ keys ∈ (strip_authority_keys crates v).keyLists, ∀ key ∈ keys, P key := by
  induction v using Value.induct with
  | null | bool _ | number _ | string _ =>
    intro keys hk
    cases hk
  | array items ih =>
    rw [strip_array]
    simp only [Value.keyLists, Value.mem_keyListsOfItems]
    rintro keys ⟨w, hw, hk⟩
    obtain ⟨v, hv, rfl⟩ := List.mem_map.mp hw
    exact ih v hv keys hk
  | object fields ih =>
    rw [strip_authority_keys, Value.mkObject]
    simp only [Value.keyLists, List.mem_cons, Value.mem_keyListsOfFields]
    have hfield : ∀ e ∈ sorted_map.ofList (stripFields crates fields), ∃ e' ∈ fields,
        keyClaimsAuthority crates e'.1 = false ∧
          e = (normalize_authority_token crates e'.1, strip_authority_keys crates e'.2) :=
      fun e he => exists_of_mem_stripFields (sorted_map.mem_of_mem_ofList he)
    rintro keys (rfl | ⟨e, he, hk⟩) key hkey
    · obtain ⟨e, he, rfl⟩ := List.mem_map.mp hkey
      obtain ⟨e', -, hclaims, rfl⟩ := hfield e he
      exact hP e'.1 hclaims
    · obtain ⟨e', he', -, rfl⟩ := hfield e he
      exact ih e'.1 e'.2 he' keys hk key hkey

theorem noAuthorityKey_strip (h : KeepsAscii crates) (v : Value) :
    NoAuthorityKey crates (strip_authority_keys crates v) :=
  keys_strip (fun key hkey => (keyClaims_normalize h key).trans hkey) v

/-- Stripping again changes nothing. -/
theorem strip_strip (h : KeepsAscii crates) (v : Value) :
    strip_authority_keys crates (strip_authority_keys crates v) =
      strip_authority_keys crates v := by
  induction v using Value.induct with
  | null | bool _ | number _ | string _ => rfl
  | array items ih =>
    rw [strip_array, strip_array, List.map_map]
    exact congrArg Value.array (List.map_congr_left ih)
  | object fields ih =>
    have hmem : ∀ e ∈ sorted_map.ofList (stripFields crates fields),
        keyClaimsAuthority crates e.1 = false ∧ normalize_authority_token crates e.1 = e.1 ∧
          strip_authority_keys crates e.2 = e.2 := by
      intro e he
      obtain ⟨e', he', hkey, rfl⟩ := exists_of_mem_stripFields (sorted_map.mem_of_mem_ofList he)
      exact ⟨(keyClaims_normalize h e'.1).trans hkey, normalize_normalize h e'.1, ih e'.1 e'.2 he'⟩
    rw [strip_authority_keys, Value.mkObject, strip_authority_keys,
      stripFields_of_noKey fun e he => (hmem e he).1, Value.mkObject, Value.object.injEq]
    have hsame : ∀ e ∈ sorted_map.ofList (stripFields crates fields),
        (normalize_authority_token crates e.1, strip_authority_keys crates e.2) = e := by
      intro e he
      rw [(hmem e he).2.1, (hmem e he).2.2]
    rw [List.map_congr_left hsame, List.map_id', (sorted_map.sorted_ofList _).ofList_eq]

/-- Without keys of authority and without collisions, stripping only renames the keys. -/
theorem sameShape_strip (hkeys : NoAuthorityKey crates v) (hcollisions : NoCollision crates v) :
    SameShape (normalize_authority_token crates) v (strip_authority_keys crates v) := by
  induction v using Value.induct with
  | null => exact .null
  | bool b => exact .bool b
  | number n => exact .number n
  | string s => exact .string s
  | array items ih =>
    rw [noAuthorityKey_array] at hkeys
    rw [noCollision_array] at hcollisions
    rw [strip_array]
    refine .array (List.forall₂_map_right_iff.mpr (List.forall₂_same.mpr fun v hv => ?_))
    exact ih v hv (hkeys v hv) (hcollisions v hv)
  | object fields ih =>
    rw [noAuthorityKey_object] at hkeys
    rw [noCollision_object] at hcollisions
    rw [strip_authority_keys, Value.mkObject, stripFields_of_noKey fun e he => (hkeys e he).1]
    have hvalues : List.Forall₂ (SameShape (normalize_authority_token crates))
        (fields.map Prod.snd) (fields.map fun e => strip_authority_keys crates e.2) := by
      rw [List.forall₂_map_left_iff, List.forall₂_map_right_iff, List.forall₂_same]
      exact fun e he => ih e.1 e.2 he (hkeys e he).2 (hcollisions.2 e he)
    refine .object hvalues ?_
    rw [List.zip_map']
    apply sorted_map.perm_ofList
    rw [List.map_map]
    exact hcollisions.1

theorem stringValues_strip (hkeys : NoAuthorityKey crates v) (hcollisions : NoCollision crates v) :
    (strip_authority_keys crates v).stringValues.Perm v.stringValues := by
  induction v using Value.induct with
  | null | bool _ | number _ | string _ => exact .refl _
  | array items ih =>
    rw [noAuthorityKey_array] at hkeys
    rw [noCollision_array] at hcollisions
    rw [strip_array, Value.stringValues, Value.stringValues, Value.stringValuesOfItems_eq,
      Value.stringValuesOfItems_eq, List.flatMap_map]
    exact List.Perm.flatMap_left _ fun v hv => ih v hv (hkeys v hv) (hcollisions v hv)
  | object fields ih =>
    rw [noAuthorityKey_object] at hkeys
    rw [noCollision_object] at hcollisions
    rw [strip_authority_keys, Value.mkObject, stripFields_of_noKey fun e he => (hkeys e he).1,
      Value.stringValues, Value.stringValues, Value.stringValuesOfFields_eq,
      Value.stringValuesOfFields_eq]
    have hperm := sorted_map.perm_ofList (l := fields.map fun e =>
      (normalize_authority_token crates e.1, strip_authority_keys crates e.2))
      (by rw [List.map_map]; exact hcollisions.1)
    refine (hperm.flatMap_right _).trans ?_
    rw [List.flatMap_map]
    exact List.Perm.flatMap_left _ fun e he => ih e.1 e.2 he (hkeys e he).2 (hcollisions.2 e he)

/-! ## What is found -/

theorem eq_nil_of_countP_sum {f : List String → Nat} {v : Value} :
    overObjects f v = 0 ↔ ∀ keys ∈ v.keyLists, f keys = 0 := by
  unfold overObjects
  rw [List.sum_eq_zero_iff_forall_eq_nat, List.forall_mem_map]

theorem authority_keys_in_eq_nil_iff (v : Value) (path : String) :
    authority_keys_in crates v path = [] ↔ NoAuthorityKey crates v := by
  rw [← List.length_eq_zero_iff, rust_keys_length, eq_nil_of_countP_sum]
  simp only [List.countP_eq_zero, Bool.not_eq_true, NoAuthorityKey]

theorem authority_values_in_eq_nil_iff (v : Value) (path : String) :
    authority_values_in crates v path = [] ↔ NoAuthorityValue crates v := by
  rw [← List.length_eq_zero_iff, rust_values_length, List.countP_eq_zero]
  simp only [Bool.not_eq_true, NoAuthorityValue]

theorem repeats_eq_zero_iff (normal : String → String) (keys : List String) :
    repeats normal keys = 0 ↔ (keys.map normal).Nodup := by
  unfold repeats
  constructor
  · intro h
    -- Without a repetition no key is dropped from the set.
    have hle := (keys.map normal).toFinset_card_le
    rw [List.card_toFinset, List.length_map] at hle
    rw [List.card_toFinset] at h
    have hlength : (keys.map normal).length ≤ (keys.map normal).dedup.length := by
      rw [List.length_map]
      omega
    exact List.dedup_eq_self.mp ((List.dedup_sublist _).eq_of_length_le hlength)
  · intro h
    rw [List.toFinset_card_of_nodup h, List.length_map, Nat.sub_self]

theorem normalization_collisions_in_eq_nil_iff (hd : ∀ keys ∈ v.keyLists, keys.Nodup)
    (path : String) : normalization_collisions_in crates v path = [] ↔ NoCollision crates v := by
  rw [← List.length_eq_zero_iff, rust_collisions_length v hd, eq_nil_of_countP_sum]
  simp only [repeats_eq_zero_iff, NoCollision]

/-- The payload passes when nothing is found in it. -/
theorem passes_iff (hd : ∀ keys ∈ v.keyLists, keys.Nodup) :
    (normalize_inbound_payload crates v).get "quarantined" = some (.bool false) ↔
      NoAuthorityKey crates v ∧ NoCollision crates v ∧ NoAuthorityValue crates v := by
  have hempty : (!((authority_keys_in crates v "").isEmpty &&
      (authority_values_in crates (strip_authority_keys crates v) "").isEmpty &&
      (normalization_collisions_in crates v "").isEmpty)) = false ↔
        NoAuthorityKey crates v ∧ NoAuthorityValue crates (strip_authority_keys crates v) ∧
          NoCollision crates v := by
    rw [Bool.not_eq_false', Bool.and_eq_true, Bool.and_eq_true, List.isEmpty_iff, List.isEmpty_iff,
      List.isEmpty_iff, authority_keys_in_eq_nil_iff, authority_values_in_eq_nil_iff,
      normalization_collisions_in_eq_nil_iff hd, and_assoc]
  rw [(rust_lists v).quarantined, Option.some.injEq, Value.bool.injEq, hempty]
  -- The strings of what is stripped are those of the payload, when nothing is dropped.
  have hvalues : NoAuthorityKey crates v → NoCollision crates v →
      (NoAuthorityValue crates (strip_authority_keys crates v) ↔ NoAuthorityValue crates v) := by
    intro hkeys hcollisions
    unfold NoAuthorityValue
    simp only [(stringValues_strip hkeys hcollisions).mem_iff]
  constructor
  · rintro ⟨hkeys, hstripped, hcollisions⟩
    exact ⟨hkeys, hcollisions, (hvalues hkeys hcollisions).mp hstripped⟩
  · rintro ⟨hkeys, hcollisions, hvalue⟩
    exact ⟨hkeys, (hvalues hkeys hcollisions).mpr hvalue, hcollisions⟩

/-! ## Normalizing what has passed -/

theorem normalizeFields_eq (fields : List (String × Value)) :
    normalizeFields crates fields =
      fields.map fun e => (normalize_authority_token crates e.1, normalize_payload crates e.2) := by
  induction fields with
  | nil => rfl
  | cons e fields ih =>
    rw [normalizeFields, ih]
    rfl

theorem normalizeItems_eq (items : List Value) :
    normalizeItems crates items = items.map (normalize_payload crates) := by
  induction items with
  | nil => rfl
  | cons v items ih => rw [normalizeItems, ih, List.map_cons]

/-- Without keys of authority, stripping first makes no difference to the normalized payload. -/
theorem normalize_payload_strip (h : KeepsAscii crates) (hkeys : NoAuthorityKey crates v) :
    normalize_payload crates (strip_authority_keys crates v) = normalize_payload crates v := by
  induction v using Value.induct with
  | null | bool _ | number _ | string _ => rfl
  | array items ih =>
    rw [noAuthorityKey_array] at hkeys
    rw [strip_array, normalize_payload, normalize_payload, normalizeItems_eq, normalizeItems_eq,
      List.map_map]
    exact congrArg Value.array (List.map_congr_left fun v hv => ih v hv (hkeys v hv))
  | object fields ih =>
    rw [noAuthorityKey_object] at hkeys
    rw [strip_authority_keys, Value.mkObject, stripFields_of_noKey fun e he => (hkeys e he).1,
      normalize_payload, normalize_payload, normalizeFields_eq, normalizeFields_eq, Value.mkObject,
      Value.mkObject, Value.object.injEq]
    have hrenamed : ∀ e ∈ sorted_map.ofList (fields.map fun e =>
        (normalize_authority_token crates e.1, strip_authority_keys crates e.2)),
        (normalize_authority_token crates e.1, normalize_payload crates e.2) =
          (e.1, normalize_payload crates e.2) := by
      intro e he
      obtain ⟨e', -, rfl⟩ := List.mem_map.mp (sorted_map.mem_of_mem_ofList he)
      rw [normalize_normalize h]
    rw [List.map_congr_left hrenamed, ← sorted_map.ofList_map,
      (sorted_map.sorted_ofList _).ofList_eq, List.map_map]
    have hvalues : ∀ e ∈ fields,
        (normalize_authority_token crates e.1,
          normalize_payload crates (strip_authority_keys crates e.2)) =
        (normalize_authority_token crates e.1, normalize_payload crates e.2) := by
      intro e he
      rw [ih e.1 e.2 he (hkeys e he).2]
    exact congrArg sorted_map.ofList (List.map_congr_left hvalues)

theorem distinct_strip (hd : ∀ keys ∈ v.keyLists, keys.Nodup) :
    ∀ keys ∈ (strip_authority_keys crates v).keyLists, keys.Nodup := by
  induction v using Value.induct with
  | null | bool _ | number _ | string _ => exact hd
  | array items ih =>
    rw [strip_array]
    simp only [Value.keyLists, Value.mem_keyListsOfItems] at hd ⊢
    rintro keys ⟨w, hw, hk⟩
    obtain ⟨v, hv, rfl⟩ := List.mem_map.mp hw
    exact ih v hv (fun keys hk => hd keys ⟨v, hv, hk⟩) keys hk
  | object fields ih =>
    rw [strip_authority_keys, Value.mkObject]
    simp only [Value.keyLists, List.mem_cons, Value.mem_keyListsOfFields] at hd ⊢
    rintro keys (rfl | ⟨e, he, hk⟩)
    · exact (sorted_map.sorted_ofList _).nodup
    · obtain ⟨e', he', -, rfl⟩ := exists_of_mem_stripFields (sorted_map.mem_of_mem_ofList he)
      exact ih e'.1 e'.2 he' (fun keys hk => hd keys (.inr ⟨e', he', hk⟩)) keys hk

/-- What a payload without findings gives, but for the payload itself. -/
def passedFields (normalized stripped : Value) : List (String × Value) := [
  ("normalized_payload", normalized),
  ("stripped_payload", stripped),
  ("quarantined", .bool false),
  ("authority_key_findings", .array []),
  ("authority_value_findings", .array []),
  ("normalization_collision_findings", .array []),
  ("audit_event", .mkObject [
    ("event_type", .string "normalization.pass"),
    ("authority_key_count", .number (.int 0)),
    ("authority_value_count", .number (.int 0)),
    ("normalization_collision_count", .number (.int 0)),
    ("raw_payload_preserved", .bool true)])]

theorem normalize_inbound_payload_of_nil (hkeys : authority_keys_in crates v "" = [])
    (hvalues : authority_values_in crates (strip_authority_keys crates v) "" = [])
    (hcollisions : normalization_collisions_in crates v "" = []) :
    normalize_inbound_payload crates v = .mkObject (("raw_payload", v) ::
      passedFields (normalize_payload crates v) (strip_authority_keys crates v)) := by
  unfold normalize_inbound_payload passedFields
  simp only [hkeys, hvalues, hcollisions]
  rfl

theorem get_passed {normalized stripped : Value} {field : String} (hfield : field ≠ "raw_payload") :
    (Value.mkObject (("raw_payload", v) :: passedFields normalized stripped)).get field =
      sorted_map.get field (passedFields normalized stripped).reverse := by
  rw [Value.get_mkObject, List.reverse_cons, sorted_map.get_append, sorted_map.get_cons,
    if_neg (Ne.symm hfield)]
  exact Option.or_none

/-- What the firewall does with a payload. -/
structure Firewall (crates : Crates) (p : Value) : Prop where
  stripped_payload : (normalize_inbound_payload crates p).get "stripped_payload" =
    some (strip_authority_keys crates p)
  passes_iff : (normalize_inbound_payload crates p).get "quarantined" = some (.bool false) ↔
    NoAuthorityKey crates p ∧ NoCollision crates p ∧ NoAuthorityValue crates p
  no_authority_key : NoAuthorityKey crates (strip_authority_keys crates p)
  strip_idempotent : strip_authority_keys crates (strip_authority_keys crates p) =
    strip_authority_keys crates p
  passed : (normalize_inbound_payload crates p).get "quarantined" = some (.bool false) →
    SameShape (normalize_authority_token crates) p (strip_authority_keys crates p) ∧
    (normalize_inbound_payload crates (strip_authority_keys crates p)).get "quarantined" =
      some (.bool false) ∧
    ∀ field, field ≠ "raw_payload" →
      (normalize_inbound_payload crates (strip_authority_keys crates p)).get field =
        (normalize_inbound_payload crates p).get field

/-- A stripped payload that had no authority in it has none and passes as the payload did. -/
theorem passed_again (h : KeepsAscii crates) (hd : ∀ keys ∈ v.keyLists, keys.Nodup)
    (hkeys : NoAuthorityKey crates v) (hcollisions : NoCollision crates v)
    (hvalues : NoAuthorityValue crates v) {field : String} (hfield : field ≠ "raw_payload") :
    (normalize_inbound_payload crates (strip_authority_keys crates v)).get field =
      (normalize_inbound_payload crates v).get field := by
  have hkeys' : NoAuthorityKey crates (strip_authority_keys crates v) := noAuthorityKey_strip h v
  have hvalues' : NoAuthorityValue crates (strip_authority_keys crates v) := fun s hs =>
    hvalues s ((stringValues_strip hkeys hcollisions).subset hs)
  have hcollisions' : NoCollision crates (strip_authority_keys crates v) := by
    intro keys hk
    have hnormal := keys_strip (P := fun key => normalize_authority_token crates key = key)
      (fun key _ => normalize_normalize h key) v keys hk
    rw [List.map_congr_left hnormal, List.map_id']
    exact distinct_strip hd keys hk
  rw [normalize_inbound_payload_of_nil ((authority_keys_in_eq_nil_iff v "").mpr hkeys)
      ((authority_values_in_eq_nil_iff _ "").mpr hvalues')
      ((normalization_collisions_in_eq_nil_iff hd "").mpr hcollisions),
    normalize_inbound_payload_of_nil ((authority_keys_in_eq_nil_iff _ "").mpr hkeys')
      ((authority_values_in_eq_nil_iff _ "").mpr (by rw [strip_strip h]; exact hvalues'))
      ((normalization_collisions_in_eq_nil_iff (distinct_strip hd) "").mpr hcollisions'),
    get_passed hfield, get_passed hfield, strip_strip h, normalize_payload_strip h hkeys]

theorem firewall (crates : Crates) (h : KeepsAscii crates) (p : DistinctKeys) :
    Firewall crates p.val where
  stripped_payload := (rust_lists p.val).stripped_payload
  passes_iff := authority.passes_iff p.property
  no_authority_key := noAuthorityKey_strip h p.val
  strip_idempotent := strip_strip h p.val
  passed hpassed := by
    obtain ⟨hkeys, hcollisions, hvalues⟩ := (authority.passes_iff p.property).mp hpassed
    have hagain : ∀ field, field ≠ "raw_payload" →
        (normalize_inbound_payload crates (strip_authority_keys crates p.val)).get field =
          (normalize_inbound_payload crates p.val).get field :=
      fun field hfield => passed_again h p.property hkeys hcollisions hvalues hfield
    refine ⟨sameShape_strip hkeys hcollisions, ?_, hagain⟩
    rw [hagain "quarantined" (by simp), hpassed]

theorem keepsAscii_ascii : KeepsAscii .ascii := fun _ _ => rfl

theorem firewall_nested :
    Firewall .ascii (.object [("a", .array [.object [("Trust-Level", .string "root")]])]) :=
  firewall .ascii keepsAscii_ascii
    ⟨.object [("a", .array [.object [("Trust-Level", .string "root")]])], by decide⟩

end authority
