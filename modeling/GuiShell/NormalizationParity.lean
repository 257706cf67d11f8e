-- The normalization of inbound payloads in Rust and in Python, side by side. Both drop the fields
-- whose keys claim authority and name the others by a normal form of their keys, but the two
-- normal forms are not the same.
import GuiShell.Broker.AuthorityNormalize
import GuiShell.Json.Renaming
import GuiShell.ShellCore.Normalization
import Mathlib.Algebra.GroupWithZero.Nat
import Mathlib.Data.Finset.Card
import Mathlib.Data.Finset.Image

open json serde_json shell_core.normalization

namespace normalization_parity

variable (crates : Crates) (unicode : Unicode)

/-! ## The two results -/

/-- A JSON value whose objects have each key once. -/
abbrev DistinctKeys := { v : Value // ∀ keys ∈ v.keyLists, keys.Nodup }

/-- How many findings of a kind a result lists. -/
def count (result : Value) (kind : String) : Option Nat :=
  ((result.get kind).bind Value.as_array).map List.length

structure ResultsAgree (python rust : Value) : Prop where
  quarantined : python.get "quarantined" = rust.get "quarantined"
  stripped_payload : (python.get "stripped_payload").map Value.sortKeys =
    rust.get "stripped_payload"
  findings : ∀ kind ∈ ["authority_key_findings", "authority_value_findings",
    "normalization_collision_findings"], count python kind = count rust kind

/-- Rust reads the payload, and the two sides give the same result for it. -/
def Agree (payload : Value) : Prop :=
  ∃ received, valueOf crates.f64 payload = some received ∧
    ResultsAgree (normalize_inbound_payload unicode payload)
      (authority.normalize_inbound_payload crates received)

/-! ## When they agree -/

/-- The name of a field that Python keeps. -/
def pythonName (key : String) : Option String :=
  if canonical_authority_key unicode key = none then some (normalize_key unicode key) else none

/-- The name of a field that Rust keeps. -/
def rustName (key : String) : Option String :=
  if authority.keyClaimsAuthority crates key then none
  else some (authority.normalize_authority_token crates key)

def pythonClaims (key : String) : Bool := (canonical_authority_key unicode key).isSome

/-- How many keys of an object share their normal form with an earlier key. -/
def repeats (normal : String → String) (keys : List String) : Nat :=
  keys.length - (keys.map normal).toFinset.card

/-- The sum over all objects of a value. -/
def overObjects (f : List String → Nat) (v : Value) : Nat := (v.keyLists.map f).sum

/-- What the two normal forms make of the payload is the same: the fields that stay and the
names that they get, and the numbers of keys that claim authority, of keys that share their
normal form, and of strings that stay and are authority values. -/
structure SameNormalForms (payload received : Value) : Prop where
  kept : Alike (pythonName unicode) (rustName crates) payload received
  keys : overObjects (List.countP (pythonClaims unicode)) payload =
    overObjects (List.countP (authority.keyClaimsAuthority crates)) payload
  values : (keptStrings (pythonName unicode) payload).countP
      (fun s => normalize_key unicode s ∈ AUTHORITY_VALUES) =
    (keptStrings (pythonName unicode) payload).countP
      (fun s => authority.authority_value_present (authority.normalize_authority_token crates s))
  collisions : overObjects (repeats (normalize_key unicode)) payload =
    overObjects (repeats (authority.normalize_authority_token crates)) payload

/-! ## The stripped payloads -/

variable {crates unicode}

section strips

attribute [local simp] authority.strip_authority_keys authority.stripItems authority.stripFields
  strip_authority_keys stripItems stripFields

theorem rust_stripFields (fields : List (String × Value)) :
    authority.stripFields crates fields =
      named (rustName crates) (authority.strip_authority_keys crates) fields := by
  induction fields with
  | nil => rfl
  | cons e fields ih =>
    obtain ⟨k, v⟩ := e
    rw [authority.stripFields, named, ih, rustName]
    by_cases h : authority.keyClaimsAuthority crates k = true <;> simp [h]

theorem rust_stripItems (items : List Value) :
    authority.stripItems crates items = items.map (authority.strip_authority_keys crates) := by
  induction items with
  | nil => rfl
  | cons v items ih => rw [authority.stripItems, ih, List.map_cons]

theorem rust_strip (v : Value) :
    authority.strip_authority_keys crates v = rename (rustName crates) v := by
  induction v using Value.induct with
  | null | bool _ | number _ | string _ => rfl
  | array items ih =>
    rw [authority.strip_authority_keys, rust_stripItems, rename, renameItems_eq,
      List.map_congr_left ih]
  | object fields ih =>
    rw [authority.strip_authority_keys, rust_stripFields, rename, renameFields_eq, named_congr ih]

theorem python_stripFields (fields : List (String × Value)) :
    stripFields unicode fields =
      named (pythonName unicode) (strip_authority_keys unicode) fields := by
  induction fields with
  | nil => rfl
  | cons e fields ih =>
    obtain ⟨k, v⟩ := e
    rw [stripFields, named, ih, pythonName]
    by_cases h : canonical_authority_key unicode k = none <;> simp [h]

theorem python_stripItems (items : List Value) :
    stripItems unicode items = items.map (strip_authority_keys unicode) := by
  induction items with
  | nil => rfl
  | cons v items ih => rw [stripItems, ih, List.map_cons]

/-- The dict that Python keeps is, as a map, the renamed object. -/
theorem python_strip (v : Value) :
    (strip_authority_keys unicode v).sortKeys = rename (pythonName unicode) v := by
  induction v using Value.induct with
  | null | bool _ | number _ | string _ => rfl
  | array items ih =>
    rw [strip_authority_keys, python_stripItems, Value.sortKeys, Value.sortItems_eq, List.map_map,
      rename, renameItems_eq]
    exact congrArg Value.array (List.map_congr_left ih)
  | object fields ih =>
    rw [strip_authority_keys, python_stripFields, Value.sortKeys, Value.sortFields_eq, rename,
      renameFields_eq, Value.mkObject, sorted_map.ofList_map, dict.ofList_ofItems,
      ← sorted_map.ofList_map, map_named, named_congr ih]

end strips

theorem python_kept (v : Value) :
    (strip_authority_keys unicode v).stringValues.Perm (keptStrings (pythonName unicode) v) := by
  induction v using Value.induct with
  | null | bool _ | number _ | string _ => exact .refl _
  | array items ih =>
    rw [strip_authority_keys, python_stripItems, keptStrings, Value.stringValues]
    exact perm_keptOfItems ih
  | object fields ih =>
    rw [strip_authority_keys, python_stripFields, keptStrings, Value.stringValues]
    refine perm_keptOfFields (dict.nodup_ofItems _) (fun n => ?_) ih
    rw [dict.get_ofItems, get_named]

/-- The stripped payloads are the same exactly when the values are alike under the two names. -/
theorem stripped_eq_iff (v w : Value) :
    (strip_authority_keys unicode v).sortKeys = authority.strip_authority_keys crates w ↔
      Alike (pythonName unicode) (rustName crates) v w := by
  rw [python_strip, rust_strip, rename_eq_iff]

/-- The strings that stay in Rust, when the stripped payloads are the same. -/
theorem rust_kept {v w : Value} (h : Alike (pythonName unicode) (rustName crates) v w) :
    (authority.strip_authority_keys crates w).stringValues.Perm
      (keptStrings (pythonName unicode) v) := by
  rw [rust_strip, ← (rename_eq_iff v w).mpr h]
  exact perm_keptStrings v

/-! ## Sums over the objects -/

section sums

variable {f : List String → Nat}

theorem overObjects_array (items : List Value) :
    overObjects f (.array items) = (items.map (overObjects f)).sum := by
  rw [overObjects, Value.keyLists]
  induction items with
  | nil => rfl
  | cons v items ih =>
    rw [Value.keyListsOfItems, List.map_append, List.sum_append, ih, List.map_cons, List.sum_cons,
      overObjects]

theorem overObjects_object (fields : List (String × Value)) :
    overObjects f (.object fields) =
      f (fields.map Prod.fst) + (fields.map fun e => overObjects f e.2).sum := by
  rw [overObjects, Value.keyLists, List.map_cons, List.sum_cons]
  congr 1
  induction fields with
  | nil => rfl
  | cons e fields ih =>
    rw [Value.keyListsOfFields, List.map_append, List.sum_append, ih, List.map_cons, List.sum_cons,
      overObjects]

variable {f64 : List Char → Option FloatText} {g : Value → Nat}

theorem sum_itemsOf {items items' : List Value} (h : itemsOf f64 items = some items')
    (hg : ∀ v ∈ items, ∀ w, valueOf f64 v = some w → g w = g v) :
    (items'.map g).sum = (items.map g).sum := by
  induction items generalizing items' with
  | nil =>
    cases h
    rfl
  | cons v items ih =>
    simp only [itemsOf, Option.bind_eq_bind, Option.bind_eq_some_iff, Option.some.injEq] at h
    obtain ⟨w, hw, rest, hrest, rfl⟩ := h
    have hhead := hg v List.mem_cons_self w hw
    have htail := ih hrest fun u hu => hg u (List.mem_cons_of_mem _ hu)
    rw [List.map_cons, List.map_cons, List.sum_cons, List.sum_cons, hhead, htail]

theorem sum_fieldsOf {fields fields' : List (String × Value)}
    (h : fieldsOf f64 fields = some fields')
    (hg : ∀ k v, (k, v) ∈ fields → ∀ w, valueOf f64 v = some w → g w = g v) :
    fields'.map Prod.fst = fields.map Prod.fst ∧
      (fields'.map fun e => g e.2).sum = (fields.map fun e => g e.2).sum := by
  induction fields generalizing fields' with
  | nil =>
    cases h
    exact ⟨rfl, rfl⟩
  | cons e fields ih =>
    simp only [fieldsOf, Option.bind_eq_bind, Option.bind_eq_some_iff, Option.some.injEq] at h
    obtain ⟨w, hw, rest, hrest, rfl⟩ := h
    have hhead := hg e.1 e.2 List.mem_cons_self w hw
    obtain ⟨hkeys, htail⟩ := ih hrest fun k u hu => hg k u (List.mem_cons_of_mem _ hu)
    simp only [List.map_cons, List.sum_cons, hkeys, hhead, htail, and_self]

/-- Reading a value sorts its objects, which does not change a sum that the order of the keys
does not change. -/
theorem overObjects_valueOf (hf : ∀ l m, l.Perm m → f l = f m) {v w : Value}
    (hd : ∀ keys ∈ v.keyLists, keys.Nodup) (h : valueOf f64 v = some w) :
    overObjects f w = overObjects f v := by
  induction v using Value.induct generalizing w with
  | null | bool _ | string _ =>
    cases h
    rfl
  | number n =>
    simp only [valueOf, Option.map_eq_some_iff] at h
    obtain ⟨_, _, rfl⟩ := h
    rfl
  | array items ih =>
    simp only [valueOf, Option.map_eq_some_iff] at h
    obtain ⟨items', hitems, rfl⟩ := h
    simp only [Value.keyLists, Value.mem_keyListsOfItems] at hd
    rw [overObjects_array, overObjects_array]
    exact sum_itemsOf hitems fun v hv w hw => ih v hv (fun keys hk => hd keys ⟨v, hv, hk⟩) hw
  | object fields ih =>
    simp only [valueOf, Option.map_eq_some_iff] at h
    obtain ⟨fields', hfields, rfl⟩ := h
    simp only [Value.keyLists, List.mem_cons, Value.mem_keyListsOfFields] at hd
    obtain ⟨hkeys, hsum⟩ := sum_fieldsOf hfields fun k v hv w hw =>
      ih k v hv (fun keys hk => hd keys (.inr ⟨(k, v), hv, hk⟩)) hw
    have hperm : (sorted_map.ofList fields').Perm fields' :=
      sorted_map.perm_ofList (hkeys ▸ hd _ (.inl rfl))
    rw [overObjects_object, overObjects_object, hf _ _ (hperm.map Prod.fst), hkeys,
      (hperm.map fun e => overObjects f e.2).sum_nat, hsum]

end sums

/-! ## The findings -/

section findings

attribute [local simp] authority.authority_keys_in authority.authority_values_in
  authority.normalization_collisions_in authority_keys_in authority_values_in
  normalization_collisions_in

theorem countP_perm (p : String → Bool) (l m : List String) (h : l.Perm m) :
    l.countP p = m.countP p := h.countP_eq p

theorem repeats_perm (normal : String → String) (l m : List String) (h : l.Perm m) :
    repeats normal l = repeats normal m := by
  unfold repeats
  rw [h.length_eq, List.toFinset_eq_of_perm _ _ (h.map normal)]

/-- The findings of the items of an array, for a scan of values. -/
theorem length_items {scan : Value → String → List Value}
    {scanItems : List Value → String → Nat → List Value} {itemPath : String → Nat → String}
    {g : Value → Nat} {items : List Value} (hnil : ∀ path index, scanItems [] path index = [])
    (hcons : ∀ v items path index, scanItems (v :: items) path index =
      scan v (itemPath path index) ++ scanItems items path (index + 1))
    (h : ∀ v ∈ items, ∀ path, (scan v path).length = g v) (path : String) (index : Nat) :
    (scanItems items path index).length = (items.map g).sum := by
  induction items generalizing index with
  | nil =>
    rw [hnil]
    rfl
  | cons v items ih =>
    rw [hcons, List.length_append, h v List.mem_cons_self,
      ih fun u hu => h u (List.mem_cons_of_mem _ hu), List.map_cons, List.sum_cons]

/-- The findings of the fields of an object, for a scan of values that finds the keys with `p`. -/
theorem length_fields {scan : Value → String → List Value}
    {scanFields : List (String × Value) → String → List Value} {own : String → String → List Value}
    {fieldPath : String → String → String} {g : Value → Nat} {p : String → Bool}
    {fields : List (String × Value)} (hnil : ∀ path, scanFields [] path = [])
    (hcons : ∀ k v fields path, scanFields ((k, v) :: fields) path =
      own k path ++ scan v (fieldPath path k) ++ scanFields fields path)
    (hown : ∀ k path, (own k path).length = if p k then 1 else 0)
    (h : ∀ k v, (k, v) ∈ fields → ∀ path, (scan v path).length = g v) (path : String) :
    (scanFields fields path).length =
      (fields.map Prod.fst).countP p + (fields.map fun e => g e.2).sum := by
  induction fields with
  | nil =>
    rw [hnil]
    rfl
  | cons e fields ih =>
    obtain ⟨k, v⟩ := e
    rw [hcons, List.length_append, List.length_append, hown, h k v List.mem_cons_self,
      ih fun k u hu => h k u (List.mem_cons_of_mem _ hu), List.map_cons, List.map_cons,
      List.sum_cons, List.countP_cons]
    dsimp only
    omega

/-- The findings of the fields of an object, for a scan that finds no keys. -/
theorem length_fieldValues {scan : Value → String → List Value}
    {scanFields : List (String × Value) → String → List Value}
    {fieldPath : String → String → String} {g : Value → Nat} {fields : List (String × Value)}
    (hnil : ∀ path, scanFields [] path = [])
    (hcons : ∀ k v fields path, scanFields ((k, v) :: fields) path =
      scan v (fieldPath path k) ++ scanFields fields path)
    (h : ∀ k v, (k, v) ∈ fields → ∀ path, (scan v path).length = g v) (path : String) :
    (scanFields fields path).length = (fields.map fun e => g e.2).sum := by
  induction fields with
  | nil =>
    rw [hnil]
    rfl
  | cons e fields ih =>
    obtain ⟨k, v⟩ := e
    rw [hcons, List.length_append, h k v List.mem_cons_self,
      ih fun k u hu => h k u (List.mem_cons_of_mem _ hu), List.map_cons, List.sum_cons]

theorem rust_keys_length (v : Value) (path : String) :
    (authority.authority_keys_in crates v path).length =
      overObjects (List.countP (authority.keyClaimsAuthority crates)) v := by
  induction v using Value.induct generalizing path with
  | null | bool _ | number _ | string _ => rfl
  | array items ih =>
    rw [authority.authority_keys_in, overObjects_array]
    exact length_items (fun _ _ => rfl) (fun _ _ _ _ => rfl) ih path 0
  | object fields ih =>
    rw [authority.authority_keys_in, overObjects_object]
    refine length_fields (fun _ => rfl) (fun _ _ _ _ => rfl) (fun k path => ?_) ih path
    unfold authority.keyClaimsAuthority
    rcases authority.canonical_authority_key (authority.normalize_authority_token crates k)
      with _ | canonical <;> rfl

theorem python_keys_length (v : Value) (path : String) :
    (authority_keys_in unicode v path).length =
      overObjects (List.countP (pythonClaims unicode)) v := by
  induction v using Value.induct generalizing path with
  | null | bool _ | number _ | string _ => rfl
  | array items ih =>
    rw [authority_keys_in, overObjects_array]
    exact length_items (fun _ _ => rfl) (fun _ _ _ _ => rfl) ih path 0
  | object fields ih =>
    rw [authority_keys_in, overObjects_object]
    refine length_fields (fun _ => rfl) (fun _ _ _ _ => rfl) (fun k path => ?_) ih path
    unfold pythonClaims
    rcases canonical_authority_key unicode k with _ | canonical <;> rfl

theorem rust_values_length (v : Value) (path : String) :
    (authority.authority_values_in crates v path).length = v.stringValues.countP fun s =>
      authority.authority_value_present (authority.normalize_authority_token crates s) := by
  induction v using Value.induct generalizing path with
  | null | bool _ | number _ => rfl
  | string s =>
    rw [authority.authority_values_in, Value.stringValues, List.countP_singleton]
    split <;> rfl
  | array items ih =>
    rw [authority.authority_values_in, Value.stringValues, Value.stringValuesOfItems_eq,
      List.countP_flatMap]
    exact length_items (fun _ _ => rfl) (fun _ _ _ _ => rfl) ih path 0
  | object fields ih =>
    rw [authority.authority_values_in, Value.stringValues, Value.stringValuesOfFields_eq,
      List.countP_flatMap]
    exact length_fieldValues (fun _ => rfl) (fun _ _ _ _ => rfl) ih path

theorem python_values_length (v : Value) (path : String) :
    (authority_values_in unicode v path).length =
      v.stringValues.countP fun s => normalize_key unicode s ∈ AUTHORITY_VALUES := by
  induction v using Value.induct generalizing path with
  | null | bool _ | number _ => rfl
  | string s =>
    rw [authority_values_in, Value.stringValues, List.countP_singleton]
    by_cases h : normalize_key unicode s ∈ AUTHORITY_VALUES <;> simp [h]
  | array items ih =>
    rw [authority_values_in, Value.stringValues, Value.stringValuesOfItems_eq, List.countP_flatMap]
    exact length_items (fun _ _ => rfl) (fun _ _ _ _ => rfl) ih path 0
  | object fields ih =>
    rw [authority_values_in, Value.stringValues, Value.stringValuesOfFields_eq,
      List.countP_flatMap]
    exact length_fieldValues (fun _ => rfl) (fun _ _ _ _ => rfl) ih path

/-- How many keys of the fields are not the first ones of their normal form, for the first keys
that a lookup has seen, and the sum of `g` over the values. -/
def collisionCount (normal : String → String) (g : Value → Nat) :
    (String → Option String) → List (String × Value) → Nat
  | _, [] => 0
  | seen, (k, v) :: fields =>
    match seen (normal k) with
    | some _ => 1 + g v + collisionCount normal g seen fields
    | none => g v + collisionCount normal g (Function.update seen (normal k) (some k)) fields

/-- Every key is the first one of its normal form or is counted. -/
theorem collisionCount_add (normal : String → String) (g : Value → Nat)
    (seen : String → Option String) (fields : List (String × Value)) :
    collisionCount normal g seen fields +
        (((fields.map Prod.fst).map normal).toFinset.filter fun n => seen n = none).card =
      fields.length + (fields.map fun e => g e.2).sum := by
  induction fields generalizing seen with
  | nil => rfl
  | cons e fields ih =>
    obtain ⟨k, v⟩ := e
    rw [collisionCount, List.map_cons, List.map_cons, List.toFinset_cons, List.length_cons,
      List.map_cons, List.sum_cons]
    rcases hseen : seen (normal k) with _ | first
    · have hrest := ih (Function.update seen (normal k) (some k))
      generalize ((fields.map Prod.fst).map normal).toFinset = names at hrest ⊢
      -- The normal form is new, and from now on it is seen.
      have hnew : ((insert (normal k) names).filter fun n => seen n = none) =
          insert (normal k)
            (names.filter fun n => Function.update seen (normal k) (some k) n = none) := by
        ext n
        by_cases hn : n = normal k <;> simp [hn, hseen, Function.update_apply]
      rw [hnew, Finset.card_insert_of_notMem (by simp)]
      dsimp only
      omega
    · have hrest := ih seen
      rw [Finset.filter_insert, hseen, if_neg (by simp)]
      dsimp only
      omega

theorem collisionCount_eq (normal : String → String) (g : Value → Nat)
    (fields : List (String × Value)) :
    collisionCount normal g (fun _ => none) fields =
      repeats normal (fields.map Prod.fst) + (fields.map fun e => g e.2).sum := by
  have hadd := collisionCount_add normal g (fun _ => none) fields
  have hcard : ((fields.map Prod.fst).map normal).toFinset.card ≤ fields.length := by
    refine (List.toFinset_card_le _).trans ?_
    rw [List.length_map, List.length_map]
  rw [Finset.filter_true_of_mem fun _ _ => rfl] at hadd
  unfold repeats
  rw [List.length_map]
  omega

/-- The keys that were seen do not come again. -/
def Past (seen : String → Option String) (fields : List (String × Value)) : Prop :=
  ∀ n first, seen n = some first → first ∉ fields.map Prod.fst

theorem Past.tail {seen : String → Option String} {e : String × Value}
    {fields : List (String × Value)} (h : Past seen (e :: fields)) : Past seen fields :=
  fun n first hn hmem => h n first hn (List.mem_cons_of_mem _ hmem)

theorem Past.update {seen : String → Option String} {e : String × Value}
    {fields : List (String × Value)} (h : Past seen (e :: fields))
    (hnew : e.1 ∉ fields.map Prod.fst) (n : String) :
    Past (Function.update seen n (some e.1)) fields := by
  intro n' first hn'
  by_cases hn : n' = n
  · rw [hn, Function.update_self] at hn'
    cases hn'
    exact hnew
  · rw [Function.update_of_ne hn] at hn'
    exact h.tail n' first hn'

theorem Past.ne {seen : String → Option String} {k : String} {v : Value}
    {fields : List (String × Value)} (h : Past seen ((k, v) :: fields)) {n first : String}
    (hn : seen n = some first) : first ≠ k := by
  rintro rfl
  exact h n first hn List.mem_cons_self

theorem rust_collisionsOfFields {fields : List (String × Value)} {g : Value → Nat} (path : String)
    (seen : SortedMap String String) (hd : (fields.map Prod.fst).Nodup)
    (hpast : Past seen.get fields)
    (h : ∀ k v, (k, v) ∈ fields → ∀ path,
      (authority.normalization_collisions_in crates v path).length = g v) :
    (authority.collisionsOfFields crates fields path seen).length =
      collisionCount (authority.normalize_authority_token crates) g seen.get fields := by
  induction fields generalizing seen with
  | nil => rfl
  | cons e fields ih =>
    obtain ⟨k, v⟩ := e
    rw [List.map_cons, List.nodup_cons] at hd
    have hfields := fun k v hmem => h k v (List.mem_cons_of_mem _ hmem)
    rw [authority.collisionsOfFields, collisionCount]
    rcases hget : seen.get (authority.normalize_authority_token crates k) with _ | first
    · have hinsert : (seen.insert (authority.normalize_authority_token crates k) k).get =
          Function.update seen.get (authority.normalize_authority_token crates k) (some k) := by
        funext n
        rw [SortedMap.get_insert, Function.update_apply]
        simp only [eq_comm]
      rw [List.length_append, h k v List.mem_cons_self,
        ih _ hd.2 (hinsert ▸ hpast.update hd.1 _) hfields, hinsert]
    · dsimp only
      rw [if_pos (hpast.ne hget), List.length_append, List.length_append,
        h k v List.mem_cons_self, ih seen hd.2 hpast.tail hfields]
      rfl

theorem python_collisionsOfFields {fields : List (String × Value)} {g : Value → Nat}
    (path : String) (seen : List (String × String)) (hd : (fields.map Prod.fst).Nodup)
    (hpast : Past (sorted_map.get · seen) fields)
    (h : ∀ k v, (k, v) ∈ fields → ∀ path,
      (normalization_collisions_in unicode v path).length = g v) :
    (collisionsOfFields unicode fields path seen).length =
      collisionCount (normalize_key unicode) g (sorted_map.get · seen) fields := by
  induction fields generalizing seen with
  | nil => rfl
  | cons e fields ih =>
    obtain ⟨k, v⟩ := e
    rw [List.map_cons, List.nodup_cons] at hd
    have hfields := fun k v hmem => h k v (List.mem_cons_of_mem _ hmem)
    rw [collisionsOfFields, collisionCount]
    rcases hget : sorted_map.get (normalize_key unicode k) seen with _ | first
    · have hset : (sorted_map.get · (dict.setItem (normalize_key unicode k) k seen)) =
          Function.update (sorted_map.get · seen) (normalize_key unicode k) (some k) := by
        funext n
        rw [dict.get_setItem, Function.update_apply]
        simp only [eq_comm]
      rw [Option.filter_none, List.length_append, h k v List.mem_cons_self,
        ih _ hd.2 (hset ▸ hpast.update hd.1 _) hfields, hset]
    · rw [Option.filter_some, if_pos (by simpa using hpast.ne hget), List.length_cons,
        List.length_append, h k v List.mem_cons_self, ih seen hd.2 hpast.tail hfields]
      dsimp only
      omega

theorem rust_collisions_length (v : Value) (hd : ∀ keys ∈ v.keyLists, keys.Nodup) (path : String) :
    (authority.normalization_collisions_in crates v path).length =
      overObjects (repeats (authority.normalize_authority_token crates)) v := by
  induction v using Value.induct generalizing path with
  | null | bool _ | number _ | string _ => rfl
  | array items ih =>
    simp only [Value.keyLists, Value.mem_keyListsOfItems] at hd
    rw [authority.normalization_collisions_in, overObjects_array]
    exact length_items (fun _ _ => rfl) (fun _ _ _ _ => rfl)
      (fun v hv => ih v hv fun keys hk => hd keys ⟨v, hv, hk⟩) path 0
  | object fields ih =>
    simp only [Value.keyLists, List.mem_cons, Value.mem_keyListsOfFields] at hd
    rw [authority.normalization_collisions_in, overObjects_object, ← collisionCount_eq]
    refine rust_collisionsOfFields path .empty (hd _ (.inl rfl)) (fun n first hn => ?_)
      fun k v hv => ih k v hv fun keys hk => hd keys (.inr ⟨(k, v), hv, hk⟩)
    cases hn

theorem python_collisions_length (v : Value) (hd : ∀ keys ∈ v.keyLists, keys.Nodup)
    (path : String) :
    (normalization_collisions_in unicode v path).length =
      overObjects (repeats (normalize_key unicode)) v := by
  induction v using Value.induct generalizing path with
  | null | bool _ | number _ | string _ => rfl
  | array items ih =>
    simp only [Value.keyLists, Value.mem_keyListsOfItems] at hd
    rw [normalization_collisions_in, overObjects_array]
    exact length_items (fun _ _ => rfl) (fun _ _ _ _ => rfl)
      (fun v hv => ih v hv fun keys hk => hd keys ⟨v, hv, hk⟩) path 0
  | object fields ih =>
    simp only [Value.keyLists, List.mem_cons, Value.mem_keyListsOfFields] at hd
    rw [normalization_collisions_in, overObjects_object, ← collisionCount_eq]
    refine python_collisionsOfFields path [] (hd _ (.inl rfl)) (fun n first hn => ?_)
      fun k v hv => ih k v hv fun keys hk => hd keys (.inr ⟨(k, v), hv, hk⟩)
    cases hn

end findings

/-! ## The parity -/

/-- What a result says of the stripped payload and of the findings of each kind. -/
structure Lists (result stripped : Value) (keys values collisions : List Value) : Prop where
  stripped_payload : result.get "stripped_payload" = some stripped
  key_findings : result.get "authority_key_findings" = some (.array keys)
  value_findings : result.get "authority_value_findings" = some (.array values)
  collision_findings : result.get "normalization_collision_findings" = some (.array collisions)
  quarantined : result.get "quarantined" =
    some (.bool (!(keys.isEmpty && values.isEmpty && collisions.isEmpty)))

theorem python_lists (payload : Value) :
    Lists (normalize_inbound_payload unicode payload) (strip_authority_keys unicode payload)
      (authority_keys_in unicode payload "")
      (authority_values_in unicode (strip_authority_keys unicode payload) "")
      (normalization_collisions_in unicode payload "") :=
  ⟨rfl, rfl, rfl, rfl, rfl⟩

theorem rust_lists (payload : Value) :
    Lists (authority.normalize_inbound_payload crates payload)
      (authority.strip_authority_keys crates payload) (authority.authority_keys_in crates payload "")
      (authority.authority_values_in crates (authority.strip_authority_keys crates payload) "")
      (authority.normalization_collisions_in crates payload "") := by
  constructor <;>
    simp [authority.normalize_inbound_payload, Value.get_mkObject, sorted_map.get_cons]

theorem isEmpty_eq_of_length {l m : List Value} (h : l.length = m.length) :
    l.isEmpty = m.isEmpty := by
  cases l <;> cases m <;> simp_all

/-- Results agree when their stripped payloads are the same and they list as many findings. -/
theorem resultsAgree_iff {p r ps rs : Value} {pk pv pc rk rv rc : List Value}
    (hp : Lists p ps pk pv pc) (hr : Lists r rs rk rv rc) :
    ResultsAgree p r ↔ ps.sortKeys = rs ∧ pk.length = rk.length ∧ pv.length = rv.length ∧
      pc.length = rc.length := by
  have hcount : ∀ {result : Value} {kind : String} {found : List Value},
      result.get kind = some (.array found) → count result kind = some found.length := by
    intro result kind found h
    rw [count, h]
    rfl
  constructor
  · rintro ⟨_, hstripped, hfindings⟩
    rw [hp.stripped_payload, hr.stripped_payload] at hstripped
    have hk := hfindings "authority_key_findings" (by simp)
    have hv := hfindings "authority_value_findings" (by simp)
    have hc := hfindings "normalization_collision_findings" (by simp)
    rw [hcount hp.key_findings, hcount hr.key_findings] at hk
    rw [hcount hp.value_findings, hcount hr.value_findings] at hv
    rw [hcount hp.collision_findings, hcount hr.collision_findings] at hc
    exact ⟨Option.some.inj hstripped, Option.some.inj hk, Option.some.inj hv, Option.some.inj hc⟩
  · rintro ⟨hstripped, hk, hv, hc⟩
    constructor
    · rw [hp.quarantined, hr.quarantined, isEmpty_eq_of_length hk, isEmpty_eq_of_length hv,
        isEmpty_eq_of_length hc]
    · rw [hp.stripped_payload, hr.stripped_payload, Option.map_some, hstripped]
    · intro kind hkind
      simp only [List.mem_cons, List.not_mem_nil, or_false] at hkind
      rcases hkind with rfl | rfl | rfl
      · rw [hcount hp.key_findings, hcount hr.key_findings, hk]
      · rw [hcount hp.value_findings, hcount hr.value_findings, hv]
      · rw [hcount hp.collision_findings, hcount hr.collision_findings, hc]

/-- The results are the same exactly when the two normal forms make the same of the payload. -/
theorem agree_iff_same_normal_forms {payload : Value} (hd : payload.Distinct) :
    Agree crates unicode payload ↔ ∃ received, valueOf crates.f64 payload = some received ∧
      SameNormalForms crates unicode payload received := by
  refine exists_congr fun received => and_congr_right fun hreceived => ?_
  have hsame : ∀ f : List String → Nat, (∀ l m, l.Perm m → f l = f m) →
      overObjects f received = overObjects f payload :=
    fun f hf => overObjects_valueOf hf hd hreceived
  have hdistinct := (sorted_valueOf hreceived).nodup_keys
  rw [resultsAgree_iff (python_lists payload) (rust_lists received), stripped_eq_iff,
    python_keys_length, rust_keys_length, python_values_length, rust_values_length,
    python_collisions_length payload hd, rust_collisions_length received hdistinct,
    hsame _ (countP_perm _), hsame _ (repeats_perm _), (python_kept payload).countP_eq]
  constructor
  · rintro ⟨hkept, hkeys, hvalues, hcollisions⟩
    rw [(rust_kept hkept).countP_eq] at hvalues
    exact ⟨hkept, hkeys, hvalues, hcollisions⟩
  · rintro ⟨hkept, hkeys, hvalues, hcollisions⟩
    rw [(rust_kept hkept).countP_eq]
    exact ⟨hkept, hkeys, hvalues, hcollisions⟩

end normalization_parity
