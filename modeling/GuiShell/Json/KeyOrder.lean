-- JSON values up to the order of the keys in their objects. Two values are the same up to it
-- exactly when their sortings are equal.
import GuiShell.Json.Parts
import Mathlib.Data.List.Perm.Basic

open sorted_map

namespace json

/-- The two values differ in nothing but the order of the keys of their objects, at any depth. -/
inductive UpToOrder : Value → Value → Prop
  | null : UpToOrder .null .null
  | bool (b : Bool) : UpToOrder (.bool b) (.bool b)
  | number (n : Number) : UpToOrder (.number n) (.number n)
  | string (s : String) : UpToOrder (.string s) (.string s)
  | array {items items' : List Value} (length : items.length = items'.length)
      (each : ∀ (i : Nat) v w, items[i]? = some v → items'[i]? = some w → UpToOrder v w) :
      UpToOrder (.array items) (.array items')
  | object {fields fields' : List (String × Value)}
      (keys : (fields.map Prod.fst).Perm (fields'.map Prod.fst))
      (values : ∀ k v w, (k, v) ∈ fields → (k, w) ∈ fields' → UpToOrder v w) :
      UpToOrder (.object fields) (.object fields')

/-- A value whose objects have each key once. -/
def Value.Distinct (v : Value) : Prop := ∀ keys ∈ v.keyLists, keys.Nodup

instance : DecidablePred Value.Distinct := fun v =>
  inferInstanceAs (Decidable (∀ keys ∈ v.keyLists, keys.Nodup))

abbrev DistinctValue := { v : Value // v.Distinct }

namespace Value

theorem distinct_array {items : List Value} :
    (Value.array items).Distinct ↔ ∀ v ∈ items, v.Distinct := by
  simp only [Distinct, keyLists, mem_keyListsOfItems]
  constructor
  · exact fun h v hv keys hkeys => h keys ⟨v, hv, hkeys⟩
  · rintro h keys ⟨v, hv, hkeys⟩
    exact h v hv keys hkeys

theorem distinct_object {fields : List (String × Value)} :
    (Value.object fields).Distinct ↔
      (fields.map Prod.fst).Nodup ∧ ∀ k v, (k, v) ∈ fields → v.Distinct := by
  simp only [Distinct, keyLists, List.mem_cons, mem_keyListsOfFields]
  constructor
  · exact fun h => ⟨h _ (.inl rfl), fun k v hv keys hkeys => h keys (.inr ⟨(k, v), hv, hkeys⟩)⟩
  · rintro ⟨hnodup, hvalues⟩ keys (rfl | ⟨⟨k, v⟩, hv, hkeys⟩)
    · exact hnodup
    · exact hvalues k v hv keys hkeys

theorem Sorted.distinct {v : Value} (h : v.Sorted) : v.Distinct := h.nodup_keys

/-- The field of a sorted object is the sorted field. -/
theorem get_sortFields {fields : List (String × Value)} (h : (fields.map Prod.fst).Nodup)
    (k : String) :
    sorted_map.get k (ofList (sortFields fields)) = (sorted_map.get k fields).map sortKeys := by
  have hkeys : (sortFields fields).map Prod.fst = fields.map Prod.fst := by
    rw [sortFields_eq, List.map_map]
    rfl
  rw [get_ofList_of_nodup (by rw [hkeys]; exact h), sortFields_eq, get_map]

theorem sortKeys_object_iff {fields fields' : List (String × Value)}
    (h : (fields.map Prod.fst).Nodup) (h' : (fields'.map Prod.fst).Nodup) :
    (Value.object fields).sortKeys = (Value.object fields').sortKeys ↔
      ∀ k, (sorted_map.get k fields).map sortKeys = (sorted_map.get k fields').map sortKeys := by
  rw [sortKeys, sortKeys, Value.object.injEq]
  constructor
  · intro hsame k
    rw [← get_sortFields h, ← get_sortFields h', hsame]
  · intro hsame
    refine (sorted_ofList _).ext (sorted_ofList _) fun k => ?_
    rw [get_sortFields h, get_sortFields h', hsame k]

theorem keys_perm_iff {fields fields' : List (String × Value)}
    (h : (fields.map Prod.fst).Nodup) (h' : (fields'.map Prod.fst).Nodup) :
    (fields.map Prod.fst).Perm (fields'.map Prod.fst) ↔
      ∀ k, (sorted_map.get k fields).isSome = (sorted_map.get k fields').isSome := by
  rw [List.perm_ext_iff_of_nodup h h']
  refine forall_congr' fun k => ?_
  rw [← isSome_get_iff, ← isSome_get_iff, ← Bool.eq_iff_iff]

end Value

theorem sortKeys_array_iff {items items' : List Value} :
    (Value.array items).sortKeys = (Value.array items').sortKeys ↔
      items.length = items'.length ∧
        ∀ (i : Nat) v w, items[i]? = some v → items'[i]? = some w → v.sortKeys = w.sortKeys := by
  rw [Value.sortKeys, Value.sortKeys, Value.array.injEq, Value.sortItems_eq, Value.sortItems_eq]
  constructor
  · intro h
    refine ⟨by simpa using congrArg List.length h, fun i v w hv hw => ?_⟩
    have hi := congrArg (fun l => l[i]?) h
    simp only [List.getElem?_map, hv, hw, Option.map_some, Option.some.injEq] at hi
    exact hi
  · rintro ⟨hlength, hitems⟩
    refine List.ext_getElem (by simpa using hlength) fun i hi hi' => ?_
    rw [List.length_map] at hi hi'
    rw [List.getElem_map, List.getElem_map]
    exact hitems i _ _ (List.getElem?_eq_getElem hi) (List.getElem?_eq_getElem hi')

/-- Values that are the same up to the order of keys have one sorting. -/
theorem UpToOrder.sortKeys_eq {v w : Value} (h : UpToOrder v w) (hv : v.Distinct)
    (hw : w.Distinct) : v.sortKeys = w.sortKeys := by
  induction h with
  | null | bool _ | number _ | string _ => rfl
  | array hlength _ ih =>
    rw [Value.distinct_array] at hv hw
    refine sortKeys_array_iff.mpr ⟨hlength, fun i v w hi hi' => ?_⟩
    exact ih i v w hi hi' (hv v (List.mem_of_getElem? hi)) (hw w (List.mem_of_getElem? hi'))
  | @object fields fields' hkeys _ ih =>
    obtain ⟨hnodup, hdistinct⟩ := Value.distinct_object.mp hv
    obtain ⟨hnodup', hdistinct'⟩ := Value.distinct_object.mp hw
    refine (Value.sortKeys_object_iff hnodup hnodup').mpr fun k => ?_
    have hsome := (Value.keys_perm_iff hnodup hnodup').mp hkeys k
    rcases hk : get k fields with _ | v
    · have hnone : get k fields' = none := by
        rw [hk] at hsome
        simpa using hsome.symm
      rw [hnone]
    · rw [hk] at hsome
      obtain ⟨w, hw⟩ := Option.isSome_iff_exists.mp hsome.symm
      have hmem := mem_of_get hk
      have hmem' := mem_of_get hw
      rw [hw, Option.map_some, Option.map_some,
        ih k v w hmem hmem' (hdistinct k v hmem) (hdistinct' k w hmem')]

/-- The sortings are equal exactly when nothing but the order of keys differs. -/
theorem sortKeys_eq_iff {v w : Value} (hv : v.Distinct) (hw : w.Distinct) :
    v.sortKeys = w.sortKeys ↔ UpToOrder v w := by
  refine ⟨fun h => ?_, fun h => h.sortKeys_eq hv hw⟩
  induction v using Value.induct generalizing w with
  | null | bool _ | number _ | string _ =>
    cases w <;> simp [Value.sortKeys] at h
    all_goals
      subst_vars
      constructor
  | array items ih =>
    obtain ⟨items', rfl⟩ : ∃ items', w = .array items' := by
      cases w <;> simp [Value.sortKeys] at h
      exact ⟨_, rfl⟩
    rw [Value.distinct_array] at hv hw
    obtain ⟨hlength, hitems⟩ := sortKeys_array_iff.mp h
    refine .array hlength fun i v w hi hi' => ?_
    have hmem := List.mem_of_getElem? hi
    exact ih v hmem (hv v hmem) (hw w (List.mem_of_getElem? hi')) (hitems i v w hi hi')
  | object fields ih =>
    obtain ⟨fields', rfl⟩ : ∃ fields', w = .object fields' := by
      cases w <;> simp [Value.sortKeys] at h
      exact ⟨_, rfl⟩
    obtain ⟨hnodup, hdistinct⟩ := Value.distinct_object.mp hv
    obtain ⟨hnodup', hdistinct'⟩ := Value.distinct_object.mp hw
    have hget := (Value.sortKeys_object_iff hnodup hnodup').mp h
    refine .object ((Value.keys_perm_iff hnodup hnodup').mpr fun k => ?_) fun k v w hmem hmem' => ?_
    · simpa using congrArg Option.isSome (hget k)
    · have hk := hget k
      rw [get_of_mem hnodup hmem, get_of_mem hnodup' hmem'] at hk
      exact ih k v hmem (hdistinct k v hmem) (hdistinct' k w hmem') (Option.some.inj hk)

end json
