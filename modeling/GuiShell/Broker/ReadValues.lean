-- What the broker reads of a value that was sent, part by part. With each key at most once in every
-- object, a lookup in what was read is a lookup in what was sent.
import GuiShell.Broker.Authority
import GuiShell.Dict
import GuiShell.Json.KeyOrder

open json serde_json

namespace serde_json

variable {f64 : List Char → Option FloatText} {v w : Value}

/-! ## The parts of an array -/

theorem itemsOf_spec {items items' : List Value} (h : itemsOf f64 items = some items') :
    List.Forall₂ (fun v w => valueOf f64 v = some w) items items' := by
  induction items generalizing items' with
  | nil =>
    cases h
    exact .nil
  | cons v items ih =>
    simp only [itemsOf, Option.bind_eq_bind, Option.bind_eq_some_iff, Option.some.injEq] at h
    obtain ⟨w, hw, items', hitems, rfl⟩ := h
    exact .cons hw (ih hitems)

theorem array_of_valueOf {items : List Value} (h : valueOf f64 (.array items) = some w) :
    ∃ items', w = .array items' ∧
      List.Forall₂ (fun v w => valueOf f64 v = some w) items items' := by
  simp only [valueOf, Option.map_eq_some_iff] at h
  obtain ⟨items', hitems, rfl⟩ := h
  exact ⟨items', rfl, itemsOf_spec hitems⟩

theorem exists_of_mem_left {α β : Type*} {R : α → β → Prop} {l : List α} {m : List β}
    (h : List.Forall₂ R l m) {a : α} (ha : a ∈ l) : ∃ b ∈ m, R a b := by
  induction h with
  | nil => cases ha
  | @cons a' b l m hab _ ih =>
    rcases List.mem_cons.mp ha with rfl | ha
    · exact ⟨b, List.mem_cons_self, hab⟩
    · obtain ⟨b, hb, hR⟩ := ih ha
      exact ⟨b, List.mem_cons_of_mem _ hb, hR⟩

/-! ## The fields of an object -/

theorem get_fieldsOf {fields fields' : List (String × Value)}
    (h : fieldsOf f64 fields = some fields') (k : String) : (sorted_map.get k fields').map some =
      (sorted_map.get k fields).map (valueOf f64) := by
  induction fields generalizing fields' with
  | nil =>
    cases h
    rfl
  | cons field fields ih =>
    obtain ⟨l, v⟩ := field
    simp only [fieldsOf, Option.bind_eq_bind, Option.bind_eq_some_iff, Option.some.injEq] at h
    obtain ⟨w, hw, fields', hfields, rfl⟩ := h
    rw [sorted_map.get_cons, sorted_map.get_cons]
    split
    · rw [Option.map_some, Option.map_some, hw]
    · exact ih hfields

theorem object_of_valueOf {fields : List (String × Value)} (hd : (Value.object fields).Distinct)
    (h : valueOf f64 (.object fields) = some w) : ∃ fields', w = .object fields' ∧
      (fields'.map Prod.fst).Perm (fields.map Prod.fst) ∧
      ∀ k, (sorted_map.get k fields').map some = (sorted_map.get k fields).map (valueOf f64) := by
  simp only [valueOf, Option.map_eq_some_iff] at h
  obtain ⟨fields', hfields, rfl⟩ := h
  have hkeys := fieldsOf_keys hfields
  have hnodup : (fields'.map Prod.fst).Nodup := by
    rw [hkeys]
    exact (Value.distinct_object.mp hd).1
  refine ⟨_, rfl, ?_, fun k => ?_⟩
  · rw [← hkeys]
    exact (sorted_map.perm_ofList hnodup).map _
  · rw [sorted_map.get_ofList_of_nodup hnodup]
    exact get_fieldsOf hfields k

theorem exists_fieldsOf {fields : List (String × Value)}
    (h : ∀ e ∈ fields, ∃ w, valueOf f64 e.2 = some w) :
    ∃ fields', fieldsOf f64 fields = some fields' := by
  induction fields with
  | nil => exact ⟨[], rfl⟩
  | cons e fields ih =>
    obtain ⟨k, v⟩ := e
    obtain ⟨w, hw⟩ := h (k, v) List.mem_cons_self
    obtain ⟨fields', hfields⟩ := ih fun e he => h e (List.mem_cons_of_mem _ he)
    dsimp only at hw
    rw [fieldsOf, hw, hfields]
    exact ⟨_, rfl⟩

/-- An object is read as another one exactly when the fields of the one are read as those of the
other, whatever their order was. -/
theorem valueOf_object_iff {fields read : List (String × Value)}
    (hd : (fields.map Prod.fst).Nodup) : valueOf f64 (.object fields) = some (.object read) ↔
      sorted_map.Sorted read ∧
        ∀ k, (sorted_map.get k read).map some = (sorted_map.get k fields).map (valueOf f64) := by
  have hnodup {fields' : List (String × Value)} (h : fieldsOf f64 fields = some fields') :
      (fields'.map Prod.fst).Nodup := by
    rw [fieldsOf_keys h]
    exact hd
  constructor
  · intro h
    simp only [valueOf, Option.map_eq_some_iff, Value.object.injEq] at h
    obtain ⟨fields', hfields, rfl⟩ := h
    refine ⟨sorted_map.sorted_ofList _, fun k => ?_⟩
    rw [sorted_map.get_ofList_of_nodup (hnodup hfields)]
    exact get_fieldsOf hfields k
  · rintro ⟨hsorted, hget⟩
    have hreads : ∀ e ∈ fields, ∃ w, valueOf f64 e.2 = some w := by
      intro e he
      have hread := hget e.1
      rw [sorted_map.get_of_mem hd he, Option.map_some, Option.map_eq_some_iff] at hread
      obtain ⟨w, -, hw⟩ := hread
      exact ⟨w, hw.symm⟩
    obtain ⟨fields', hfields⟩ := exists_fieldsOf hreads
    simp only [valueOf, hfields, Option.map_some, Option.some.injEq, Value.object.injEq]
    refine (sorted_map.sorted_ofList _).ext hsorted fun k => ?_
    rw [sorted_map.get_ofList_of_nodup (hnodup hfields)]
    have hsame := (get_fieldsOf hfields k).trans (hget k).symm
    exact Option.map_injective (Option.some_injective _) hsame

/-- Setting an item before the reading, or the item that is read after it. -/
theorem valueOf_setItem {fields read : List (String × Value)} (hd : (fields.map Prod.fst).Nodup)
    (h : valueOf f64 (.object fields) = some (.object read)) {k : String}
    (hvalue : valueOf f64 v = some w) : valueOf f64 (.object (dict.setItem k v fields)) =
      some (.object (sorted_map.insert k w read)) := by
  obtain ⟨hsorted, hget⟩ := (valueOf_object_iff hd).mp h
  refine (valueOf_object_iff (dict.nodup_setItem hd k v)).mpr ⟨hsorted.insert k w, fun l => ?_⟩
  rw [sorted_map.get_insert, dict.get_setItem]
  by_cases hkey : k = l
  · rw [if_pos hkey, if_pos hkey, Option.map_some, Option.map_some, hvalue]
  · rw [if_neg hkey, if_neg hkey]
    exact hget l

theorem distinct_setItem {fields : List (String × Value)} (hd : (Value.object fields).Distinct)
    (hv : v.Distinct) (k : String) : (Value.object (dict.setItem k v fields)).Distinct := by
  obtain ⟨hnodup, hfields⟩ := Value.distinct_object.mp hd
  refine Value.distinct_object.mpr ⟨dict.nodup_setItem hnodup k v, fun l x hx => ?_⟩
  rcases dict.mem_setItem hx with hitem | hmem
  · cases hitem
    exact hv
  · exact hfields l x hmem

theorem get_of_valueOf (hd : v.Distinct) (h : valueOf f64 v = some w) (k : String) :
    (w.get k).map some = (v.get k).map (valueOf f64) := by
  cases v with
  | object fields =>
    obtain ⟨fields', rfl, -, hget⟩ := object_of_valueOf hd h
    exact hget k
  | array items =>
    obtain ⟨items', rfl, -⟩ := array_of_valueOf h
    rfl
  | number n =>
    simp only [valueOf, Option.map_eq_some_iff] at h
    obtain ⟨_, _, rfl⟩ := h
    rfl
  | null | bool _ | string _ =>
    cases h
    rfl

/-- What was read under a key is what was sent there. -/
theorem get_some_of_valueOf (hd : v.Distinct) (h : valueOf f64 v = some w) {k : String} {x : Value}
    (hx : v.get k = some x) : ∃ y, w.get k = some y ∧ valueOf f64 x = some y := by
  have hget := get_of_valueOf hd h k
  rw [hx, Option.map_some] at hget
  obtain ⟨y, hy, hsame⟩ := Option.map_eq_some_iff.mp hget
  exact ⟨y, hy, hsame.symm⟩

theorem get_eq_none_iff (hd : v.Distinct) (h : valueOf f64 v = some w) {k : String} :
    w.get k = none ↔ v.get k = none := by
  rw [← Option.map_eq_none_iff (f := some), get_of_valueOf hd h, Option.map_eq_none_iff]

theorem isSome_get (hd : v.Distinct) (h : valueOf f64 v = some w) (k : String) :
    (w.get k).isSome = (v.get k).isSome := by
  rw [Bool.eq_iff_iff, Option.isSome_iff_ne_none, Option.isSome_iff_ne_none, Ne, Ne,
    get_eq_none_iff hd h]

theorem distinct_get (hd : v.Distinct) {k : String} {x : Value} (hx : v.get k = some x) :
    x.Distinct := by
  cases v with
  | object fields => exact (Value.distinct_object.mp hd).2 k x (sorted_map.mem_of_get hx)
  | null | bool _ | number _ | string _ | array _ => cases hx

/-! ## Values without parts -/

/-- The value has no parts and is no number. -/
def IsLeaf : Value → Prop
  | .null | .bool _ | .string _ => True
  | _ => False

theorem valueOf_eq_leaf_iff {x : Value} (hx : IsLeaf x) : valueOf f64 v = some x ↔ v = x := by
  constructor
  · intro h
    cases v with
    | null | bool _ | string _ => exact Option.some.inj h
    | number n =>
      simp only [valueOf, Option.map_eq_some_iff] at h
      obtain ⟨_, _, rfl⟩ := h
      exact hx.elim
    | array items =>
      obtain ⟨_, rfl, -⟩ := array_of_valueOf h
      exact hx.elim
    | object fields =>
      simp only [valueOf, Option.map_eq_some_iff] at h
      obtain ⟨_, _, rfl⟩ := h
      exact hx.elim
  · rintro rfl
    cases v with
    | null | bool _ | string _ => rfl
    | number _ | array _ | object _ => exact hx.elim

/-- Such a value stands under a key of what was read exactly when it was sent there. -/
theorem get_eq_leaf_iff (hd : v.Distinct) (h : valueOf f64 v = some w) {k : String} {x : Value}
    (hx : IsLeaf x) : w.get k = some x ↔ v.get k = some x := by
  constructor
  · intro hleaf
    have hget := get_of_valueOf hd h k
    rw [hleaf, Option.map_some] at hget
    obtain ⟨y, hy, hvalue⟩ := Option.map_eq_some_iff.mp hget.symm
    rw [hy, (valueOf_eq_leaf_iff hx).mp hvalue]
  · intro hleaf
    obtain ⟨y, hy, hvalue⟩ := get_some_of_valueOf hd h hleaf
    rw [(valueOf_eq_leaf_iff hx).mpr rfl] at hvalue
    cases hvalue
    exact hy

end serde_json
