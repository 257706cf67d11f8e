-- JSON values under a naming of keys. A naming drops a field or gives it a new key, and of
-- the fields of one object that get the same key the last one stays.
import GuiShell.Json.KeyOrder
import Mathlib.Data.List.Perm.Basic

open sorted_map

namespace json

/-! ## Namings -/

section naming

variable (name : String → Option String)

mutual
/-- The value with its keys renamed, its objects sorted by key. -/
def rename : Value → Value
  | .array items => .array (renameItems items)
  | .object fields => .mkObject (renameFields fields)
  | v => v
def renameItems : List Value → List Value
  | [] => []
  | v :: items => rename v :: renameItems items
def renameFields : List (String × Value) → List (String × Value)
  | [] => []
  | (k, v) :: fields =>
    match name k with
    | some n => (n, rename v) :: renameFields fields
    | none => renameFields fields
end

/-- The fields under their new keys, with `f` at their values. -/
def named {α β : Type} (f : α → β) : List (String × α) → List (String × β)
  | [] => []
  | (k, v) :: fields =>
    match name k with
    | some n => (n, f v) :: named f fields
    | none => named f fields

/-- The fields that stay, under their new keys. -/
def lasts {α : Type} : List (String × α) → List (String × α)
  | [] => []
  | (k, v) :: fields =>
    match name k with
    | some n => if ∃ e ∈ fields, name e.1 = some n then lasts fields else (n, v) :: lasts fields
    | none => lasts fields

mutual
/-- The strings of the fields that stay, but for the keys. -/
def keptStrings : Value → List String
  | .string s => [s]
  | .array items => keptOfItems items
  | .object fields => keptOfFields fields
  | _ => []
def keptOfItems : List Value → List String
  | [] => []
  | v :: items => keptStrings v ++ keptOfItems items
def keptOfFields : List (String × Value) → List String
  | [] => []
  | (k, v) :: fields =>
    match name k with
    | some n =>
      if ∃ e ∈ fields, name e.1 = some n then keptOfFields fields
      else keptStrings v ++ keptOfFields fields
    | none => keptOfFields fields
end

variable {name}

theorem renameItems_eq (items : List Value) : renameItems name items = items.map (rename name) := by
  induction items with
  | nil => rfl
  | cons v items ih => rw [renameItems, ih, List.map_cons]

/-- A key of the fields that stay is the name of a field. -/
theorem exists_of_mem_lasts {α : Type} {fields : List (String × α)} {n : String} {v : α}
    (h : (n, v) ∈ lasts name fields) : ∃ k, (k, v) ∈ fields ∧ name k = some n := by
  induction fields with
  | nil => cases h
  | cons e fields ih =>
    obtain ⟨k, w⟩ := e
    have htail : (n, v) ∈ lasts name fields →
        ∃ k', (k', v) ∈ (k, w) :: fields ∧ name k' = some n := by
      intro hmem
      obtain ⟨k', hk', hname⟩ := ih hmem
      exact ⟨k', List.mem_cons_of_mem _ hk', hname⟩
    unfold lasts at h
    split at h
    · rename_i n' hn'
      split at h
      · exact htail h
      · rcases List.mem_cons.mp h with he | hmem
        · cases he
          exact ⟨k, List.mem_cons_self, hn'⟩
        · exact htail hmem
    · exact htail h

theorem nodup_lasts {α : Type} (fields : List (String × α)) :
    ((lasts name fields).map Prod.fst).Nodup := by
  induction fields with
  | nil => exact List.nodup_nil
  | cons e fields ih =>
    obtain ⟨k, v⟩ := e
    unfold lasts
    split
    · rename_i n hn
      split
      · exact ih
      · rename_i hlast
        rw [List.map_cons, List.nodup_cons]
        refine ⟨fun hmem => hlast ?_, ih⟩
        obtain ⟨⟨n', w⟩, hw, rfl⟩ := List.mem_map.mp hmem
        obtain ⟨k', hk', hname⟩ := exists_of_mem_lasts hw
        exact ⟨(k', w), hk', hname⟩
    · exact ih

theorem get_lasts_eq_none {α : Type} {fields : List (String × α)} {n : String}
    (h : ¬ ∃ e ∈ fields, name e.1 = some n) : get n (lasts name fields) = none := by
  refine get_eq_none fun x hx hxn => h ?_
  obtain ⟨k, hk, hname⟩ := exists_of_mem_lasts (v := x.2) hx
  exact ⟨(k, x.2), hk, hxn ▸ hname⟩

theorem isSome_get_lasts {α : Type} {fields : List (String × α)} {n : String}
    (h : ∃ e ∈ fields, name e.1 = some n) : (get n (lasts name fields)).isSome := by
  induction fields with
  | nil => simp at h
  | cons e fields ih =>
    obtain ⟨k, v⟩ := e
    unfold lasts
    by_cases hlater : ∃ e ∈ fields, name e.1 = some n
    · have hget := ih hlater
      split
      · split
        · exact hget
        · rw [get_cons]
          split
          · rfl
          · exact hget
      · exact hget
    · obtain ⟨e', he', hname⟩ := h
      rcases List.mem_cons.mp he' with rfl | hmem
      · simp only at hname
        simp [hname, hlater]
      · exact absurd ⟨e', hmem, hname⟩ hlater

theorem get_named {α β : Type} (f : α → β) (n : String) (fields : List (String × α)) :
    get n (named name f fields).reverse = (get n (lasts name fields)).map f := by
  induction fields with
  | nil => rfl
  | cons e fields ih =>
    obtain ⟨k, v⟩ := e
    unfold named lasts
    rcases hk : name k with _ | n'
    · exact ih
    · dsimp only
      rw [List.reverse_cons, get_append, ih]
      by_cases hn : n' = n
      · subst hn
        by_cases hlater : ∃ e ∈ fields, name e.1 = some n'
        · rw [if_pos hlater]
          obtain ⟨w, hw⟩ := Option.isSome_iff_exists.mp (isSome_get_lasts hlater)
          simp [hw]
        · rw [if_neg hlater, get_lasts_eq_none hlater]
          simp
      · have hhead : get n [(n', f v)] = none := by
          simp [get_cons, hn]
        rw [hhead, Option.or_none]
        split
        · rfl
        · rw [get_cons, if_neg hn]

theorem named_congr {α β : Type} {f g : α → β} {fields : List (String × α)}
    (h : ∀ k v, (k, v) ∈ fields → f v = g v) : named name f fields = named name g fields := by
  induction fields with
  | nil => rfl
  | cons e fields ih =>
    obtain ⟨k, v⟩ := e
    unfold named
    rw [h k v List.mem_cons_self, ih fun k' v' hmem => h k' v' (List.mem_cons_of_mem _ hmem)]

theorem map_named {α β γ : Type} (f : α → β) (g : β → γ) (fields : List (String × α)) :
    (named name f fields).map (fun e => (e.1, g e.2)) = named name (fun v => g (f v)) fields := by
  induction fields with
  | nil => rfl
  | cons e fields ih =>
    obtain ⟨k, v⟩ := e
    unfold named
    split
    · rw [List.map_cons, ih]
    · exact ih

theorem renameFields_eq (fields : List (String × Value)) :
    renameFields name fields = named name (rename name) fields := by
  induction fields with
  | nil => rfl
  | cons e fields ih =>
    obtain ⟨k, v⟩ := e
    unfold renameFields named
    rw [ih]

/-- The lookups of a renamed object. -/
theorem get_rename (n : String) (fields : List (String × Value)) :
    (rename name (.object fields)).get n = (get n (lasts name fields)).map (rename name) := by
  unfold rename
  rw [Value.get_mkObject, renameFields_eq, get_named]

/-- A map with the lookups of the fields that stay has these fields as its entries. -/
theorem perm_lasts {α β : Type} {f : α → β} {fields : List (String × α)}
    {entries : List (String × β)} (hn : (entries.map Prod.fst).Nodup)
    (h : ∀ n, get n entries = (get n (lasts name fields)).map f) :
    entries.Perm ((lasts name fields).map fun e => (e.1, f e.2)) := by
  have hm : (((lasts name fields).map fun e => (e.1, f e.2)).map Prod.fst).Nodup := by
    rw [List.map_map]
    exact nodup_lasts fields
  rw [List.perm_ext_iff_of_nodup hn.of_map hm.of_map]
  rintro ⟨n, w⟩
  have hlookup : ∀ {l : List (String × β)}, (l.map Prod.fst).Nodup →
      (get n l = some w ↔ (n, w) ∈ l) := fun hl => ⟨mem_of_get, get_of_mem hl⟩
  rw [← hlookup hn, ← hlookup hm, h, get_map]

theorem keptOfItems_eq (items : List Value) :
    keptOfItems name items = items.flatMap (keptStrings name) := by
  induction items with
  | nil => rfl
  | cons v items ih => rw [keptOfItems, ih, List.flatMap_cons]

theorem keptOfFields_eq (fields : List (String × Value)) :
    keptOfFields name fields = (lasts name fields).flatMap fun e => keptStrings name e.2 := by
  induction fields with
  | nil => rfl
  | cons e fields ih =>
    obtain ⟨k, v⟩ := e
    unfold keptOfFields lasts
    split
    · split
      · exact ih
      · rw [ih, List.flatMap_cons]
    · exact ih

/-- The strings of a map with the lookups of the fields that stay. -/
theorem perm_keptOfFields {f : Value → Value} {fields entries : List (String × Value)}
    (hn : (entries.map Prod.fst).Nodup)
    (h : ∀ n, get n entries = (get n (lasts name fields)).map f)
    (hf : ∀ k v, (k, v) ∈ fields → (f v).stringValues.Perm (keptStrings name v)) :
    (Value.stringValuesOfFields entries).Perm (keptOfFields name fields) := by
  rw [Value.stringValuesOfFields_eq, keptOfFields_eq]
  refine ((perm_lasts hn h).flatMap_right _).trans ?_
  rw [List.flatMap_map]
  refine List.Perm.flatMap_left _ fun e he => ?_
  obtain ⟨k, hk, _⟩ := exists_of_mem_lasts (v := e.2) he
  exact hf k e.2 hk

theorem perm_keptOfItems {f : Value → Value} {items : List Value}
    (hf : ∀ v ∈ items, (f v).stringValues.Perm (keptStrings name v)) :
    (Value.stringValuesOfItems (items.map f)).Perm (keptOfItems name items) := by
  rw [Value.stringValuesOfItems_eq, keptOfItems_eq, List.flatMap_map]
  exact List.Perm.flatMap_left _ hf

/-- The strings of the renamed value are those that stay. -/
theorem perm_keptStrings (v : Value) :
    (rename name v).stringValues.Perm (keptStrings name v) := by
  induction v using Value.induct with
  | null | bool _ | number _ | string _ => exact .refl _
  | array items ih =>
    unfold rename keptStrings Value.stringValues
    rw [renameItems_eq]
    exact perm_keptOfItems ih
  | object fields ih =>
    unfold rename keptStrings Value.stringValues Value.mkObject
    refine perm_keptOfFields (sorted_ofList _).nodup (fun n => ?_) ih
    rw [get_ofList, renameFields_eq, get_named]

/-- The strings that stay are strings of the value. -/
theorem keptStrings_subset {name : String → Option String} (v : Value) :
    keptStrings name v ⊆ v.stringValues := by
  induction v using Value.induct with
  | null | bool _ | number _ | string _ => exact List.Subset.refl _
  | array items ih =>
    rw [keptStrings, keptOfItems_eq, Value.stringValues, Value.stringValuesOfItems_eq]
    intro s hs
    obtain ⟨v, hv, hs⟩ := List.mem_flatMap.mp hs
    exact List.mem_flatMap.mpr ⟨v, hv, ih v hv hs⟩
  | object fields ih =>
    rw [keptStrings, keptOfFields_eq, Value.stringValues, Value.stringValuesOfFields_eq]
    intro s hs
    obtain ⟨⟨n, v⟩, he, hs⟩ := List.mem_flatMap.mp hs
    obtain ⟨k, hk, -⟩ := exists_of_mem_lasts he
    exact List.mem_flatMap.mpr ⟨(k, v), hk, ih k v hk hs⟩

end naming

/-! ## Two namings -/

section alike

variable (p r : String → Option String)

mutual
/-- What the one naming keeps of the first value and the other of the second is the same: where
the last fields under a name stand, their values are alike. -/
def Alike : Value → Value → Prop
  | .array items, w => ∃ items', w = .array items' ∧ AlikeItems items items'
  | .object fields, w => ∃ fields', w = .object fields' ∧ AlikeFields fields fields' ∧
      ∀ n, (∃ e ∈ fields', r e.1 = some n) → ∃ e ∈ fields, p e.1 = some n
  | v, w => v = w
def AlikeItems : List Value → List Value → Prop
  | [], items' => items' = []
  | v :: items, items' => ∃ w rest, items' = w :: rest ∧ Alike v w ∧ AlikeItems items rest
def AlikeFields : List (String × Value) → List (String × Value) → Prop
  | [], _ => True
  | (k, v) :: fields, fields' =>
    (∀ n, p k = some n → (¬ ∃ e ∈ fields, p e.1 = some n) →
      ∃ w, get n (lasts r fields') = some w ∧ Alike v w) ∧ AlikeFields fields fields'
end

variable {p r}

theorem alikeFields_iff {fields fields' : List (String × Value)} :
    AlikeFields p r fields fields' ↔ ∀ n v, (n, v) ∈ lasts p fields →
      ∃ w, get n (lasts r fields') = some w ∧ Alike p r v w := by
  induction fields with
  | nil => simp [AlikeFields, lasts]
  | cons e fields ih =>
    obtain ⟨k, v⟩ := e
    rw [AlikeFields, ih, lasts]
    rcases hk : p k with _ | n
    · simp
    · by_cases hlater : ∃ e ∈ fields, p e.1 = some n
      · simp only [Option.some.injEq, if_pos hlater]
        constructor
        · exact fun h => h.2
        · refine fun h => ⟨fun n' hn' hno => ?_, h⟩
          subst hn'
          exact absurd hlater hno
      · simp only [Option.some.injEq, if_neg hlater, List.mem_cons, Prod.mk.injEq]
        constructor
        · rintro ⟨hhead, htail⟩ n' v' (⟨rfl, rfl⟩ | hmem)
          · exact hhead _ rfl hlater
          · exact htail n' v' hmem
        · refine fun h => ⟨?_, fun n' v' hmem => h n' v' (.inr hmem)⟩
          rintro n' rfl _
          exact h _ _ (.inl ⟨rfl, rfl⟩)

theorem rename_scalar {v w : Value} (hv : ∀ items, v ≠ .array items)
    (hv' : ∀ fields, v ≠ .object fields) : rename p v = rename r w ↔ v = w := by
  cases v with
  | array items => exact absurd rfl (hv items)
  | object fields => exact absurd rfl (hv' fields)
  | null | bool _ | number _ | string _ => cases w <;> simp [rename, Value.mkObject]

/-- Two objects are renamed to the same one exactly when each name has the same value. -/
theorem rename_object_eq_iff {fields fields' : List (String × Value)} :
    rename p (.object fields) = rename r (.object fields') ↔
      ∀ n, (get n (lasts p fields)).map (rename p) = (get n (lasts r fields')).map (rename r) := by
  constructor
  · intro h n
    rw [← get_rename, ← get_rename, h]
  · intro h
    unfold rename Value.mkObject
    rw [Value.object.injEq]
    refine (sorted_ofList _).ext (sorted_ofList _) fun n => ?_
    rw [get_ofList, get_ofList, renameFields_eq, renameFields_eq, get_named, get_named, h n]

/-- Two namings give the same value exactly when the values are alike under them. -/
theorem rename_eq_iff (v w : Value) : rename p v = rename r w ↔ Alike p r v w := by
  induction v using Value.induct generalizing w with
  | null | bool _ | number _ | string _ =>
    rw [rename_scalar (by simp) (by simp), Alike] <;> simp
  | array items ih =>
    rw [Alike]
    have hitems : ∀ items', items.map (rename p) = renameItems r items' ↔
        AlikeItems p r items items' := by
      induction items with
      | nil =>
        intro items'
        cases items' <;> simp [renameItems, AlikeItems]
      | cons v items ihl =>
        intro items'
        cases items' with
        | nil => simp [renameItems, AlikeItems]
        | cons w rest =>
          have hv := ih v List.mem_cons_self w
          have hrest := ihl (fun v hv => ih v (List.mem_cons_of_mem _ hv)) rest
          simp only [List.map_cons, renameItems, List.cons.injEq, hv, hrest, AlikeItems]
          constructor
          · exact fun h => ⟨w, rest, ⟨rfl, rfl⟩, h⟩
          · rintro ⟨w', rest', ⟨rfl, rfl⟩, h⟩
            exact h
    cases w with
    | array items' =>
      simp only [rename, Value.array.injEq, renameItems_eq items, hitems]
      simp
    | object fields => simp [rename, Value.mkObject]
    | null | bool _ | number _ | string _ => simp [rename]
  | object fields ih =>
    rw [Alike]
    cases w with
    | object fields' =>
      have hvalue : ∀ n v, (n, v) ∈ lasts p fields →
          ∀ w, rename p v = rename r w ↔ Alike p r v w := by
        intro n v hmem
        obtain ⟨k, hk, _⟩ := exists_of_mem_lasts hmem
        exact ih k v hk
      rw [rename_object_eq_iff]
      constructor
      · intro h
        refine ⟨fields', rfl, alikeFields_iff.mpr fun n v hmem => ?_, fun n hname => ?_⟩
        · have hn := h n
          rw [get_of_mem (nodup_lasts fields) hmem, Option.map_some, eq_comm,
            Option.map_eq_some_iff] at hn
          obtain ⟨w, hw, heq⟩ := hn
          exact ⟨w, hw, (hvalue n v hmem w).mp heq.symm⟩
        · by_contra hno
          have hn := h n
          obtain ⟨w, hw⟩ := Option.isSome_iff_exists.mp (isSome_get_lasts hname)
          rw [get_lasts_eq_none hno, hw] at hn
          cases hn
      · rintro ⟨_, ⟨rfl⟩, halike, hnames⟩ n
        rw [alikeFields_iff] at halike
        by_cases hname : ∃ e ∈ fields, p e.1 = some n
        · obtain ⟨v, hv⟩ := Option.isSome_iff_exists.mp (isSome_get_lasts hname)
          have hmem := mem_of_get hv
          obtain ⟨w, hw, hvw⟩ := halike n v hmem
          rw [hv, hw, Option.map_some, Option.map_some, (hvalue n v hmem w).mpr hvw]
        · rw [get_lasts_eq_none hname, get_lasts_eq_none fun h => hname (hnames n h)]
          rfl
    | array items => simp [rename, Value.mkObject]
    | null | bool _ | number _ | string _ => simp [rename, Value.mkObject]

end alike

/-! ## The keys of the objects that stay -/

section openKeys

variable (name : String → Option String)

mutual
/-- The keys of the objects that stand under no field that is dropped. -/
def openKeys : Value → List String
  | .array items => openKeysOfItems items
  | .object fields => openKeysOfFields fields
  | _ => []
def openKeysOfItems : List Value → List String
  | [] => []
  | v :: items => openKeys v ++ openKeysOfItems items
def openKeysOfFields : List (String × Value) → List String
  | [] => []
  | (k, v) :: fields =>
    k :: (if (name k).isSome then openKeys v else []) ++ openKeysOfFields fields
end

variable {name} {p r : String → Option String}

theorem mem_openKeys_array {k : String} {items : List Value} :
    k ∈ openKeys name (.array items) ↔ ∃ v ∈ items, k ∈ openKeys name v := by
  rw [openKeys]
  induction items with
  | nil => simp [openKeysOfItems]
  | cons v items ih => simp [openKeysOfItems, ih]

theorem mem_openKeys_object {k : String} {fields : List (String × Value)} :
    k ∈ openKeys name (.object fields) ↔ ∃ e ∈ fields, k = e.1 ∨
      (name e.1).isSome = true ∧ k ∈ openKeys name e.2 := by
  rw [openKeys]
  induction fields with
  | nil => simp [openKeysOfFields]
  | cons e fields ih =>
    obtain ⟨l, v⟩ := e
    rw [openKeysOfFields, List.mem_append, ih]
    by_cases h : (name l).isSome = true <;> simp [h]

/-- Namings that agree on the keys of the objects that stay name the value alike. -/
theorem rename_congr {v : Value} (h : ∀ k ∈ openKeys p v, p k = r k) :
    rename p v = rename r v := by
  induction v using Value.induct with
  | null | bool _ | number _ | string _ => rfl
  | array items ih =>
    rw [rename, rename, renameItems_eq, renameItems_eq]
    refine congrArg Value.array (List.map_congr_left fun v hv => ?_)
    exact ih v hv fun k hk => h k (mem_openKeys_array.mpr ⟨v, hv, hk⟩)
  | object fields ih =>
    rw [rename, rename, renameFields_eq, renameFields_eq]
    congr 1
    have hkey : ∀ e ∈ fields, p e.1 = r e.1 := fun e he =>
      h e.1 (mem_openKeys_object.mpr ⟨e, he, .inl rfl⟩)
    have hvalue : ∀ e ∈ fields, (p e.1).isSome = true → rename p e.2 = rename r e.2 :=
      fun e he hsome => ih e.1 e.2 he fun k hk =>
        h k (mem_openKeys_object.mpr ⟨e, he, .inr ⟨hsome, hk⟩⟩)
    clear h ih
    induction fields with
    | nil => rfl
    | cons e fields ih =>
      obtain ⟨k, v⟩ := e
      have htail := ih (fun e he => hkey e (List.mem_cons_of_mem _ he))
        fun e he => hvalue e (List.mem_cons_of_mem _ he)
      have hk := hkey (k, v) List.mem_cons_self
      have hv := hvalue (k, v) List.mem_cons_self
      rw [named, named, htail]
      dsimp only at hk hv
      rcases hp : p k with _ | n
      · rw [← hk, hp]
      · rw [← hk, hp, hv (by rw [hp]; rfl)]

/-- No two keys of an object get the same name. -/
def Unshared (name : String → Option String) (v : Value) : Prop :=
  ∀ keys ∈ v.keyLists, ∀ k ∈ keys, ∀ k' ∈ keys, ∀ n, name k = some n → name k' = some n → k = k'

theorem unshared_array {items : List Value} (h : Unshared name (.array items)) :
    ∀ v ∈ items, Unshared name v := fun v hv keys hkeys =>
  h keys (by
    rw [Value.keyLists, Value.mem_keyListsOfItems]
    exact ⟨v, hv, hkeys⟩)

theorem unshared_object {fields : List (String × Value)} (h : Unshared name (.object fields)) :
    (∀ e ∈ fields, ∀ e' ∈ fields, ∀ n, name e.1 = some n → name e'.1 = some n → e.1 = e'.1) ∧
      ∀ k v, (k, v) ∈ fields → Unshared name v := by
  simp only [Unshared, Value.keyLists, List.mem_cons, Value.mem_keyListsOfFields] at h
  refine ⟨fun e he e' he' => ?_, fun k v hv keys hkeys => h keys (.inr ⟨(k, v), hv, hkeys⟩)⟩
  exact h _ (.inl rfl) e.1 (List.mem_map_of_mem he) e'.1 (List.mem_map_of_mem he')

/-- Where no two keys get the same name, every field that gets one stays. -/
theorem get_lasts_of_unshared {fields : List (String × Value)}
    (hnodup : (fields.map Prod.fst).Nodup)
    (h : ∀ e ∈ fields, ∀ e' ∈ fields, ∀ n, name e.1 = some n → name e'.1 = some n → e.1 = e'.1)
    {k n : String} {v : Value} (hv : (k, v) ∈ fields) (hk : name k = some n) :
    get n (lasts name fields) = some v := by
  obtain ⟨w, hw⟩ := Option.isSome_iff_exists.mp (isSome_get_lasts ⟨(k, v), hv, hk⟩)
  obtain ⟨k', hk', hname⟩ := exists_of_mem_lasts (mem_of_get hw)
  obtain rfl : k = k' := h (k, v) hv (k', w) hk' n hk hname
  rw [hw, ← get_of_mem hnodup hv, get_of_mem hnodup hk']

/-- Where no two keys get the same name, the order of the keys does not matter to the names. -/
theorem rename_sortKeys {v : Value} (hd : v.Distinct) (h : Unshared name v) :
    rename name v.sortKeys = rename name v := by
  induction v using Value.induct with
  | null | bool _ | number _ | string _ => rfl
  | array items ih =>
    rw [Value.sortKeys, Value.sortItems_eq, rename, rename, renameItems_eq, renameItems_eq,
      List.map_map]
    refine congrArg Value.array (List.map_congr_left fun v hv => ?_)
    exact ih v hv (Value.distinct_array.mp hd v hv) (unshared_array h v hv)
  | object fields ih =>
    obtain ⟨hnodup, hdistinct⟩ := Value.distinct_object.mp hd
    obtain ⟨hkeys, hvalues⟩ := unshared_object h
    have hsorted := (sorted_ofList (Value.sortFields fields)).nodup
    have hget := Value.get_sortFields hnodup
    have hback : ∀ e ∈ ofList (Value.sortFields fields), ∃ v, (e.1, v) ∈ fields := by
      intro e he
      have hsome := hget e.1
      rw [get_of_mem hsorted he, eq_comm, Option.map_eq_some_iff] at hsome
      obtain ⟨v, hv, -⟩ := hsome
      exact ⟨v, mem_of_get hv⟩
    rw [Value.sortKeys, rename_object_eq_iff]
    intro n
    by_cases hn : ∃ e ∈ fields, name e.1 = some n
    · obtain ⟨⟨k, v⟩, hv, hk⟩ := hn
      have hsome := hget k
      rw [get_of_mem hnodup hv, Option.map_some] at hsome
      have hfirst := get_lasts_of_unshared hsorted (fun e he e' he' => by
        obtain ⟨v, hv⟩ := hback e he
        obtain ⟨v', hv'⟩ := hback e' he'
        exact hkeys (e.1, v) hv (e'.1, v') hv') (mem_of_get hsome) hk
      rw [hfirst, get_lasts_of_unshared hnodup hkeys hv hk, Option.map_some, Option.map_some,
        ih k v hv (hdistinct k v hv) (hvalues k v hv)]
    · have hnone : ¬ ∃ e ∈ ofList (Value.sortFields fields), name e.1 = some n := by
        rintro ⟨e, he, hname⟩
        obtain ⟨v, hv⟩ := hback e he
        exact hn ⟨_, hv, hname⟩
      rw [get_lasts_eq_none hnone, get_lasts_eq_none hn]

end openKeys

end json
