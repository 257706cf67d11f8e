-- Maps as lists of entries in growing key order. A sorted list has one entry
-- for each key, so two maps with the same lookups are the same list.
import Mathlib.Data.String.Basic
import Mathlib.Data.List.Sort

namespace sorted_map

variable {κ α β : Type*} [LinearOrder κ]

/-! ## Lists of entries -/

/-- The value of the first entry with key `k`. -/
def get (k : κ) : List (κ × α) → Option α
  | [] => none
  | (k', v) :: rest => if k' = k then some v else get k rest

/-- Puts an entry at its place by key. An entry with the same key is replaced. -/
def insert (k : κ) (v : α) : List (κ × α) → List (κ × α)
  | [] => [(k, v)]
  | (k', v') :: rest =>
    if k < k' then (k, v) :: (k', v') :: rest
    else if k = k' then (k, v) :: rest
    else (k', v') :: insert k v rest

/-- Removes every entry with key `k`. -/
def erase (k : κ) : List (κ × α) → List (κ × α)
  | [] => []
  | (k', v) :: rest => if k' = k then erase k rest else (k', v) :: erase k rest

/-- The inserts of a list of entries, one by one: of two entries with one key, the later
one stays. -/
def insertAll (l : List (κ × α)) (m : List (κ × α)) : List (κ × α) :=
  l.foldl (fun m e => insert e.1 e.2 m) m

/-- The map that a list of entries builds. -/
def ofList (l : List (κ × α)) : List (κ × α) := insertAll l []

/-- The keys grow strictly. -/
def Sorted (l : List (κ × α)) : Prop := l.Pairwise (fun a b => a.1 < b.1)

instance (l : List (κ × α)) : Decidable (Sorted l) :=
  inferInstanceAs (Decidable (l.Pairwise _))

@[simp] theorem sorted_nil : Sorted ([] : List (κ × α)) := List.Pairwise.nil

theorem sorted_cons {e : κ × α} {l : List (κ × α)} :
    Sorted (e :: l) ↔ (∀ x ∈ l, e.1 < x.1) ∧ Sorted l := List.pairwise_cons

theorem Sorted.tail {e : κ × α} {l : List (κ × α)} (h : Sorted (e :: l)) : Sorted l :=
  (sorted_cons.mp h).2

/-! ### Lookups -/

@[simp] theorem get_nil (k : κ) : get k ([] : List (κ × α)) = none := rfl

theorem get_cons (k : κ) (e : κ × α) (l : List (κ × α)) :
    get k (e :: l) = if e.1 = k then some e.2 else get k l := rfl

@[simp] theorem get_cons_self (k : κ) (v : α) (l : List (κ × α)) :
    get k ((k, v) :: l) = some v := by simp [get]

theorem get_eq_none {k : κ} {l : List (κ × α)} (h : ∀ x ∈ l, x.1 ≠ k) : get k l = none := by
  induction l with
  | nil => rfl
  | cons e l ih =>
    rw [get_cons, if_neg (h e List.mem_cons_self)]
    exact ih fun x hx => h x (List.mem_cons_of_mem _ hx)

theorem mem_of_get {k : κ} {v : α} {l : List (κ × α)} (h : get k l = some v) : (k, v) ∈ l := by
  induction l with
  | nil => simp at h
  | cons e l ih =>
    rw [get_cons] at h
    split at h
    · rename_i hk
      cases h; subst hk
      exact List.mem_cons_self
    · exact List.mem_cons_of_mem _ (ih h)

theorem get_of_mem {k : κ} {v : α} {l : List (κ × α)} (hn : (l.map Prod.fst).Nodup)
    (h : (k, v) ∈ l) : get k l = some v := by
  induction l with
  | nil => simp at h
  | cons e l ih =>
    simp only [List.map_cons, List.nodup_cons] at hn
    rcases List.mem_cons.mp h with he | hl
    · subst he; simp
    · have hne : e.1 ≠ k := fun hk => hn.1 (List.mem_map.mpr ⟨(k, v), hl, hk.symm⟩)
      rw [get_cons, if_neg hne]
      exact ih hn.2 hl

theorem isSome_get_iff {k : κ} {l : List (κ × α)} :
    (get k l).isSome = true ↔ k ∈ l.map Prod.fst := by
  induction l with
  | nil => simp
  | cons e l ih =>
    rw [get_cons, List.map_cons, List.mem_cons, ← ih]
    by_cases hk : e.1 = k
    · simp [hk]
    · rw [if_neg hk, or_iff_right fun h => hk h.symm]

theorem get_append (k : κ) (l m : List (κ × α)) :
    get k (l ++ m) = (get k l).or (get k m) := by
  induction l with
  | nil => simp
  | cons e l ih =>
    rw [List.cons_append, get_cons, get_cons]
    split <;> simp [ih]

theorem get_mapWithKey (k : κ) (f : κ → α → β) (l : List (κ × α)) :
    get k (l.map fun e => (e.1, f e.1 e.2)) = (get k l).map (f k) := by
  induction l with
  | nil => rfl
  | cons e l ih =>
    rw [List.map_cons, get_cons, get_cons]
    split
    · rename_i hk
      rw [← hk]
      rfl
    · exact ih

theorem get_map (k : κ) (f : α → β) (l : List (κ × α)) :
    get k (l.map fun e => (e.1, f e.2)) = (get k l).map f := get_mapWithKey k (fun _ => f) l

theorem Sorted.nodup {l : List (κ × α)} (h : Sorted l) : (l.map Prod.fst).Nodup := by
  rw [List.Nodup, List.pairwise_map]
  exact h.imp fun hab => ne_of_lt hab

theorem Sorted.get_iff {l : List (κ × α)} (h : Sorted l) (k : κ) (v : α) :
    get k l = some v ↔ (k, v) ∈ l := ⟨mem_of_get, get_of_mem h.nodup⟩

/-- Sorted lists with the same lookups are equal. -/
theorem Sorted.ext {l m : List (κ × α)} (hl : Sorted l) (hm : Sorted m)
    (h : ∀ k, get k l = get k m) : l = m := by
  have hp : l.Perm m := by
    rw [List.perm_ext_iff_of_nodup hl.nodup.of_map hm.nodup.of_map]
    rintro ⟨k, v⟩
    rw [← hl.get_iff, ← hm.get_iff, h]
  exact hp.eq_of_pairwise (fun a b _ _ hab hba => absurd hab (lt_asymm hba)) hl hm

/-! ### Inserts -/

theorem get_insert (k k' : κ) (v : α) (l : List (κ × α)) :
    get k' (insert k v l) = if k = k' then some v else get k' l := by
  induction l with
  | nil => rfl
  | cons e l ih =>
    obtain ⟨k₁, v₁⟩ := e
    rw [insert]
    split
    · rfl
    · split
      · rename_i hk
        subst hk
        simp only [get_cons]
        split <;> rfl
      · rename_i hk
        rw [get_cons, ih, get_cons]
        by_cases h1 : k₁ = k'
        · subst h1; simp [hk]
        · simp [h1]

theorem mem_insert {k : κ} {v : α} {x : κ × α} {l : List (κ × α)} (h : x ∈ insert k v l) :
    x = (k, v) ∨ x ∈ l := by
  induction l with
  | nil => simpa [insert] using h
  | cons e l ih =>
    obtain ⟨k₁, v₁⟩ := e
    rw [insert] at h
    split at h
    · simpa using h
    · split at h
      · rcases List.mem_cons.mp h with h | h
        · exact Or.inl h
        · exact Or.inr (List.mem_cons_of_mem _ h)
      · rcases List.mem_cons.mp h with h | h
        · exact Or.inr (h ▸ List.mem_cons_self)
        · exact (ih h).imp_right (List.mem_cons_of_mem _)

theorem length_insert_le (k : κ) (v : α) (l : List (κ × α)) :
    (sorted_map.insert k v l).length ≤ l.length + 1 := by
  induction l with
  | nil => exact Nat.le_refl _
  | cons e l ih =>
    rw [sorted_map.insert]
    split
    · exact Nat.le_refl _
    · split
      · exact Nat.le_succ _
      · exact Nat.succ_le_succ ih

theorem Sorted.insert {l : List (κ × α)} (h : Sorted l) (k : κ) (v : α) :
    Sorted (sorted_map.insert k v l) := by
  induction l with
  | nil => simp [sorted_map.insert, Sorted]
  | cons e l ih =>
    obtain ⟨k₁, v₁⟩ := e
    obtain ⟨hlt, hl⟩ := sorted_cons.mp h
    rw [sorted_map.insert]
    split
    · rename_i hk
      refine sorted_cons.mpr ⟨fun x hx => ?_, h⟩
      rcases List.mem_cons.mp hx with hx | hx
      · exact hx ▸ hk
      · exact lt_trans hk (hlt x hx)
    · split
      · rename_i hk
        subst hk
        exact sorted_cons.mpr ⟨hlt, hl⟩
      · rename_i h1 h2
        refine sorted_cons.mpr ⟨fun x hx => ?_, ih hl⟩
        rcases mem_insert hx with hx | hx
        · exact hx ▸ lt_of_le_of_ne (not_lt.mp h1) (Ne.symm h2)
        · exact hlt x hx

theorem Sorted.insertAll {m : List (κ × α)} (h : Sorted m) (l : List (κ × α)) :
    Sorted (sorted_map.insertAll l m) := by
  induction l generalizing m with
  | nil => exact h
  | cons e l ih => exact ih (h.insert e.1 e.2)

theorem sorted_ofList (l : List (κ × α)) : Sorted (ofList l) := sorted_nil.insertAll l

theorem get_insertAll (k : κ) (l m : List (κ × α)) :
    get k (insertAll l m) = (get k l.reverse).or (get k m) := by
  induction l generalizing m with
  | nil => simp [insertAll]
  | cons e l ih =>
    change get k (insertAll l (insert e.1 e.2 m)) = _
    rw [ih, get_insert, List.reverse_cons, get_append, Option.or_assoc]
    congr 1
    rw [get_cons]
    split <;> simp

theorem get_ofList (k : κ) (l : List (κ × α)) : get k (ofList l) = get k l.reverse := by
  simp [ofList, get_insertAll]

/-- Inserting makes up no entries. -/
theorem mem_of_mem_ofList {l : List (κ × α)} {e : κ × α} (h : e ∈ ofList l) : e ∈ l := by
  have hget := ((sorted_ofList l).get_iff e.1 e.2).mpr h
  rw [get_ofList] at hget
  exact List.mem_reverse.mp (mem_of_get hget)

/-- With one entry for each key, the order of the inserts does not matter. -/
theorem get_ofList_of_nodup {l : List (κ × α)} (h : (l.map Prod.fst).Nodup) (k : κ) :
    get k (ofList l) = get k l := by
  rw [get_ofList]
  have hr : (l.reverse.map Prod.fst).Nodup := by
    rw [List.map_reverse, List.nodup_reverse]; exact h
  rcases hg : get k l with _ | v
  · rcases hg' : get k l.reverse with _ | w
    · rfl
    · rw [get_of_mem h (List.mem_reverse.mp (mem_of_get hg'))] at hg
      exact absurd hg (by simp)
  · exact get_of_mem hr (List.mem_reverse.mpr (mem_of_get hg))

theorem ofList_eq_of_perm {l m : List (κ × α)} (hm : Sorted m) (h : l.Perm m) : ofList l = m := by
  have hn : (l.map Prod.fst).Nodup := (h.map Prod.fst).nodup_iff.mpr hm.nodup
  refine (sorted_ofList l).ext hm fun k => ?_
  rw [get_ofList_of_nodup hn]
  rcases hg : get k m with _ | v
  · refine get_eq_none fun x hx hk => ?_
    have := get_of_mem hm.nodup (h.subset hx)
    rw [hk, hg] at this
    exact absurd this (by simp)
  · exact get_of_mem hn (h.symm.subset (mem_of_get hg))

/-- A sorted list builds itself. -/
theorem Sorted.ofList_eq {l : List (κ × α)} (h : Sorted l) : ofList l = l :=
  ofList_eq_of_perm h (List.Perm.refl l)

/-- With one entry for each key, the map has the entries of the list. -/
theorem perm_ofList {l : List (κ × α)} (h : (l.map Prod.fst).Nodup) : (ofList l).Perm l := by
  rw [List.perm_ext_iff_of_nodup (sorted_ofList l).nodup.of_map h.of_map]
  rintro ⟨k, v⟩
  rw [← (sorted_ofList l).get_iff, get_ofList_of_nodup h]
  exact ⟨mem_of_get, get_of_mem h⟩

/-- Sorting the entries of a map and changing their values can be done in any order. -/
theorem ofList_map (f : α → β) (l : List (κ × α)) :
    ofList (l.map fun e => (e.1, f e.2)) = (ofList l).map fun e => (e.1, f e.2) := by
  have hs : Sorted ((ofList l).map fun e => (e.1, f e.2)) :=
    List.pairwise_map.mpr (sorted_ofList l)
  refine (sorted_ofList _).ext hs fun k => ?_
  rw [get_ofList, ← List.map_reverse, get_map, get_map, get_ofList]

/-! ### Removals -/

theorem get_erase (k k' : κ) (l : List (κ × α)) :
    get k' (erase k l) = if k = k' then none else get k' l := by
  induction l with
  | nil => simp [erase]
  | cons e l ih =>
    obtain ⟨k₁, v₁⟩ := e
    rw [erase, get_cons]
    split
    · rename_i hk
      subst hk
      rw [ih]
      by_cases h : k₁ = k' <;> simp [h]
    · rename_i hk
      rw [get_cons, ih]
      by_cases h : k₁ = k'
      · subst h; simp [Ne.symm hk]
      · simp [h]

theorem erase_sublist (k : κ) (l : List (κ × α)) : (erase k l).Sublist l := by
  induction l with
  | nil => exact List.Sublist.slnil
  | cons e l ih =>
    rw [erase]
    split
    · exact ih.cons e
    · exact ih.cons_cons e

theorem Sorted.erase {l : List (κ × α)} (h : Sorted l) (k : κ) : Sorted (sorted_map.erase k l) :=
  h.sublist (erase_sublist k l)

theorem length_erase_lt {e : κ × α} {l : List (κ × α)} (h : e ∈ l) :
    (sorted_map.erase e.1 l).length < l.length := by
  induction l with
  | nil => cases h
  | cons e' l ih =>
    rw [sorted_map.erase]
    split
    · exact Nat.lt_succ_of_le (erase_sublist e.1 l).length_le
    · rename_i hk
      rcases List.mem_cons.mp h with rfl | h
      · exact absurd rfl hk
      · exact Nat.succ_lt_succ (ih h)

theorem erase_eq_self {k : κ} {l : List (κ × α)} (h : ∀ x ∈ l, x.1 ≠ k) : erase k l = l := by
  induction l with
  | nil => rfl
  | cons e l ih =>
    rw [erase, if_neg (h e List.mem_cons_self), ih fun x hx => h x (List.mem_cons_of_mem _ hx)]

/-- With one entry for each key, a removal takes one entry. -/
theorem Sorted.length_erase {e : κ × α} {l : List (κ × α)} (hl : Sorted l) (h : e ∈ l) :
    (sorted_map.erase e.1 l).length + 1 = l.length := by
  induction l with
  | nil => cases h
  | cons e' l ih =>
    obtain ⟨hlt, hl⟩ := sorted_cons.mp hl
    rw [sorted_map.erase]
    rcases List.mem_cons.mp h with rfl | h
    · rw [if_pos rfl, erase_eq_self fun x hx => ne_of_gt (hlt x hx)]
      rfl
    · rw [if_neg (ne_of_lt (hlt e h)), List.length_cons, ih hl h, List.length_cons]

theorem Sorted.filter {l : List (κ × α)} (h : Sorted l) (p : κ × α → Bool) :
    Sorted (l.filter p) := h.sublist List.filter_sublist

theorem get_filter {l : List (κ × α)} (h : Sorted l) (p : κ × α → Bool) (k : κ) :
    get k (l.filter p) = (get k l).filter fun v => p (k, v) := by
  ext v
  rw [(h.filter p).get_iff, List.mem_filter, ← h.get_iff, Option.filter_eq_some_iff]

end sorted_map

/-! ## Maps -/

/-- A map from keys to values: its entries, in growing key order. -/
structure SortedMap (κ α : Type*) [LinearOrder κ] where
  entries : List (κ × α)
  sorted : sorted_map.Sorted entries

namespace SortedMap

variable {κ α : Type*} [LinearOrder κ]

instance [DecidableEq α] : DecidableEq (SortedMap κ α) := fun a b =>
  decidable_of_iff (a.entries = b.entries) (by cases a; cases b; simp)

def empty : SortedMap κ α := ⟨[], sorted_map.sorted_nil⟩

def get (m : SortedMap κ α) (k : κ) : Option α := sorted_map.get k m.entries

def contains_key (m : SortedMap κ α) (k : κ) : Bool := (m.get k).isSome

def insert (m : SortedMap κ α) (k : κ) (v : α) : SortedMap κ α :=
  ⟨sorted_map.insert k v m.entries, m.sorted.insert k v⟩

def remove (m : SortedMap κ α) (k : κ) : SortedMap κ α :=
  ⟨sorted_map.erase k m.entries, m.sorted.erase k⟩

def len (m : SortedMap κ α) : Nat := m.entries.length

/-- `retain`. -/
def filter (m : SortedMap κ α) (p : κ × α → Bool) : SortedMap κ α :=
  ⟨m.entries.filter p, m.sorted.filter p⟩

theorem eq_of_entries {a b : SortedMap κ α} (h : a.entries = b.entries) : a = b := by
  cases a
  cases b
  cases h
  rfl

@[ext] theorem ext {a b : SortedMap κ α} (h : ∀ k, a.get k = b.get k) : a = b := by
  exact eq_of_entries (a.sorted.ext b.sorted h)

@[simp] theorem get_empty (k : κ) : (empty : SortedMap κ α).get k = none := rfl

theorem get_insert (m : SortedMap κ α) (k k' : κ) (v : α) :
    (m.insert k v).get k' = if k = k' then some v else m.get k' :=
  sorted_map.get_insert k k' v m.entries

theorem get_remove (m : SortedMap κ α) (k k' : κ) :
    (m.remove k).get k' = if k = k' then none else m.get k' :=
  sorted_map.get_erase k k' m.entries

theorem get_filter (m : SortedMap κ α) (p : κ × α → Bool) (k : κ) :
    (m.filter p).get k = (m.get k).filter fun v => p (k, v) :=
  sorted_map.get_filter m.sorted p k

theorem filter_eq_self {m : SortedMap κ α} {p : κ × α → Bool}
    (h : ∀ e ∈ m.entries, p e = true) : m.filter p = m :=
  eq_of_entries (List.filter_eq_self.mpr h)

theorem get_eq_some_iff (m : SortedMap κ α) (k : κ) (v : α) :
    m.get k = some v ↔ (k, v) ∈ m.entries := m.sorted.get_iff k v

theorem len_insert_le (m : SortedMap κ α) (k : κ) (v : α) : (m.insert k v).len ≤ m.len + 1 :=
  sorted_map.length_insert_le k v m.entries

theorem len_filter_le (m : SortedMap κ α) (p : κ × α → Bool) : (m.filter p).len ≤ m.len :=
  List.length_filter_le p m.entries

theorem len_remove_lt {m : SortedMap κ α} {e : κ × α} (h : e ∈ m.entries) :
    (m.remove e.1).len < m.len := sorted_map.length_erase_lt h

theorem len_remove {m : SortedMap κ α} {e : κ × α} (h : e ∈ m.entries) :
    (m.remove e.1).len + 1 = m.len := m.sorted.length_erase h

theorem mem_entries_remove {m : SortedMap κ α} {k : κ} {e : κ × α} (h : e ∈ m.entries)
    (hne : k ≠ e.1) : e ∈ (m.remove k).entries := by
  rw [← get_eq_some_iff] at h ⊢
  rw [get_remove, if_neg hne, h]

theorem entries_remove_subset (m : SortedMap κ α) (k : κ) :
    (m.remove k).entries ⊆ m.entries := (sorted_map.erase_sublist k m.entries).subset

end SortedMap
