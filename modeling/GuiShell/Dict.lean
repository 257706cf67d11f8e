-- Maps that keep the order in which their keys came, as the dicts of Python do. A key that
-- comes again keeps its place and takes the new value.
import GuiShell.SortedMap

open sorted_map

namespace dict

variable {κ α : Type*} [LinearOrder κ]

def setItem (k : κ) (v : α) : List (κ × α) → List (κ × α)
  | [] => [(k, v)]
  | (k', v') :: rest => if k' = k then (k', v) :: rest else (k', v') :: setItem k v rest

/-- The dict that a comprehension builds. -/
def ofItems (l : List (κ × α)) : List (κ × α) := l.foldl (fun d e => setItem e.1 e.2 d) []

theorem get_setItem (k k' : κ) (v : α) (l : List (κ × α)) :
    get k' (setItem k v l) = if k = k' then some v else get k' l := by
  induction l with
  | nil => rfl
  | cons e l ih =>
    obtain ⟨k₁, v₁⟩ := e
    rw [setItem]
    by_cases h : k₁ = k
    · subst h
      simp only [if_true, get_cons]
      split <;> rfl
    · rw [if_neg h, get_cons, get_cons, ih]
      by_cases hk : k₁ = k'
      · subst hk
        simp [Ne.symm h]
      · simp [hk]

theorem get_foldl_setItem (k : κ) (l d : List (κ × α)) :
    get k (l.foldl (fun d e => setItem e.1 e.2 d) d) = (get k l.reverse).or (get k d) := by
  induction l generalizing d with
  | nil => simp
  | cons e l ih =>
    rw [List.foldl_cons, ih, get_setItem, List.reverse_cons, get_append, Option.or_assoc, get_cons]
    split <;> simp

/-- Of two items with one key, the later one stays. -/
theorem get_ofItems (k : κ) (l : List (κ × α)) : get k (ofItems l) = get k l.reverse := by
  simp [ofItems, get_foldl_setItem]

theorem mem_setItem {k : κ} {v : α} {l : List (κ × α)} {e : κ × α}
    (h : e ∈ setItem k v l) : e = (k, v) ∨ e ∈ l := by
  induction l with
  | nil => simpa [setItem] using h
  | cons e' l ih =>
    rw [setItem] at h
    split at h
    · rename_i hk
      rcases List.mem_cons.mp h with rfl | hmem
      · exact .inl (by rw [hk])
      · exact .inr (List.mem_cons_of_mem _ hmem)
    · rcases List.mem_cons.mp h with rfl | hmem
      · exact .inr List.mem_cons_self
      · exact (ih hmem).imp_right (List.mem_cons_of_mem _)

theorem mem_keys_setItem {k x : κ} {v : α} {l : List (κ × α)} :
    x ∈ (setItem k v l).map Prod.fst ↔ x = k ∨ x ∈ l.map Prod.fst := by
  induction l with
  | nil => simp [setItem]
  | cons e l ih =>
    rw [setItem]
    by_cases h : e.1 = k
    · rw [if_pos h]
      simp [h]
    · rw [if_neg h, List.map_cons, List.mem_cons, ih, List.map_cons, List.mem_cons]
      tauto

theorem nodup_setItem {l : List (κ × α)} (h : (l.map Prod.fst).Nodup) (k : κ) (v : α) :
    ((setItem k v l).map Prod.fst).Nodup := by
  induction l with
  | nil => simp [setItem]
  | cons e l ih =>
    rw [List.map_cons, List.nodup_cons] at h
    rw [setItem]
    by_cases hk : e.1 = k
    · rw [if_pos hk, List.map_cons, List.nodup_cons]
      exact h
    · rw [if_neg hk, List.map_cons, List.nodup_cons, mem_keys_setItem]
      exact ⟨by simpa [hk] using h.1, ih h.2⟩

theorem nodup_ofItems (l : List (κ × α)) : ((ofItems l).map Prod.fst).Nodup := by
  have hfold : ∀ l d : List (κ × α), (d.map Prod.fst).Nodup →
      ((l.foldl (fun d e => setItem e.1 e.2 d) d).map Prod.fst).Nodup := by
    intro l
    induction l with
    | nil => exact fun _ h => h
    | cons e l ih => exact fun d h => ih _ (nodup_setItem h e.1 e.2)
  exact hfold l [] List.nodup_nil

theorem setItem_of_notMem {k : κ} {l : List (κ × α)} (h : k ∉ l.map Prod.fst) (v : α) :
    setItem k v l = l ++ [(k, v)] := by
  induction l with
  | nil => rfl
  | cons e l ih =>
    rw [List.map_cons, List.mem_cons, not_or] at h
    rw [setItem, if_neg (Ne.symm h.1), ih h.2, List.cons_append]

/-- Items with different keys are the dict that they build. -/
theorem ofItems_of_nodup {l : List (κ × α)} (h : (l.map Prod.fst).Nodup) : ofItems l = l := by
  have hfold : ∀ l d : List (κ × α), ((d ++ l).map Prod.fst).Nodup →
      l.foldl (fun d e => setItem e.1 e.2 d) d = d ++ l := by
    intro l
    induction l with
    | nil =>
      intro d _
      exact (List.append_nil d).symm
    | cons e l ih =>
      intro d hd
      have hnew : e.1 ∉ d.map Prod.fst := by
        intro hmem
        rw [List.map_append, List.nodup_append] at hd
        exact hd.2.2 e.1 hmem e.1 (by simp) rfl
      rw [List.foldl_cons, setItem_of_notMem hnew, ih]
      · simp
      · simpa using hd
  exact hfold l [] h

/-- As maps, the dict and the sorted map of a list of items are the same. -/
theorem ofList_ofItems (l : List (κ × α)) : ofList (ofItems l) = ofList l := by
  refine (sorted_ofList _).ext (sorted_ofList l) fun k => ?_
  rw [get_ofList_of_nodup (nodup_ofItems l), get_ofItems, get_ofList]

end dict
