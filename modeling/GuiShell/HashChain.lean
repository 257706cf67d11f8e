-- Hash chains: each item holds the hash of the item before it. When a hash gives back
-- the item it stands for, the last hash gives back the whole chain.
import Mathlib.Data.List.Basic

namespace hash_chain

variable {α η κ : Type*} (prev hash : α → η) (start : η)

/-- The hash that the next item of a chain holds. -/
def head (l : List α) : η := (l.getLast?.map hash).getD start

@[simp] theorem head_nil : head hash start [] = start := rfl

@[simp] theorem head_snoc (l : List α) (a : α) : head hash start (l ++ [a]) = hash a := by
  simp [head]

/-- Each item holds the head of the items before it, and the first one holds `start`. -/
inductive Chained : List α → Prop
  | nil : Chained []
  | snoc {l : List α} {a : α} : Chained l → prev a = head hash start l → Chained (l ++ [a])

variable {prev hash start}

/-- Two chains with one head agree item by item on what the hashes bind, `key`. Chains of
different lengths have different heads, unless an item has the hash `start`. -/
theorem Chained.binding {key : α → κ} {l m : List α} (hl : Chained prev hash start l)
    (hm : Chained prev hash start m)
    (hbind : ∀ a ∈ l, ∀ b ∈ m, hash a = hash b → key a = key b ∧ prev a = prev b)
    (hstart : l.length ≠ m.length → ∀ a ∈ l ++ m, hash a ≠ start)
    (h : head hash start l = head hash start m) : l.map key = m.map key := by
  induction hl generalizing m with
  | nil =>
    cases hm with
    | nil => rfl
    | @snoc m b _ _ =>
      rw [head_nil, head_snoc] at h
      exact absurd h.symm (hstart (by simp) b (by simp))
  | @snoc l a hl ha ih =>
    cases hm with
    | nil =>
      rw [head_nil, head_snoc] at h
      exact absurd h (hstart (by simp) a (by simp))
    | @snoc m b hm hb =>
      rw [head_snoc, head_snoc] at h
      obtain ⟨hkey, hprev⟩ := hbind a (by simp) b (by simp) h
      have hrest : l.map key = m.map key := by
        refine ih hm (fun a ha b hb => hbind a ?_ b ?_) (fun hne c hc => hstart ?_ c ?_) ?_
        · exact List.mem_append_left _ ha
        · exact List.mem_append_left _ hb
        · simpa using hne
        · rcases List.mem_append.mp hc with hc | hc <;> simp [hc]
        · rw [← ha, ← hb, hprev]
      rw [List.map_append, List.map_append, hrest, List.map_singleton, List.map_singleton, hkey]

end hash_chain
