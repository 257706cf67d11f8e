-- Checks that go through the items of a list with a state, and collect what they find or stop.
-- Where a good state is known from the items that led to it, a run with one more item is good
-- exactly when the run before it is and the item fits.
import Mathlib.Data.List.Induction

namespace checked_run

variable {σ α : Type*}

/-- The state after the items, of which the first has number `index`, or none for a check that
stops. -/
def run (step : Nat → σ → α → Option σ) (index : Nat) (state : σ) : List α → Option σ
  | [] => some state
  | a :: l => (step index state a).bind fun state => run step (index + 1) state l

/-- The good states of a check, by the items that led to them. -/
structure Tracks (step : Nat → σ → α → Option σ) (Good : σ → Prop) (stateOf : List α → σ)
    (Fits : List α → α → Prop) : Prop where
  before : ∀ index state a state', step index state a = some state' → Good state' → Good state
  fits : ∀ index l a state', (step index (stateOf l) a = some state' ∧ Good state') ↔
    Fits l a ∧ state' = stateOf (l ++ [a])

variable {step : Nat → σ → α → Option σ} {Good : σ → Prop} {stateOf : List α → σ}
  {Fits : List α → α → Prop} {l : List α} {a : α} {state : σ}

theorem run_append (index : Nat) (state : σ) (l more : List α) :
    run step index state (l ++ more) =
      (run step index state l).bind fun state => run step (index + l.length) state more := by
  induction l generalizing index state with
  | nil => rfl
  | cons a l ih =>
    rw [List.cons_append, run, run, Option.bind_assoc]
    congr
    funext state'
    rw [ih, List.length_cons, Nat.add_assoc, Nat.add_comm 1]

/-- A run with one more item makes one step more. -/
theorem run_snoc_iff {index : Nat} {start : σ} :
    run step index start (l ++ [a]) = some state ↔
      ∃ before, run step index start l = some before ∧
        step (index + l.length) before a = some state := by
  rw [run_append, Option.bind_eq_some_iff]
  simp only [run, Option.bind_fun_some]

namespace Tracks

/-- A good run is in the state of its items. -/
theorem state_eq (h : Tracks step Good stateOf Fits) (hrun : run step 0 (stateOf []) l = some state)
    (hgood : Good state) : state = stateOf l := by
  induction l using List.reverseRecOn generalizing state with
  | nil => exact (Option.some.inj hrun).symm
  | append_singleton l a ih =>
    obtain ⟨before, hbefore, hstep⟩ := run_snoc_iff.mp hrun
    obtain rfl := ih hbefore (h.before _ _ _ _ hstep hgood)
    exact ((h.fits _ _ _ _).mp ⟨hstep, hgood⟩).2

theorem good_iff (h : Tracks step Good stateOf Fits) :
    (∃ state, run step 0 (stateOf []) l = some state ∧ Good state) ↔
      run step 0 (stateOf []) l = some (stateOf l) ∧ Good (stateOf l) := by
  constructor
  · rintro ⟨state, hrun, hgood⟩
    obtain rfl := h.state_eq hrun hgood
    exact ⟨hrun, hgood⟩
  · exact fun hrun => ⟨_, hrun⟩

/-- One more item is good exactly when it fits to a run that is good. -/
theorem good_snoc_iff (h : Tracks step Good stateOf Fits) :
    (∃ state, run step 0 (stateOf []) (l ++ [a]) = some state ∧ Good state) ↔
      (∃ state, run step 0 (stateOf []) l = some state ∧ Good state) ∧ Fits l a := by
  constructor
  · rintro ⟨state, hrun, hgood⟩
    obtain ⟨before, hbefore, hstep⟩ := run_snoc_iff.mp hrun
    have hbefore_good := h.before _ _ _ _ hstep hgood
    obtain rfl := h.state_eq hbefore hbefore_good
    exact ⟨⟨_, hbefore, hbefore_good⟩, ((h.fits _ _ _ _).mp ⟨hstep, hgood⟩).1⟩
  · rintro ⟨hbefore, hfits⟩
    obtain ⟨hstep, hgood⟩ := (h.fits (0 + l.length) l a _).mpr ⟨hfits, rfl⟩
    exact ⟨_, run_snoc_iff.mpr ⟨_, (h.good_iff.mp hbefore).1, hstep⟩, hgood⟩

end Tracks

end checked_run
