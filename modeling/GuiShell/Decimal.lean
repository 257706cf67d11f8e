-- Decimal numbers of a fixed width: the digits of a number, the number of some digits, and the
-- text that pads with zeros.
import Mathlib.Data.List.Induction
import Mathlib.Tactic.Ring

namespace decimal

/-- The last digits of a number, the high one first. -/
def digits : Nat → Nat → List Nat
  | 0, _ => []
  | width + 1, n => digits width (n / 10) ++ [n % 10]

/-- The number that some digits write. -/
def value (ds : List Nat) : Nat := ds.foldl (fun n d => 10 * n + d) 0

@[simp] theorem length_digits (width n : Nat) : (digits width n).length = width := by
  induction width generalizing n with
  | zero => rfl
  | succ width ih => rw [digits, List.length_append, ih, List.length_singleton]

theorem digits_lt {width n d : Nat} (h : d ∈ digits width n) : d < 10 := by
  induction width generalizing n with
  | zero => cases h
  | succ width ih =>
    rw [digits, List.mem_append, List.mem_singleton] at h
    rcases h with h | rfl
    · exact ih h
    · omega

theorem value_snoc (ds : List Nat) (d : Nat) : value (ds ++ [d]) = 10 * value ds + d := by
  rw [value, List.foldl_append]
  rfl

theorem value_digits {width n : Nat} (h : n < 10 ^ width) : value (digits width n) = n := by
  induction width generalizing n with
  | zero =>
    rw [Nat.pow_zero, Nat.lt_one_iff] at h
    rw [h]
    rfl
  | succ width ih =>
    rw [Nat.pow_succ] at h
    rw [digits, value_snoc, ih (by omega)]
    omega

theorem value_lt {ds : List Nat} (h : ∀ d ∈ ds, d < 10) : value ds < 10 ^ ds.length := by
  induction ds using List.reverseRecOn with
  | nil => decide
  | append_singleton ds d ih =>
    have hd := h d (List.mem_append_right _ List.mem_cons_self)
    have hds := ih fun d' hd' => h d' (List.mem_append_left _ hd')
    rw [value_snoc, List.length_append, List.length_singleton, Nat.pow_succ]
    omega

theorem digits_value {ds : List Nat} (h : ∀ d ∈ ds, d < 10) : digits ds.length (value ds) = ds := by
  induction ds using List.reverseRecOn with
  | nil => rfl
  | append_singleton ds d ih =>
    have hd := h d (List.mem_append_right _ List.mem_cons_self)
    have hds := ih fun d' hd' => h d' (List.mem_append_left _ hd')
    rw [value_snoc, List.length_append, List.length_singleton, digits]
    rw [show (10 * value ds + d) / 10 = value ds by omega, hds,
      show (10 * value ds + d) % 10 = d by omega]

theorem digits_zero (width : Nat) : digits width 0 = List.replicate width 0 := by
  induction width with
  | zero => rfl
  | succ width ih => rw [digits, Nat.zero_div, ih, Nat.zero_mod, List.replicate_succ']

/-- The shortest text with zeros before it is the text of a fixed width. -/
theorem replicate_append_toDigits {width n : Nat} (hpos : 0 < width) (h : n < 10 ^ width) :
    List.replicate (width - (Nat.toDigits 10 n).length) '0' ++ Nat.toDigits 10 n =
      (digits width n).map Nat.digitChar := by
  induction width generalizing n with
  | zero => cases hpos
  | succ width ih =>
    rw [digits, List.map_append, List.map_singleton]
    by_cases hsmall : n < 10
    · rw [Nat.toDigits_of_lt_base hsmall, Nat.div_eq_of_lt hsmall, Nat.mod_eq_of_lt hsmall,
        digits_zero, List.map_replicate, List.length_singleton, Nat.add_sub_cancel]
      rfl
    · rw [Nat.pow_succ] at h
      have hwidth : 0 < width := by
        rcases Nat.eq_zero_or_pos width with rfl | hwidth
        · omega
        · exact hwidth
      rw [Nat.toDigits_of_base_le (by decide) (by omega), List.length_append,
        List.length_singleton, Nat.add_sub_add_right, ← List.append_assoc, ih hwidth (by omega)]

end decimal
