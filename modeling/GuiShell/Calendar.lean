-- The Gregorian calendar from the year 0 on. The number of a date counts the days before it,
-- by the lengths of the years and of the months.
import Mathlib.Tactic.IntervalCases

namespace calendar

/-! ## Years and months -/

def IsLeap (year : Nat) : Prop := year % 4 = 0 ∧ (year % 100 ≠ 0 ∨ year % 400 = 0)

instance (year : Nat) : Decidable (IsLeap year) :=
  inferInstanceAs (Decidable (_ ∧ (_ ∨ _)))

/-- The days of a month. A year has the months 1 to 12. -/
def monthLength (year month : Nat) : Nat :=
  match month with
  | 2 => if IsLeap year then 29 else 28
  | 4 | 6 | 9 | 11 => 30
  | _ => 31

/-- The days of the months before a month of a year. -/
def daysBeforeMonth (year : Nat) : Nat → Nat
  | 0 => 0
  | 1 => 0
  | month + 2 => daysBeforeMonth year (month + 1) + monthLength year (month + 1)

/-- The days of the months of a year. -/
def yearLength (year : Nat) : Nat := daysBeforeMonth year 13

def daysBeforeYear : Nat → Nat
  | 0 => 0
  | year + 1 => daysBeforeYear year + yearLength year

theorem daysBeforeMonth_succ (year : Nat) {month : Nat} (h : 1 ≤ month) :
    daysBeforeMonth year (month + 1) = daysBeforeMonth year month + monthLength year month := by
  obtain ⟨month, rfl⟩ := Nat.exists_eq_add_of_le' h
  rfl

theorem yearLength_eq (year : Nat) : yearLength year = if IsLeap year then 366 else 365 := by
  by_cases h : IsLeap year
  · simp [yearLength, daysBeforeMonth, monthLength, h]
  · simp [yearLength, daysBeforeMonth, monthLength, h]

/-- Of the years up to this one, one more is a multiple of `n` when this one is. -/
theorem multiples_succ {n : Nat} (hn : 0 < n) (year : Nat) :
    (year + 1 + (n - 1)) / n = (year + (n - 1)) / n + if year % n = 0 then 1 else 0 := by
  have hsum : year + 1 + (n - 1) = year + n := by omega
  have hyear := Nat.div_add_mod year n
  have hlt := Nat.mod_lt year hn
  rw [hsum, Nat.add_div_right year hn]
  by_cases h : year % n = 0
  · rw [if_pos h, Nat.add_left_inj]
    symm
    apply Nat.div_eq_of_lt_le
    · rw [Nat.mul_comm]
      omega
    · rw [Nat.succ_mul, Nat.mul_comm]
      omega
  · rw [if_neg h]
    symm
    apply Nat.div_eq_of_lt_le
    · rw [Nat.succ_mul, Nat.mul_comm]
      omega
    · rw [Nat.succ_mul, Nat.succ_mul, Nat.mul_comm]
      omega

/-- A leap year every four years, but not every hundred, but every four hundred. -/
theorem daysBeforeYear_eq (year : Nat) : daysBeforeYear year + (year + 99) / 100 =
    365 * year + (year + 3) / 4 + (year + 399) / 400 := by
  induction year with
  | zero => rfl
  | succ year ih =>
    have h4 := @multiples_succ 4 (by decide) year
    have h100 := @multiples_succ 100 (by decide) year
    have h400 := @multiples_succ 400 (by decide) year
    rw [daysBeforeYear, yearLength_eq]
    dsimp only [Nat.reduceSub] at h4 h100 h400
    rw [h4, h100, h400]
    clear h4 h100 h400
    unfold IsLeap
    generalize (year + 3) / 4 = fours at ih ⊢
    generalize (year + 99) / 100 = hundreds at ih ⊢
    generalize (year + 399) / 400 = fourHundreds at ih ⊢
    by_cases h4 : year % 4 = 0
    · by_cases h100 : year % 100 = 0
      · by_cases h400 : year % 400 = 0
        · simp only [h4, h100, h400, ne_eq, not_true_eq_false, or_true, and_true, if_true]
          omega
        · simp only [h4, h100, h400, ne_eq, not_true_eq_false, or_self, and_false, if_true, if_false]
          omega
      · have h400 : year % 400 ≠ 0 := by omega
        simp only [h4, h100, h400, ne_eq, not_false_eq_true, true_or, and_true, if_true, if_false]
        omega
    · have h100 : year % 100 ≠ 0 := by omega
      have h400 : year % 400 ≠ 0 := by omega
      simp only [h4, h100, h400, false_and, if_false]
      omega

/-- The days before a month. From March on, five months have 153 days, in leap years too. -/
theorem daysBeforeMonth_eq (year : Nat) {month : Nat} (hpos : 1 ≤ month) (hle : month ≤ 12) :
    daysBeforeMonth year month = if month ≤ 2 then 31 * (month - 1)
      else (153 * (month - 3) + 2) / 5 + if IsLeap year then 60 else 59 := by
  by_cases h : IsLeap year
  · interval_cases month <;> simp [daysBeforeMonth, monthLength, h]
  · interval_cases month <;> simp [daysBeforeMonth, monthLength, h]

theorem monthLength_february (year : Nat) :
    monthLength year 2 = if IsLeap year then 29 else 28 := rfl

/-- Every month has a first day. -/
theorem monthLength_pos (year month : Nat) : 1 ≤ monthLength year month := by
  unfold monthLength
  split
  · split <;> omega
  · omega
  · omega
  · omega
  · omega
  · omega

theorem monthLength_le (year month : Nat) : monthLength year month ≤ 31 := by
  unfold monthLength
  split
  · split <;> omega
  · omega
  · omega
  · omega
  · omega
  · omega

theorem daysBeforeYear_mono {a b : Nat} (h : a ≤ b) : daysBeforeYear a ≤ daysBeforeYear b := by
  induction b, h using Nat.le_induction with
  | base => exact Nat.le_refl _
  | succ b _ ih => exact Nat.le_trans ih (Nat.le_add_right _ _)

/-! ## Dates -/

@[ext] structure Date where
  year : Nat
  month : Nat
  day : Nat
  month_pos : 1 ≤ month
  month_le : month ≤ 12
  day_pos : 1 ≤ day
  day_le : day ≤ monthLength year month

namespace Date

/-- The days before a date. -/
def number (d : Date) : Nat :=
  daysBeforeYear d.year + daysBeforeMonth d.year d.month + (d.day - 1)

def first : Date := ⟨0, 1, 1, by decide, by decide, by decide, by decide⟩

/-- The day after a date. -/
def next (d : Date) : Date :=
  if hday : d.day < monthLength d.year d.month then
    ⟨d.year, d.month, d.day + 1, d.month_pos, d.month_le, Nat.le_add_left 1 d.day, hday⟩
  else if hmonth : d.month < 12 then
    ⟨d.year, d.month + 1, 1, Nat.le_add_left 1 d.month, hmonth, Nat.le_refl 1,
      monthLength_pos _ _⟩
  else ⟨d.year + 1, 1, 1, by decide, by decide, Nat.le_refl 1, monthLength_pos _ _⟩

theorem number_next (d : Date) : d.next.number = d.number + 1 := by
  have hpos := d.day_pos
  have hle := d.day_le
  unfold next
  split
  · unfold number
    dsimp only
    omega
  · have hlast : d.day = monthLength d.year d.month := by omega
    have hmonths := daysBeforeMonth_succ d.year d.month_pos
    split
    · unfold number
      dsimp only
      omega
    · have hmonth : d.month = 12 := by
        have := d.month_le
        omega
      rw [hmonth] at hmonths hlast
      unfold number
      dsimp only
      rw [hmonth, daysBeforeYear, yearLength, hmonths, daysBeforeMonth]
      omega

/-- Every number is that of a date. -/
theorem exists_number (n : Nat) : ∃ d : Date, d.number = n := by
  induction n with
  | zero => exact ⟨first, rfl⟩
  | succ n ih =>
    obtain ⟨d, rfl⟩ := ih
    exact ⟨d.next, d.number_next⟩

theorem year_lt_of_number_lt {d : Date} {year : Nat} (h : d.number < daysBeforeYear year) :
    d.year < year := by
  by_contra hge
  have hmono := daysBeforeYear_mono (Nat.le_of_not_lt hge)
  unfold number at h
  omega

end Date

end calendar
