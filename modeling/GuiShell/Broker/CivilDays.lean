-- The arithmetic of the broker's calendar (protocol.rs) against the calendar itself. The code
-- counts from the first of March, so that the leap day is the last day of its year.
import GuiShell.Broker.Time
import GuiShell.Calendar
import Mathlib.Tactic.Ring

open calendar

namespace protocol

/-- The days from the first day of 1970 to a date. -/
def epochDay (d : Date) : Int := d.number - daysBeforeYear 1970

theorem epoch_eq : daysBeforeYear 1970 = 719528 := by
  have := daysBeforeYear_eq 1970
  omega

/-- A dividend that is lowered below zero makes the truncated quotient the floor. -/
theorem tdiv_floor {n d k : Int} (hd : 0 < d) (hk : k = d - 1) :
    (if 0 ≤ n then n else n - k).tdiv d = n / d := by
  by_cases hn : 0 ≤ n
  · rw [if_pos hn, Int.tdiv_eq_ediv_of_nonneg hn]
  · have hmod := Int.emod_add_mul_ediv n d
    have hpos := Int.emod_nonneg n (Int.ne_of_gt hd)
    have hlt := Int.emod_lt_of_pos n hd
    have hneg : n - k = -(d - 1 - n) := by omega
    have hquot : (d - 1 - n) / d = -(n / d) := by
      rw [Int.ediv_eq_iff_of_pos hd, Int.neg_mul, Int.mul_comm]
      omega
    rw [if_neg hn, hneg, Int.neg_tdiv, Int.tdiv_eq_ediv_of_nonneg (by omega), hquot, Int.neg_neg]

theorem is_leap_year_iff (year : Nat) : is_leap_year year = true ↔ IsLeap year := by
  unfold is_leap_year IsLeap
  rw [Int.tmod_eq_emod_of_nonneg (Int.natCast_nonneg _),
    Int.tmod_eq_emod_of_nonneg (Int.natCast_nonneg _),
    Int.tmod_eq_emod_of_nonneg (Int.natCast_nonneg _)]
  simp only [Bool.or_eq_true, Bool.and_eq_true, decide_eq_true_eq]
  omega

theorem days_in_month_eq (year : Nat) {month : Nat} (hpos : 1 ≤ month) (hle : month ≤ 12) :
    days_in_month year month = monthLength year month := by
  interval_cases month <;> simp [days_in_month, monthLength, is_leap_year_iff]

/-! ## The year that begins in March -/

/-- The year whose first of March is the last one up to a date. -/
def marchYear (d : Date) : Int := d.year - if d.month ≤ 2 then 1 else 0

/-- The month of that year, from 0. -/
def marchMonth (d : Date) : Int := d.month + if 2 < d.month then -3 else 9

/-- The day of that year, from 0. -/
def marchDay (d : Date) : Int := (153 * marchMonth d + 2) / 5 + d.day - 1

theorem marchMonth_range (d : Date) : 0 ≤ marchMonth d ∧ marchMonth d ≤ 11 := by
  have hpos := d.month_pos
  have hle := d.month_le
  unfold marchMonth
  split <;> omega

theorem marchYear_range (d : Date) : -1 ≤ marchYear d := by
  unfold marchYear
  split <;> omega

/-- The leap day and the last day of every month. -/
theorem day_range (d : Date) : d.day ≤ 31 ∧ (d.month = 2 → d.day ≤ 29) ∧
    (d.month = 2 → d.day = 29 → IsLeap d.year) ∧
    (d.month = 4 ∨ d.month = 6 ∨ d.month = 9 ∨ d.month = 11 → d.day ≤ 30) := by
  have hle := d.day_le
  by_cases hm : d.month = 2
  · rw [hm, monthLength_february] at hle
    by_cases hleap : IsLeap d.year
    · rw [if_pos hleap] at hle
      exact ⟨by omega, fun _ => hle, fun _ _ => hleap, by omega⟩
    · rw [if_neg hleap] at hle
      exact ⟨by omega, by omega, by omega, by omega⟩
  · refine ⟨?_, fun h => absurd h hm, fun h => absurd h hm, ?_⟩
    · exact Nat.le_trans hle (monthLength_le _ _)
    · rintro (h | h | h | h) <;> rw [h] at hle <;> exact hle

/-- The days before a date, by the year that begins in March. -/
theorem epochDay_eq (d : Date) : epochDay d + 719468 = 365 * marchYear d + marchYear d / 4 -
    marchYear d / 100 + marchYear d / 400 + marchDay d := by
  have hyears := daysBeforeYear_eq d.year
  have hmonths := daysBeforeMonth_eq d.year d.month_pos d.month_le
  have hday := d.day_pos
  have hpos := d.month_pos
  unfold epochDay Date.number marchDay marchMonth marchYear
  rw [epoch_eq]
  by_cases hm : d.month ≤ 2
  · rw [if_pos hm] at hmonths ⊢
    rw [if_neg (by omega)]
    omega
  · rw [if_neg hm] at hmonths ⊢
    rw [if_pos (by omega)]
    by_cases hleap : IsLeap d.year
    · rw [if_pos hleap] at hmonths
      unfold IsLeap at hleap
      omega
    · rw [if_neg hleap] at hmonths
      unfold IsLeap at hleap
      omega

theorem marchDay_range (d : Date) : 0 ≤ marchDay d ∧ marchDay d ≤ 365 := by
  have hday := d.day_pos
  have hlen := day_range d
  have hpos := d.month_pos
  have hle := d.month_le
  unfold marchDay marchMonth
  split <;> omega

/-- Only a leap year has the day 365. It is the 29th of February after that March. -/
theorem marchDay_leap {d : Date} (h : marchDay d = 365) : (marchYear d + 1) % 4 = 0 ∧
    ((marchYear d + 1) % 100 ≠ 0 ∨ (marchYear d + 1) % 400 = 0) := by
  have hday := d.day_pos
  obtain ⟨h31, h29, hleap, -⟩ := day_range d
  have hle := d.month_le
  have hpos := d.month_pos
  unfold marchDay marchMonth at h
  unfold marchYear
  have hm : d.month = 2 := by
    split at h <;> omega
  have := hleap hm (by rw [hm] at h; split at h <;> omega)
  unfold IsLeap at this
  rw [if_pos (by omega)]
  omega

theorem marchMonth_of_day (d : Date) : (5 * marchDay d + 2) / 153 = marchMonth d := by
  have hday := d.day_pos
  have hlen := day_range d
  have hpos := d.month_pos
  have hle := d.month_le
  unfold marchDay marchMonth
  generalize d.month = month at hpos hle hlen ⊢
  interval_cases month <;> omega

/-! ## Days from dates and dates from days -/

/-- The days that the code counts are those of the calendar. -/
theorem days_from_civil_eq (d : Date) : days_from_civil d.year d.month d.day = epochDay d := by
  have hday := epochDay_eq d
  have hpos := d.month_pos
  unfold marchDay marchMonth marchYear at hday
  unfold days_from_civil
  dsimp only
  rw [tdiv_floor (by omega) (by omega)]
  by_cases hm : d.month ≤ 2
  · rw [if_pos hm, if_neg (by omega)] at hday ⊢
    rw [Int.tdiv_eq_ediv_of_nonneg (by omega), Int.tdiv_eq_ediv_of_nonneg (by omega),
      Int.tdiv_eq_ediv_of_nonneg (by omega)]
    omega
  · rw [if_neg hm, if_pos (by omega)] at hday ⊢
    rw [Int.tdiv_eq_ediv_of_nonneg (by omega), Int.tdiv_eq_ediv_of_nonneg (by omega),
      Int.tdiv_eq_ediv_of_nonneg (by omega)]
    omega

/-- The leap days are taken out of the day of an era of 400 years. -/
theorem year_of_era_eq {c q r day : Int} (hc : 0 ≤ c ∧ c ≤ 3) (hq : 0 ≤ q ∧ q ≤ 24)
    (hr : 0 ≤ r ∧ r ≤ 3) (hday : 0 ≤ day ∧ day ≤ 365)
    (hleap : day = 365 → r = 3 ∧ (q ≠ 24 ∨ c = 3)) {day_of_era : Int}
    (h : day_of_era = 36524 * c + 1461 * q + 365 * r + day) :
    (day_of_era - day_of_era / 1460 + day_of_era / 36524 - day_of_era / 146096) / 365 =
      100 * c + 4 * q + r := by
  by_cases hlast : day_of_era = 146096
  · subst hlast
    omega
  · have hcentury : day_of_era / 36524 = c := by omega
    have hera : day_of_era / 146096 = 0 := by omega
    rw [hcentury, hera]
    omega

theorem year_of_era_parts (y : Int) :
    100 * (y % 400 / 100) + 4 * (y % 100 / 4) + y % 4 = y % 400 := by
  omega

theorem without_leap_days_nonneg {n : Int} (h : 0 ≤ n) :
    0 ≤ n - n / 1460 + n / 36524 - n / 146096 := by
  omega

/-- The days of the years of an era, by its centuries, its fours of years and its years. -/
theorem era_days (y : Int) : 365 * y + y / 4 - y / 100 + y / 400 - y / 400 * 146097 =
    36524 * (y % 400 / 100) + 1461 * (y % 100 / 4) + 365 * (y % 4) := by
  have h4 : y / 4 = 100 * (y / 400) + 25 * (y % 400 / 100) + y % 100 / 4 := by omega
  have h100 : y / 100 = 4 * (y / 400) + y % 400 / 100 := by omega
  have hy : y = 400 * (y / 400) + 100 * (y % 400 / 100) + 4 * (y % 100 / 4) + y % 4 := by omega
  rw [h4, h100]
  generalize y % 4 = r at *
  generalize y % 100 / 4 = q at *
  generalize y % 400 / 100 = c at *
  generalize y / 400 = e at *
  omega

theorem day_of_era_eq (d : Date) : epochDay d + 719468 - marchYear d / 400 * 146097 =
    36524 * (marchYear d % 400 / 100) + 1461 * (marchYear d % 100 / 4) +
      365 * (marchYear d % 4) + marchDay d := by
  rw [epochDay_eq, ← era_days]
  ring

theorem marchDay_last {d : Date} (h : marchDay d = 365) : marchYear d % 4 = 3 ∧
    (marchYear d % 100 / 4 ≠ 24 ∨ marchYear d % 400 / 100 = 3) := by
  have := marchDay_leap h
  omega

theorem day_of_era_range (d : Date) : 0 ≤ epochDay d + 719468 - marchYear d / 400 * 146097 ∧
    epochDay d + 719468 - marchYear d / 400 * 146097 ≤ 146096 := by
  have hrange := marchDay_range d
  have hlast := @marchDay_last d
  rw [day_of_era_eq]
  generalize hr : marchYear d % 4 = r at *
  generalize hq : marchYear d % 100 / 4 = q at *
  generalize hc : marchYear d % 400 / 100 = c at *
  omega

theorem era_eq (d : Date) : (epochDay d + 719468) / 146097 = marchYear d / 400 := by
  have hrange := day_of_era_range d
  rw [Int.ediv_eq_iff_of_pos (by omega)]
  generalize marchYear d / 400 * 146097 = era at *
  omega

theorem year_of_era_of_day (d : Date) {day_of_era : Int}
    (h : epochDay d + 719468 - marchYear d / 400 * 146097 = day_of_era) :
    (day_of_era - day_of_era / 1460 + day_of_era / 36524 - day_of_era / 146096) / 365 =
      marchYear d % 400 := by
  have hday := day_of_era_eq d
  rw [h] at hday
  rw [← year_of_era_parts (marchYear d)]
  exact year_of_era_eq (by omega) (by omega) (by omega) (marchDay_range d) marchDay_last hday

/-- The day of the year is what the days of the years before it leave. -/
theorem day_of_year_eq (d : Date) : epochDay d + 719468 - marchYear d / 400 * 146097 -
    (365 * (marchYear d % 400) + marchYear d % 400 / 4 - marchYear d % 400 / 100) =
      marchDay d := by
  have h4 : marchYear d % 400 / 4 = 25 * (marchYear d % 400 / 100) + marchYear d % 100 / 4 := by
    omega
  have hyear := year_of_era_parts (marchYear d)
  rw [day_of_era_eq, h4]
  generalize marchYear d % 400 / 100 = c at *
  generalize marchYear d % 100 / 4 = q at *
  generalize marchYear d % 4 = r at *
  omega

theorem day_of_month_eq (d : Date) : marchDay d - (153 * marchMonth d + 2) / 5 + 1 = d.day := by
  unfold marchDay
  omega

theorem month_eq (d : Date) : (marchMonth d + if marchMonth d < 10 then 3 else -9) = d.month := by
  have hpos := d.month_pos
  have hle := d.month_le
  unfold marchMonth
  split <;> split <;> omega

theorem year_eq (d : Date) :
    marchYear d % 400 + marchYear d / 400 * 400 + (if (d.month : Int) ≤ 2 then 1 else 0) =
      d.year := by
  rw [Int.mul_comm, Int.emod_add_mul_ediv]
  unfold marchYear
  split <;> split <;> omega

/-- The date of a day of the calendar is the one that the code finds. -/
theorem civil_from_days_eq (d : Date) :
    civil_from_days (epochDay d) = ((d.year : Int), d.month, d.day) := by
  have hdoy := day_of_year_eq d
  have hrange := day_of_era_range d
  have hday := marchDay_range d
  have hmonth := marchMonth_range d
  have hyoe := Int.emod_nonneg (marchYear d) (show (400 : Int) ≠ 0 by decide)
  unfold civil_from_days
  dsimp only
  rw [tdiv_floor (by omega) (by omega), era_eq]
  generalize hdoe : epochDay d + 719468 - marchYear d / 400 * 146097 = day_of_era at *
  rw [Int.tdiv_eq_ediv_of_nonneg hrange.1, Int.tdiv_eq_ediv_of_nonneg hrange.1,
    Int.tdiv_eq_ediv_of_nonneg hrange.1,
    Int.tdiv_eq_ediv_of_nonneg (without_leap_days_nonneg hrange.1), year_of_era_of_day d hdoe,
    Int.tdiv_eq_ediv_of_nonneg hyoe, Int.tdiv_eq_ediv_of_nonneg hyoe, hdoy,
    Int.tdiv_eq_ediv_of_nonneg (by omega), marchMonth_of_day,
    Int.tdiv_eq_ediv_of_nonneg (by omega), day_of_month_eq, month_eq, year_eq,
    Int.toNat_natCast, Int.toNat_natCast]

end protocol
