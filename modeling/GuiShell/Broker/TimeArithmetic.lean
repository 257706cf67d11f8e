-- The calendar arithmetic of the broker on machine integers (protocol.rs). Every operation is
-- checked: a result outside of its type is no result, and so is a quotient that is not the floor.
-- On the years 0000 to 9999 no check fails.
import GuiShell.Broker.TimeGrammar

open calendar

namespace protocol

/-! ## Checked operations -/

def i32 (n : Int) : Option Int := if -2147483648 ≤ n ∧ n ≤ 2147483647 then some n else none

def i64 (n : Int) : Option Int :=
  if -9223372036854775808 ≤ n ∧ n ≤ 9223372036854775807 then some n else none

def u32 (n : Int) : Option Nat := if 0 ≤ n ∧ n ≤ 4294967295 then some n.toNat else none

/-- A quotient, when it is the floor of the exact one. -/
def floored (quotient n d : Int) : Option Int := if quotient = n / d then some quotient else none

/-- The quotient and the remainder of the machine round towards zero. -/
def quotient (n d : Int) : Option Int := floored (n.tdiv d) n d

def remainder (n d : Int) : Option Int := if n.tmod d = n % d then some (n.tmod d) else none

section bind

variable {α β : Type} {f : Int → Option α} {n d q : Int}

theorem some_bind (a : β) (g : β → Option α) : (some a >>= g) = g a := rfl

theorem i32_bind (h : -2147483648 ≤ n ∧ n ≤ 2147483647) : (i32 n >>= f) = f n := by
  rw [i32, if_pos h]
  rfl

theorem i64_bind (h : -9223372036854775808 ≤ n ∧ n ≤ 9223372036854775807) :
    (i64 n >>= f) = f n := by
  rw [i64, if_pos h]
  rfl

theorem u32_bind {f : Nat → Option α} (h : 0 ≤ n ∧ n ≤ 4294967295) :
    (u32 n >>= f) = f n.toNat := by
  rw [u32, if_pos h]
  rfl

theorem floored_bind (h : q = n / d) : (floored q n d >>= f) = f (n / d) := by
  rw [floored, if_pos h, h]
  rfl

theorem quotient_bind (h : 0 ≤ n) : (quotient n d >>= f) = f (n / d) :=
  floored_bind (Int.tdiv_eq_ediv_of_nonneg h)

theorem remainder_bind (h : 0 ≤ n) : (remainder n d >>= f) = f (n % d) := by
  rw [remainder, Int.tmod_eq_emod_of_nonneg h, if_pos rfl]
  rfl

end bind

/-! ## The functions of the code -/

def days_from_civil.checked (year : Int) (month day : Nat) : Option Int := do
  let year ← i32 (year - if month ≤ 2 then 1 else 0)
  let dividend ← i32 (if 0 ≤ year then year else year - 399)
  let era ← floored (dividend.tdiv 400) year 400
  let era_years ← i32 (era * 400)
  let year_of_era ← i32 (year - era_years)
  let month_i32 ← i32 month
  let month_prime ← i32 (month_i32 + if 2 < month then -3 else 9)
  let fifths ← i32 (153 * month_prime)
  let fifths ← i32 (fifths + 2)
  let month_days ← quotient fifths 5
  let day ← i32 day
  let month_days ← i32 (month_days + day)
  let day_of_year ← i32 (month_days - 1)
  let year_days ← i32 (year_of_era * 365)
  let fours ← quotient year_of_era 4
  let year_days ← i32 (year_days + fours)
  let hundreds ← quotient year_of_era 100
  let year_days ← i32 (year_days - hundreds)
  let day_of_era ← i32 (year_days + day_of_year)
  let era_days ← i64 (era * 146097)
  let days ← i64 (era_days + day_of_era)
  i64 (days - 719468)

def civil_from_days.checked (days : Int) : Option (Int × Nat × Nat) := do
  let days ← i64 (days + 719468)
  let dividend ← i64 (if 0 ≤ days then days else days - 146096)
  let era ← floored (dividend.tdiv 146097) days 146097
  let era_days ← i64 (era * 146097)
  let day_of_era ← i64 (days - era_days)
  let fours ← quotient day_of_era 1460
  let year_days ← i64 (day_of_era - fours)
  let hundreds ← quotient day_of_era 36524
  let year_days ← i64 (year_days + hundreds)
  let eras ← quotient day_of_era 146096
  let year_days ← i64 (year_days - eras)
  let year_of_era ← quotient year_days 365
  let year_of_era_i32 ← i32 year_of_era
  let era_i32 ← i32 era
  let era_years ← i32 (era_i32 * 400)
  let year ← i32 (year_of_era_i32 + era_years)
  let year_days ← i64 (365 * year_of_era)
  let fours ← quotient year_of_era 4
  let year_days ← i64 (year_days + fours)
  let hundreds ← quotient year_of_era 100
  let year_days ← i64 (year_days - hundreds)
  let day_of_year ← i64 (day_of_era - year_days)
  let fives ← i64 (5 * day_of_year)
  let fives ← i64 (fives + 2)
  let month_prime ← quotient fives 153
  let fifths ← i64 (153 * month_prime)
  let fifths ← i64 (fifths + 2)
  let month_days ← quotient fifths 5
  let day ← i64 (day_of_year - month_days)
  let day ← i64 (day + 1)
  let month ← i64 (month_prime + if month_prime < 10 then 3 else -9)
  let year ← i32 (year + if month ≤ 2 then 1 else 0)
  let month ← u32 month
  let day ← u32 day
  some (year, month, day)

/-- `div_euclid` and `rem_euclid` are the floor and what is left. -/
def epoch_seconds_to_rfc3339.checked (epoch_seconds : Int) : Option String := do
  let days ← i64 (epoch_seconds / 86400)
  let seconds_of_day ← i64 (epoch_seconds % 86400)
  let (year, month, day) ← civil_from_days.checked days
  let hour ← quotient seconds_of_day 3600
  let second_of_hour ← remainder seconds_of_day 3600
  let minute ← quotient second_of_hour 60
  let second ← remainder seconds_of_day 60
  some (pad 4 year ++ "-" ++ pad 2 month ++ "-" ++ pad 2 day ++ "T" ++ pad 2 hour ++ ":" ++
    pad 2 minute ++ ":" ++ pad 2 second ++ "Z")

/-- The seconds that the parser adds up, from the numbers that it has read. -/
def local_epoch.checked (year : Int) (month day hour minute second : Nat)
    (sign : Int) (offset_hour offset_minute : Nat) : Option Int := do
  let offset_hour ← i64 (offset_hour * 3600)
  let offset_minute ← i64 (offset_minute * 60)
  let offset ← i64 (offset_hour + offset_minute)
  let offset_seconds ← i64 (sign * offset)
  let days ← days_from_civil.checked year month day
  let days ← i64 (days * 86400)
  let hours ← i64 (hour * 3600)
  let epoch ← i64 (days + hours)
  let minutes ← i64 (minute * 60)
  let epoch ← i64 (epoch + minutes)
  let epoch ← i64 (epoch + second)
  i64 (epoch - offset_seconds)

/-! ## No check fails -/

theorem marchYear_le {d : Date} (h : d.year ≤ 9999) : marchYear d ≤ 9999 := by
  unfold marchYear
  split <;> omega

theorem era_quotient {y : Int} : (if 0 ≤ y then y else y - 399).tdiv 400 = y / 400 :=
  tdiv_floor (by omega) (by omega)

theorem days_from_civil.checked_eq (d : Date) (h : d.year ≤ 9999) :
    days_from_civil.checked d.year d.month d.day =
      some (days_from_civil d.year d.month d.day) := by
  have hle := marchYear_le h
  have hge := marchYear_range d
  have hmonth := marchMonth_range d
  have hmonth_le := d.month_le
  have hday := (day_range d).1
  have hdays := epochDay_eq d
  have hyear : (d.year : Int) - (if d.month ≤ 2 then 1 else 0) = marchYear d := rfl
  have hprime : (d.month : Int) + (if 2 < d.month then -3 else 9) = marchMonth d := rfl
  have hdividend : -400 ≤ (if 0 ≤ marchYear d then marchYear d else marchYear d - 399) ∧
      (if 0 ≤ marchYear d then marchYear d else marchYear d - 399) ≤ 9999 := by
    split <;> omega
  have hyoe : marchYear d - marchYear d / 400 * 400 = marchYear d % 400 := by omega
  unfold marchDay at hdays
  rw [days_from_civil_eq]
  generalize epochDay d = days at hdays ⊢
  unfold days_from_civil.checked
  rw [hyear, i32_bind (by omega), i32_bind (by omega), floored_bind era_quotient]
  generalize marchYear d = year at *
  rw [i32_bind (by omega), i32_bind (by omega), i32_bind (by omega), hprime, hyoe]
  generalize marchMonth d = month_prime at *
  rw [i32_bind (by omega), i32_bind (by omega), i32_bind (by omega), quotient_bind (by omega),
    i32_bind (by omega), i32_bind (by omega), i32_bind (by omega), i32_bind (by omega),
    quotient_bind (by omega), i32_bind (by omega), quotient_bind (by omega), i32_bind (by omega),
    i32_bind (by omega), i64_bind (by omega), i64_bind (by omega), i64, if_pos (by omega),
    Option.some.injEq]
  omega

theorem epochDay_range {d : Date} (h : d.year ≤ 9999) :
    -719528 ≤ epochDay d ∧ epochDay d ≤ 2932957 := by
  have hle := marchYear_le h
  have hrange := marchDay_range d
  have hdays := epochDay_eq d
  refine ⟨?_, by omega⟩
  unfold epochDay
  rw [epoch_eq]
  omega

theorem civil_from_days.checked_eq (d : Date) (h : d.year ≤ 9999) :
    civil_from_days.checked (epochDay d) = some (civil_from_days (epochDay d)) := by
  have hdays := epochDay_range h
  have hle := marchYear_le h
  have hge := marchYear_range d
  have hera := era_eq d
  have hdoe := day_of_era_range d
  have hdoy := day_of_year_eq d
  have hday := marchDay_range d
  have hmonth := marchMonth_range d
  have hyoe : 0 ≤ marchYear d % 400 ∧ marchYear d % 400 < 400 := by omega
  have hera_range : -1 ≤ marchYear d / 400 ∧ marchYear d / 400 ≤ 24 := by omega
  have hpos := d.month_pos
  have hmonth_le := d.month_le
  have hday_pos := d.day_pos
  have hday_le := (day_range d).1
  have hyear := year_eq d
  have hyear_le : (d.year : Int) ≤ 9999 := by omega
  rw [civil_from_days_eq]
  unfold civil_from_days.checked
  rw [i64_bind (by omega), i64_bind (by split <;> omega),
    floored_bind (tdiv_floor (by omega) (by omega)), hera]
  clear hle hge hera
  generalize hday_of_era : epochDay d + 719468 - marchYear d / 400 * 146097 = day_of_era at *
  rw [i64_bind (by omega), hday_of_era, i64_bind (by omega), quotient_bind hdoe.1,
    i64_bind (by omega), quotient_bind hdoe.1, i64_bind (by omega), quotient_bind hdoe.1,
    i64_bind (by omega), quotient_bind (without_leap_days_nonneg hdoe.1),
    year_of_era_of_day d hday_of_era]
  clear hday_of_era
  generalize marchYear d % 400 = year_of_era at *
  generalize marchYear d / 400 = era at *
  rw [i32_bind (by omega), i32_bind (by omega), i32_bind (by omega), i32_bind (by omega),
    i64_bind (by omega), quotient_bind hyoe.1, i64_bind (by omega), quotient_bind hyoe.1,
    i64_bind (by omega), hdoy, i64_bind (by omega), i64_bind (by omega), i64_bind (by omega),
    quotient_bind (by omega), marchMonth_of_day, i64_bind (by omega), i64_bind (by omega),
    quotient_bind (by omega)]
  have hdom := day_of_month_eq d
  have hmonth_eq := month_eq d
  rw [i64_bind (by omega), i64_bind (by omega), hdom, i64_bind (by omega), hmonth_eq,
    i32_bind (by omega), hyear, u32_bind (by omega), u32_bind (by omega)]
  rfl

end protocol
