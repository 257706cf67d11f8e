-- The times of the broker's requests (protocol.rs): RFC 3339 texts, and the seconds since
-- the epoch that they name.
import GuiShell.Bytes

namespace protocol

/-! ## The calendar -/

def is_leap_year (year : Int) : Bool :=
  (year.tmod 4 = 0 && year.tmod 100 ≠ 0) || year.tmod 400 = 0

def days_in_month (year : Int) (month : Nat) : Nat :=
  match month with
  | 1 | 3 | 5 | 7 | 8 | 10 | 12 => 31
  | 4 | 6 | 9 | 11 => 30
  | 2 => if is_leap_year year then 29 else 28
  | _ => 0

def days_from_civil (year : Int) (month day : Nat) : Int :=
  let year := year - if month ≤ 2 then 1 else 0
  let era := (if 0 ≤ year then year else year - 399).tdiv 400
  let year_of_era := year - era * 400
  let month_prime : Int := month + if 2 < month then -3 else 9
  let day_of_year := (153 * month_prime + 2).tdiv 5 + day - 1
  let day_of_era := year_of_era * 365 + year_of_era.tdiv 4 - year_of_era.tdiv 100 + day_of_year
  era * 146097 + day_of_era - 719468

/-- The casts to `u32` keep the month and the day, which are positive. -/
def civil_from_days (days : Int) : Int × Nat × Nat :=
  let days := days + 719468
  let era := (if 0 ≤ days then days else days - 146096).tdiv 146097
  let day_of_era := days - era * 146097
  let year_of_era := (day_of_era - day_of_era.tdiv 1460 + day_of_era.tdiv 36524 -
    day_of_era.tdiv 146096).tdiv 365
  let year := year_of_era + era * 400
  let day_of_year := day_of_era - (365 * year_of_era + year_of_era.tdiv 4 - year_of_era.tdiv 100)
  let month_prime := (5 * day_of_year + 2).tdiv 153
  let day := day_of_year - (153 * month_prime + 2).tdiv 5 + 1
  let month := month_prime + if month_prime < 10 then 3 else -9
  let year := year + if month ≤ 2 then 1 else 0
  (year, month.toNat, day.toNat)

/-! ## The texts -/

/-- `parse` of a `u32`: digits, with a plus sign before them or without. -/
def parse_u32 (l : Bytes) : Option Nat :=
  let ds := match l with
    | 43 :: rest => rest
    | l => l
  if ds ≠ [] ∧ ds.all (fun b => 48 ≤ b ∧ b ≤ 57) then
    some (ds.foldl (fun n b => 10 * n + (b.toNat - 48)) 0)
  else none

/-- The number between two places of a text. Where a place cuts a character, there is a byte that
is no digit, so that `get` and the bytes give the same. -/
def parse_digits (value : Bytes) (start stop : Nat) : Option Nat :=
  parse_u32 ((value.drop start).take (stop - start))

/-- The offset from UTC in seconds, after the 19 bytes of date and time. -/
def parse_offset (date_time : Bytes) : Option Int :=
  if date_time.length = 20 then
    if date_time[19]? = some 90 ∨ date_time[19]? = some 122 then some 0 else none
  else do
    let sign ← if date_time[19]? = some 43 then some (1 : Int)
      else if date_time[19]? = some 45 then some (-1 : Int) else none
    if date_time[22]? ≠ some 58 then none
    else
      let offset_hour ← parse_digits date_time 20 22
      let offset_minute ← parse_digits date_time 23 25
      if 23 < offset_hour ∨ 59 < offset_minute then none
      else some (sign * (offset_hour * 3600 + offset_minute * 60))

/-- The marks between the numbers stand where they must. -/
def hasMarks (date_time : Bytes) : Bool :=
  (date_time.length = 20 || date_time.length = 25) && date_time[4]? = some 45 &&
    date_time[7]? = some 45 && (date_time[10]? = some 84 || date_time[10]? = some 116) &&
    date_time[13]? = some 58 && date_time[16]? = some 58

def parse_issued_at_epoch_seconds (value : String) : Option Int :=
  let date_time := utf8.encode value
  if !hasMarks date_time then none
  else do
    let year ← parse_digits date_time 0 4
    let month ← parse_digits date_time 5 7
    let day ← parse_digits date_time 8 10
    let hour ← parse_digits date_time 11 13
    let minute ← parse_digits date_time 14 16
    let second ← parse_digits date_time 17 19
    if month < 1 ∨ 12 < month ∨ day = 0 ∨ days_in_month year month < day ∨ 23 < hour ∨
        59 < minute ∨ 59 < second then none
    else
      let offset_seconds ← parse_offset date_time
      some (days_from_civil year month day * 86400 + hour * 3600 + minute * 60 + second -
        offset_seconds)

/-- The format of a number with zeros up to a width, after its sign. -/
def pad (width : Nat) (n : Int) : String :=
  let sign := if n < 0 then ['-'] else []
  let digits := Nat.toDigits 10 n.natAbs
  .ofList (sign ++ List.replicate (width - sign.length - digits.length) '0' ++ digits)

def epoch_seconds_to_rfc3339 (epoch_seconds : Int) : String :=
  let days := epoch_seconds / 86400
  let seconds_of_day := epoch_seconds % 86400
  let (year, month, day) := civil_from_days days
  let hour := seconds_of_day.tdiv 3600
  let minute := (seconds_of_day.tmod 3600).tdiv 60
  let second := seconds_of_day.tmod 60
  pad 4 year ++ "-" ++ pad 2 month ++ "-" ++ pad 2 day ++ "T" ++ pad 2 hour ++ ":" ++
    pad 2 minute ++ ":" ++ pad 2 second ++ "Z"

example : parse_issued_at_epoch_seconds "2026-06-01T00:00:30Z" = some 1780272030 := by
  decide +kernel

example : epoch_seconds_to_rfc3339 1780272030 = "2026-06-01T00:00:30Z" := by
  decide +kernel

end protocol
