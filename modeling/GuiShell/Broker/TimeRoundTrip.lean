-- The times that the broker writes (protocol.rs) are those that it reads. Between the years 0000
-- and 9999 the code goes from days to dates and back without a loss and without an overflow.
import GuiShell.Broker.TimeArithmetic

open calendar

namespace protocol

/-! ## The texts that are written -/

theorem encode_digit : ∀ d < 10, String.utf8EncodeChar (Nat.digitChar d) = [UInt8.ofNat (48 + d)] := by
  decide

/-- A number that fits its width is written in its digits. -/
theorem encode_pad {width n : Nat} (hpos : 0 < width) (h : n < 10 ^ width) :
    utf8.encode (pad width n) = digitBytes width n := by
  have hsign : ¬ (n : Int) < 0 := by omega
  unfold pad digitBytes utf8.encode
  dsimp only
  rw [if_neg hsign, List.nil_append, List.length_nil, Nat.sub_zero, Int.natAbs_natCast,
    decimal.replicate_append_toDigits hpos h, String.toList_ofList, List.flatMap_map,
    List.map_eq_flatMap]
  apply List.flatMap_congr
  intro digit hdigit
  exact encode_digit digit (decimal.digits_lt hdigit)

/-- The text of a second of a day. -/
def stampOf (d : Date) (h : d.year ≤ 9999) (second : Nat) (hsecond : second < 86400) : Stamp where
  date := d
  year_le := h
  hour := second / 3600
  minute := second % 3600 / 60
  second := second % 60
  hour_le := by omega
  minute_le := by omega
  second_le := by omega
  capital := true
  zone := .utc true

theorem stampOf_seconds (d : Date) (h : d.year ≤ 9999) (second : Nat) (hsecond : second < 86400) :
    (stampOf d h second hsecond).seconds = epochDay d * 86400 + second := by
  unfold Stamp.seconds stampOf Zone.seconds
  dsimp only
  omega

theorem days_of_second (d : Date) {e : Int} (hday : e / 86400 = epochDay d) :
    ∃ second : Nat, second < 86400 ∧ e % 86400 = second ∧ e = epochDay d * 86400 + second := by
  exact ⟨(e % 86400).toNat, by omega, by omega, by omega⟩

/-- What is written is the text of the second. -/
theorem encode_format {d : Date} (h : d.year ≤ 9999) {e : Int} (hday : e / 86400 = epochDay d)
    {second : Nat} (hsecond : second < 86400) (hrest : e % 86400 = second) :
    utf8.encode (epoch_seconds_to_rfc3339 e) = (stampOf d h second hsecond).text := by
  have hday_le := (day_range d).1
  have hmonth_le := d.month_le
  have hhour : ((second : Int).tdiv 3600) = (second / 3600 : Nat) := by
    rw [Int.tdiv_eq_ediv_of_nonneg (by omega)]
    rfl
  have hminute : (((second : Int).tmod 3600).tdiv 60) = (second % 3600 / 60 : Nat) := by
    rw [Int.tmod_eq_emod_of_nonneg (by omega), Int.tdiv_eq_ediv_of_nonneg (by omega)]
    rfl
  have hlast : ((second : Int).tmod 60) = (second % 60 : Nat) := by
    rw [Int.tmod_eq_emod_of_nonneg (by omega)]
    rfl
  unfold epoch_seconds_to_rfc3339
  dsimp only
  rw [hday, hrest, civil_from_days_eq, hhour, hminute, hlast]
  dsimp only
  simp only [utf8.encode_append]
  rw [encode_pad (by decide) (show d.year < 10 ^ 4 by omega),
    encode_pad (by decide) (show d.month < 10 ^ 2 by omega),
    encode_pad (by decide) (show d.day < 10 ^ 2 by omega),
    encode_pad (by decide) (show second / 3600 < 10 ^ 2 by omega),
    encode_pad (by decide) (show second % 3600 / 60 < 10 ^ 2 by omega),
    encode_pad (by decide) (show second % 60 < 10 ^ 2 by omega)]
  have hdash : utf8.encode "-" = [45] := by decide
  have ht : utf8.encode "T" = [84] := by decide
  have hcolon : utf8.encode ":" = [58] := by decide
  have hz : utf8.encode "Z" = [90] := by decide
  unfold Stamp.text stampOf Zone.text
  rw [hdash, ht, hcolon, hz]
  simp only [List.append_assoc, List.cons_append, List.nil_append, if_true]

/-- What is written is read as the second that it was written for. -/
theorem parse_format {d : Date} (h : d.year ≤ 9999) {e : Int} (hday : e / 86400 = epochDay d) :
    parse_issued_at_epoch_seconds (epoch_seconds_to_rfc3339 e) = some e := by
  obtain ⟨second, hsecond, hrest, hsum⟩ := days_of_second d hday
  have htext := encode_format h hday hsecond hrest
  refine (parse_iff _ _).mpr ⟨stampOf d h second hsecond, ?_, ?_⟩
  · rw [htext, plusAsZero_text]
  · rw [stampOf_seconds, hsum]

/-! ## No overflow -/

theorem epoch_seconds_to_rfc3339.checked_eq {d : Date} (h : d.year ≤ 9999) {e : Int}
    (hday : e / 86400 = epochDay d) :
    epoch_seconds_to_rfc3339.checked e = some (epoch_seconds_to_rfc3339 e) := by
  have hdays := epochDay_range h
  have hsecond : 0 ≤ e % 86400 ∧ e % 86400 < 86400 := by omega
  unfold epoch_seconds_to_rfc3339 epoch_seconds_to_rfc3339.checked
  dsimp only
  rw [hday]
  generalize e % 86400 = second at *
  rw [i64_bind (by omega), i64_bind (by omega), civil_from_days.checked_eq d h,
    civil_from_days_eq, some_bind]
  dsimp only
  rw [quotient_bind (by omega), remainder_bind (by omega), quotient_bind (by omega),
    remainder_bind (by omega), Int.tdiv_eq_ediv_of_nonneg (by omega),
    Int.tmod_eq_emod_of_nonneg (by omega), Int.tdiv_eq_ediv_of_nonneg (by omega),
    Int.tmod_eq_emod_of_nonneg (by omega)]

theorem local_epoch.checked_eq {d : Date} (h : d.year ≤ 9999) {hour minute second : Nat}
    (hhour : hour ≤ 23) (hminute : minute ≤ 59) (hsecond : second ≤ 59) {sign : Int}
    (hsign : sign = 1 ∨ sign = -1) {offset_hour offset_minute : Nat}
    (hoffset_hour : offset_hour ≤ 23) (hoffset_minute : offset_minute ≤ 59) :
    local_epoch.checked d.year d.month d.day hour minute second sign offset_hour offset_minute =
      some (days_from_civil d.year d.month d.day * 86400 + hour * 3600 + minute * 60 + second -
        sign * (offset_hour * 3600 + offset_minute * 60)) := by
  have hdays := epochDay_range h
  have hoffset : -86340 ≤ sign * ((offset_hour : Int) * 3600 + offset_minute * 60) ∧
      sign * ((offset_hour : Int) * 3600 + offset_minute * 60) ≤ 86340 := by
    rcases hsign with rfl | rfl
    · omega
    · omega
  unfold local_epoch.checked
  rw [i64_bind (by omega), i64_bind (by omega), i64_bind (by omega), i64_bind (by omega),
    days_from_civil.checked_eq d h, some_bind, days_from_civil_eq, i64_bind (by omega),
    i64_bind (by omega), i64_bind (by omega), i64_bind (by omega), i64_bind (by omega),
    i64_bind (by omega), i64, if_pos (by omega)]

/-! ## The round trip -/

/-- A day of the years 0000 to 9999. -/
def InYears (day : Int) : Prop :=
  (daysBeforeYear 0 : Int) - daysBeforeYear 1970 ≤ day ∧
    day < (daysBeforeYear 10000 : Int) - daysBeforeYear 1970

theorem InYears.date {day : Int} (h : InYears day) :
    ∃ d : Date, d.year ≤ 9999 ∧ epochDay d = day := by
  obtain ⟨hge, hlt⟩ := h
  rw [daysBeforeYear] at hge
  obtain ⟨d, hd⟩ := Date.exists_number (day + daysBeforeYear 1970).toNat
  have hnumber : (d.number : Int) = day + daysBeforeYear 1970 := by omega
  have hyear : d.year < 10000 := Date.year_lt_of_number_lt (by omega)
  refine ⟨d, by omega, ?_⟩
  unfold epochDay
  omega

/-- The conversions of the years 0000 to 9999 lose nothing, and no operation of them overflows
or rounds a quotient up. -/
structure RoundTrips : Prop where
  seconds : ∀ e : Int, InYears (e / 86400) →
    parse_issued_at_epoch_seconds (epoch_seconds_to_rfc3339 e) = some e
  dates : ∀ d : Date, d.year ≤ 9999 →
    civil_from_days (days_from_civil d.year d.month d.day) = ((d.year : Int), d.month, d.day)
  days : ∀ day : Int, InYears day → ∃ d : Date, d.year ≤ 9999 ∧
    civil_from_days day = ((d.year : Int), d.month, d.day) ∧
    days_from_civil d.year d.month d.day = day
  format_exact : ∀ e : Int, InYears (e / 86400) →
    epoch_seconds_to_rfc3339.checked e = some (epoch_seconds_to_rfc3339 e)
  days_exact : ∀ d : Date, d.year ≤ 9999 → days_from_civil.checked d.year d.month d.day =
    some (days_from_civil d.year d.month d.day)
  civil_exact : ∀ day : Int, InYears day →
    civil_from_days.checked day = some (civil_from_days day)
  seconds_exact : ∀ (d : Date) (hour minute second offset_hour offset_minute : Nat) (sign : Int),
    d.year ≤ 9999 → hour ≤ 23 → minute ≤ 59 → second ≤ 59 → offset_hour ≤ 23 →
    offset_minute ≤ 59 → sign = 1 ∨ sign = -1 →
    local_epoch.checked d.year d.month d.day hour minute second sign offset_hour offset_minute =
      some (days_from_civil d.year d.month d.day * 86400 + hour * 3600 + minute * 60 + second -
        sign * (offset_hour * 3600 + offset_minute * 60))

theorem rfc3339_round_trips : RoundTrips where
  seconds e he := by
    obtain ⟨d, hyear, hday⟩ := he.date
    exact parse_format hyear hday.symm
  dates d _ := by rw [days_from_civil_eq, civil_from_days_eq]
  days day hday := by
    obtain ⟨d, hyear, rfl⟩ := hday.date
    exact ⟨d, hyear, civil_from_days_eq d, days_from_civil_eq d⟩
  format_exact e he := by
    obtain ⟨d, hyear, hday⟩ := he.date
    exact epoch_seconds_to_rfc3339.checked_eq hyear hday.symm
  days_exact d hyear := days_from_civil.checked_eq d hyear
  civil_exact day hday := by
    obtain ⟨d, hyear, rfl⟩ := hday.date
    exact civil_from_days.checked_eq d hyear
  seconds_exact d hour minute second offset_hour offset_minute sign hyear hhour hminute hsecond
      hoffset_hour hoffset_minute hsign :=
    local_epoch.checked_eq hyear hhour hminute hsecond hsign hoffset_hour hoffset_minute

end protocol
