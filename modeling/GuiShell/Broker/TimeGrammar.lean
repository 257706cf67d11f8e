-- Which texts a request may name its time by (protocol.rs). The grammar is that of RFC 3339 with
-- seconds and without fractions. The code reads its numbers with a `parse` that takes a plus sign
-- before the digits, so that a number may begin with one.
import GuiShell.Broker.CivilDays
import GuiShell.Decimal

open calendar

namespace protocol

/-! ## The grammar -/

/-- A number in a fixed number of ASCII digits. -/
def digitBytes (width n : Nat) : Bytes :=
  (decimal.digits width n).map fun digit => UInt8.ofNat (48 + digit)

/-- The zone of a time: `Z` or `z`, or what the local time is ahead of UTC or behind it. -/
inductive Zone where
  | utc (capital : Bool)
  | offset (ahead : Bool) (hour minute : Nat) (hour_le : hour ≤ 23) (minute_le : minute ≤ 59)

def Zone.text : Zone → Bytes
  | .utc capital => [if capital then 90 else 122]
  | .offset ahead hour minute _ _ =>
    (if ahead then 43 else 45) :: (digitBytes 2 hour ++ 58 :: digitBytes 2 minute)

/-- The seconds that the local time is ahead of UTC. -/
def Zone.seconds : Zone → Int
  | .utc _ => 0
  | .offset ahead hour minute _ _ => (if ahead then 1 else -1) * (hour * 3600 + minute * 60)

/-- A time of the grammar. -/
structure Stamp where
  date : Date
  year_le : date.year ≤ 9999
  hour : Nat
  minute : Nat
  second : Nat
  hour_le : hour ≤ 23
  minute_le : minute ≤ 59
  second_le : second ≤ 59
  capital : Bool
  zone : Zone

/-- The bytes `YYYY-MM-DDThh:mm:ss` and the zone. -/
def Stamp.text (s : Stamp) : Bytes :=
  digitBytes 4 s.date.year ++ 45 :: (digitBytes 2 s.date.month ++ 45 :: (digitBytes 2 s.date.day ++
    (if s.capital then 84 else 116) :: (digitBytes 2 s.hour ++ 58 :: (digitBytes 2 s.minute ++
      58 :: (digitBytes 2 s.second ++ s.zone.text)))))

/-- The seconds from the epoch to a time. -/
def Stamp.seconds (s : Stamp) : Int :=
  epochDay s.date * 86400 + s.hour * 3600 + s.minute * 60 + s.second - s.zone.seconds

/-- A text names a time, which is some seconds after the epoch. -/
def NamesTime (value : String) (seconds : Int) : Prop :=
  ∃ s : Stamp, utf8.encode value = s.text ∧ s.seconds = seconds

/-! ## The plus sign -/

/-- The places at which the numbers begin. -/
def numberStarts : List Nat := [0, 5, 8, 11, 14, 17, 20, 23]

def zeroOfPlus (byte : UInt8) : UInt8 := if byte = 43 then 48 else byte

/-- A text that begins at a place, with a zero for every plus sign at which a number begins. -/
def plusAsZeroFrom : Nat → Bytes → Bytes
  | _, [] => []
  | place, byte :: rest =>
    (if place ∈ numberStarts then zeroOfPlus byte else byte) :: plusAsZeroFrom (place + 1) rest

def plusAsZero (date_time : Bytes) : Bytes := plusAsZeroFrom 0 date_time

theorem length_digitBytes (width n : Nat) : (digitBytes width n).length = width := by
  unfold digitBytes
  rw [List.length_map, decimal.length_digits]

/-- The bytes of a number are digits. -/
theorem isDigit_digitBytes {width n : Nat} {byte : UInt8} (h : byte ∈ digitBytes width n) :
    48 ≤ byte ∧ byte ≤ 57 := by
  unfold digitBytes at h
  obtain ⟨digit, hdigit, rfl⟩ := List.mem_map.mp h
  have hlt := decimal.digits_lt hdigit
  interval_cases digit <;> decide

def isDigit (byte : UInt8) : Bool := 48 ≤ byte ∧ byte ≤ 57

/-- The number that some digits write. -/
def readNumber (l : Bytes) : Nat := l.foldl (fun n byte => 10 * n + (byte.toNat - 48)) 0

theorem readNumber_eq (l : Bytes) :
    readNumber l = decimal.value (l.map fun byte => byte.toNat - 48) := by
  unfold readNumber decimal.value
  rw [List.foldl_map]

theorem digit_lt {l : Bytes} (h : l.all isDigit = true) :
    ∀ digit ∈ l.map (fun byte => byte.toNat - 48), digit < 10 := by
  intro digit hdigit
  obtain ⟨byte, hbyte, rfl⟩ := List.mem_map.mp hdigit
  have hrange := List.all_eq_true.mp h byte hbyte
  simp only [isDigit, decide_eq_true_eq, UInt8.le_iff_toNat_le] at hrange
  have : (57 : UInt8).toNat = 57 := rfl
  omega

theorem readNumber_lt {l : Bytes} (h : l.all isDigit = true) : readNumber l < 10 ^ l.length := by
  have := decimal.value_lt (digit_lt h)
  rwa [← readNumber_eq, List.length_map] at this

/-- Digits are the digits of their number. -/
theorem digitBytes_readNumber {l : Bytes} (h : l.all isDigit = true) :
    digitBytes l.length (readNumber l) = l := by
  have := decimal.digits_value (digit_lt h)
  rw [← readNumber_eq, List.length_map] at this
  unfold digitBytes
  rw [this, List.map_map]
  conv_rhs => rw [← List.map_id l]
  apply List.map_congr_left
  intro byte hbyte
  have hrange := List.all_eq_true.mp h byte hbyte
  simp only [isDigit, decide_eq_true_eq, UInt8.le_iff_toNat_le] at hrange
  have hlow : (48 : UInt8).toNat = 48 := rfl
  rw [Function.comp_apply, id_eq, Nat.add_sub_cancel' (by omega), UInt8.ofNat_toNat]

theorem digitBytes_all (width n : Nat) : (digitBytes width n).all isDigit = true := by
  rw [List.all_eq_true]
  intro byte hbyte
  exact decide_eq_true (isDigit_digitBytes hbyte)

theorem readNumber_digitBytes {width n : Nat} (h : n < 10 ^ width) :
    readNumber (digitBytes width n) = n := by
  have hdigits := decimal.value_digits h
  rw [readNumber_eq, digitBytes, List.map_map]
  have hmap : (decimal.digits width n).map
      ((fun byte : UInt8 => byte.toNat - 48) ∘ fun digit => UInt8.ofNat (48 + digit)) =
      decimal.digits width n := by
    conv_rhs => rw [← List.map_id (decimal.digits width n)]
    apply List.map_congr_left
    intro digit hdigit
    have hlt := decimal.digits_lt hdigit
    interval_cases digit <;> rfl
  rw [hmap, hdigits]

/-- What is read is a number whose first digit may be given as a plus sign. -/
theorem parse_u32_cons (byte : UInt8) {rest : Bytes} (hrest : rest ≠ []) :
    parse_u32 (byte :: rest) = if (zeroOfPlus byte :: rest).all isDigit then
      some (readNumber (zeroOfPlus byte :: rest)) else none := by
  by_cases hplus : byte = 43
  · subst hplus
    have hzero : zeroOfPlus 43 = 48 := rfl
    have hall : (48 :: rest).all isDigit = rest.all isDigit := rfl
    rw [hzero, hall]
    have hread : parse_u32 (43 :: rest) =
        if rest ≠ [] ∧ rest.all isDigit then some (readNumber rest) else none := rfl
    rw [hread]
    simp only [ne_eq, hrest, not_false_eq_true, true_and]
    rfl
  · have hkeep : zeroOfPlus byte = byte := if_neg hplus
    have hread : parse_u32 (byte :: rest) = if byte :: rest ≠ [] ∧ (byte :: rest).all isDigit then
        some (readNumber (byte :: rest)) else none := by
      unfold parse_u32
      split
      · rename_i heq
        rw [List.cons.injEq] at heq
        exact absurd heq.1 hplus
      · rfl
    rw [hkeep, hread]
    simp

theorem parse_u32_iff {byte : UInt8} {rest : Bytes} (hrest : rest ≠ []) (n : Nat) :
    parse_u32 (byte :: rest) = some n ↔
      zeroOfPlus byte :: rest = digitBytes (rest.length + 1) n ∧ n < 10 ^ (rest.length + 1) := by
  rw [parse_u32_cons byte hrest]
  constructor
  · intro h
    by_cases hall : (zeroOfPlus byte :: rest).all isDigit = true
    · rw [if_pos hall, Option.some.injEq] at h
      subst h
      exact ⟨(digitBytes_readNumber hall).symm, readNumber_lt hall⟩
    · rw [if_neg hall] at h
      cases h
  · rintro ⟨hdigits, hlt⟩
    rw [hdigits, if_pos (digitBytes_all _ _), readNumber_digitBytes hlt]

theorem length_plusAsZeroFrom (place : Nat) (b : Bytes) :
    (plusAsZeroFrom place b).length = b.length := by
  induction b generalizing place with
  | nil => rfl
  | cons byte rest ih => rw [plusAsZeroFrom, List.length_cons, ih, List.length_cons]

/-! ## The places of a text -/

/-- The bytes of a date and time, by their places, and what comes after them. -/
structure Places where
  (y₀ y₁ y₂ y₃ dash₁ m₀ m₁ dash₂ d₀ d₁ t h₀ h₁ colon₁ i₀ i₁ colon₂ s₀ s₁ : UInt8)
  zone : Bytes

def Places.bytes (p : Places) : Bytes :=
  p.y₀ :: p.y₁ :: p.y₂ :: p.y₃ :: p.dash₁ :: p.m₀ :: p.m₁ :: p.dash₂ :: p.d₀ :: p.d₁ :: p.t ::
    p.h₀ :: p.h₁ :: p.colon₁ :: p.i₀ :: p.i₁ :: p.colon₂ :: p.s₀ :: p.s₁ :: p.zone

theorem exists_places {b : Bytes} (h : 19 ≤ b.length) : ∃ p : Places, p.bytes = b := by
  rcases b with _ | ⟨y₀, _ | ⟨y₁, _ | ⟨y₂, _ | ⟨y₃, _ | ⟨dash₁, _ | ⟨m₀, _ | ⟨m₁, _ | ⟨dash₂,
    _ | ⟨d₀, _ | ⟨d₁, _ | ⟨t, _ | ⟨h₀, _ | ⟨h₁, _ | ⟨colon₁, _ | ⟨i₀, _ | ⟨i₁, _ | ⟨colon₂,
    _ | ⟨s₀, _ | ⟨s₁, zone⟩⟩⟩⟩⟩⟩⟩⟩⟩⟩⟩⟩⟩⟩⟩⟩⟩⟩⟩
  case cons.cons.cons.cons.cons.cons.cons.cons.cons.cons.cons.cons.cons.cons.cons.cons.cons.cons.cons =>
    exact ⟨⟨y₀, y₁, y₂, y₃, dash₁, m₀, m₁, dash₂, d₀, d₁, t, h₀, h₁, colon₁, i₀, i₁, colon₂, s₀,
      s₁, zone⟩, rfl⟩
  all_goals exact absurd h (by simp)

/-- The marks stand at their places, and the length is that of a zone. -/
structure Places.Marked (p : Places) : Prop where
  length : p.zone.length = 1 ∨ p.zone.length = 6
  dash₁ : p.dash₁ = 45
  dash₂ : p.dash₂ = 45
  t : p.t = 84 ∨ p.t = 116
  colon₁ : p.colon₁ = 58
  colon₂ : p.colon₂ = 58

theorem hasMarks_iff (p : Places) : hasMarks p.bytes = true ↔ p.Marked := by
  unfold hasMarks
  simp only [Bool.and_eq_true, Bool.or_eq_true, decide_eq_true_eq]
  constructor
  · rintro ⟨⟨⟨⟨⟨hlen, h1⟩, h2⟩, ht⟩, h3⟩, h4⟩
    have hlen' : p.zone.length + 19 = 20 ∨ p.zone.length + 19 = 25 := hlen
    exact ⟨by omega, Option.some.inj h1, Option.some.inj h2,
      ht.imp Option.some.inj Option.some.inj, Option.some.inj h3, Option.some.inj h4⟩
  · rintro ⟨hlen, h1, h2, ht, h3, h4⟩
    have hlen' : p.zone.length + 19 = 20 ∨ p.zone.length + 19 = 25 := by omega
    exact ⟨⟨⟨⟨⟨hlen', congrArg some h1⟩, congrArg some h2⟩,
      ht.imp (congrArg some) (congrArg some)⟩, congrArg some h3⟩, congrArg some h4⟩

/-- The numbers of a date and time are read and are within their ranges. -/
structure Places.Reads (p : Places) (year month day hour minute second : Nat) : Prop where
  year_eq : parse_u32 [p.y₀, p.y₁, p.y₂, p.y₃] = some year
  month_eq : parse_u32 [p.m₀, p.m₁] = some month
  day_eq : parse_u32 [p.d₀, p.d₁] = some day
  hour_eq : parse_u32 [p.h₀, p.h₁] = some hour
  minute_eq : parse_u32 [p.i₀, p.i₁] = some minute
  second_eq : parse_u32 [p.s₀, p.s₁] = some second
  month_range : 1 ≤ month ∧ month ≤ 12
  day_range : 1 ≤ day ∧ day ≤ days_in_month year month
  hour_le : hour ≤ 23
  minute_le : minute ≤ 59
  second_le : second ≤ 59

theorem parse_places {value : String} {p : Places} (hp : utf8.encode value = p.bytes) (e : Int) :
    parse_issued_at_epoch_seconds value = some e ↔ p.Marked ∧
      ∃ year month day hour minute second offset_seconds,
        p.Reads year month day hour minute second ∧ parse_offset p.bytes = some offset_seconds ∧
        days_from_civil year month day * 86400 + hour * 3600 + minute * 60 + second -
          offset_seconds = e := by
  unfold parse_issued_at_epoch_seconds
  rw [hp]
  dsimp only
  by_cases hmarks : hasMarks p.bytes = true
  · rw [hmarks]
    have hmarked := (hasMarks_iff p).mp hmarks
    have hyear : parse_digits p.bytes 0 4 = parse_u32 [p.y₀, p.y₁, p.y₂, p.y₃] := rfl
    have hmonth : parse_digits p.bytes 5 7 = parse_u32 [p.m₀, p.m₁] := rfl
    have hday : parse_digits p.bytes 8 10 = parse_u32 [p.d₀, p.d₁] := rfl
    have hhour : parse_digits p.bytes 11 13 = parse_u32 [p.h₀, p.h₁] := rfl
    have hminute : parse_digits p.bytes 14 16 = parse_u32 [p.i₀, p.i₁] := rfl
    have hsecond : parse_digits p.bytes 17 19 = parse_u32 [p.s₀, p.s₁] := rfl
    rw [hyear, hmonth, hday, hhour, hminute, hsecond]
    simp only [Bool.not_true, Bool.false_eq_true, if_false, Option.bind_eq_bind,
      Option.bind_eq_some_iff, Option.ite_none_left_eq_some, Option.some.injEq]
    constructor
    · rintro ⟨year, hy, month, hm, day, hd, hour, hh, minute, hi, second, hs, hrange, offset, ho, he⟩
      refine ⟨hmarked, year, month, day, hour, minute, second, offset, ?_, ho, he⟩
      exact ⟨hy, hm, hd, hh, hi, hs, by omega, by omega, by omega, by omega, by omega⟩
    · rintro ⟨-, year, month, day, hour, minute, second, offset, h, ho, he⟩
      obtain ⟨hy, hm, hd, hh, hi, hs, hmr, hdr, hhr, hir, hsr⟩ := h
      exact ⟨year, hy, month, hm, day, hd, hour, hh, minute, hi, second, hs, by omega, offset, ho,
        he⟩
  · rw [Bool.not_eq_true] at hmarks
    rw [hmarks]
    constructor
    · intro h
      cases h
    · rintro ⟨hmarked, -⟩
      rw [(hasMarks_iff p).mpr hmarked] at hmarks
      cases hmarks

/-! ## The zone -/

theorem length_zone_text (z : Zone) : z.text.length = 1 ∨ z.text.length = 6 := by
  cases z with
  | utc capital => exact .inl rfl
  | offset ahead hour minute _ _ =>
    right
    simp [Zone.text, length_digitBytes]

theorem parse_offset_utc {p : Places} {z : UInt8} (hz : p.zone = [z]) (o : Int) :
    parse_offset p.bytes = some o ↔ ∃ zone : Zone, [z] = zone.text ∧ zone.seconds = o := by
  have hread : parse_offset p.bytes = if z = 90 ∨ z = 122 then some 0 else none := by
    obtain ⟨⟩ := p
    dsimp only at hz
    subst hz
    unfold parse_offset
    simp [Places.bytes]
  rw [hread]
  constructor
  · intro h
    split at h
    · rename_i hcase
      rw [Option.some.injEq] at h
      rcases hcase with rfl | rfl
      · exact ⟨.utc true, rfl, h⟩
      · exact ⟨.utc false, rfl, h⟩
    · cases h
  · rintro ⟨zone, htext, rfl⟩
    cases zone with
    | utc capital =>
      cases capital with
      | true =>
        rw [List.singleton_inj.mp htext]
        rfl
      | false =>
        rw [List.singleton_inj.mp htext]
        rfl
    | offset ahead hour minute _ _ =>
      have hlen := congrArg List.length htext
      simp [Zone.text, length_digitBytes] at hlen

/-- The offset is read from its sign and its two numbers. -/
theorem parse_offset_hours {p : Places} {z₀ z₁ z₂ z₃ z₄ z₅ : UInt8}
    (hz : p.zone = [z₀, z₁, z₂, z₃, z₄, z₅]) (o : Int) :
    parse_offset p.bytes = some o ↔ ∃ (ahead : Bool) (hour minute : Nat),
      z₀ = (if ahead then 43 else 45) ∧ z₃ = 58 ∧ parse_u32 [z₁, z₂] = some hour ∧
        parse_u32 [z₄, z₅] = some minute ∧ hour ≤ 23 ∧ minute ≤ 59 ∧
        (if ahead then 1 else -1) * ((hour : Int) * 3600 + minute * 60) = o := by
  have hlen : p.bytes.length ≠ 20 := by simp [Places.bytes, hz]
  have hsign : p.bytes[19]? = some z₀ := by simp [Places.bytes, hz]
  have hcolon : p.bytes[22]? = some z₃ := by simp [Places.bytes, hz]
  have hhour : parse_digits p.bytes 20 22 = parse_u32 [z₁, z₂] := by
    simp [parse_digits, Places.bytes, hz]
  have hminute : parse_digits p.bytes 23 25 = parse_u32 [z₄, z₅] := by
    simp [parse_digits, Places.bytes, hz]
  unfold parse_offset
  rw [if_neg hlen, hsign, hcolon, hhour, hminute]
  simp only [Option.some.injEq, ne_eq, Option.bind_eq_bind, Option.bind_some, Option.bind_none]
  have hread : ∀ sign : Int, ((if ¬ z₃ = 58 then none
      else (parse_u32 [z₁, z₂]).bind fun offset_hour =>
        (parse_u32 [z₄, z₅]).bind fun offset_minute =>
          if 23 < offset_hour ∨ 59 < offset_minute then none
          else some (sign * (offset_hour * 3600 + offset_minute * 60))) = some o) ↔
      ∃ hour minute : Nat, z₃ = 58 ∧ parse_u32 [z₁, z₂] = some hour ∧
        parse_u32 [z₄, z₅] = some minute ∧ hour ≤ 23 ∧ minute ≤ 59 ∧
        sign * ((hour : Int) * 3600 + minute * 60) = o := by
    intro sign
    simp only [Option.ite_none_left_eq_some, not_not, Option.bind_eq_some_iff, Option.some.injEq]
    constructor
    · rintro ⟨hz₃, hour, hh, minute, hm, hle, ho⟩
      exact ⟨hour, minute, hz₃, hh, hm, by omega, by omega, ho⟩
    · rintro ⟨hour, minute, hz₃, hh, hm, hhour, hminute, ho⟩
      exact ⟨hz₃, hour, hh, minute, hm, by omega, ho⟩
  by_cases hplus : z₀ = 43
  · rw [if_pos hplus, hread]
    constructor
    · rintro ⟨hour, minute, h⟩
      exact ⟨true, hour, minute, hplus, h⟩
    · rintro ⟨ahead, hour, minute, hz₀, h⟩
      cases ahead with
      | true => exact ⟨hour, minute, h⟩
      | false =>
        rw [hplus] at hz₀
        cases hz₀
  · rw [if_neg hplus]
    by_cases hminus : z₀ = 45
    · rw [if_pos hminus, hread]
      constructor
      · rintro ⟨hour, minute, h⟩
        exact ⟨false, hour, minute, hminus, h⟩
      · rintro ⟨ahead, hour, minute, hz₀, h⟩
        cases ahead with
        | true => exact absurd hz₀ hplus
        | false => exact ⟨hour, minute, h⟩
    · rw [if_neg hminus]
      constructor
      · intro h
        cases h
      · rintro ⟨ahead, hour, minute, hz₀, -⟩
        cases ahead with
        | true => exact absurd hz₀ hplus
        | false => exact absurd hz₀ hminus

theorem exists_six {zone : Bytes} (h : zone.length = 6) :
    ∃ z₀ z₁ z₂ z₃ z₄ z₅, zone = [z₀, z₁, z₂, z₃, z₄, z₅] := by
  match zone, h with
  | [z₀, z₁, z₂, z₃, z₄, z₅], _ => exact ⟨z₀, z₁, z₂, z₃, z₄, z₅, rfl⟩

theorem parse_two {a b : UInt8} {n : Nat} :
    parse_u32 [a, b] = some n ↔ [zeroOfPlus a, b] = digitBytes 2 n ∧ n < 100 :=
  parse_u32_iff (List.cons_ne_nil b []) n

/-- The zones that are read are those of the grammar, with a plus sign for a zero. -/
theorem parse_offset_iff {p : Places} (hlen : p.zone.length = 1 ∨ p.zone.length = 6) (o : Int) :
    parse_offset p.bytes = some o ↔
      ∃ zone : Zone, plusAsZeroFrom 19 p.zone = zone.text ∧ zone.seconds = o := by
  rcases hlen with hlen | hlen
  · obtain ⟨z, hz⟩ := List.length_eq_one_iff.mp hlen
    rw [parse_offset_utc hz, hz]
    rfl
  · obtain ⟨z₀, z₁, z₂, z₃, z₄, z₅, hz⟩ := exists_six hlen
    have hzero : plusAsZeroFrom 19 p.zone = [z₀, zeroOfPlus z₁, z₂, z₃, zeroOfPlus z₄, z₅] := by
      rw [hz]
      rfl
    rw [parse_offset_hours hz, hzero]
    constructor
    · rintro ⟨ahead, hour, minute, hz₀, hz₃, hh, hm, hhour, hminute, ho⟩
      refine ⟨.offset ahead hour minute hhour hminute, ?_, ho⟩
      rw [Zone.text, ← (parse_two.mp hh).1, ← (parse_two.mp hm).1, hz₀, hz₃]
      rfl
    · rintro ⟨zone, htext, ho⟩
      cases zone with
      | utc capital => cases htext
      | offset ahead hour minute hhour hminute =>
        rw [Zone.text, List.cons.injEq] at htext
        obtain ⟨hz₀, htext⟩ := htext
        obtain ⟨hh, htext⟩ := List.append_inj
          (show [zeroOfPlus z₁, z₂] ++ z₃ :: [zeroOfPlus z₄, z₅] = _ from htext)
          (by rw [length_digitBytes]; rfl)
        rw [List.cons.injEq] at htext
        exact ⟨ahead, hour, minute, hz₀, htext.1, parse_two.mpr ⟨hh, by omega⟩,
          parse_two.mpr ⟨htext.2, by omega⟩, hhour, hminute, ho⟩

/-! ## What is accepted -/

theorem parse_four {a b c d : UInt8} {n : Nat} :
    parse_u32 [a, b, c, d] = some n ↔ [zeroOfPlus a, b, c, d] = digitBytes 4 n ∧ n < 10 ^ 4 :=
  parse_u32_iff (List.cons_ne_nil b [c, d]) n

/-- A time text by its places, with a zero for every plus sign at which a number begins. -/
def Places.zeroed (p : Places) : Places where
  y₀ := zeroOfPlus p.y₀
  y₁ := p.y₁
  y₂ := p.y₂
  y₃ := p.y₃
  dash₁ := p.dash₁
  m₀ := zeroOfPlus p.m₀
  m₁ := p.m₁
  dash₂ := p.dash₂
  d₀ := zeroOfPlus p.d₀
  d₁ := p.d₁
  t := p.t
  h₀ := zeroOfPlus p.h₀
  h₁ := p.h₁
  colon₁ := p.colon₁
  i₀ := zeroOfPlus p.i₀
  i₁ := p.i₁
  colon₂ := p.colon₂
  s₀ := zeroOfPlus p.s₀
  s₁ := p.s₁
  zone := plusAsZeroFrom 19 p.zone

theorem plusAsZero_bytes (p : Places) : plusAsZero p.bytes = p.zeroed.bytes := rfl

theorem length_text (s : Stamp) : s.text.length = 19 + s.zone.text.length := by
  simp only [Stamp.text, List.length_append, List.length_cons, length_digitBytes]
  omega

theorem digits_append_iff {a l m : Bytes} {width n : Nat} (h : a.length = width) :
    a ++ l = digitBytes width n ++ m ↔ a = digitBytes width n ∧ l = m := by
  constructor
  · intro heq
    exact List.append_inj heq (by rw [h, length_digitBytes])
  · rintro ⟨rfl, rfl⟩
    rfl

theorem four_append_iff {a b c d : UInt8} {l m : Bytes} {n : Nat} :
    [a, b, c, d] ++ l = digitBytes 4 n ++ m ↔ [a, b, c, d] = digitBytes 4 n ∧ l = m :=
  digits_append_iff rfl

theorem two_append_iff {a b : UInt8} {l m : Bytes} {n : Nat} :
    [a, b] ++ l = digitBytes 2 n ++ m ↔ [a, b] = digitBytes 2 n ∧ l = m :=
  digits_append_iff rfl

/-- The text of a time, by its places. -/
theorem bytes_eq_text (p : Places) (s : Stamp) : p.bytes = s.text ↔
    [p.y₀, p.y₁, p.y₂, p.y₃] = digitBytes 4 s.date.year ∧ p.dash₁ = 45 ∧
      [p.m₀, p.m₁] = digitBytes 2 s.date.month ∧ p.dash₂ = 45 ∧
      [p.d₀, p.d₁] = digitBytes 2 s.date.day ∧ p.t = (if s.capital then 84 else 116) ∧
      [p.h₀, p.h₁] = digitBytes 2 s.hour ∧ p.colon₁ = 58 ∧
      [p.i₀, p.i₁] = digitBytes 2 s.minute ∧ p.colon₂ = 58 ∧
      [p.s₀, p.s₁] = digitBytes 2 s.second ∧ p.zone = s.zone.text := by
  have hbytes : p.bytes = [p.y₀, p.y₁, p.y₂, p.y₃] ++ p.dash₁ :: ([p.m₀, p.m₁] ++ p.dash₂ ::
      ([p.d₀, p.d₁] ++ p.t :: ([p.h₀, p.h₁] ++ p.colon₁ :: ([p.i₀, p.i₁] ++ p.colon₂ ::
        ([p.s₀, p.s₁] ++ p.zone))))) := rfl
  unfold Stamp.text
  rw [hbytes, four_append_iff, List.cons.injEq, two_append_iff, List.cons.injEq, two_append_iff,
    List.cons.injEq, two_append_iff, List.cons.injEq, two_append_iff, List.cons.injEq,
    two_append_iff]

/-- A text is read as the time of the grammar that it is with its plus signs as zeros. -/
theorem parse_iff (value : String) (e : Int) : parse_issued_at_epoch_seconds value = some e ↔
    ∃ s : Stamp, plusAsZero (utf8.encode value) = s.text ∧ s.seconds = e := by
  by_cases hlen : 19 ≤ (utf8.encode value).length
  · obtain ⟨p, hp⟩ := exists_places hlen
    rw [parse_places hp.symm, ← hp, plusAsZero_bytes]
    simp only [bytes_eq_text]
    constructor
    · rintro ⟨hmarked, year, month, day, hour, minute, second, offset, h, hoffset, rfl⟩
      obtain ⟨zone, hzone, rfl⟩ := (parse_offset_iff hmarked.length offset).mp hoffset
      obtain ⟨hyear, hyear_lt⟩ := parse_four.mp h.year_eq
      have hday := h.day_range.2
      rw [days_in_month_eq year h.month_range.1 h.month_range.2] at hday
      have ht : p.t = if decide (p.t = 84) = true then 84 else 116 := by
        rcases hmarked.t with ht | ht
        · rw [ht]
          rfl
        · rw [ht]
          rfl
      refine ⟨⟨⟨year, month, day, h.month_range.1, h.month_range.2, h.day_range.1, hday⟩,
        Nat.le_of_lt_succ hyear_lt, hour, minute, second, h.hour_le, h.minute_le, h.second_le,
        decide (p.t = 84), zone⟩, ?_, ?_⟩
      · exact ⟨hyear, hmarked.dash₁, (parse_two.mp h.month_eq).1, hmarked.dash₂,
          (parse_two.mp h.day_eq).1, ht, (parse_two.mp h.hour_eq).1, hmarked.colon₁,
          (parse_two.mp h.minute_eq).1, hmarked.colon₂, (parse_two.mp h.second_eq).1, hzone⟩
      · unfold Stamp.seconds
        rw [← days_from_civil_eq]
    · rintro ⟨s, ⟨hyear, hdash₁, hmonth, hdash₂, hday, ht, hhour, hcolon₁, hminute, hcolon₂,
        hsecond, hzone⟩, rfl⟩
      have hlength : p.zone.length = 1 ∨ p.zone.length = 6 := by
        have := length_zone_text s.zone
        rwa [← hzone, Places.zeroed, length_plusAsZeroFrom] at this
      refine ⟨⟨hlength, hdash₁, hdash₂, ?_, hcolon₁, hcolon₂⟩, s.date.year, s.date.month,
        s.date.day, s.hour, s.minute, s.second, s.zone.seconds, ?_, ?_, ?_⟩
      · have ht' : p.t = if s.capital then 84 else 116 := ht
        split at ht'
        · exact .inl ht'
        · exact .inr ht'
      · have hmonth_le := s.date.month_le
        have hday_le := Nat.le_trans s.date.day_le (monthLength_le _ _)
        have hyear_le := s.year_le
        have hhour_le := s.hour_le
        have hminute_le := s.minute_le
        have hsecond_le := s.second_le
        constructor
        · exact parse_four.mpr ⟨hyear, by omega⟩
        · exact parse_two.mpr ⟨hmonth, by omega⟩
        · exact parse_two.mpr ⟨hday, by omega⟩
        · exact parse_two.mpr ⟨hhour, by omega⟩
        · exact parse_two.mpr ⟨hminute, by omega⟩
        · exact parse_two.mpr ⟨hsecond, by omega⟩
        · exact ⟨s.date.month_pos, hmonth_le⟩
        · rw [days_in_month_eq _ s.date.month_pos hmonth_le]
          exact ⟨s.date.day_pos, s.date.day_le⟩
        · exact hhour_le
        · exact hminute_le
        · exact hsecond_le
      · exact (parse_offset_iff hlength _).mpr ⟨s.zone, hzone, rfl⟩
      · unfold Stamp.seconds
        rw [← days_from_civil_eq]
  · -- A text that is too short has no marks, and is no time.
    have hmarks : hasMarks (utf8.encode value) = false := by
      unfold hasMarks
      rw [decide_eq_false (by omega), decide_eq_false (by omega)]
      rfl
    have hparse : parse_issued_at_epoch_seconds value = none := by
      unfold parse_issued_at_epoch_seconds
      dsimp only
      rw [hmarks]
      rfl
    rw [hparse]
    constructor
    · intro h
      cases h
    · rintro ⟨s, hs, -⟩
      have hlength := congrArg List.length hs
      rw [plusAsZero, length_plusAsZeroFrom, length_text] at hlength
      omega

theorem zeroOfPlus_digit {width n : Nat} {byte : UInt8} (h : byte ∈ digitBytes width n) :
    zeroOfPlus byte = byte := by
  have hrange := isDigit_digitBytes h
  refine if_neg fun hplus => ?_
  rw [hplus] at hrange
  exact absurd hrange.1 (by decide)

theorem zeroOfPlus_two {a b : UInt8} {n : Nat} (h : [a, b] = digitBytes 2 n) :
    [zeroOfPlus a, b] = digitBytes 2 n := by
  rw [zeroOfPlus_digit (h ▸ List.mem_cons_self), h]

theorem plusAsZero_zone (z : Zone) : plusAsZeroFrom 19 z.text = z.text := by
  cases z with
  | utc capital => rfl
  | offset ahead hour minute _ _ =>
    obtain ⟨a, b, hhour⟩ := List.length_eq_two.mp (length_digitBytes 2 hour)
    obtain ⟨c, d, hminute⟩ := List.length_eq_two.mp (length_digitBytes 2 minute)
    have ha : zeroOfPlus a = a := zeroOfPlus_digit (hhour ▸ List.mem_cons_self)
    have hc : zeroOfPlus c = c := zeroOfPlus_digit (hminute ▸ List.mem_cons_self)
    rw [Zone.text, hhour, hminute]
    show _ :: zeroOfPlus a :: b :: 58 :: zeroOfPlus c :: d :: [] = _
    rw [ha, hc]
    rfl

/-- The digits of a time are no plus signs. -/
theorem plusAsZero_text (s : Stamp) : plusAsZero s.text = s.text := by
  obtain ⟨p, hp⟩ := exists_places (b := s.text) (by rw [length_text]; omega)
  have hfields := (bytes_eq_text p s).mp hp
  obtain ⟨hyear, hdash₁, hmonth, hdash₂, hday, ht, hhour, hcolon₁, hminute, hcolon₂, hsecond,
    hzone⟩ := hfields
  have hy₀ : [zeroOfPlus p.y₀, p.y₁, p.y₂, p.y₃] = digitBytes 4 s.date.year := by
    rw [zeroOfPlus_digit (hyear ▸ List.mem_cons_self), hyear]
  have hzeroed : plusAsZeroFrom 19 p.zone = s.zone.text := by
    rw [hzone, plusAsZero_zone]
  rw [← hp, plusAsZero_bytes, hp, bytes_eq_text]
  exact ⟨hy₀, hdash₁, zeroOfPlus_two hmonth, hdash₂, zeroOfPlus_two hday, ht,
    zeroOfPlus_two hhour, hcolon₁, zeroOfPlus_two hminute, hcolon₂, zeroOfPlus_two hsecond,
    hzeroed⟩

/-- The times that are accepted are those of the grammar, unless a number begins with a plus sign
and zeros in the place of such signs give a time. -/
theorem accepts_exactly_iff (value : String) :
    (∀ e, parse_issued_at_epoch_seconds value = some e ↔ NamesTime value e) ↔
      plusAsZero (utf8.encode value) = utf8.encode value ∨
        ¬ ∃ s : Stamp, plusAsZero (utf8.encode value) = s.text := by
  constructor
  · intro hexact
    by_contra hno
    rw [not_or, not_not] at hno
    obtain ⟨hplus, s, hs⟩ := hno
    obtain ⟨s', htext, -⟩ := (hexact s.seconds).mp ((parse_iff value s.seconds).mpr ⟨s, hs, rfl⟩)
    rw [htext, plusAsZero_text] at hplus
    exact hplus rfl
  · rintro (hkeep | hnone) e
    · rw [parse_iff, hkeep]
      rfl
    · rw [parse_iff]
      constructor
      · rintro ⟨s, hs, -⟩
        exact absurd ⟨s, hs⟩ hnone
      · rintro ⟨s, hs, -⟩
        exact absurd ⟨s, by rw [hs, plusAsZero_text]⟩ hnone

/-- A year with a plus sign is read. -/
theorem accepts_plus_year :
    ¬ ∀ e, parse_issued_at_epoch_seconds "+026-06-01T00:00:00Z" = some e ↔
      NamesTime "+026-06-01T00:00:00Z" e := by
  intro hexact
  have hread : parse_issued_at_epoch_seconds "+026-06-01T00:00:00Z" = some (-61333632000) := by
    decide +kernel
  obtain ⟨s, htext, -⟩ := (hexact _).mp hread
  have hkept := plusAsZero_text s
  rw [← htext] at hkept
  exact absurd hkept (by decide +kernel)

end protocol
