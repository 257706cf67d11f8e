-- Byte strings: the UTF-8 bytes of a string, and the hexadecimal text of bytes. Both
-- can be read back.
import Mathlib.Data.String.Basic

/-! ## UTF-8 -/

abbrev Bytes := List UInt8

namespace utf8

/-- The bytes of a string. -/
def encode (s : String) : Bytes := s.toList.flatMap String.utf8EncodeChar

theorem encode_append (s t : String) : encode (s ++ t) = encode s ++ encode t := by
  simp [encode]

/-- Strings with the same bytes are equal. -/
theorem encode_inj {s t : String} (h : encode s = encode t) : s = t := by
  rw [← String.toByteArray_inj, ← String.utf8Encode_toList, ← String.utf8Encode_toList]
  exact List.toByteArray_inj.mpr h

theorem encode_ofList_inj {l m : List Char} (h : encode (.ofList l) = encode (.ofList m)) :
    l = m := by
  have := congrArg String.toList (encode_inj h)
  simpa only [String.toList_ofList] using this

/-- The string of valid UTF-8 bytes. -/
def decode (b : Bytes) : Option String :=
  (b.toByteArray.utf8Decode?).map fun chars => .ofList chars.toList

@[simp] theorem decode_encode (s : String) : decode (encode s) = some s := by
  have h : (encode s).toByteArray = s.toList.utf8Encode := rfl
  rw [decode, h, List.utf8Decode?_utf8Encode, Option.map_some, String.ofList_toList]

end utf8

/-! ## Hexadecimal text -/

namespace hex

/-- The lower-case hexadecimal digit of a number below 16. -/
def digit (n : Nat) : Char := if n < 10 then Char.ofNat (48 + n) else Char.ofNat (87 + n)

def value (c : Char) : Option Nat :=
  if '0' ≤ c ∧ c ≤ '9' then some (c.toNat - '0'.toNat)
  else if 'a' ≤ c ∧ c ≤ 'f' then some (c.toNat - 'a'.toNat + 10)
  else if 'A' ≤ c ∧ c ≤ 'F' then some (c.toNat - 'A'.toNat + 10)
  else none

theorem value_digit : ∀ n < 16, value (digit n) = some n := by decide

theorem digit_range : ∀ n < 16, 0x20 ≤ (digit n).toNat ∧ (digit n).toNat ≤ 0x7e := by decide

/-- The two digits of each byte, the high one first. -/
def digits (b : Bytes) : List Char :=
  b.flatMap fun x => [digit (x.toNat / 16), digit (x.toNat % 16)]

def encode (b : Bytes) : String := String.ofList (digits b)

def readDigits : List Char → Option Bytes
  | [] => some []
  | [_] => none
  | c :: d :: rest => do
    let hi ← value c
    let lo ← value d
    let b ← readDigits rest
    some (UInt8.ofNat (16 * hi + lo) :: b)

/-- An odd number of digits and a character that is no digit are errors. -/
def decode (s : String) : Option Bytes := readDigits s.toList

theorem readDigits_digits (b : Bytes) : readDigits (digits b) = some b := by
  induction b with
  | nil => rfl
  | cons x b ih =>
    have hx : x.toNat < 256 := x.toNat_lt
    have hi : value (digit (x.toNat / 16)) = some (x.toNat / 16) := value_digit _ (by omega)
    have lo : value (digit (x.toNat % 16)) = some (x.toNat % 16) := value_digit _ (by omega)
    have hb : readDigits (digits b) = some b := ih
    simp only [digits, List.flatMap_cons, List.cons_append, List.nil_append, readDigits]
    simp only [hi, lo, Option.bind_eq_bind, Option.bind_some]
    rw [show readDigits (List.flatMap _ b) = some b from hb]
    simp only [Option.bind_some, Nat.div_add_mod, UInt8.ofNat_toNat]

@[simp] theorem decode_encode (b : Bytes) : decode (encode b) = some b := by
  rw [decode, encode, String.toList_ofList, readDigits_digits]

theorem encode_inj {a b : Bytes} (h : encode a = encode b) : a = b := by
  have := congrArg decode h
  simpa using this

theorem digits_length (b : Bytes) : (digits b).length = 2 * b.length := by
  simp [digits, List.length_flatMap, Nat.mul_comm]

theorem mem_digits {b : Bytes} {c : Char} (h : c ∈ digits b) : ∃ n < 16, c = digit n := by
  simp only [digits, List.mem_flatMap, List.mem_cons, List.not_mem_nil, or_false] at h
  obtain ⟨x, _, rfl | rfl⟩ := h
  · exact ⟨_, by have := x.toNat_lt; omega, rfl⟩
  · exact ⟨_, by omega, rfl⟩

/-- The text is lower-case hexadecimal digits. -/
theorem digits_chars (b : Bytes) :
    ∀ c ∈ digits b, ('0' ≤ c ∧ c ≤ '9') ∨ ('a' ≤ c ∧ c ≤ 'f') := by
  have hd : ∀ n < 16, ('0' ≤ digit n ∧ digit n ≤ '9') ∨ ('a' ≤ digit n ∧ digit n ≤ 'f') := by
    decide
  intro c hc
  obtain ⟨n, hn, rfl⟩ := mem_digits hc
  exact hd n hn

end hex
