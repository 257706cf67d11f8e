-- HMAC as RFC 2104 gives it, over any hash of bytes with blocks of any length.
import GuiShell.Bytes

namespace rfc2104

variable (H : Bytes → Bytes) (B : Nat)

/-- The XOR of two byte strings, byte by byte. -/
def xor (a b : Bytes) : Bytes := List.zipWith (· ^^^ ·) a b

/-- The byte 0x36, once for each byte of a block. -/
def ipad : Bytes := List.replicate B 0x36

/-- The byte 0x5C, once for each byte of a block. -/
def opad : Bytes := List.replicate B 0x5c

/-- A key that is longer than a block is hashed first. -/
def shortKey (K : Bytes) : Bytes := if B < K.length then H K else K

/-- Zeros are appended to the key up to a whole block. -/
def blockKey (K : Bytes) : Bytes :=
  shortKey H B K ++ List.replicate (B - (shortKey H B K).length) 0

def hmac (K text : Bytes) : Bytes :=
  H (xor (blockKey H B K) (opad B) ++ H (xor (blockKey H B K) (ipad B) ++ text))

variable {H B}

/-- Where a hash fits in a block, the key is one block. -/
theorem blockKey_length (hfits : ∀ m, (H m).length ≤ B) (K : Bytes) :
    (blockKey H B K).length = B := by
  have hshort : (shortKey H B K).length ≤ B := by
    unfold shortKey
    by_cases hlong : B < K.length
    · rw [if_pos hlong]
      exact hfits K
    · rw [if_neg hlong]
      exact not_lt.mp hlong
  rw [blockKey, List.length_append, List.length_replicate]
  omega

/-- One byte against every byte of a block. -/
theorem xor_replicate {a : Bytes} (h : a.length = B) (b : UInt8) :
    xor a (List.replicate B b) = a.map fun x => b ^^^ x := by
  induction a generalizing B with
  | nil =>
    subst h
    rfl
  | cons x a ih =>
    subst h
    rw [xor, List.length_cons, List.replicate_succ, List.zipWith_cons_cons, ← xor, ih rfl,
      List.map_cons, UInt8.xor_comm]

end rfc2104
