-- SHA-256 as FIPS 180-4 gives it: padding, the message schedule, 64 rounds for each
-- block, and the eight words of the last state as 32 bytes.
import GuiShell.Bytes
import Mathlib.Logic.Function.Basic

namespace fips

/-! ## Words -/

def rotr (x : UInt32) (n : UInt32) : UInt32 := (x >>> n) ||| (x <<< (32 - n))

def ch (x y z : UInt32) : UInt32 := (x &&& y) ^^^ (~~~x &&& z)

def maj (x y z : UInt32) : UInt32 := (x &&& y) ^^^ (x &&& z) ^^^ (y &&& z)

def bigSigma0 (x : UInt32) : UInt32 := rotr x 2 ^^^ rotr x 13 ^^^ rotr x 22

def bigSigma1 (x : UInt32) : UInt32 := rotr x 6 ^^^ rotr x 11 ^^^ rotr x 25

def smallSigma0 (x : UInt32) : UInt32 := rotr x 7 ^^^ rotr x 18 ^^^ (x >>> 3)

def smallSigma1 (x : UInt32) : UInt32 := rotr x 17 ^^^ rotr x 19 ^^^ (x >>> 10)

/-- The round constants. -/
def k : List UInt32 := [
  0x428a2f98, 0x71374491, 0xb5c0fbcf, 0xe9b5dba5, 0x3956c25b, 0x59f111f1, 0x923f82a4, 0xab1c5ed5,
  0xd807aa98, 0x12835b01, 0x243185be, 0x550c7dc3, 0x72be5d74, 0x80deb1fe, 0x9bdc06a7, 0xc19bf174,
  0xe49b69c1, 0xefbe4786, 0x0fc19dc6, 0x240ca1cc, 0x2de92c6f, 0x4a7484aa, 0x5cb0a9dc, 0x76f988da,
  0x983e5152, 0xa831c66d, 0xb00327c8, 0xbf597fc7, 0xc6e00bf3, 0xd5a79147, 0x06ca6351, 0x14292967,
  0x27b70a85, 0x2e1b2138, 0x4d2c6dfc, 0x53380d13, 0x650a7354, 0x766a0abb, 0x81c2c92e, 0x92722c85,
  0xa2bfe8a1, 0xa81a664b, 0xc24b8b70, 0xc76c51a3, 0xd192e819, 0xd6990624, 0xf40e3585, 0x106aa070,
  0x19a4c116, 0x1e376c08, 0x2748774c, 0x34b0bcb5, 0x391c0cb3, 0x4ed8aa4a, 0x5b9cca4f, 0x682e6ff3,
  0x748f82ee, 0x78a5636f, 0x84c87814, 0x8cc70208, 0x90befffa, 0xa4506ceb, 0xbef9a3f7, 0xc67178f2]

/-! ## Padding -/

/-- A number as eight bytes, the high one first. -/
def lengthBytes (n : Nat) : Bytes := (List.range 8).map fun i => UInt8.ofNat (n >>> (8 * (7 - i)))

/-- The number of zero bytes that bring the message, the byte `0x80` and the length to a
whole number of blocks. -/
def zeros (length : Nat) : Nat := (119 - length % 64) % 64

def pad (m : Bytes) : Bytes :=
  m ++ 0x80 :: (List.replicate (zeros m.length) 0 ++ lengthBytes (8 * m.length))

theorem pad_length (m : Bytes) : (pad m).length % 64 = 0 := by
  simp only [pad, zeros, lengthBytes, List.length_append, List.length_cons, List.length_replicate,
    List.length_map, List.length_range]
  omega

def word (a b c d : UInt8) : UInt32 :=
  a.toUInt32 <<< 24 ||| b.toUInt32 <<< 16 ||| c.toUInt32 <<< 8 ||| d.toUInt32

/-- The big-endian words of a byte string. -/
def words : Bytes → List UInt32
  | a :: b :: c :: d :: rest => word a b c d :: words rest
  | _ => []

/-- The blocks of 64 bytes, each as 16 words. -/
def blocks (m : Bytes) : List (List UInt32) :=
  (List.range (m.length / 64)).map fun i => words ((m.drop (64 * i)).take 64)

/-! ## The rounds -/

/-- The next word of the schedule from the words before it, the last one first. -/
def nextWord (w : List UInt32) : UInt32 :=
  smallSigma1 (w.getD 1 0) + w.getD 6 0 + smallSigma0 (w.getD 14 0) + w.getD 15 0

def extend : Nat → List UInt32 → List UInt32
  | 0, w => w
  | n + 1, w => extend n (nextWord w :: w)

/-- The 64 words of the schedule of a block. -/
def schedule (block : List UInt32) : List UInt32 := (extend 48 block.reverse).reverse

structure State where
  a : UInt32
  b : UInt32
  c : UInt32
  d : UInt32
  e : UInt32
  f : UInt32
  g : UInt32
  h : UInt32
  deriving DecidableEq

def initial : State :=
  ⟨0x6a09e667, 0xbb67ae85, 0x3c6ef372, 0xa54ff53a, 0x510e527f, 0x9b05688c, 0x1f83d9ab, 0x5be0cd19⟩

def round (s : State) (kw : UInt32 × UInt32) : State :=
  let t1 := s.h + bigSigma1 s.e + ch s.e s.f s.g + kw.1 + kw.2
  let t2 := bigSigma0 s.a + maj s.a s.b s.c
  ⟨t1 + t2, s.a, s.b, s.c, s.d + t1, s.e, s.f, s.g⟩

def State.add (s t : State) : State :=
  ⟨s.a + t.a, s.b + t.b, s.c + t.c, s.d + t.d, s.e + t.e, s.f + t.f, s.g + t.g, s.h + t.h⟩

def compress (s : State) (block : List UInt32) : State :=
  s.add ((k.zip (schedule block)).foldl round s)

def wordBytes (x : UInt32) : Bytes :=
  [(x >>> 24).toUInt8, (x >>> 16).toUInt8, (x >>> 8).toUInt8, x.toUInt8]

def State.bytes (s : State) : Bytes :=
  [s.a, s.b, s.c, s.d, s.e, s.f, s.g, s.h].flatMap wordBytes

/-- The digest of a message. -/
def digest (m : Bytes) : Bytes := ((blocks (pad m)).foldl compress initial).bytes

@[simp] theorem digest_length (m : Bytes) : (digest m).length = 32 := rfl

example : hex.encode (digest (utf8.encode "abc")) =
    "ba7816bf8f01cfea414140de5dae2223b00361a396177a9cb410ff61f20015ad" := by decide +kernel

/-! ## A digest with no collisions -/

/-- The digest on the inputs of `xs`. Every other input is its own digest, behind 33 zero
bytes that no real digest has room for. -/
def pinned (xs : List Bytes) (m : Bytes) : Bytes :=
  if m ∈ xs then digest m else List.replicate 33 0 ++ m

theorem pinned_injective {xs : List Bytes}
    (h : ∀ a ∈ xs, ∀ b ∈ xs, digest a = digest b → a = b) : Function.Injective (pinned xs) := by
  have hlen : ∀ a b : Bytes, digest a ≠ List.replicate 33 0 ++ b := by
    intro a b hab
    have := congrArg List.length hab
    rw [digest_length, List.length_append, List.length_replicate] at this
    omega
  intro a b hab
  unfold pinned at hab
  split at hab <;> split at hab
  · exact h a ‹_› b ‹_› hab
  · exact absurd hab (hlen a b)
  · exact absurd hab.symm (hlen b a)
  · exact List.append_cancel_left hab

end fips
