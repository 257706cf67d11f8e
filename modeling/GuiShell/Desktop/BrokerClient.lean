-- The payload hash of the Dart client (broker_client.dart): the payload with sorted keys,
-- as `jsonEncode` writes it, under the client's own SHA-256.
import GuiShell.Bytes
import GuiShell.Utf16

open json

namespace broker_client

/-! ## The canonical payload -/

/-- The entries of a `SplayTreeMap` with string keys, in the order of `String.compareTo`. -/
def splayTreeMap (entries : List (String × Value)) : List (String × Value) :=
  (sorted_map.ofList (entries.map fun e => (utf16.Key.mk e.1, e.2))).map fun e => (e.1.val, e.2)

mutual
def canonicalizeJsonValue : Value → Value
  | .object entries => .object (splayTreeMap (canonicalizeEntries entries))
  | .array items => .array (canonicalizeItems items)
  | value => value
def canonicalizeItems : List Value → List Value
  | [] => []
  | value :: items => canonicalizeJsonValue value :: canonicalizeItems items
def canonicalizeEntries : List (String × Value) → List (String × Value)
  | [] => []
  | (key, value) :: entries => (key, canonicalizeJsonValue value) :: canonicalizeEntries entries
end

/-- `jsonEncode`, which escapes what JSON demands and nothing else. -/
def jsonEncode (value : Value) : String := .ofList (print compact raw 0 value)

/-- The text that the client hashes. -/
def canonicalJson (payload : Option Value) : String :=
  jsonEncode (canonicalizeJsonValue (payload.getD .null))

/-! ## SHA-256 -/

/-- The integers of Dart: 64 bits, two's complement. -/
abbrev DartInt := BitVec 64

def mask : DartInt := 0xffffffff

/-- The signed shift of Dart. -/
def shiftRight (value : DartInt) (bits : Nat) : DartInt := value.sshiftRight bits

def rotr (value : DartInt) (bits : Nat) : DartInt :=
  (shiftRight value bits ||| value <<< (32 - bits)) &&& mask

def k : List DartInt := [
  0x428a2f98, 0x71374491, 0xb5c0fbcf, 0xe9b5dba5, 0x3956c25b, 0x59f111f1, 0x923f82a4, 0xab1c5ed5,
  0xd807aa98, 0x12835b01, 0x243185be, 0x550c7dc3, 0x72be5d74, 0x80deb1fe, 0x9bdc06a7, 0xc19bf174,
  0xe49b69c1, 0xefbe4786, 0x0fc19dc6, 0x240ca1cc, 0x2de92c6f, 0x4a7484aa, 0x5cb0a9dc, 0x76f988da,
  0x983e5152, 0xa831c66d, 0xb00327c8, 0xbf597fc7, 0xc6e00bf3, 0xd5a79147, 0x06ca6351, 0x14292967,
  0x27b70a85, 0x2e1b2138, 0x4d2c6dfc, 0x53380d13, 0x650a7354, 0x766a0abb, 0x81c2c92e, 0x92722c85,
  0xa2bfe8a1, 0xa81a664b, 0xc24b8b70, 0xc76c51a3, 0xd192e819, 0xd6990624, 0xf40e3585, 0x106aa070,
  0x19a4c116, 0x1e376c08, 0x2748774c, 0x34b0bcb5, 0x391c0cb3, 0x4ed8aa4a, 0x5b9cca4f, 0x682e6ff3,
  0x748f82ee, 0x78a5636f, 0x84c87814, 0x8cc70208, 0x90befffa, 0xa4506ceb, 0xbef9a3f7, 0xc67178f2]

/-- The zeros that the `while` loop adds. It ends within a block. -/
def addZeros : Nat → List DartInt → List DartInt
  | 0, message => message
  | fuel + 1, message =>
    if message.length % 64 ≠ 56 then addZeros fuel (message ++ [0]) else message

/-- The message with its padding and the eight bytes of its length in bits. -/
def padded (input : List DartInt) : List DartInt :=
  let bitLength : DartInt := BitVec.ofNat 64 input.length * 8
  let message := addZeros 64 (input ++ [0x80])
  message ++ [56, 48, 40, 32, 24, 16, 8, 0].map fun shift => shiftRight bitLength shift &&& 0xff

/-- `w[index]` for `index` below 16. -/
def messageWord (message : List DartInt) (chunk index : Nat) : DartInt :=
  let offset := chunk + index * 4
  (message.getD offset 0 <<< 24 ||| message.getD (offset + 1) 0 <<< 16 |||
    message.getD (offset + 2) 0 <<< 8 ||| message.getD (offset + 3) 0) &&& mask

/-- `w[index]` for `index` from 16 on, where `w` holds the words before it. -/
def nextWord (w : List DartInt) (index : Nat) : DartInt :=
  let w15 := w.getD (index - 15) 0
  let w2 := w.getD (index - 2) 0
  let s0 := rotr w15 7 ^^^ rotr w15 18 ^^^ shiftRight w15 3
  let s1 := rotr w2 17 ^^^ rotr w2 19 ^^^ shiftRight w2 10
  (w.getD (index - 16) 0 + s0 + w.getD (index - 7) 0 + s1) &&& mask

def schedule (message : List DartInt) (chunk : Nat) : List DartInt :=
  (List.range' 16 48).foldl (fun w index => w ++ [nextWord w index])
    ((List.range 16).map (messageWord message chunk))

/-- The eight variables of the rounds. -/
structure Registers where
  a : DartInt
  b : DartInt
  c : DartInt
  d : DartInt
  e : DartInt
  f : DartInt
  g : DartInt
  h : DartInt

def initial : Registers :=
  ⟨0x6a09e667, 0xbb67ae85, 0x3c6ef372, 0xa54ff53a, 0x510e527f, 0x9b05688c, 0x1f83d9ab, 0x5be0cd19⟩

def round (w : List DartInt) (r : Registers) (index : Nat) : Registers :=
  let s1 := rotr r.e 6 ^^^ rotr r.e 11 ^^^ rotr r.e 25
  let ch := (r.e &&& r.f) ^^^ ((~~~r.e &&& mask) &&& r.g)
  let temp1 := (r.h + s1 + ch + k.getD index 0 + w.getD index 0) &&& mask
  let s0 := rotr r.a 2 ^^^ rotr r.a 13 ^^^ rotr r.a 22
  let maj := (r.a &&& r.b) ^^^ (r.a &&& r.c) ^^^ (r.b &&& r.c)
  let temp2 := (s0 + maj) &&& mask
  ⟨(temp1 + temp2) &&& mask, r.a, r.b, r.c, (r.d + temp1) &&& mask, r.e, r.f, r.g⟩

/-- What one chunk does to `h0` … `h7`. -/
def compress (message : List DartInt) (s : Registers) (chunk : Nat) : Registers :=
  let r := (List.range 64).foldl (round (schedule message chunk)) s
  ⟨(s.a + r.a) &&& mask, (s.b + r.b) &&& mask, (s.c + r.c) &&& mask, (s.d + r.d) &&& mask,
    (s.e + r.e) &&& mask, (s.f + r.f) &&& mask, (s.g + r.g) &&& mask, (s.h + r.h) &&& mask⟩

def wordBytes (word : DartInt) : List DartInt :=
  [shiftRight word 24 &&& 0xff, shiftRight word 16 &&& 0xff, shiftRight word 8 &&& 0xff,
    word &&& 0xff]

def sha256 (input : List DartInt) : List DartInt :=
  let message := padded input
  let s := ((List.range (message.length / 64)).map (64 * ·)).foldl (compress message) initial
  [s.a, s.b, s.c, s.d, s.e, s.f, s.g, s.h].flatMap wordBytes

/-- A byte as an integer of Dart. -/
def ofByte (b : UInt8) : DartInt := b.toBitVec.setWidth 64

def sha256Tagged (bytes : Bytes) : String :=
  let digest := sha256 (bytes.map ofByte)
  "sha256:" ++ .ofList (digest.flatMap fun byte =>
    [hex.digit (byte.toNat / 16), hex.digit (byte.toNat % 16)])

def payloadHash (payload : Option Value) : String := sha256Tagged (utf8.encode (canonicalJson payload))

end broker_client
