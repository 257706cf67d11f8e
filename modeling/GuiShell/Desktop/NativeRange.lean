-- The client's SHA-256 (broker_client.dart) with its integers checked: a sum, a shift to the
-- left or a product that 64 bits do not hold is no result. The masks keep every word below
-- 2^32, so no check on the words fails, for a message of any length.
import GuiShell.Desktop.Sha256
import Mathlib.Tactic.Ring

namespace broker_client

/-! ## Checked operations -/

/-- An integer, when 64 bits with a sign hold it. -/
def native (n : Int) : Option DartInt :=
  if -2 ^ 63 ≤ n ∧ n < 2 ^ 63 then some (BitVec.ofInt 64 n) else none

def plusExact (d e : DartInt) : Option DartInt := native (d.toInt + e.toInt)

def shiftLeftExact (d : DartInt) (bits : Nat) : Option DartInt := native (d.toInt * 2 ^ bits)

/-- A sum, from the left to the right. -/
def sumExact (first : DartInt) (rest : List DartInt) : Option DartInt := rest.foldlM plusExact first

theorem native_of_lt {n : Nat} (h : n < 2 ^ 63) : native n = some (BitVec.ofNat 64 n) := by
  rw [native, if_pos (by omega), BitVec.ofInt_natCast]

theorem toInt_of_lt {d : DartInt} (h : d.toNat < 2 ^ 63) : d.toInt = d.toNat :=
  BitVec.toInt_eq_toNat_of_lt (by omega)

theorem plusExact_eq {d e : DartInt} (h : d.toNat + e.toNat < 2 ^ 63) :
    plusExact d e = some (d + e) := by
  rw [plusExact, toInt_of_lt (by omega), toInt_of_lt (by omega), ← Int.natCast_add, native_of_lt h,
    BitVec.ofNat_add, BitVec.ofNat_toNat, BitVec.ofNat_toNat, BitVec.setWidth_eq, BitVec.setWidth_eq]

theorem shiftLeftExact_eq {d : DartInt} {bits : Nat} (h : d.toNat * 2 ^ bits < 2 ^ 63) :
    shiftLeftExact d bits = some (d <<< bits) := by
  have hle : d.toNat ≤ d.toNat * 2 ^ bits := Nat.le_mul_of_pos_right _ (Nat.two_pow_pos bits)
  have hcast : (d.toNat : Int) * 2 ^ bits = ((d.toNat * 2 ^ bits : Nat) : Int) := by
    push_cast
    rfl
  rw [shiftLeftExact, toInt_of_lt (by omega), hcast, native_of_lt h, Option.some.injEq]
  apply BitVec.eq_of_toNat_eq
  rw [BitVec.toNat_ofNat, BitVec.toNat_shiftLeft, Nat.shiftLeft_eq]

theorem sumExact_eq {first : DartInt} {rest : List DartInt}
    (h : first.toNat + (rest.map BitVec.toNat).sum < 2 ^ 63) :
    sumExact first rest = some (rest.foldl (· + ·) first) := by
  unfold sumExact
  induction rest generalizing first with
  | nil => rfl
  | cons d rest ih =>
    rw [List.map_cons, List.sum_cons] at h
    have hsum : first.toNat + d.toNat < 2 ^ 63 := by omega
    have hd : (first + d).toNat = first.toNat + d.toNat :=
      BitVec.toNat_add_of_lt (by omega)
    rw [List.foldlM_cons, plusExact_eq hsum, List.foldl_cons]
    apply ih
    omega

/-! ## The algorithm with its checks -/

def rotrExact (value : DartInt) (bits : Nat) : Option DartInt := do
  let high ← shiftLeftExact value (32 - bits)
  some ((shiftRight value bits ||| high) &&& mask)

/-- The three rotations of a sum, each with its check. -/
def rotationsExact (value : DartInt) (x y z : Nat) : Option DartInt := do
  let rx ← rotrExact value x
  let ry ← rotrExact value y
  let rz ← rotrExact value z
  some (rx ^^^ ry ^^^ rz)

def paddedExact (input : List DartInt) : Option (List DartInt) := do
  let bitLength ← native (input.length * 8)
  let message := addZeros 64 (input ++ [0x80])
  some (message ++ [56, 48, 40, 32, 24, 16, 8, 0].map fun shift =>
    shiftRight bitLength shift &&& 0xff)

def messageWordExact (message : List DartInt) (chunk index : Nat) : Option DartInt := do
  let offset := chunk + index * 4
  let b0 ← shiftLeftExact (message.getD offset 0) 24
  let b1 ← shiftLeftExact (message.getD (offset + 1) 0) 16
  let b2 ← shiftLeftExact (message.getD (offset + 2) 0) 8
  some ((b0 ||| b1 ||| b2 ||| message.getD (offset + 3) 0) &&& mask)

def nextWordExact (w : List DartInt) (index : Nat) : Option DartInt := do
  let w15 := w.getD (index - 15) 0
  let w2 := w.getD (index - 2) 0
  let r7 ← rotrExact w15 7
  let r18 ← rotrExact w15 18
  let r17 ← rotrExact w2 17
  let r19 ← rotrExact w2 19
  let s0 := r7 ^^^ r18 ^^^ shiftRight w15 3
  let s1 := r17 ^^^ r19 ^^^ shiftRight w2 10
  let sum ← sumExact (w.getD (index - 16) 0) [s0, w.getD (index - 7) 0, s1]
  some (sum &&& mask)

def scheduleExact (message : List DartInt) (chunk : Nat) : Option (List DartInt) := do
  let first ← (List.range 16).mapM (messageWordExact message chunk)
  (List.range' 16 48).foldlM (fun w index => (nextWordExact w index).map fun next => w ++ [next])
    first

def roundExact (w : List DartInt) (r : Registers) (index : Nat) : Option Registers := do
  let s1 ← rotationsExact r.e 6 11 25
  let ch := (r.e &&& r.f) ^^^ ((~~~r.e &&& mask) &&& r.g)
  let sum1 ← sumExact r.h [s1, ch, k.getD index 0, w.getD index 0]
  let temp1 := sum1 &&& mask
  let s0 ← rotationsExact r.a 2 13 22
  let maj := (r.a &&& r.b) ^^^ (r.a &&& r.c) ^^^ (r.b &&& r.c)
  let sum2 ← plusExact s0 maj
  let temp2 := sum2 &&& mask
  let e ← plusExact r.d temp1
  let a ← plusExact temp1 temp2
  some ⟨a &&& mask, r.a, r.b, r.c, e &&& mask, r.e, r.f, r.g⟩

def compressExact (message : List DartInt) (s : Registers) (chunk : Nat) : Option Registers := do
  let w ← scheduleExact message chunk
  let r ← (List.range 64).foldlM (roundExact w) s
  let a ← plusExact s.a r.a
  let b ← plusExact s.b r.b
  let c ← plusExact s.c r.c
  let d ← plusExact s.d r.d
  let e ← plusExact s.e r.e
  let f ← plusExact s.f r.f
  let g ← plusExact s.g r.g
  let h ← plusExact s.h r.h
  some ⟨a &&& mask, b &&& mask, c &&& mask, d &&& mask, e &&& mask, f &&& mask, g &&& mask,
    h &&& mask⟩

/-- The digest of a padded message. -/
def hashExact (message : List DartInt) : Option (List DartInt) := do
  let s ← ((List.range (message.length / 64)).map (64 * ·)).foldlM (compressExact message) initial
  some ([s.a, s.b, s.c, s.d, s.e, s.f, s.g, s.h].flatMap wordBytes)

def sha256Exact (input : List DartInt) : Option (List DartInt) := paddedExact input >>= hashExact

/-! ## The words -/

/-- A Dart integer below 2^32. -/
def IsWord (d : DartInt) : Prop := ∃ u, d = wide u

theorem isWord_mask (d : DartInt) : IsWord (d &&& mask) := ⟨low d, and_mask d⟩

theorem IsWord.lt {d : DartInt} (h : IsWord d) : d.toNat < 2 ^ 32 := by
  obtain ⟨u, rfl⟩ := h
  rw [toNat_wide]
  exact u.toNat_lt

theorem IsWord.xor {d e : DartInt} (hd : IsWord d) (he : IsWord e) : IsWord (d ^^^ e) := by
  obtain ⟨u, rfl⟩ := hd
  obtain ⟨v, rfl⟩ := he
  exact ⟨_, wide_xor u v⟩

theorem IsWord.and {d e : DartInt} (hd : IsWord d) (he : IsWord e) : IsWord (d &&& e) := by
  obtain ⟨u, rfl⟩ := hd
  obtain ⟨v, rfl⟩ := he
  exact ⟨_, wide_and u v⟩

theorem IsWord.shiftRight {d : DartInt} (h : IsWord d) {n : Nat} (hn : n < 32) :
    IsWord (shiftRight d n) := by
  obtain ⟨u, rfl⟩ := h
  exact ⟨_, shiftRight_wide u hn⟩

theorem IsWord.rotr (d : DartInt) (n : Nat) : IsWord (rotr d n) := isWord_mask _

theorem isWord_ofByte (b : UInt8) : IsWord (ofByte b) := by
  refine ⟨b.toUInt32, BitVec.eq_of_toNat_eq ?_⟩
  have := b.toNat_lt
  rw [toNat_wide, ofByte, BitVec.toNat_setWidth, UInt8.toNat_toUInt32, UInt8.toNat_toBitVec]
  omega

theorem isWord_k (i : Nat) : IsWord (k.getD i 0) := by
  rw [k_eq, getD_map_wide]
  exact ⟨_, rfl⟩

theorem isWord_getD {w : List DartInt} (h : ∀ d ∈ w, IsWord d) (i : Nat) : IsWord (w.getD i 0) := by
  rw [List.getD_eq_getElem?_getD]
  rcases hi : w[i]? with _ | d
  · exact ⟨0, rfl⟩
  · exact h d (List.mem_of_getElem? hi)

/-- A loop whose steps succeed, and keep what they need, succeeds. -/
theorem foldlM_eq_some {α β : Type} {P : α → Prop} {f : α → β → Option α} {g : α → β → α}
    (hstep : ∀ a b, P a → f a b = some (g a b) ∧ P (g a b)) (l : List β) {a : α} (ha : P a) :
    l.foldlM f a = some (l.foldl g a) ∧ P (l.foldl g a) := by
  induction l generalizing a with
  | nil => exact ⟨rfl, ha⟩
  | cons b l ih =>
    obtain ⟨hb, hkept⟩ := hstep a b ha
    rw [List.foldlM_cons, hb, List.foldl_cons]
    exact ih hkept

theorem mapM_eq_some {α β : Type} {f : α → Option β} {g : α → β} {l : List α}
    (h : ∀ a ∈ l, f a = some (g a)) : l.mapM f = some (l.map g) := by
  induction l with
  | nil => rfl
  | cons a l ih =>
    rw [List.mapM_cons, h a List.mem_cons_self, ih fun b hb => h b (List.mem_cons_of_mem _ hb)]
    rfl

/-! ## No check fails -/

theorem rotrExact_eq {d : DartInt} (h : IsWord d) {bits : Nat} (h2 : 2 ≤ bits) :
    rotrExact d bits = some (rotr d bits) := by
  have hpow : 2 ^ (32 - bits) ≤ 2 ^ 30 := Nat.pow_le_pow_right (by decide) (by omega)
  have hproduct : d.toNat * 2 ^ (32 - bits) ≤ 2 ^ 32 * 2 ^ 30 := Nat.mul_le_mul h.lt.le hpow
  rw [rotrExact, shiftLeftExact_eq (Nat.lt_of_le_of_lt hproduct (by decide))]
  rfl

theorem rotationsExact_eq {d : DartInt} (h : IsWord d) {x y z : Nat} (hx : 2 ≤ x) (hy : 2 ≤ y)
    (hz : 2 ≤ z) : rotationsExact d x y z = some (rotr d x ^^^ rotr d y ^^^ rotr d z) := by
  rw [rotationsExact, rotrExact_eq h hx, rotrExact_eq h hy, rotrExact_eq h hz]
  rfl

theorem messageWordExact_eq {message : List DartInt} (h : ∀ d ∈ message, IsWord d)
    (chunk index : Nat) :
    messageWordExact message chunk index = some (messageWord message chunk index) := by
  have hshift : ∀ i bits, bits ≤ 24 → (message.getD i 0).toNat * 2 ^ bits < 2 ^ 63 := by
    intro i bits hbits
    have hpow : 2 ^ bits ≤ 2 ^ 24 := Nat.pow_le_pow_right (by decide) hbits
    exact Nat.lt_of_le_of_lt (Nat.mul_le_mul (isWord_getD h i).lt.le hpow) (by decide)
  dsimp only [messageWordExact]
  rw [shiftLeftExact_eq (hshift _ 24 (by decide)), shiftLeftExact_eq (hshift _ 16 (by decide)),
    shiftLeftExact_eq (hshift _ 8 (by decide))]
  rfl

theorem nextWordExact_eq {w : List DartInt} (h : ∀ d ∈ w, IsWord d) (index : Nat) :
    nextWordExact w index = some (nextWord w index) := by
  have hw := isWord_getD h
  have hs0 : IsWord (rotr (w.getD (index - 15) 0) 7 ^^^ rotr (w.getD (index - 15) 0) 18 ^^^
      shiftRight (w.getD (index - 15) 0) 3) :=
    ((IsWord.rotr _ _).xor (.rotr _ _)).xor ((hw _).shiftRight (by decide))
  have hs1 : IsWord (rotr (w.getD (index - 2) 0) 17 ^^^ rotr (w.getD (index - 2) 0) 19 ^^^
      shiftRight (w.getD (index - 2) 0) 10) :=
    ((IsWord.rotr _ _).xor (.rotr _ _)).xor ((hw _).shiftRight (by decide))
  dsimp only [nextWordExact]
  rw [rotrExact_eq (hw _) (by decide), rotrExact_eq (hw _) (by decide),
    rotrExact_eq (hw _) (by decide), rotrExact_eq (hw _) (by decide)]
  dsimp only [Option.bind_eq_bind, Option.bind_some]
  rw [sumExact_eq]
  · rfl
  · have h16 := (hw (index - 16)).lt
    have h7 := (hw (index - 7)).lt
    have := hs0.lt
    have := hs1.lt
    simp only [List.map_cons, List.map_nil, List.sum_cons, List.sum_nil]
    omega

theorem scheduleExact_eq {message : List DartInt} (h : ∀ d ∈ message, IsWord d) (chunk : Nat) :
    scheduleExact message chunk = some (schedule message chunk) ∧
      ∀ d ∈ schedule message chunk, IsWord d := by
  have hfirst : ∀ d ∈ (List.range 16).map (messageWord message chunk), IsWord d := by
    intro d hd
    obtain ⟨index, _, rfl⟩ := List.mem_map.mp hd
    exact isWord_mask _
  have hstep : ∀ (w : List DartInt) (index : Nat), (∀ d ∈ w, IsWord d) →
      ((nextWordExact w index).map fun next => w ++ [next]) = some (w ++ [nextWord w index]) ∧
        ∀ d ∈ w ++ [nextWord w index], IsWord d := by
    intro w index hw
    refine ⟨by rw [nextWordExact_eq hw, Option.map_some], fun d hd => ?_⟩
    rcases List.mem_append.mp hd with hd | hd
    · exact hw d hd
    · rw [List.mem_singleton.mp hd]
      exact isWord_mask _
  obtain ⟨hfold, hwords⟩ := foldlM_eq_some hstep (List.range' 16 48) hfirst
  refine ⟨?_, hwords⟩
  rw [scheduleExact, mapM_eq_some fun index _ => messageWordExact_eq h chunk index]
  exact hfold

/-- The eight variables are words. -/
structure Registers.AreWords (r : Registers) : Prop where
  a : IsWord r.a
  b : IsWord r.b
  c : IsWord r.c
  d : IsWord r.d
  e : IsWord r.e
  f : IsWord r.f
  g : IsWord r.g
  h : IsWord r.h

theorem areWords_wideState (s : fips.State) : (wideState s).AreWords :=
  ⟨⟨_, rfl⟩, ⟨_, rfl⟩, ⟨_, rfl⟩, ⟨_, rfl⟩, ⟨_, rfl⟩, ⟨_, rfl⟩, ⟨_, rfl⟩, ⟨_, rfl⟩⟩

theorem plusExact_words {d e : DartInt} (hd : IsWord d) (he : IsWord e) :
    plusExact d e = some (d + e) := by
  have := hd.lt
  have := he.lt
  exact plusExact_eq (by omega)

theorem roundExact_eq {w : List DartInt} (hw : ∀ d ∈ w, IsWord d) (r : Registers) (index : Nat)
    (hr : r.AreWords) :
    roundExact w r index = some (round w r index) ∧ (round w r index).AreWords := by
  refine ⟨?_, ⟨isWord_mask _, hr.a, hr.b, hr.c, isWord_mask _, hr.e, hr.f, hr.g⟩⟩
  have hs1 : IsWord (rotr r.e 6 ^^^ rotr r.e 11 ^^^ rotr r.e 25) :=
    ((IsWord.rotr _ _).xor (.rotr _ _)).xor (.rotr _ _)
  have hs0 : IsWord (rotr r.a 2 ^^^ rotr r.a 13 ^^^ rotr r.a 22) :=
    ((IsWord.rotr _ _).xor (.rotr _ _)).xor (.rotr _ _)
  have hch : IsWord ((r.e &&& r.f) ^^^ ((~~~r.e &&& mask) &&& r.g)) :=
    (hr.e.and hr.f).xor ((isWord_mask _).and hr.g)
  have hmaj : IsWord ((r.a &&& r.b) ^^^ (r.a &&& r.c) ^^^ (r.b &&& r.c)) :=
    ((hr.a.and hr.b).xor (hr.a.and hr.c)).xor (hr.b.and hr.c)
  dsimp only [roundExact]
  rw [rotationsExact_eq hr.e (by decide) (by decide) (by decide)]
  dsimp only [Option.bind_eq_bind, Option.bind_some]
  rw [sumExact_eq]
  · dsimp only [Option.bind_some]
    rw [rotationsExact_eq hr.a (by decide) (by decide) (by decide)]
    dsimp only [Option.bind_some]
    rw [plusExact_words hs0 hmaj]
    dsimp only [Option.bind_some]
    rw [plusExact_words hr.d (isWord_mask _)]
    dsimp only [Option.bind_some]
    rw [plusExact_words (isWord_mask _) (isWord_mask _)]
    rfl
  · have := hr.h.lt
    have := hs1.lt
    have := hch.lt
    have := (isWord_k index).lt
    have := (isWord_getD hw index).lt
    simp only [List.map_cons, List.map_nil, List.sum_cons, List.sum_nil]
    omega

theorem compressExact_eq {message : List DartInt} (h : ∀ d ∈ message, IsWord d) (s : Registers)
    (chunk : Nat) (hs : s.AreWords) :
    compressExact message s chunk = some (compress message s chunk) ∧
      (compress message s chunk).AreWords := by
  obtain ⟨hschedule, hw⟩ := scheduleExact_eq h chunk
  obtain ⟨hrounds, hr⟩ := foldlM_eq_some (roundExact_eq hw) (List.range 64) hs
  refine ⟨?_, ⟨isWord_mask _, isWord_mask _, isWord_mask _, isWord_mask _, isWord_mask _,
    isWord_mask _, isWord_mask _, isWord_mask _⟩⟩
  dsimp only [compressExact]
  rw [hschedule]
  dsimp only [Option.bind_eq_bind, Option.bind_some]
  rw [hrounds]
  dsimp only [Option.bind_some]
  rw [plusExact_words hs.a hr.a, plusExact_words hs.b hr.b, plusExact_words hs.c hr.c,
    plusExact_words hs.d hr.d, plusExact_words hs.e hr.e, plusExact_words hs.f hr.f,
    plusExact_words hs.g hr.g, plusExact_words hs.h hr.h]
  rfl

/-- No word of the algorithm leaves the range of the native integers. -/
theorem hashExact_padded (m : Bytes) :
    hashExact (padded (m.map ofByte)) = some (sha256 (m.map ofByte)) := by
  have hmessage : ∀ d ∈ padded (m.map ofByte), IsWord d := by
    intro d hd
    rw [padded_eq] at hd
    obtain ⟨b, _, rfl⟩ := List.mem_map.mp hd
    exact isWord_ofByte b
  have hinitial : initial.AreWords := areWords_wideState fips.initial
  obtain ⟨hfold, _⟩ := foldlM_eq_some (compressExact_eq hmessage)
    ((List.range ((padded (m.map ofByte)).length / 64)).map (64 * ·)) hinitial
  dsimp only [hashExact]
  rw [hfold]
  rfl

/-- The number of the bits leaves the range when the list has 2^60 bytes or more. -/
theorem paddedExact_eq (input : List DartInt) :
    paddedExact input = if input.length < 2 ^ 60 then some (padded input) else none := by
  unfold paddedExact
  by_cases h : input.length < 2 ^ 60
  · have hcast : (input.length : Int) * 8 = ((input.length * 8 : Nat) : Int) := by
      push_cast
      rfl
    rw [if_pos h, hcast, native_of_lt (by omega), BitVec.ofNat_mul]
    rfl
  · rw [if_neg h, native, if_neg (by omega)]
    rfl

theorem sha256Exact_eq (m : Bytes) : sha256Exact (m.map ofByte) =
    if m.length < 2 ^ 60 then some (sha256 (m.map ofByte)) else none := by
  rw [sha256Exact, paddedExact_eq, List.length_map]
  by_cases h : m.length < 2 ^ 60
  · rw [if_pos h, if_pos h]
    exact hashExact_padded m
  · rw [if_neg h, if_neg h]
    rfl

/-- The number of the bits of 2^60 bytes is too large for a native integer. -/
theorem bits_leave_range :
    ¬ ∀ m : Bytes, (sha256Exact (m.map ofByte)).isSome = true := by
  intro h
  have hlong := h (List.replicate (2 ^ 60) 0)
  rw [sha256Exact_eq, List.length_replicate, if_neg (lt_irrefl _)] at hlong
  cases hlong

/-! ## The digest of the client -/

/-- The number of some big-endian bytes. -/
def bigEndian (bytes : List DartInt) : Nat := bytes.foldl (fun n byte => 256 * n + byte.toNat) 0

/-- What the client's function does with a message. -/
structure Hashes (m : Bytes) : Prop where
  digest : sha256 (m.map ofByte) = (fips.digest m).map ofByte
  padding : padded (m.map ofByte) = (fips.pad m).map ofByte
  whole_blocks : (padded (m.map ofByte)).length % 64 = 0
  /-- The message, the byte 0x80, zeros for less than a block, and the number of the bits. -/
  fields : ∃ zeros length, padded (m.map ofByte) =
      m.map ofByte ++ 0x80 :: (List.replicate zeros 0 ++ length) ∧
    zeros < 64 ∧ length.length = 8 ∧ bigEndian length = 8 * m.length % 2 ^ 64
  schedule : ∀ i block, (fips.blocks (fips.pad m))[i]? = some block →
    schedule (padded (m.map ofByte)) (64 * i) = (fips.schedule block).map wide
  compress : ∀ i block, (fips.blocks (fips.pad m))[i]? = some block → ∀ s,
    compress (padded (m.map ofByte)) (wideState s) (64 * i) = wideState (fips.compress s block)
  words_in_range : hashExact (padded (m.map ofByte)) = some (sha256 (m.map ofByte))
  all_in_range : sha256Exact (m.map ofByte) =
    if m.length < 2 ^ 60 then some (sha256 (m.map ofByte)) else none

/-- The eight bytes of the length name it modulo 2^64. -/
theorem bigEndian_lengthBytes (n : Nat) :
    bigEndian ((fips.lengthBytes n).map ofByte) = n % 2 ^ 64 := by
  have hbyte : ∀ x : Nat, (ofByte (UInt8.ofNat x)).toNat = x % 256 := by
    intro x
    rw [ofByte, BitVec.toNat_setWidth, UInt8.toNat_toBitVec, UInt8.toNat_ofNat']
    omega
  have hbytes : (fips.lengthBytes n).map ofByte =
      [56, 48, 40, 32, 24, 16, 8, 0].map fun shift => ofByte (UInt8.ofNat (n >>> shift)) := by
    rw [fips.lengthBytes, List.map_map]
    rfl
  rw [hbytes, bigEndian]
  simp only [List.map_cons, List.map_nil, List.foldl_cons, List.foldl_nil, hbyte,
    Nat.shiftRight_eq_div_pow]
  omega

theorem block_of_getElem {m : Bytes} {i : Nat} {block : List UInt32}
    (h : (fips.blocks m)[i]? = some block) :
    64 * i + 64 ≤ m.length ∧ block = fips.words ((m.drop (64 * i)).take 64) := by
  rw [fips.blocks, List.getElem?_map, Option.map_eq_some_iff] at h
  obtain ⟨j, hj, rfl⟩ := h
  obtain ⟨hi, rfl⟩ := List.getElem?_eq_some_iff.mp hj
  rw [List.length_range] at hi
  rw [List.getElem_range]
  exact ⟨by omega, rfl⟩

/-- The client's function is SHA-256, and its words never leave the native range. -/
theorem hashes (m : Bytes) : Hashes m where
  digest := sha256_eq_digest m
  padding := padded_eq m
  whole_blocks := by
    rw [padded_eq, List.length_map]
    exact fips.pad_length m
  fields := by
    refine ⟨fips.zeros m.length, (fips.lengthBytes (8 * m.length)).map ofByte, ?_, ?_, ?_, ?_⟩
    · have h80 : ofByte 0x80 = 0x80 := rfl
      have h00 : ofByte 0 = 0 := rfl
      rw [padded_eq, fips.pad]
      simp [h80, h00]
    · exact Nat.mod_lt _ (by decide)
    · rfl
    · exact bigEndian_lengthBytes _
  schedule i block h := by
    obtain ⟨hi, rfl⟩ := block_of_getElem h
    rw [padded_eq]
    exact schedule_eq _ hi
  compress i block h s := by
    obtain ⟨hi, rfl⟩ := block_of_getElem h
    rw [padded_eq]
    exact compress_eq _ s hi
  words_in_range := hashExact_padded m
  all_in_range := sha256Exact_eq m

end broker_client
