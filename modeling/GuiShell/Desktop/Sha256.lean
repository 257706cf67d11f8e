-- The SHA-256 of the Dart client is the one of FIPS 180-4. A word is a Dart integer below
-- 2^32, and each mask brings a result back to a word.
import GuiShell.Desktop.BrokerClient
import GuiShell.Sha256

namespace broker_client

/-! ## Words and bytes as Dart integers -/

def wide (u : UInt32) : DartInt := u.toBitVec.setWidth 64

/-- The low 32 bits of a Dart integer. -/
def low (d : DartInt) : UInt32 := ⟨d.setWidth 32⟩

@[simp] theorem low_wide (u : UInt32) : low (wide u) = u := by simp [low, wide]

theorem toNat_wide (u : UInt32) : (wide u).toNat = u.toNat := by
  have := u.toNat_lt
  rw [wide, BitVec.toNat_setWidth, UInt32.toNat_toBitVec]
  omega

theorem toNat_low (d : DartInt) : (low d).toNat = d.toNat % 2 ^ 32 := by
  rw [low, ← UInt32.toNat_toBitVec, BitVec.toNat_setWidth]

/-- The mask keeps the low word. -/
theorem and_mask (d : DartInt) : d &&& mask = wide (low d) := by
  apply BitVec.eq_of_toNat_eq
  have hmask : mask.toNat = 2 ^ 32 - 1 := rfl
  rw [BitVec.toNat_and, hmask, Nat.and_two_pow_sub_one_eq_mod, toNat_wide, toNat_low]

theorem low_add (d e : DartInt) : low (d + e) = low d + low e :=
  congrArg UInt32.ofBitVec (BitVec.setWidth_add d e (by decide))

theorem low_or (d e : DartInt) : low (d ||| e) = low d ||| low e :=
  congrArg UInt32.ofBitVec BitVec.setWidth_or

theorem low_not (d : DartInt) : low (~~~d) = ~~~low d :=
  congrArg UInt32.ofBitVec (BitVec.setWidth_not (by decide))

theorem wide_and (u v : UInt32) : wide u &&& wide v = wide (u &&& v) := by simp [wide]

theorem wide_xor (u v : UInt32) : wide u ^^^ wide v = wide (u ^^^ v) := by simp [wide]

theorem shiftRight_wide (u : UInt32) {n : Nat} (hn : n < 32) :
    shiftRight (wide u) n = wide (u >>> UInt32.ofNat n) := by
  have hmsb : (wide u).msb = false := by
    have := u.toNat_lt
    rw [BitVec.msb_eq_false_iff_two_mul_lt, toNat_wide]
    omega
  have hmod : n % 2 ^ 32 % 32 = n := by omega
  apply BitVec.eq_of_toNat_eq
  rw [shiftRight, BitVec.sshiftRight_eq_of_msb_false hmsb, BitVec.toNat_ushiftRight, toNat_wide,
    toNat_wide, UInt32.toNat_shiftRight, UInt32.toNat_ofNat', hmod]

theorem low_shiftLeft (d : DartInt) {n : Nat} (hn : n < 32) :
    low (d <<< n) = low d <<< UInt32.ofNat n := by
  have hmod : n % 2 ^ 32 % 32 = n := by omega
  apply UInt32.toNat_inj.mp
  rw [UInt32.toNat_shiftLeft, UInt32.toNat_ofNat', toNat_low, toNat_low, BitVec.toNat_shiftLeft,
    hmod, Nat.shiftLeft_eq, Nat.shiftLeft_eq, Nat.mod_mul_mod, Nat.mod_mod_of_dvd _ (by decide)]

theorem rotr_wide (u : UInt32) {n : Nat} (h0 : 0 < n) (hn : n < 32) :
    rotr (wide u) n = wide (fips.rotr u (UInt32.ofNat n)) := by
  have hsub : (32 : UInt32) - UInt32.ofNat n = UInt32.ofNat (32 - n) := by
    have h32 : (32 : UInt32).toNat = 32 := rfl
    apply UInt32.toNat_inj.mp
    rw [UInt32.toNat_sub, UInt32.toNat_ofNat', UInt32.toNat_ofNat', h32]
    omega
  rw [rotr, and_mask, low_or, shiftRight_wide u hn, low_shiftLeft _ (by omega), low_wide, low_wide,
    fips.rotr, hsub]

theorem low_ofByte (b : UInt8) : low (ofByte b) = b.toUInt32 := by
  apply UInt32.toNat_inj.mp
  have := b.toNat_lt
  rw [toNat_low, ofByte, BitVec.toNat_setWidth, UInt8.toNat_toUInt32, UInt8.toNat_toBitVec]
  omega

/-! ## The message -/

/-- The loop adds zeros up to the first length that fits, and stops there. -/
theorem addZeros_eq (z : Nat) {fuel : Nat} {message : List DartInt} (hz : z ≤ fuel)
    (hne : ∀ j < z, (message.length + j) % 64 ≠ 56) (hend : (message.length + z) % 64 = 56) :
    addZeros fuel message = message ++ List.replicate z 0 := by
  induction z generalizing fuel message with
  | zero =>
    cases fuel with
    | zero => simp [addZeros]
    | succ fuel =>
      rw [Nat.add_zero] at hend
      simp [addZeros, hend]
  | succ z ih =>
    obtain ⟨fuel, rfl⟩ : ∃ f, fuel = f + 1 := ⟨fuel - 1, by omega⟩
    have h0 := hne 0 (by omega)
    rw [Nat.add_zero] at h0
    rw [addZeros, if_pos h0, ih (by omega)]
    · rw [List.append_assoc, List.singleton_append, ← List.replicate_succ]
    · intro j hj
      have := hne (j + 1) (by omega)
      simpa [Nat.add_assoc, Nat.add_comm 1 j] using this
    · simpa [Nat.add_assoc, Nat.add_comm 1 z] using hend

/-- A byte of the length, whatever the sign of the shifted integer. -/
theorem lengthByte (n : Nat) {shift : Nat} (hs : shift ≤ 56) :
    shiftRight (BitVec.ofNat 64 n * 8) shift &&& 0xff = ofByte (UInt8.ofNat ((8 * n) >>> shift)) := by
  have hmul : BitVec.ofNat 64 n * 8 = BitVec.ofNat 64 (8 * n) := by
    rw [Nat.mul_comm, BitVec.ofNat_mul]
    rfl
  have hff : ∀ (i : Nat) (hi : i < 64), (0xff : DartInt)[i] = decide (i < 8) := by decide
  rw [hmul]
  ext i hi
  have hbyte : (ofByte (UInt8.ofNat ((8 * n) >>> shift)))[i] =
      (decide (i < 8) && Nat.testBit (8 * n) (shift + i)) := by
    simp [ofByte, BitVec.getElem_setWidth, UInt8.toBitVec_ofNat', BitVec.getLsbD_ofNat]
  rw [BitVec.getElem_and, hff i hi, hbyte, shiftRight, BitVec.getElem_sshiftRight]
  by_cases h8 : i < 8
  · have h64 : shift + i < 64 := by omega
    simp [h8, h64, ← BitVec.getLsbD_eq_getElem, BitVec.getLsbD_ofNat]
  · simp [h8]

theorem padded_eq (m : Bytes) : padded (m.map ofByte) = (fips.pad m).map ofByte := by
  have hz : addZeros 64 (m.map ofByte ++ [0x80]) =
      (m.map ofByte ++ [0x80]) ++ List.replicate (fips.zeros m.length) 0 := by
    apply addZeros_eq
    · unfold fips.zeros
      omega
    · intro j hj
      unfold fips.zeros at hj
      simp only [List.length_append, List.length_map, List.length_singleton]
      omega
    · unfold fips.zeros
      simp only [List.length_append, List.length_map, List.length_singleton]
      omega
  have h80 : ofByte 0x80 = 0x80 := rfl
  have h00 : ofByte 0 = 0 := rfl
  have hlen : [56, 48, 40, 32, 24, 16, 8, 0].map (fun shift =>
      shiftRight (BitVec.ofNat 64 m.length * 8) shift &&& 0xff) =
      (fips.lengthBytes (8 * m.length)).map ofByte := by
    rw [fips.lengthBytes, List.map_map]
    change _ = [56, 48, 40, 32, 24, 16, 8, 0].map fun shift =>
      ofByte (UInt8.ofNat ((8 * m.length) >>> shift))
    refine List.map_congr_left fun shift hs => lengthByte m.length ?_
    simp only [List.mem_cons, List.not_mem_nil, or_false] at hs
    omega
  rw [padded, hz, List.length_map, hlen, fips.pad]
  simp [h80, h00]

/-! ## The schedule -/

theorem getD_map_ofByte (m : Bytes) (i : Nat) : (m.map ofByte).getD i 0 = ofByte (m.getD i 0) := by
  rw [List.getD_eq_getElem?_getD, List.getD_eq_getElem?_getD, List.getElem?_map]
  cases m[i]? <;> rfl

theorem messageWord_eq (m : Bytes) (chunk index : Nat) :
    messageWord (m.map ofByte) chunk index =
      wide (fips.word (m.getD (chunk + index * 4) 0) (m.getD (chunk + index * 4 + 1) 0)
        (m.getD (chunk + index * 4 + 2) 0) (m.getD (chunk + index * 4 + 3) 0)) := by
  simp only [messageWord, getD_map_ofByte, and_mask, low_or]
  rw [low_shiftLeft _ (by decide), low_shiftLeft _ (by decide), low_shiftLeft _ (by decide),
    low_ofByte, low_ofByte, low_ofByte, low_ofByte]
  rfl

theorem words_eq (n : Nat) {l : Bytes} (h : l.length = 4 * n) :
    fips.words l = (List.range n).map fun i =>
      fips.word (l.getD (i * 4) 0) (l.getD (i * 4 + 1) 0) (l.getD (i * 4 + 2) 0)
        (l.getD (i * 4 + 3) 0) := by
  induction n generalizing l with
  | zero =>
    rw [List.length_eq_zero_iff.mp h]
    rfl
  | succ n ih =>
    match l, h with
    | a :: b :: c :: d :: rest, h =>
      rw [fips.words, ih (by simpa [Nat.mul_add] using h), List.range_succ_eq_map, List.map_cons,
        List.map_map]
      refine congrArg₂ List.cons rfl (List.map_congr_left fun i _ => ?_)
      simp [Nat.succ_mul]

/-- The first 16 words of a chunk are the words of the block. -/
theorem block_eq (m : Bytes) {i : Nat} (hi : 64 * i + 64 ≤ m.length) :
    (List.range 16).map (messageWord (m.map ofByte) (64 * i)) =
      (fips.words ((m.drop (64 * i)).take 64)).map wide := by
  have hlen : ((m.drop (64 * i)).take 64).length = 4 * 16 := by
    rw [List.length_take, List.length_drop]
    omega
  have hget : ∀ j < 64, ((m.drop (64 * i)).take 64).getD j 0 = m.getD (64 * i + j) 0 := by
    intro j hj
    rw [List.getD_eq_getElem?_getD, List.getD_eq_getElem?_getD, List.getElem?_take_of_lt hj,
      List.getElem?_drop]
  rw [words_eq 16 hlen, List.map_map]
  refine List.map_congr_left fun j hj => ?_
  have hj := List.mem_range.mp hj
  rw [messageWord_eq, Function.comp_apply, hget _ (by omega), hget _ (by omega), hget _ (by omega),
    hget _ (by omega)]
  simp only [Nat.add_assoc]

theorem getD_map_wide (w : List UInt32) (i : Nat) : (w.map wide).getD i 0 = wide (w.getD i 0) := by
  rw [List.getD_eq_getElem?_getD, List.getD_eq_getElem?_getD, List.getElem?_map]
  cases w[i]? <;> rfl

/-- Word `i` from the end. -/
theorem getD_reverse (w : List UInt32) {i : Nat} (hi : i < w.length) :
    w.reverse.getD i 0 = w.getD (w.length - 1 - i) 0 := by
  rw [List.getD_eq_getElem?_getD, List.getD_eq_getElem?_getD, List.getElem?_reverse hi]

theorem nextWord_eq {w : List UInt32} (hw : 16 ≤ w.length) :
    nextWord (w.map wide) w.length = wide (fips.nextWord w.reverse) := by
  have hsub : ∀ i, w.length - 1 - i = w.length - (i + 1) := fun i => by omega
  simp only [nextWord, getD_map_wide]
  rw [rotr_wide _ (by decide) (by decide), rotr_wide _ (by decide) (by decide),
    rotr_wide _ (by decide) (by decide), rotr_wide _ (by decide) (by decide),
    shiftRight_wide _ (by decide), shiftRight_wide _ (by decide)]
  simp only [wide_xor, and_mask, low_add, low_wide]
  rw [fips.nextWord, getD_reverse w (by omega), getD_reverse w (by omega), getD_reverse w (by omega),
    getD_reverse w (by omega), hsub, hsub, hsub, hsub]
  congr 1
  change w.getD (w.length - 16) 0 + fips.smallSigma0 (w.getD (w.length - 15) 0) +
    w.getD (w.length - 7) 0 + fips.smallSigma1 (w.getD (w.length - 2) 0) = _
  ac_rfl

theorem extend_eq (n : Nat) {w : List UInt32} (hw : 16 ≤ w.length) :
    (List.range' w.length n).foldl (fun w index => w ++ [nextWord w index]) (w.map wide) =
      (fips.extend n w.reverse).reverse.map wide := by
  induction n generalizing w with
  | zero => simp [fips.extend]
  | succ n ih =>
    have hnext := ih (w := w ++ [fips.nextWord w.reverse]) (by simp; omega)
    rw [List.length_append, List.length_singleton, List.reverse_append] at hnext
    rw [List.range'_succ, List.foldl_cons, nextWord_eq hw, fips.extend]
    simpa using hnext

theorem schedule_eq (m : Bytes) {i : Nat} (hi : 64 * i + 64 ≤ m.length) :
    schedule (m.map ofByte) (64 * i) =
      (fips.schedule (fips.words ((m.drop (64 * i)).take 64))).map wide := by
  have hlen : (fips.words ((m.drop (64 * i)).take 64)).length = 16 := by
    have := congrArg List.length (block_eq m hi)
    simpa using this.symm
  rw [schedule, block_eq m hi, fips.schedule, ← extend_eq 48 (by omega), hlen]

/-! ## The rounds -/

def wideState (s : fips.State) : Registers :=
  ⟨wide s.a, wide s.b, wide s.c, wide s.d, wide s.e, wide s.f, wide s.g, wide s.h⟩

theorem k_eq : k = fips.k.map wide := rfl

theorem round_eq (w : List UInt32) (s : fips.State) (index : Nat) :
    round (w.map wide) (wideState s) index =
      wideState (fips.round s (fips.k.getD index 0, w.getD index 0)) := by
  simp only [round, wideState, k_eq, getD_map_wide]
  rw [rotr_wide s.e (by decide) (by decide), rotr_wide s.e (by decide) (by decide),
    rotr_wide s.e (by decide) (by decide), rotr_wide s.a (by decide) (by decide),
    rotr_wide s.a (by decide) (by decide), rotr_wide s.a (by decide) (by decide)]
  simp only [wide_xor, wide_and, and_mask, low_add, low_not, low_wide]
  rfl

theorem zip_eq {l m : List UInt32} {n : Nat} (hl : l.length = n) (hm : m.length = n) :
    l.zip m = (List.range n).map fun i => (l.getD i 0, m.getD i 0) := by
  refine List.ext_getElem (by simp [hl, hm]) fun i h1 h2 => ?_
  have hi : i < n := by simpa using h2
  simp [List.getD_eq_getElem?_getD, hl, hm, hi]

theorem rounds_eq {w : List UInt32} (hw : w.length = 64) (s : fips.State) :
    (List.range 64).foldl (round (w.map wide)) (wideState s) =
      wideState ((fips.k.zip w).foldl fips.round s) := by
  rw [zip_eq (n := 64) rfl hw, List.foldl_map]
  generalize List.range 64 = l
  induction l generalizing s with
  | nil => rfl
  | cons i l ih => rw [List.foldl_cons, List.foldl_cons, round_eq, ih]

theorem extend_length (n : Nat) (w : List UInt32) : (fips.extend n w).length = w.length + n := by
  induction n generalizing w with
  | zero => rfl
  | succ n ih =>
    rw [fips.extend, ih, List.length_cons]
    omega

theorem compress_eq (m : Bytes) (s : fips.State) {i : Nat} (hi : 64 * i + 64 ≤ m.length) :
    compress (m.map ofByte) (wideState s) (64 * i) =
      wideState (fips.compress s (fips.words ((m.drop (64 * i)).take 64))) := by
  have hw : (fips.schedule (fips.words ((m.drop (64 * i)).take 64))).length = 64 := by
    have := congrArg List.length (block_eq m hi)
    rw [fips.schedule, List.length_reverse, extend_length, List.length_reverse]
    simp only [List.length_map, List.length_range] at this
    omega
  simp only [compress, schedule_eq m hi, rounds_eq hw]
  simp only [wideState, and_mask, low_add, low_wide]
  rfl

theorem wordBytes_eq (u : UInt32) : wordBytes (wide u) = (fips.wordBytes u).map ofByte := by
  have hbyte : ∀ v : UInt32, wide v &&& 0xff = ofByte v.toUInt8 := by
    intro v
    apply BitVec.eq_of_toNat_eq
    have hff : (0xff : DartInt).toNat = 2 ^ 8 - 1 := rfl
    rw [BitVec.toNat_and, hff, Nat.and_two_pow_sub_one_eq_mod, toNat_wide, ofByte,
      BitVec.toNat_setWidth, UInt8.toNat_toBitVec, UInt32.toNat_toUInt8]
    omega
  rw [wordBytes, shiftRight_wide u (by decide), shiftRight_wide u (by decide),
    shiftRight_wide u (by decide), hbyte, hbyte, hbyte, hbyte]
  rfl

/-- The client's digest is the SHA-256 of the bytes. -/
theorem sha256_eq_digest (m : Bytes) : sha256 (m.map ofByte) = (fips.digest m).map ofByte := by
  have hfold : ∀ (l : List Nat), (∀ i ∈ l, 64 * i + 64 ≤ (fips.pad m).length) → ∀ s,
      (l.map (64 * ·)).foldl (compress ((fips.pad m).map ofByte)) (wideState s) =
        wideState ((l.map fun i => fips.words (((fips.pad m).drop (64 * i)).take 64)).foldl
          fips.compress s) := by
    intro l hl
    induction l with
    | nil => exact fun s => rfl
    | cons i l ih =>
      intro s
      rw [List.map_cons, List.map_cons, List.foldl_cons, List.foldl_cons,
        compress_eq _ _ (hl i List.mem_cons_self), ih fun j hj => hl j (List.mem_cons_of_mem _ hj)]
  have hinit : initial = wideState fips.initial := rfl
  have hblocks : ∀ i ∈ List.range ((fips.pad m).length / 64), 64 * i + 64 ≤ (fips.pad m).length := by
    intro i hi
    have := List.mem_range.mp hi
    omega
  rw [sha256]
  simp only [padded_eq, List.length_map, hinit, hfold _ hblocks]
  rw [fips.digest, fips.blocks, fips.State.bytes]
  simp only [wideState, List.flatMap_cons, List.flatMap_nil, wordBytes_eq, List.map_append,
    List.append_nil]

theorem sha256Tagged_eq (bytes : Bytes) :
    sha256Tagged bytes = "sha256:" ++ hex.encode (fips.digest bytes) := by
  have hnat : ∀ b : UInt8, (ofByte b).toNat = b.toNat := fun b => by
    have := b.toNat_lt
    rw [ofByte, BitVec.toNat_setWidth, UInt8.toNat_toBitVec]
    omega
  rw [sha256Tagged, sha256_eq_digest, hex.encode, hex.digits]
  simp only [List.flatMap_map, hnat]

end broker_client
