import SpiderMonkey.Lib.Codec

/-! # Compact buffers

`CompactBufferWriter` and `CompactBufferReader` of `CompactBuffer.h`: byte streams with
variable-length integers, seven bits of the integer in each byte and one bit that says
whether another byte follows. A writer is its buffer, a reader what is left of the stream.
-/

namespace SpiderMonkey.Ion

open Lib BitVec

/-- `buffer_` of a `CompactBufferWriter`. -/
abbrev CompactBuffer := List Byte

namespace CompactBuffer

/-- `writeByte`: that a byte is at most `0xFF` is its type. -/
def writeByte (buffer : CompactBuffer) (byte : Byte) : CompactBuffer := buffer ++ [byte]

/-- `writeUnsigned`. -/
def writeUnsigned (buffer : CompactBuffer) (value : BitVec 32) : CompactBuffer :=
  let byte := ((value &&& 0x7F#32) <<< 1) ||| (if value > 0x7F#32 then 1#32 else 0#32)
  let buffer := buffer.writeByte (byte.setWidth 8)
  if value >>> 7 = 0#32 then buffer else writeUnsigned buffer (value >>> 7)
termination_by value.toNat
decreasing_by
  rename_i hmore
  have hne : (value >>> 7).toNat ≠ 0 := fun h => hmore (eq_of_toNat_eq h)
  rw [toNat_ushiftRight, Nat.shiftRight_eq_div_pow] at hne ⊢
  omega

/-- `writeSigned`: the sign and six bits of the magnitude in the first byte. The magnitude of
`INT32_MIN` is `2 ^ 31`. -/
def writeSigned (buffer : CompactBuffer) (v : BitVec 32) : CompactBuffer :=
  let isNegative := v.slt 0#32
  let value := if isNegative then -v else v
  let byte := ((value &&& 0x3F#32) <<< 2) ||| (if value > 0x3F#32 then 2#32 else 0#32) |||
    (if isNegative then 1#32 else 0#32)
  let buffer := buffer.writeByte (byte.setWidth 8)
  if value >>> 6 = 0#32 then buffer else buffer.writeUnsigned (value >>> 6)

/-- `writeFixedUint16`, low byte first. -/
def writeFixedUint16 (buffer : CompactBuffer) (value : BitVec 16) : CompactBuffer :=
  (buffer.writeByte ((value &&& 0xFF#16).setWidth 8)).writeByte ((value >>> 8).setWidth 8)

/-- `readVariableLength`, from `val` and `shift` on. -/
def readVariableLength (val : BitVec 32) (shift : Nat) : Reader Byte (BitVec 32)
  | [] => none
  | byte :: rest =>
    if shift < 32 then
      let val := val ||| ((byte.setWidth 32 >>> 1) <<< shift)
      if byte &&& 1#8 = 0#8 then some (val, rest) else readVariableLength val (shift + 7) rest
    else none

/-- `readByte`. -/
def readByte : Reader Byte Byte := Reader.next

/-- `readUnsigned`. -/
def readUnsigned : Reader Byte (BitVec 32) := readVariableLength 0#32 0

/-- `result` of `readSigned`, before the sign: six bits from the first byte `b`, the others
from an unsigned integer if there are `more`. -/
def readMagnitude (b : Byte) : Reader Byte (BitVec 32) :=
  if b &&& 2#8 ≠ 0#8 then do
    let high ← readUnsigned
    pure ((b.setWidth 32 >>> 2) ||| (high <<< 6))
  else pure (b.setWidth 32 >>> 2)

/-- `readSigned`. -/
def readSigned : Reader Byte (BitVec 32) := do
  let b ← readByte
  let result ← readMagnitude b
  pure (if b &&& 1#8 ≠ 0#8 then -result else result)

/-- `readFixedUint16`. -/
def readFixedUint16 : Reader Byte (BitVec 16) := do
  let b0 ← readByte
  let b1 ← readByte
  pure ((b0.setWidth 32 ||| (b1.setWidth 32 <<< 8)).setWidth 16)

/-! ## What is written is read -/

lemma and_mask7 (value : BitVec 32) : value &&& 0x7F#32 = (value.setWidth 7).setWidth 32 := by
  have hmask : 0x7F#32 = (BitVec.allOnes 7).setWidth 32 := by decide
  rw [hmask]
  ext i hi
  simp only [getElem_and, getElem_setWidth, getLsbD_allOnes,
    getLsbD_setWidth]
  rcases Nat.lt_or_ge i 7 with h | h
  · simp [h, getLsbD_eq_getElem hi]
  · simp [Nat.not_lt.2 h]

lemma and_mask6 (value : BitVec 32) : value &&& 0x3F#32 = (value.setWidth 6).setWidth 32 := by
  have hmask : 0x3F#32 = (BitVec.allOnes 6).setWidth 32 := by decide
  rw [hmask]
  ext i hi
  simp only [getElem_and, getElem_setWidth, getLsbD_allOnes,
    getLsbD_setWidth]
  rcases Nat.lt_or_ge i 6 with h | h
  · simp [h, getLsbD_eq_getElem hi]
  · simp [Nat.not_lt.2 h]

/-- A byte of an unsigned integer gives back its seven bits and its flag. -/
lemma unsignedByte (low : BitVec 7) (more : Bool) :
    let byte : Byte := ((low.setWidth 32 <<< 1) ||| (if more then 1#32 else 0#32)).setWidth 8
    byte.setWidth 32 >>> 1 = low.setWidth 32 ∧ (byte &&& 1#8 = 0#8 ↔ more = false) := by
  revert low more
  decide +kernel

/-- The first byte of a signed integer gives back its six bits and its two flags. -/
lemma signedByte (low : BitVec 6) (more isNegative : Bool) :
    let byte : Byte := ((low.setWidth 32 <<< 2) ||| (if more then 2#32 else 0#32) |||
      (if isNegative then 1#32 else 0#32)).setWidth 8
    byte.setWidth 32 >>> 2 = low.setWidth 32 ∧ (byte &&& 2#8 ≠ 0#8 ↔ more = true) ∧
      (byte &&& 1#8 ≠ 0#8 ↔ isNegative = true) := by
  revert low more isNegative
  decide +kernel

/-- Seven bits at `shift` and the others above them. -/
lemma or_shift_split (val value : BitVec 32) (shift : Nat) :
    val ||| ((value.setWidth 7).setWidth 32 <<< shift) ||| ((value >>> 7) <<< (shift + 7)) =
      val ||| (value <<< shift) := by
  ext i hi
  simp only [getElem_or, getElem_shiftLeft, getElem_setWidth,
    getLsbD_setWidth, getElem_ushiftRight]
  rcases Nat.lt_or_ge i shift with h | h
  · have h' : i < shift + 7 := by omega
    simp [h, h']
  · rcases Nat.lt_or_ge i (shift + 7) with h' | h'
    · have hlow : i - shift < 7 := by omega
      have hwidth : i - shift < 32 := by omega
      simp [Nat.not_lt.2 h, h', hlow, hwidth]
    · have hhigh : ¬ i - shift < 7 := by omega
      have heq : 7 + (i - (shift + 7)) = i - shift := by omega
      have hwidth : i - shift < 32 := by omega
      simp [Nat.not_lt.2 h, Nat.not_lt.2 h', hhigh, heq, getLsbD_eq_getElem hwidth]

lemma shiftRight7_eq_zero_iff (value : BitVec 32) :
    value >>> 7 = 0#32 ↔ ¬ value > 0x7F#32 := by
  rw [← toNat_inj, toNat_ushiftRight, Nat.shiftRight_eq_div_pow, gt_iff_lt,
    lt_def]
  simp only [toNat_ofNat]
  omega

/-- The loop of the reader over the bytes of an unsigned integer that fits above `shift`. -/
lemma transmits_variableLength (value val : BitVec 32) (shift : Nat) (hshift : shift < 32)
    (hfits : value.toNat < 2 ^ (32 - shift)) :
    Transmits (writeUnsigned · value) (readVariableLength val shift) (val ||| (value <<< shift)) := by
  induction h : value.toNat using Nat.strongRecOn generalizing value val shift with
  | ind n ih =>
    subst h
    rcases unsignedByte (value.setWidth 7) (decide (value > 0x7F#32)) with ⟨hlow, hmore⟩
    set byte : Byte := ((((value.setWidth 7).setWidth 32) <<< 1) |||
      (if decide (value > 0x7F#32) = true then 1#32 else 0#32)).setWidth 8 with hbyte
    have hwrite : ∀ buffer, writeUnsigned buffer value =
        if value >>> 7 = 0#32 then buffer ++ [byte]
        else writeUnsigned (buffer ++ [byte]) (value >>> 7) := by
      intro buffer
      rw [writeUnsigned, and_mask7]
      simp only [hbyte, writeByte, decide_eq_true_eq]
    have hsplit := or_shift_split val value shift
    rcases Decidable.em (value >>> 7 = 0#32) with hlast | hagain
    · -- the last byte
      have hflag : byte &&& 1#8 = 0#8 := by
        rw [hmore, decide_eq_false_iff_not]
        exact (shiftRight7_eq_zero_iff value).1 hlast
      refine ⟨[byte], ?_, ?_⟩
      · intro buffer
        show writeUnsigned buffer value = _
        rw [hwrite, if_pos hlast]
      · intro rest
        show readVariableLength val shift (byte :: rest) = _
        rw [readVariableLength, if_pos hshift, if_pos hflag, hlow, ← hsplit, hlast]
        simp
    · -- another byte follows, seven bits further up
      have hflag : byte &&& 1#8 ≠ 0#8 := by
        rw [Ne, hmore, decide_eq_false_iff_not, ← shiftRight7_eq_zero_iff]
        exact hagain
      have hdiv : (value >>> 7).toNat = value.toNat / 128 := by
        rw [toNat_ushiftRight, Nat.shiftRight_eq_div_pow]
      have hpos : (value >>> 7).toNat ≠ 0 := fun h => hagain (eq_of_toNat_eq h)
      have hroom : shift + 7 < 32 := by
        by_contra hfull
        have hle : 2 ^ (32 - shift) ≤ 2 ^ 7 := Nat.pow_le_pow_right (by decide) (by omega)
        omega
      have hfits' : (value >>> 7).toNat < 2 ^ (32 - (shift + 7)) := by
        have hpow : 2 ^ (32 - shift) = 128 * 2 ^ (32 - (shift + 7)) := by
          rw [show 32 - shift = 7 + (32 - (shift + 7)) by omega, Nat.pow_add]
        omega
      rcases ih _ (by omega) (value >>> 7) (val ||| (value.setWidth 7).setWidth 32 <<< shift)
        (shift + 7) hroom hfits' rfl with ⟨bytes, hbytes, hreads⟩
      refine ⟨byte :: bytes, ?_, ?_⟩
      · intro buffer
        have hrest := hbytes (buffer ++ [byte])
        rw [List.append_assoc, List.singleton_append] at hrest
        show writeUnsigned buffer value = _
        rw [hwrite, if_neg hagain]
        exact hrest
      · intro rest
        show readVariableLength val shift (byte :: (bytes ++ rest)) = _
        rw [readVariableLength, if_pos hshift, if_neg hflag, hlow, hreads, hsplit]

lemma transmits_unsigned (value : BitVec 32) :
    Transmits (writeUnsigned · value) readUnsigned value := by
  have h := transmits_variableLength value 0#32 0 (by decide) value.isLt
  rwa [zero_or, shiftLeft_zero] at h

/-- The two bytes of a fixed integer, put back together. -/
lemma or_shift8_split (value : BitVec 16) :
    ((((value &&& 0xFF#16).setWidth 8).setWidth 32) |||
      (((value >>> 8).setWidth 8).setWidth 32 <<< 8)).setWidth 16 = value := by
  have hmask : 0xFF#16 = (BitVec.allOnes 8).setWidth 16 := by decide
  rw [hmask]
  ext i hi
  simp only [getElem_setWidth, getLsbD_or, getLsbD_setWidth,
    getLsbD_shiftLeft, getLsbD_and, getLsbD_allOnes,
    getLsbD_ushiftRight]
  rcases Nat.lt_or_ge i 8 with h | h
  · have h32 : i < 32 := by omega
    simp [h, h32, hi]
  · have h32 : i < 32 := by omega
    have hlow : i - 8 < 8 := by omega
    have hlow32 : i - 8 < 32 := by omega
    have heq : 8 + (i - 8) = i := by omega
    simp [Nat.not_lt.2 h, h32, hlow, hlow32, heq, getLsbD_eq_getElem hi]

lemma transmits_fixedUint16 (value : BitVec 16) :
    Transmits (writeFixedUint16 · value) readFixedUint16 value := by
  have hhigh := (Reads.next ((value >>> 8).setWidth 8)).map fun b1 : Byte =>
    ((((value &&& 0xFF#16).setWidth 8).setWidth 32) ||| (b1.setWidth 32 <<< 8)).setWidth 16
  rw [or_shift8_split] at hhigh
  refine ⟨[(value &&& 0xFF#16).setWidth 8, (value >>> 8).setWidth 8], fun buffer => ?_, ?_⟩
  · show (buffer ++ [_]) ++ [_] = _
    rw [List.append_assoc]
    rfl
  · exact (Reads.next ((value &&& 0xFF#16).setWidth 8)).bind (k := fun b0 : Byte => do
      let b1 ← readByte
      pure ((b0.setWidth 32 ||| (b1.setWidth 32 <<< 8)).setWidth 16)) hhigh

/-- Something is taken from the stream. -/
lemma readVariableLength_length {val v : BitVec 32} {shift : Nat} {stream rest : List Byte}
    (h : readVariableLength val shift stream = some (v, rest)) : rest.length < stream.length := by
  induction stream generalizing val shift with
  | nil => cases h
  | cons byte stream ih =>
    rw [readVariableLength] at h
    split at h
    · simp only at h
      split at h
      · cases h
        exact Nat.lt_succ_self _
      · exact Nat.lt_succ_of_lt (ih h)
    · cases h

/-- The magnitude of an int32, put back together from its low six bits and the others. -/
lemma or_shift6_split (value : BitVec 32) :
    (value.setWidth 6).setWidth 32 ||| ((value >>> 6) <<< 6) = value := by
  ext i hi
  simp only [getElem_or, getElem_shiftLeft, getElem_setWidth,
    getLsbD_setWidth, getElem_ushiftRight]
  rcases Nat.lt_or_ge i 6 with h | h
  · simp [h, getLsbD_eq_getElem hi]
  · have heq : 6 + (i - 6) = i := by omega
    simp [Nat.not_lt.2 h, heq, getLsbD_eq_getElem hi]

lemma shiftRight6_eq_zero_iff (value : BitVec 32) :
    value >>> 6 = 0#32 ↔ ¬ value > 0x3F#32 := by
  rw [← toNat_inj, toNat_ushiftRight, Nat.shiftRight_eq_div_pow, gt_iff_lt,
    lt_def]
  simp only [toNat_ofNat]
  omega

/-- Every int32 comes back, `INT32_MIN` included: its magnitude has 32 bits. -/
lemma transmits_signed (v : BitVec 32) : Transmits (writeSigned · v) readSigned v := by
  set value := if v.slt 0#32 then -v else v with hvalue
  have hsign : (if v.slt 0#32 = true then -value else value) = v := by
    rw [hvalue]
    split
    · exact neg_neg
    · rfl
  rcases signedByte (value.setWidth 6) (decide (value > 0x3F#32)) (v.slt 0#32) with
    ⟨hlow, hmore, hneg⟩
  set byte : Byte := ((((value.setWidth 6).setWidth 32) <<< 2) |||
    (if decide (value > 0x3F#32) = true then 2#32 else 0#32) |||
      (if v.slt 0#32 = true then 1#32 else 0#32)).setWidth 8 with hbyte
  have hwrite : ∀ buffer, writeSigned buffer v =
      if value >>> 6 = 0#32 then buffer ++ [byte]
      else writeUnsigned (buffer ++ [byte]) (value >>> 6) := by
    intro buffer
    simp only [writeSigned, and_mask6, hbyte, hvalue, writeByte, decide_eq_true_eq]
  have hsplit := or_shift6_split value
  have hfinal : (if byte &&& 1#8 ≠ 0#8 then -value else value) = v := by
    rw [← hsign]
    exact if_congr hneg rfl rfl
  have hread : ∀ bytes, Reads (readMagnitude byte) bytes value → Reads readSigned (byte :: bytes) v := by
    intro bytes hbytes
    have hsigned := hbytes.map fun result => if byte &&& 1#8 ≠ 0#8 then -result else result
    rw [hfinal] at hsigned
    exact (Reads.next byte).bind (k := fun b => do
      let result ← readMagnitude b
      pure (if b &&& 1#8 ≠ 0#8 then -result else result)) hsigned
  rcases Decidable.em (value >>> 6 = 0#32) with hlast | hagain
  · -- the magnitude fits in six bits
    have hflag : ¬ byte &&& 2#8 ≠ 0#8 := by
      rw [hmore, decide_eq_true_eq]
      exact (shiftRight6_eq_zero_iff value).1 hlast
    refine ⟨[byte], ?_, hread [] ?_⟩
    · intro buffer
      show writeSigned buffer v = _
      rw [hwrite, if_pos hlast]
    · have hvalue : (value.setWidth 6).setWidth 32 = value := by
        rw [hlast] at hsplit
        simpa using hsplit
      rw [readMagnitude, if_neg hflag, hlow, hvalue]
      exact Reads.pure value
  · -- the rest of the magnitude is an unsigned integer
    have hflag : byte &&& 2#8 ≠ 0#8 := by
      rw [hmore, decide_eq_true_eq]
      by_contra hsmall
      exact hagain ((shiftRight6_eq_zero_iff value).2 hsmall)
    rcases transmits_unsigned (value >>> 6) with ⟨bytes, hbytes, hreads⟩
    refine ⟨byte :: bytes, ?_, hread bytes ?_⟩
    · intro buffer
      have hrest := hbytes (buffer ++ [byte])
      rw [List.append_assoc, List.singleton_append] at hrest
      show writeSigned buffer v = _
      rw [hwrite, if_neg hagain]
      exact hrest
    · have hmap := hreads.map fun high : BitVec 32 => (byte.setWidth 32 >>> 2) ||| (high <<< 6)
      rw [hlow, hsplit] at hmap
      rw [readMagnitude, if_pos hflag, hlow]
      exact hmap

end CompactBuffer

end SpiderMonkey.Ion
