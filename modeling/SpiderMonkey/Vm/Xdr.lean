import SpiderMonkey.Lib.Codec

/-! # External data representation

The primitives of `XDRState` of `Xdr.h`: one templated function each in the source, an encoder
and a decoder here. All data is little-endian.
-/

namespace SpiderMonkey.Xdr

open Lib

/-- `codeUint32`. -/
def encodeUint32 (n : BitVec 32) : List Byte := encodeLittleEndian 4 n.toNat

def decodeUint32 : Reader Byte (BitVec 32) := do
  let n ← decodeLittleEndian 4
  pure (BitVec.ofNat 32 n)

/-- `codeUint64`. -/
def encodeUint64 (n : BitVec 64) : List Byte := encodeLittleEndian 8 n.toNat

def decodeUint64 : Reader Byte (BitVec 64) := do
  let n ← decodeLittleEndian 8
  pure (BitVec.ofNat 64 n)

/-- `codeBytes`, for `len` bytes. -/
def encodeBytes (bytes : List Byte) : List Byte := bytes

def decodeBytes (len : Nat) : Reader Byte (List Byte) := Reader.next.times len

/-- A C string: no byte of it is the terminating one. -/
structure CString where
  chars : List Byte
  terminated : ∀ b ∈ chars, b ≠ 0#8
deriving DecidableEq

/-- `codeCString`: the string with its terminating byte. -/
def encodeCString (s : CString) : List Byte := s.chars ++ [0#8]

/-- `readCString`: up to the first zero byte. -/
def decodeCString : Reader Byte CString
  | [] => none
  | b :: rest =>
    if h : b = 0#8 then some (⟨[], by simp⟩, rest)
    else do
      let (s, rest) ← decodeCString rest
      some (⟨b :: s.chars, by simpa [h] using s.terminated⟩, rest)

lemma reads_uint32 (n : BitVec 32) : Reads decodeUint32 (encodeUint32 n) n := by
  have h := (reads_littleEndian 4 n.toNat n.isLt).map (BitVec.ofNat 32)
  rwa [BitVec.ofNat_toNat, BitVec.setWidth_eq] at h

lemma reads_uint64 (n : BitVec 64) : Reads decodeUint64 (encodeUint64 n) n := by
  have h := (reads_littleEndian 8 n.toNat n.isLt).map (BitVec.ofNat 64)
  rwa [BitVec.ofNat_toNat, BitVec.setWidth_eq] at h

lemma reads_bytes (bytes : List Byte) :
    Reads (decodeBytes bytes.length) (encodeBytes bytes) bytes := by
  have h : Reads (Reader.next.times bytes.length) (bytes.flatMap fun b => [b]) bytes :=
    Reads.times fun b _ => Reads.next b
  rwa [List.flatMap_singleton'] at h

lemma reads_cString (s : CString) : Reads decodeCString (encodeCString s) s := by
  rcases s with ⟨chars, hchars⟩
  induction chars with
  | nil =>
    intro rest
    rfl
  | cons b chars ih =>
    intro rest
    have hne : b ≠ 0#8 := hchars b List.mem_cons_self
    have hrest := ih (fun c hc => hchars c (List.mem_cons_of_mem b hc)) rest
    show decodeCString (b :: (chars ++ [0#8] ++ rest)) = _
    rw [decodeCString, dif_neg hne]
    have hrest : decodeCString (chars ++ [0#8] ++ rest) = _ := hrest
    rw [hrest]
    rfl

/-- Two halves of a word. -/
lemma packHalves (high low : BitVec 16) :
    (((high.setWidth 32 <<< 16) ||| low.setWidth 32) >>> 16).setWidth 16 = high ∧
      ((high.setWidth 32 <<< 16) ||| low.setWidth 32).setWidth 16 = low := by
  constructor
  · ext i hi
    have hlow : ¬ 16 + i < 16 := by omega
    have hwidth : 16 + i < 32 := by omega
    simp [BitVec.getElem_setWidth, BitVec.getLsbD_ushiftRight, hlow, hwidth, BitVec.getLsbD_of_ge,
      BitVec.getLsbD_eq_getElem hi]
  · ext i hi
    simp

end SpiderMonkey.Xdr
