import SpiderMonkey.Lib.Binary64

/-! # Conversions to integers

`ToInt32` on x86 and `ToUint32` (`NumericConversions.h`). Doubles are their bits; a conversion to an
`int32_t` that the number does not fit is undefined, and has no result.
-/

namespace SpiderMonkey.Vm

open Lib Float.Model Float.Model.UnpackedFloat

/-- A double as its two words. -/
structure DoublePun where
  hi : BitVec 32
  lo : BitVec 32
  deriving DecidableEq

namespace DoublePun

/-- The member `u64`. -/
def u64 (p : DoublePun) : BitVec 64 := p.hi ++ p.lo

def d (p : DoublePun) : Float := Float.ofBits (.ofBitVec p.u64)

def ofBits (b : BitVec 64) : DoublePun := ⟨b.extractLsb' 32 32, b.extractLsb' 0 32⟩

/-- An assignment to the member `d`. -/
def ofDouble (x : Float) : DoublePun := ofBits x.toBits.toBitVec

end DoublePun

/-- `int32_t(d)` -/
def castInt32 (d : Float) : Option Int32 :=
  match Binary64.unpacked d with
  | .finite s m e _ =>
    let n := roundToInt s m e
    if -2147483648 ≤ n ∧ n < 2147483648 then some (Int32.ofInt n) else none
  | .zero _ => some 0
  | _ => none

/-- What is left of a double under a mask that is shifted, with the sign, so many bits to the
right. -/
def maskWords (p : DoublePun) (shift_amount : BitVec 32) : DoublePun :=
  let mask32 : BitVec 32 := 0x80000000#32
  if shift_amount < 32#32 then ⟨p.hi &&& mask32.sshiftRight shift_amount.toNat, 0#32⟩
  else ⟨p.hi, p.lo &&& mask32.sshiftRight (shift_amount - 32#32).toNat⟩

/-- `duh`, the multiple of `2 ^ 32` in a double. -/
def multipleOf2To32 (du : DoublePun) (u_tmp : BitVec 32) : DoublePun :=
  maskWords du ((u_tmp >>> 20) - 21#32)

/-- A double of at least `2 ^ 31` without its fractional bits. -/
def eliminateFraction (du : DoublePun) (u_tmp : BitVec 32) : DoublePun :=
  maskWords du ((u_tmp >>> 20) - (0x3ff#32 - 11#32))

/-- `2 ^ 32` with the sign of a double. -/
def two32 (du : DoublePun) : DoublePun := ⟨0x41f00000#32 ^^^ (du.hi &&& 0x80000000#32), 0#32⟩

/-- Step 3 of the outline. -/
def reduce (du : DoublePun) (u_tmp : BitVec 32) : DoublePun :=
  if u_tmp > 0x01f00000#32 then .ofDouble (du.d - (multipleOf2To32 du u_tmp).d) else du

/-- Steps 4 and 5. -/
def correct (du : DoublePun) : Option Int32 :=
  let u_tmp := du.hi &&& 0x7ff00000#32
  if u_tmp ≥ 0x41e00000#32 then
    let du := eliminateFraction du u_tmp
    castInt32 (du.d - (two32 du).d)
  else castInt32 du.d

/-- `ToInt32` -/
def toInt32 (du : DoublePun) : Option Int32 :=
  let u_tmp := (du.hi &&& 0x7ff00000#32) - 0x3ff00000#32
  if u_tmp ≥ 0x45300000#32 - 0x3ff00000#32 then some 0
  else if u_tmp < 0x01f00000#32 then castInt32 du.d
  else correct (reduce du u_tmp)

/-- `ToUint32` -/
def toUint32 (du : DoublePun) : Option UInt32 := (toInt32 du).map Int32.toUInt32

end SpiderMonkey.Vm
