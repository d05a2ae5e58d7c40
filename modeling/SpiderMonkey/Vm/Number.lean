import SpiderMonkey.Lib.Binary64
import SpiderMonkey.Vm.Value

/-! # Numbers of the engine

The number a value holds, the value a number is stored as (`Value::setNumber`) and
the two operators of `jslibmath.h` that are not a machine instruction.
-/

namespace SpiderMonkey

open Lib.Binary64

namespace Value

/-- `toNumber`, of a value that holds a number. -/
def toNumber? : Value → Option Float
  | int32 n => some (ofInt32 n)
  | double d => some d
  | _ => none

/-- `isNumber`. -/
def isNumber (v : Value) : Bool := v.toNumber?.isSome

/-- `setNumber(double)`: an int32 if `MOZ_DOUBLE_IS_INT32`, which leaves out `-0`. -/
def setNumber (d : Float) : Value :=
  if ofInt32 (toInt32 d) = d then int32 (toInt32 d) else double d

/-- `setNumber(uint32_t)`: an int32 up to `JSVAL_INT_MAX`. -/
def setNumberUnsigned (n : UInt32) : Value :=
  if n.toNat ≤ 2147483647 then int32 n.toInt32 else double n.toFloat

@[simp] lemma toNumber?_setNumber (d : Float) : (setNumber d).toNumber? = some d := by
  unfold setNumber
  split_ifs with h
  · rw [toNumber?, h]
  · rfl

end Value

/-- `MOZ_DOUBLE_IS_NEGATIVE`: the sign bit. -/
def isNegative (d : Float) : Bool :=
  match unpacked d with
  | .infinity .negative => true
  | .zero .negative => true
  | .finite .negative _ _ _ => true
  | _ => false

/-- `NumberDiv`. -/
def numberDiv (a b : Float) : Float :=
  if b == 0 then
    if a == 0 || a.isNaN then nan
    else if isNegative a != isNegative b then negInf
    else posInf
  else a / b

/-- `NumberMod`. -/
def numberMod (a b : Float) : Float := if b == 0 then nan else fmod a b

/-- `NumberDiv` is the division of the number format. -/
lemma numberDiv_eq (a b : Float) : numberDiv a b = a / b := by
  unfold numberDiv
  split
  · rename_i hb
    have hzero : ∃ s, unpacked b = .zero s := by
      rcases (beq_zero_iff b).mp hb with rfl | rfl
      · exact ⟨_, unpacked_zero⟩
      · exact ⟨_, unpacked_neg_zero⟩
    rcases hzero with ⟨t, ht⟩
    -- what is left depends on the class of `a` and on the two signs
    rw [beq_eq, isNaN_eq, isNegative, isNegative, div_eq, ht, unpacked_zero]
    cases unpacked a with
    | notANumber => rfl
    | infinity s => cases s <;> cases t <;> rfl
    | zero s => cases s <;> cases t <;> rfl
    | finite s m e hm => cases s <;> cases t <;> rfl
  · rfl

/-- `NumberMod` is `fmod`. -/
lemma numberMod_eq (a b : Float) : numberMod a b = fmod a b := by
  unfold numberMod
  split
  · rename_i hb
    exact (fmod_zero a hb).symm
  · rfl

end SpiderMonkey
