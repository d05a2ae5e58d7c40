import Mathlib

/-! # Types and comparison operators of the mid-level IR

`MIRType` is the enumeration of `TypeOracle.h`. `CompareOp` lists the `JSOp`
codes a comparison instruction can carry, with the two operator tables of
`jsanalyze.h` that range analysis composes.
-/

namespace SpiderMonkey.Ion

/-- `MIRType`. -/
inductive MIRType where
  | undefined | null | boolean | int32 | double | string | object | magic
  | value | any | none | slots | elements | upvarSlots | stackFrame
deriving DecidableEq, Repr

namespace MIRType

/-- `type >= MIRType_Object`, in the order of the enumeration. -/
def geObject : MIRType → Bool
  | undefined | null | boolean | int32 | double | string => false
  | _ => true

end MIRType

/-- The comparison operators among the `JSOp` codes. -/
inductive CompareOp where
  | lt | le | gt | ge | eq | ne | stricteq | strictne
deriving DecidableEq, Repr

namespace CompareOp

/-- `analyze::ReverseCompareOp`: the operator with its operands swapped. -/
def reverse : CompareOp → CompareOp
  | gt => lt
  | ge => le
  | lt => gt
  | le => ge
  | op => op

/-- `analyze::NegateCompareOp`: the operator of the branch not taken. -/
def negate : CompareOp → CompareOp
  | gt => le
  | ge => lt
  | lt => ge
  | le => gt
  | eq => ne
  | ne => eq
  | strictne => stricteq
  | stricteq => strictne

/-- What the comparison of two int32 operands answers. -/
def eval : CompareOp → Int → Int → Bool
  | lt, x, y => decide (x < y)
  | le, x, y => decide (x ≤ y)
  | gt, x, y => decide (x > y)
  | ge, x, y => decide (x ≥ y)
  | eq, x, y => decide (x = y)
  | ne, x, y => decide (x ≠ y)
  | stricteq, x, y => decide (x = y)
  | strictne, x, y => decide (x ≠ y)

@[simp] lemma eval_reverse (op : CompareOp) (x y : Int) :
    op.reverse.eval x y = op.eval y x := by
  cases op <;> simp [reverse, eval, eq_comm]

/-- Negation is exact on int32 operands (no NaN to fall outside both arms). -/
@[simp] lemma eval_negate (op : CompareOp) (x y : Int) :
    op.negate.eval x y = !op.eval x y := by
  cases op <;> simp only [negate, eval] <;> grind

end CompareOp

end SpiderMonkey.Ion
