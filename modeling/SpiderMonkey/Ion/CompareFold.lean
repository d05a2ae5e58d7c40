import SpiderMonkey.Ion.Folding
import SpiderMonkey.Vm.Comparison

/-! # Folding of comparisons

`infer`, `tryFold`, `evaluateConstantOperands` and `foldsTo` of `MCompare` (`MIR.cpp`), and the
comparison of the interpreter.
-/

namespace SpiderMonkey.Ion

open Lib.Binary64

/-! ## Comparisons of the interpreter -/

section

variable (stringToNumber : String → Float) (C : ObjectClasses) (hooks : ObjectHooks)

/-- What the interpreter pushes for an operator, unless it throws. -/
def CompareOp.interpret (op : CompareOp) (l r : Value) : Option Bool :=
  match op with
  | .lt => Value.lessThanOperation stringToNumber hooks l r
  | .le => Value.lessThanOrEqualOperation stringToNumber hooks l r
  | .gt => Value.greaterThanOperation stringToNumber hooks l r
  | .ge => Value.greaterThanOrEqualOperation stringToNumber hooks l r
  | .eq => Value.looselyEqual stringToNumber C hooks l r
  | .ne => (Value.looselyEqual stringToNumber C hooks l r).map not
  | .stricteq => some (l.strictlyEqual r)
  | .strictne => some !l.strictlyEqual r

end

/-! ## Types -/

namespace MIRType

/-- `IsNullOrUndefined` -/
def isNullOrUndefined : MIRType → Bool
  | .null | .undefined => true
  | _ => false

/-- `IsNumberType` -/
def isNumberType : MIRType → Bool
  | .int32 | .double => true
  | _ => false

end MIRType

/-- What inference knows of an operand: the type of `getKnownTypeTag`, which is `value` if there is
none, and `hasObjectFlags` of `OBJECT_FLAG_SPECIAL_EQUALITY`. -/
structure OperandTypes where
  known : MIRType
  specialEquality : Bool
deriving DecidableEq

/-- A definition that is compared: its type, and its value if it is a constant. -/
structure CompareOperand where
  type : MIRType
  constant : Option Value
deriving DecidableEq

def CompareOp.isStrict : CompareOp → Bool
  | .stricteq | .strictne => true
  | _ => false

def CompareOp.isLoose : CompareOp → Bool
  | .eq | .ne => true
  | _ => false

/-- `infer` where the operator is an equality. -/
def inferEquality (l r : OperandTypes) : Option (MIRType × Bool) :=
  if l.known = .object ∧ r.known = .object then
    if l.specialEquality || r.specialEquality then some (.none, false)
    else some (.object, false)
  else if l.known = .string ∧ r.known = .string then some (.string, false)
  -- the operands are swapped so that null or undefined is on the right
  else if l.known.isNullOrUndefined then some (l.known, true)
  else if r.known.isNullOrUndefined then some (r.known, false)
  else none

/-- `infer` where the operator is a strict equality and nothing has been set. -/
def inferStrict (l r : OperandTypes) : MIRType × Bool :=
  if l.known = .boolean then (.boolean, true)
  else if r.known = .boolean then (.boolean, false)
  else (.none, false)

/-- `infer`: the specialization, and whether the operands are swapped. -/
def inferCompare (op : CompareOp) (lhsTypes rhsTypes : Option OperandTypes) : MIRType × Bool :=
  match lhsTypes, rhsTypes with
  | some l, some r =>
    if l.known = .int32 ∧ r.known = .int32 ∨ l.known = .boolean ∧ r.known = .boolean then
      (.int32, false)
    else if l.known.isNumberType && r.known.isNumberType then (.double, false)
    else
      match op with
      | .stricteq | .strictne => (inferEquality l r).getD (inferStrict l r)
      | .eq | .ne => (inferEquality l r).getD (.none, false)
      | _ => (.none, false)
  | _, _ => (.none, false)

/-! ## Folds -/

/-- `tryFold`; what is said not to be reached does not fold. -/
def tryFold (op : CompareOp) (specialization : MIRType) (lhs : CompareOperand) : Option Bool :=
  if specialization.isNullOrUndefined then
    match lhs.type with
    | .undefined | .null =>
      if lhs.type = specialization then some (op = .eq ∨ op = .stricteq)
      else some (op = .eq ∨ op = .strictne)
    | .int32 | .double | .string | .object | .boolean => some (op = .ne ∨ op = .strictne)
    | _ => none
  else if specialization = .boolean then
    match lhs.type with
    | .int32 | .double | .string | .object | .null | .undefined => some (op = .strictne)
    | _ => none
  else none

section

variable (stringToNumber : String → Float) (C : ObjectClasses) (hooks : ObjectHooks)

/-- `evaluateConstantOperands`, at the time of compilation. A comparison that throws leaves `result`
as it is. -/
def evaluateCompare (result : Bool) (op : CompareOp) (lhs rhs : CompareOperand) : Option Bool :=
  match lhs.constant, rhs.constant with
  | some l, some r =>
    match op with
    | .lt => some ((Value.lessThanOperation stringToNumber hooks l r).getD result)
    | .le => some ((Value.lessThanOrEqualOperation stringToNumber hooks l r).getD result)
    | .gt => some ((Value.greaterThanOperation stringToNumber hooks l r).getD result)
    | .ge => some ((Value.greaterThanOrEqualOperation stringToNumber hooks l r).getD result)
    | .stricteq =>
      if !l.sameType r then none
      else some ((Value.looselyEqual stringToNumber C hooks l r).getD result)
    | .eq => some ((Value.looselyEqual stringToNumber C hooks l r).getD result)
    | .strictne =>
      if !l.sameType r then none
      else some !(Value.looselyEqual stringToNumber C hooks l r).getD result
    | .ne => some !(Value.looselyEqual stringToNumber C hooks l r).getD result
  | _, _ => none

/-- `infer` of the operands as they are written, then `foldsTo`; none if it does not fold. -/
def compareFoldsTo (result : Bool) (op : CompareOp) (lhsTypes rhsTypes : Option OperandTypes)
    (lhs rhs : CompareOperand) : Option Bool :=
  let (specialization, swapped) := inferCompare op lhsTypes rhsTypes
  let (left, right) := if swapped then (rhs, lhs) else (lhs, rhs)
  match tryFold op specialization left with
  | some b => some b
  | none => evaluateCompare stringToNumber C hooks result op left right

end

end SpiderMonkey.Ion
