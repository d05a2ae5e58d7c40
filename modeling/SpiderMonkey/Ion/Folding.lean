import SpiderMonkey.Vm.Number
import SpiderMonkey.Ion.InductionVariable

/-! # Folding of arithmetic and bitwise instructions

`foldsTo` and `foldsToConstant` of the binary arithmetic, bitwise and shift
instructions (`MIR.cpp`). A fold answers with the instruction itself, one of its
operands or a new constant. The flag `MMul::foldsTo` clears when it does not fold is
left out: nothing here reads it.
-/

namespace SpiderMonkey.Ion

open Lib.Binary64

/-- `MIRTypeFromValue`. -/
def mirTypeFromValue : Value → MIRType
  | .undefined => .undefined
  | .null => .null
  | .boolean _ => .boolean
  | .int32 _ => .int32
  | .double _ => .double
  | .string _ => .string
  | .object _ => .object
  | .magic => .magic

/-- The definition a fold returns. -/
inductive Folded where
  | self
  | operand (d : DefId)
  | constant (value : Value)
deriving DecidableEq

namespace ArithOp

/-- The number `EvaluateConstantOperands` computes. -/
def evaluate : ArithOp → Float → Float → Float
  | add, x, y => x + y
  | sub, x, y => x - y
  | mul, x, y => x * y
  | div, x, y => numberDiv x y
  | mod, x, y => numberMod x y

/-- `getIdentity`; those of `MDiv` and `MMod` are not used. -/
def identity : ArithOp → Float
  | add => 0
  | sub => 0
  | mul => 1
  | div => 1
  | mod => 1

end ArithOp

namespace BitOp

/-- The value `EvaluateConstantOperands` computes. Shift amounts are masked. -/
def evaluate : BitOp → Int32 → Int32 → Value
  | bitAnd, a, b => .int32 (a &&& b)
  | bitOr, a, b => .int32 (a ||| b)
  | bitXor, a, b => .int32 (a ^^^ b)
  | lsh, a, b => .int32 (a <<< (b &&& 0x1F))
  | rsh, a, b => .int32 (a >>> (b &&& 0x1F))
  | ursh, a, b => .setNumberUnsigned (a.toUInt32 >>> (b &&& 0x1F).toUInt32)

/-- `foldIfZero(i)`, with the operand that is zero and the other one. -/
def foldIfZero (op : BitOp) (i : Fin 2) (lhs rhs : DefId) : Folded :=
  match op, i with
  | bitAnd, 0 => .operand lhs
  | bitAnd, 1 => .operand rhs
  | bitOr, 0 => .operand rhs
  | bitOr, 1 => .operand lhs
  | bitXor, 0 => .operand rhs
  | bitXor, 1 => .operand lhs
  | lsh, _ => .operand lhs
  | rsh, _ => .operand lhs
  | ursh, 0 => .operand lhs
  | ursh, 1 => .self

/-- `foldIfEqual`. -/
def foldIfEqual (op : BitOp) (lhs : DefId) : Folded :=
  match op with
  | bitAnd => .operand lhs
  | bitOr => .operand lhs
  | bitXor => .constant (.int32 0)
  | lsh => .self
  | rsh => .self
  | ursh => .self

end BitOp

namespace MIRGraph

variable (G : MIRGraph)

/-- `toConstant()->value()`. -/
def constant? (d : DefId) : Option Value := (G.definition d).constantValue?

/-- The number an `MConstant` holds. -/
def numberConstant? (d : DefId) : Option Float := (G.constant? d).bind Value.toNumber?

/-- `IsConstant`. -/
def isNumberConstant (d : DefId) (v : Float) : Bool := (G.numberConstant? d).any (· == v)

/-- The value of two constant operands before its type is checked. -/
def evaluateOperands (op : Opcode) (lhs rhs : Value) : Option Value :=
  match op with
  | .arith op _ _ =>
      match lhs.toNumber?, rhs.toNumber? with
      | some x, some y => some (.setNumber (op.evaluate x y))
      | _, _ => none
  | .bitwise op _ =>
      match lhs.toInt32?, rhs.toInt32? with
      | some a, some b => some (op.evaluate a b)
      | _, _ => none
  | _ => none

/-- `EvaluateConstantOperands`. A result of another type than the instruction's is
dropped. -/
def evaluateConstantOperands (d lhs rhs : DefId) : Option Value :=
  match G.constant? lhs, G.constant? rhs with
  | some l, some r =>
      (evaluateOperands (G.definition d).op l r).filter fun ret =>
        (G.definition d).type = mirTypeFromValue ret
  | _, _ => none

/-- `EqualValues`, by value number if there are any. -/
def equalValues (valueNumber : Option (DefId → Nat)) (lhs rhs : DefId) : Bool :=
  match valueNumber with
  | some vn => vn lhs == vn rhs
  | none => lhs == rhs

/-- `MBinaryArithInstruction::foldsTo`. -/
def binaryArithFoldsTo (op : ArithOp) (specialization : MIRType) (d lhs rhs : DefId) : Folded :=
  if specialization = .none then .self
  else
    match G.evaluateConstantOperands d lhs rhs with
    | some folded => .constant folded
    | none =>
        -- 0 + -0 is 0, so only an int32 addition is removed
        if op = .add ∧ specialization ≠ .int32 then .self
        else if G.isNumberConstant rhs op.identity then .operand lhs
        else if op = .sub then .self
        else if G.isNumberConstant lhs op.identity then .operand rhs
        else .self

/-- `MDiv::foldsTo`. -/
def divFoldsTo (specialization : MIRType) (d lhs rhs : DefId) : Folded :=
  if specialization = .none then .self
  else
    match G.evaluateConstantOperands d lhs rhs with
    | some folded => .constant folded
    | none =>
        if G.isNumberConstant lhs 0 || G.isNumberConstant rhs 1 then .operand lhs
        else .self

/-- The type of what a fold of `d` returns. -/
def foldedType (d : DefId) : Folded → MIRType
  | .self => (G.definition d).type
  | .operand o => (G.definition o).type
  | .constant value => mirTypeFromValue value

/-- `TryFold`. -/
def tryFold (d : DefId) (replacement : Folded) : Folded :=
  if (G.definition d).type = G.foldedType d replacement then replacement else .self

/-- `MMod::foldsTo`. The two tests for NaN never succeed: NaN is not equal to itself. -/
def modFoldsTo (specialization : MIRType) (d lhs rhs : DefId) : Folded :=
  if specialization = .none then .self
  else
    match G.evaluateConstantOperands d lhs rhs with
    | some folded => .constant folded
    | none =>
        if G.isNumberConstant lhs nan then .operand lhs
        else if G.isNumberConstant rhs nan then .operand rhs
        else if G.isNumberConstant rhs 0 then G.tryFold d (.constant (.double nan))
        else if G.isNumberConstant lhs 0 then G.tryFold d (.operand lhs)
        else if G.isNumberConstant lhs posInf || G.isNumberConstant lhs negInf then
          G.tryFold d (.constant (.double nan))
        else if G.isNumberConstant rhs posInf || G.isNumberConstant rhs negInf then
          G.tryFold d (.operand lhs)
        else .self

/-- `MBinaryBitwiseInstruction::foldsTo`. -/
def bitwiseFoldsTo (valueNumber : Option (DefId → Nat)) (op : BitOp) (specialization : MIRType)
    (d lhs rhs : DefId) : Folded :=
  if specialization ≠ .int32 then .self
  else
    match G.evaluateConstantOperands d lhs rhs with
    | some folded => .constant folded
    | none =>
        if G.isNumberConstant lhs 0 then op.foldIfZero 0 lhs rhs
        else if G.isNumberConstant rhs 0 then op.foldIfZero 1 lhs rhs
        else if equalValues valueNumber lhs rhs then op.foldIfEqual lhs
        else .self

/-- `foldsTo`, by the class of the instruction. -/
def foldsTo (valueNumber : Option (DefId → Nat)) (d : DefId) : Folded :=
  match (G.definition d).op, (G.definition d).operands with
  | .arith .div specialization _, [lhs, rhs] => G.divFoldsTo specialization d lhs rhs
  | .arith .mod specialization _, [lhs, rhs] => G.modFoldsTo specialization d lhs rhs
  | .arith op specialization _, [lhs, rhs] => G.binaryArithFoldsTo op specialization d lhs rhs
  | .bitwise op specialization, [lhs, rhs] =>
      G.bitwiseFoldsTo valueNumber op specialization d lhs rhs
  | _, _ => .self

/-- `foldsToConstant`: arithmetic is folded on two number constants, a bitwise
instruction on two conversions to int32. -/
def foldsToConstant (d : DefId) : Folded :=
  match (G.definition d).op, (G.definition d).operands with
  | .arith _ _ _, [lhs, rhs] =>
      if (G.numberConstant? lhs).isSome && (G.numberConstant? rhs).isSome then G.foldsTo none d
      else .self
  | .bitwise _ _, [lhs, rhs] =>
      if G.isToInt32 lhs && G.isToInt32 rhs then G.foldsTo none d else .self
  | _, _ => .self

end MIRGraph
end SpiderMonkey.Ion
