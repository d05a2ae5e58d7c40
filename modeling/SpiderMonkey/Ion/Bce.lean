import SpiderMonkey.Ion.InductionVariable

/-! # Bounds check elimination

`BCE.cpp`: the bounds checks whose index is an induction variable and whose
outcome its bounds settle. The sums of a bound and an offset are int32 sums, and
the comparisons with a length are unsigned, as the source has them. An assertion
of the source that does not hold fails the match here.
-/

namespace SpiderMonkey.Ion

/-- What the pass reads of an object. -/
structure JSObject where
  isDenseArray : Bool
  denseArrayInitializedLength : UInt32

/-- The objects at compile time, by address. -/
abbrev Heap := Nat → JSObject

/-- `getAliasSet().isStore()`. -/
def Opcode.isStore : Opcode → Bool
  | .compare jsop specialization =>
      jsop ≠ .stricteq && jsop ≠ .strictne && specialization = .none
  | .arith _ specialization _ => specialization.geObject
  | .bitwise _ specialization => specialization.geObject
  | .other isStore => isStore
  | _ => false

/-- The operands of a control instruction, if it is a store. -/
def MControl.storedOperands : MControl → List DefId
  | .other operands true _ => operands
  | _ => []

namespace MIRGraph

variable (G : MIRGraph)

/-! ## The length of the array -/

/-- `hasUnchangeableLength`: no store in the graph has the constant as an operand. -/
def hasUnchangeableLength (array : DefId) : Bool :=
  G.blocks.all fun b =>
    ((G.block b).phis ++ (G.block b).instructions).all (fun d =>
      !((G.definition d).operands.contains array && (G.definition d).op.isStore)) &&
    !(G.block b).lastIns.storedOperands.contains array

/-- `toInitializedLength()->elements()->toElements()->object()`. -/
def lengthObject? (length : DefId) : Option DefId := do
  guard ((G.definition length).op = .initializedLength)
  let elements ← G.operand? length 0
  guard ((G.definition elements).op = .elements)
  G.operand? elements 0

/-- The initialized length of the constant dense array a length is read from, if
nothing in the graph can change it. -/
def constantLength? (heap : Heap) (length : DefId) : Option UInt32 := do
  let object ← G.lengthObject? length
  match (G.definition object).constantValue? with
  | some (.object address) =>
      guard (heap address).isDenseArray
      guard (G.hasUnchangeableLength object)
      return (heap address).denseArrayInitializedLength
  | _ => none

/-- `evaluateConstantLength`. -/
def evaluateConstantLength (upperBound : Int32) (length : DefId) : Bool :=
  match G.int32Constant? length with
  | some n => upperBound ≤ n
  | none => false

/-! ## The three kinds of check -/

/-- `eliminateBoundsCheck`: `index < length`, from the upper bound alone. -/
def eliminateBoundsCheck (heap : Heap) (iv : InductionVariable) (length : DefId) : Bool :=
  if (G.definition length).op = .initializedLength then
    match iv.upperBound with
    | some upper =>
        G.evaluateConstantLength upper length ||
          match G.constantLength? heap length with
          | some initializedLength => upper.toUInt32 ≤ initializedLength
          | none => false
    | none => false
  else false

/-- `eliminateBoundsCheckRange`: `index + minimum >= 0` and `index + maximum <
length`. -/
def eliminateBoundsCheckRange (heap : Heap) (iv : InductionVariable) (length : DefId)
    (minimum maximum : Int32) : Bool :=
  match iv.lowerBound, iv.upperBound, G.constantLength? heap length with
  | some lower, some upper, some initializedLength =>
      0 ≤ lower + minimum && (upper + maximum).toUInt32 ≤ initializedLength
  | _, _, _ => false

end MIRGraph

/-- `eliminateBoundsCheckLower`: `index >= minimum`. -/
def eliminateBoundsCheckLower (iv : InductionVariable) (minimum : Int32) : Bool :=
  match iv.lowerBound with
  | some lower => minimum ≤ lower
  | none => false

namespace MIRGraph

variable (G : MIRGraph)

/-- `tryElimination`: whether the check is put in `unneededChecks`. -/
def tryElimination (heap : Heap) (iv : InductionVariable) (d : DefId) : Bool :=
  G.rangeIsValid iv (G.definition d).block &&
    match (G.definition d).op, G.operand? d 1 with
    | .boundsCheck minimum maximum, some length =>
        if minimum = 0 ∧ maximum = 0 then G.eliminateBoundsCheck heap iv length
        else G.eliminateBoundsCheckRange heap iv length minimum maximum
    | .boundsCheckLower minimum, _ => eliminateBoundsCheckLower iv minimum
    | _, _ => false

/-! ## The pass -/

/-- The definitions that have `d` as an operand, in the order of the graph. -/
def uses (d : DefId) : List DefId :=
  G.blocks.flatMap fun b =>
    ((G.block b).phis ++ (G.block b).instructions).filter fun use =>
      (G.definition use).operands.contains d

/-- The checks one use of the variable leads to: itself, or else the uses of an
int32 conversion or an unboxing. -/
def uncheckedAt (heap : Heap) (iv : InductionVariable) (use : DefId) : List DefId :=
  if G.tryElimination heap iv use then [use]
  else if G.isToInt32 use || G.isUnbox use then
    (G.uses use).filter fun d => G.tryElimination heap iv d
  else []

/-- `BCE::analyze`, up to the deletion of the checks: `unneededChecks`. -/
def unneededChecks (heap : Heap) (uninit : Bool) : List DefId :=
  G.blocks.flatMap fun header =>
    match G.extractPattern uninit header with
    | some iv => (G.uses iv.variable_).flatMap (G.uncheckedAt heap iv)
    | none => []

/-! ## What a check checks -/

/-- The check passes, in exact integers, for an index and any array with the
length the pass reads. -/
def ChecksPass (heap : Heap) (d : DefId) (index : Int32) : Prop :=
  match (G.definition d).op, G.operand? d 1 with
  | .boundsCheck minimum maximum, some length =>
      0 ≤ index.toInt + minimum.toInt ∧ ∀ initializedLength,
        G.constantLength? heap length = some initializedLength →
          index.toInt + maximum.toInt < initializedLength.toNat
  | .boundsCheckLower minimum, _ => minimum.toInt ≤ index.toInt
  | _, _ => True

end MIRGraph
end SpiderMonkey.Ion
