import SpiderMonkey.Ion.Mir

/-! # Induction variables

`InductionVariable.cpp`: the loop headers that match one of the two upper bounded
continuous sum patterns, and the bounds read off the pattern. A pointer the
source does not follow safely (an operand or a predecessor that is not there)
makes the match fail here.
-/

namespace SpiderMonkey.Ion

/-- `InductionVariable` after a successful match. A bound is there when its flag
is set; the bounds only get values that the two fields allow. -/
structure InductionVariable where
  variable_ : DefId
  lowerBound : Option Int32
  upperBound : Option Int32
  isDoWhile : Bool
  lower_nonneg : ∀ l ∈ lowerBound, 0 ≤ l.toInt
  upper_ge : ∀ u ∈ upperBound, -1 ≤ u.toInt

/-- The int32 values the bounds that were set allow. -/
def InductionVariable.Bounds (iv : InductionVariable) (i : Int32) : Prop :=
  (∀ l ∈ iv.lowerBound, l.toInt ≤ i.toInt) ∧ ∀ u ∈ iv.upperBound, i.toInt < u.toInt

namespace MIRGraph

variable (G : MIRGraph)

/-- `getOperand` of the definition with the given id. -/
def operand? (d : DefId) (i : Nat) : Option DefId := (G.definition d).getOperand? i

def isPhi (d : DefId) : Bool := (G.definition d).op = .phi
def isToInt32 (d : DefId) : Bool := (G.definition d).op = .toInt32
def isUnbox (d : DefId) : Bool := (G.definition d).op = .unbox
def isBox (d : DefId) : Bool := (G.definition d).op = .box
def isConstant (d : DefId) : Bool := (G.definition d).constantValue?.isSome

/-- `isAdd`. -/
def isAdd (d : DefId) : Bool :=
  match (G.definition d).op with
  | .arith .add _ _ => true
  | _ => false

/-- The int32 constant a definition is. -/
def int32Constant? (d : DefId) : Option Int32 := (G.definition d).constantInt32?

/-- `isLoopHeader`. -/
def isLoopHeader (b : BlockId) : Bool := (G.block b).kind = .loopHeader

/-- `backedge`: the last predecessor. -/
def backedge? (b : BlockId) : Option BlockId := (G.block b).predecessors.getLast?

/-- `isLoopBackedge`. -/
def isLoopBackedge (b : BlockId) : Bool :=
  match (G.block b).lastIns.successors.getLast? with
  | some last => G.isLoopHeader last && G.backedge? last = some b
  | none => false

/-- The operator and operands of the `MCompare` a block's `MTest` tests, when it
is `JSOP_LT` or `JSOP_LE`. -/
def testedCompare? (b : BlockId) : Option (CompareOp × DefId × DefId) :=
  match (G.block b).lastIns with
  | .test ins _ _ =>
      match (G.definition ins).op with
      | .compare jsop _ =>
          if jsop = .lt ∨ jsop = .le then do
            let lhs ← G.operand? ins 0
            let rhs ← G.operand? ins 1
            return (jsop, lhs, rhs)
          else none
      | _ => none
  | _ => none

/-- A phi, or the phi under a `ToInt32`, `Unbox` or `Box`. -/
def phiUnder? (d : DefId) : Option DefId :=
  if G.isPhi d then some d
  else if G.isToInt32 d || G.isUnbox d || G.isBox d then
    (G.operand? d 0).filter fun input => G.isPhi input
  else none

/-- The add under a conversion that sits in the block of a back edge. -/
def addUnder? (d : DefId) : Option DefId :=
  (G.operand? d 0).filter fun input => G.isAdd input && G.isLoopBackedge (G.definition d).block

/-- The add that increases the variable, and the other operand of the phi, which
may be its lower bound. The operand tested first for a conversion decides, even if
what is under the conversion is no add. -/
def stepOf? (operand0 operand1 : DefId) : Option (DefId × DefId) :=
  if G.isAdd operand0 && G.isLoopBackedge (G.definition operand0).block then
    some (operand0, operand1)
  else if G.isAdd operand1 && G.isLoopBackedge (G.definition operand1).block then
    some (operand1, operand0)
  else if G.isToInt32 operand0 then (G.addUnder? operand0).map (·, operand1)
  else if G.isToInt32 operand1 then (G.addUnder? operand1).map (·, operand0)
  else if G.isUnbox operand0 then (G.addUnder? operand0).map (·, operand1)
  else if G.isUnbox operand1 then (G.addUnder? operand1).map (·, operand0)
  else if G.isBox operand0 then (G.addUnder? operand0).map (·, operand1)
  else if G.isBox operand1 then (G.addUnder? operand1).map (·, operand0)
  else none

/-- The increment of an add: its first constant operand, which must be a
non-negative int32. -/
def increment? (add : DefId) : Option Int32 := do
  let lhs ← G.operand? add 0
  let rhs ← G.operand? add 1
  let constant := if G.isConstant lhs then lhs else rhs
  (G.int32Constant? constant).filter fun increment => 0 ≤ increment.toInt

/-- The int32 constant a possible lower bound stands for: its own, or the smaller
one of a phi of two. -/
def lowerValue? (d : DefId) : Option Int32 :=
  if G.isConstant d then G.int32Constant? d
  else if G.isPhi d then
    match (G.definition d).operands with
    | [o0, o1] => do
        let lhs ← G.int32Constant? o0
        let rhs ← G.int32Constant? o1
        return if lhs.toInt ≤ rhs.toInt then lhs else rhs
    | _ => none
  else none

end MIRGraph

/-- The bound set from an int32 value: `lowerBound >= 0`. -/
def lowerBoundOf (value : Option Int32) : Option Int32 := value.filter fun l => 0 ≤ l.toInt

/-- The bound set from the int32 constant compared with: `upperBound >= 0`, and one
less for `JSOP_LE`. -/
def upperBoundOf (jsop : CompareOp) (value : Option Int32) : Option Int32 :=
  (value.filter fun u => 0 ≤ u.toInt).map fun u => if jsop = .le then u - 1 else u

lemma lowerBoundOf_nonneg (value : Option Int32) :
    ∀ l ∈ lowerBoundOf value, 0 ≤ l.toInt := by
  intro l hl
  simpa using (Option.filter_eq_some_iff.mp hl).2

lemma upperBoundOf_ge (jsop : CompareOp) (value : Option Int32) :
    ∀ u ∈ upperBoundOf jsop value, -1 ≤ u.toInt := by
  intro u hu
  obtain ⟨c, hc, rfl⟩ := Option.map_eq_some_iff.mp hu
  have hpos : 0 ≤ c.toInt := by simpa using (Option.filter_eq_some_iff.mp hc).2
  split_ifs
  · have hlt := c.toInt_lt
    rw [Int32.toInt_sub, Int32.toInt_one, Int.bmod_eq_of_le (by omega) (by omega)]
    omega
  · omega

namespace MIRGraph

variable (G : MIRGraph)

/-- `extractUBCSPattern`: `while (i < n) { … i += c }`. The member `isDoWhile_` is
not set on this path and holds whatever it held. -/
def extractUBCSPattern (uninit : Bool) (header : BlockId) : Option InductionVariable := do
  guard (G.isLoopHeader header)
  let (jsop, lhs, rhs) ← G.testedCompare? header
  let phi ← G.phiUnder? lhs
  match (G.definition phi).operands with
  | [operand0, operand1] =>
      let (add, mayBeLowerBound) ← G.stepOf? operand0 operand1
      let _ ← G.increment? add
      return {
        variable_ := phi
        lowerBound := lowerBoundOf (G.lowerValue? mayBeLowerBound)
        upperBound := upperBoundOf jsop (G.int32Constant? rhs)
        isDoWhile := uninit
        lower_nonneg := lowerBoundOf_nonneg _
        upper_ge := upperBoundOf_ge _ _ }
  | _ => none

/-- The constant, or the constant in a box, that the do-while pattern takes for
the lower bound. -/
def doWhileLower? (d : DefId) : Option DefId :=
  if G.isBox d then (G.operand? d 0).filter fun input => G.isConstant input
  else if G.isConstant d then some d else none

/-- `extractUBCSPatternDoWhile`: `do { … i += c } while (i < n)`. -/
def extractUBCSPatternDoWhile (header : BlockId) : Option InductionVariable := do
  guard (G.isLoopHeader header)
  let backedge ← G.backedge? header
  let block ← (G.block backedge).predecessors[0]?
  let (jsop, add, rhs) ← G.testedCompare? block
  guard (G.isConstant rhs)
  guard (G.isAdd add)
  let addLhs ← G.operand? add 0
  let phi ← G.phiUnder? addLhs
  match (G.definition phi).operands with
  | [operand0, _] =>
      -- the operands of a phi that is the initial value are not all looked at
      let otherPhi := if G.isPhi operand0 then operand0 else phi
      let phiOper0 ← G.operand? otherPhi 0
      let lowerBound ← G.doWhileLower? phiOper0
      let _ ← G.increment? add
      return {
        variable_ := phi
        lowerBound := lowerBoundOf (G.int32Constant? lowerBound)
        upperBound := upperBoundOf jsop (G.int32Constant? rhs)
        isDoWhile := true
        lower_nonneg := lowerBoundOf_nonneg _
        upper_ge := upperBoundOf_ge _ _ }
  | _ => none

/-- `extractPattern`. -/
def extractPattern (uninit : Bool) (header : BlockId) : Option InductionVariable :=
  (G.extractUBCSPattern uninit header).orElse fun _ => G.extractUBCSPatternDoWhile header

/-- `rangeIsValid`: `header < block <= backedge`, by block ids. -/
def rangeIsValid (iv : InductionVariable) (block : BlockId) : Bool :=
  let header := (G.definition iv.variable_).block
  if G.isLoopHeader header then
    match G.backedge? header with
    | some backedge =>
        (header < block && block ≤ backedge) ||
          (iv.isDoWhile && header ≤ block && block ≤ backedge)
    | none => false
  else false

end MIRGraph
end SpiderMonkey.Ion
