import SpiderMonkey.Ion.RangeSoundness

/-! # Range propagation

The worklist loop of `RangeAnalysis::analyze`. A definition of the graph is its position
in program order. The worklist is a stack, written from its top, and a definition has its
`InWorklist` flag set while it is on it.
-/

namespace SpiderMonkey.Ion

open SpiderMonkey.Lib

/-- An instruction with other names for its operands. -/
def RangeIns.map {α β : Type} (f : α → β) : RangeIns α → RangeIns β
  | .add specialization implicitTruncate lhs rhs =>
      .add specialization implicitTruncate (f lhs) (f rhs)
  | .sub specialization implicitTruncate lhs rhs =>
      .sub specialization implicitTruncate (f lhs) (f rhs)
  | .mul specialization lhs rhs => .mul specialization (f lhs) (f rhs)
  | .mod specialization lhs rhs => .mod specialization (f lhs) (f rhs)
  | .abs specialization num => .abs specialization (f num)
  | .lsh lhs rhs => .lsh (f lhs) rhs
  | .rsh lhs rhs => .rsh (f lhs) rhs
  | .phi type input inputs => .phi type (f input) (inputs.map f)
  | .beta val comparison => .beta (f val) comparison

/-- A definition. `leaf` is one without `recomputeRange`, with the range its constructor
gave it. -/
inductive RangeNode where
  | leaf (range : Range)
  | ins (i : RangeIns Nat)

namespace RangeNode

/-- The range a constructor leaves. Shifts are bitwise instructions, whose constructor
calls `range()->set(JSVAL_INT_MIN, JSVAL_INT_MAX)`. -/
def initialRange : RangeNode → Range
  | leaf range => range
  | ins (.lsh _ _) => (Range.unbounded.setLower int32Min).setUpper int32Max
  | ins (.rsh _ _) => (Range.unbounded.setLower int32Min).setUpper int32Max
  | ins _ => Range.unbounded

/-- `def->isPhi() || def->isBeta()` -/
def isPhiOrBeta : RangeNode → Bool
  | ins (.phi _ _ _) => true
  | ins (.beta _ _) => true
  | _ => false

end RangeNode

/-- The definitions in program order, and for each one the definitions that
`MUseDefIterator` visits. -/
structure RangeGraph where
  nodes : List RangeNode
  uses : Nat → List Nat
  leaf_valid : ∀ r, .leaf r ∈ nodes → r.Valid

/-- The ranges of the definitions and the worklist. -/
structure Propagation where
  ranges : List Range
  worklist : List Nat
deriving DecidableEq, Repr

namespace Propagation

def range (s : Propagation) (d : Nat) : Range := s.ranges.getD d Range.unbounded

/-- `AddToWorklist`. -/
def addToWorklist (s : Propagation) (d : Nat) : Propagation :=
  if d ∈ s.worklist then s else { s with worklist := d :: s.worklist }

@[simp] lemma addToWorklist_ranges (s : Propagation) (d : Nat) :
    (s.addToWorklist d).ranges = s.ranges := by
  unfold addToWorklist
  split <;> rfl

@[simp] lemma foldl_addToWorklist_ranges (ds : List Nat) (s : Propagation) :
    (ds.foldl addToWorklist s).ranges = s.ranges := by
  induction ds generalizing s with
  | nil => rfl
  | cons d ds ih => rw [List.foldl_cons, ih, addToWorklist_ranges]

end Propagation

namespace RangeGraph

variable (g : RangeGraph)

/-- The state before the loop: the phis and betas, the last one on top. -/
def initial : Propagation :=
  ((List.range g.nodes.length).filter fun d => (g.nodes[d]?).any RangeNode.isPhiOrBeta).foldl
    Propagation.addToWorklist
    { ranges := g.nodes.map RangeNode.initialRange, worklist := [] }

/-- The body of the loop. `uninit` is the memory a range is built in. -/
def step (uninit : Range) (s : Propagation) : Propagation :=
  match s.worklist with
  | [] => s
  | d :: worklist =>
      match g.nodes[d]? with
      | some (.ins i) =>
          let (r, changed) := RangeIns.recomputeRange uninit (s.range d) (i.map s.range)
          let s' : Propagation := { ranges := s.ranges.set d r, worklist := worklist }
          if changed then (g.uses d).foldl Propagation.addToWorklist s' else s'
      | _ => { s with worklist := worklist }

/-- The state after `n` turns of the loop. -/
def run (uninit : Nat → Range) : Nat → Propagation
  | 0 => g.initial
  | n + 1 => g.step (uninit n) (run uninit n)

end RangeGraph
end SpiderMonkey.Ion
