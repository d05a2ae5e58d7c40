import SpiderMonkey.Lib.Dominance
import SpiderMonkey.Lib.Iteration

/-! # Immediate dominators

`ComputeImmediateDominators` of `IonAnalysis.cpp`: the algorithm of Cooper et al., with
a second root for the OSR entry and with intersections that may be empty. Blocks are
their ids, which `RenumberBlocks` made the positions in reverse postorder.
-/

namespace SpiderMonkey.Ion

open Lib

/-- The blocks of a graph in reverse postorder, with their predecessors. Block 0 is the
entry. -/
structure DomGraph where
  numBlocks : Nat
  predecessors : Nat → List Nat
  osrBlock : Option Nat

namespace DomGraph

variable (g : DomGraph)

/-- Control enters a compiled script at its first block and at the OSR entry. -/
def IsRoot (b : Nat) : Prop := b = 0 ∨ g.osrBlock = some b

instance : DecidablePred g.IsRoot := fun b => inferInstanceAs (Decidable (b = 0 ∨ _))

def toFlowGraph : FlowGraph Nat where
  root := g.IsRoot
  edge p b := b < g.numBlocks ∧ p ∈ g.predecessors b

/-- The numbering of a graph in reverse postorder. -/
structure WellNumbered : Prop where
  root_lt : ∀ b, g.IsRoot b → b < g.numBlocks
  predecessor_lt : ∀ b < g.numBlocks, ∀ p ∈ g.predecessors b, p < g.numBlocks
  predecessor_zero : ∀ b < g.numBlocks, ¬ g.IsRoot b →
    ∃ p ps, g.predecessors b = p :: ps ∧ p < b
  reachable : ∀ b < g.numBlocks, g.toFlowGraph.Reachable b

end DomGraph

/-- `MBasicBlock::immediateDominator_` of each block, `none` for `NULL`. -/
abbrev IdomTable := Nat → Option Nat

/-- `IntersectDominators`. The two inner loops move the finger with the larger id. The
result is `none` when the fuel runs out or a finger without dominator is read, and
`some none` for the empty intersection. -/
def intersectDominators (idom : IdomTable) : Nat → Nat → Nat → Option (Option Nat)
  | 0, _, _ => none
  | fuel + 1, finger1, finger2 =>
      if finger1 = finger2 then some (some finger1)
      else if finger1 > finger2 then
        match idom finger1 with
        | none => none
        | some d =>
            if d = finger1 then some none
            else intersectDominators idom fuel d finger2
      else
        match idom finger2 with
        | none => none
        | some d =>
            if d = finger2 then some none
            else intersectDominators idom fuel finger1 d

/-- The loop over the predecessors from the second on. `some none` is the `break` after
an empty intersection. -/
def findCommonDominator (idom : IdomTable) (fuel : Nat) : Nat → List Nat → Option (Option Nat)
  | newIdom, [] => some (some newIdom)
  | newIdom, pred :: preds =>
      if (idom pred).isSome then
        match intersectDominators idom fuel pred newIdom with
        | none => none
        | some none => some none
        | some (some d) => findCommonDominator idom fuel d preds
      else findCommonDominator idom fuel newIdom preds

/-- The table and the flag `changed` of the loop. -/
structure DomState where
  idom : IdomTable
  changed : Bool

namespace DomState

/-- `block->setImmediateDominator(dom); changed = true;` -/
def setImmediateDominator (s : DomState) (block dom : Nat) : DomState where
  idom := Function.update s.idom block (some dom)
  changed := true

end DomState

/-- The body of the loop over the blocks. -/
def visitBlock (g : DomGraph) (fuel : Nat) (s : DomState) (block : Nat) : Option DomState :=
  if s.idom block = some block then some s
  else
    match g.predecessors block with
    | [] => none
    | newIdom :: preds =>
        match findCommonDominator s.idom fuel newIdom preds with
        | none => none
        | some none => some (s.setImmediateDominator block block)
        | some (some d) =>
            if s.idom block = some d then some s else some (s.setImmediateDominator block d)

/-- Visits the blocks below `n` in reverse postorder. -/
def visitBlocks (g : DomGraph) (fuel : Nat) (s : DomState) : Nat → Option DomState
  | 0 => some s
  | n + 1 => (visitBlocks g fuel s n).bind fun s' => visitBlock g fuel s' n

/-- One round of `while (changed)`. -/
def sweep (g : DomGraph) (fuel : Nat) (idom : IdomTable) : Option (IdomTable × Bool) :=
  (visitBlocks g fuel { idom := idom, changed := false } g.numBlocks).map
    fun s => (s.idom, s.changed)

/-- The table before the first round: each root dominates itself. -/
def initialIdom (g : DomGraph) : IdomTable := fun b => if g.IsRoot b then some b else none

/-- `ComputeImmediateDominators`, with fuel for the rounds and for each intersection. -/
def computeImmediateDominators (g : DomGraph) (fuel : Nat) : Option IdomTable :=
  untilStableFallible (sweep g fuel) fuel (initialIdom g)

end SpiderMonkey.Ion
