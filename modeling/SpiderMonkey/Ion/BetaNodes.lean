import SpiderMonkey.Ion.Branch

/-! # Insertion of beta nodes

`RangeAnalysis::addBetaNobes`. Blocks are visited in postorder. A block entered
only from a block that ends in a test of a comparison gets beta nodes: copies of
an operand of the comparison, with the interval that the outcome of the test
implies. Each beta then replaces the uses of what it copies in the blocks it
dominates.

The graph itself is not changed here. `BetaState` keeps the betas inserted so
far and what every use reads at the moment, which may be a beta.
-/

namespace SpiderMonkey.Ion

open SpiderMonkey.Lib

/-- What a use reads: a definition of the graph or a beta, by its position in the
order of insertion. -/
inductive Ref where
  | definition (d : DefId)
  | beta (k : Nat)
deriving DecidableEq, Repr

/-- `MBeta`, with the block it was inserted in. -/
structure Beta where
  block : BlockId
  val : Ref
  low : Int
  high : Int
deriving DecidableEq, Repr

/-- The betas inserted so far, and what the operands of definitions and of tests
read. -/
structure BetaState where
  betas : List Beta
  operand : DefId → Nat → Option Ref
  testOperand : BlockId → Option Ref

namespace MIRGraph

variable (G : MIRGraph)

/-- Before the pass every use reads a definition of the graph. -/
def initialBetaState : BetaState where
  betas := []
  operand d i := ((G.definition d).getOperand? i).map .definition
  testOperand b := (G.testOperand? b).map .definition

/-- `IsDominatedUse` for the operand of a definition: a phi uses it at the end of
the predecessor. -/
def isDominatedUse (b : BlockId) (d : DefId) (i : Nat) : Bool :=
  let user := (G.definition d).block
  if (G.definition d).op = .phi then
    match (G.block user).predecessors[i]? with
    | some pred => (G.block b).dominates (G.block pred)
    | none => false
  else (G.block b).dominates (G.block user)

/-- `replaceDominatedUsesWith`. -/
def replaceDominatedUsesWith (s : BetaState) (orig dom : Ref) (b : BlockId) : BetaState where
  betas := s.betas
  operand d i :=
    if s.operand d i = some orig ∧ G.isDominatedUse b d i then some dom else s.operand d i
  testOperand c :=
    if s.testOperand c = some orig ∧ (G.block b).dominates (G.block c) then some dom
    else s.testOperand c

/-- `MBeta::New`, `insertBefore` the first instruction of the block, and
`replaceDominatedUsesWith`. -/
def insertBeta (s : BetaState) (beta : Beta) : BetaState :=
  G.replaceDominatedUsesWith { s with betas := s.betas ++ [beta] } beta.val
    (.beta s.betas.length) beta.block

/-- `isConstant() && value().isInt32()`, for what a use reads. -/
def constantInt32? : Ref → Option Int32
  | .definition d => (G.definition d).constantInt32?
  | .beta _ => none

end MIRGraph

/-- The interval of the operand compared with an int32 constant; it stays as wide
as it was where `SafeSub` or `SafeAdd` fails. -/
def boundedRange (jsop : CompareOp) (bound : Int) : Int × Int :=
  match jsop with
  | .le => (int32Min, bound)
  | .lt => if int32Min ≤ bound - 1 then (int32Min, bound - 1) else (int32Min, int32Max)
  | .ge => (bound, int32Max)
  | .gt => if bound + 1 ≤ int32Max then (bound + 1, int32Max) else (int32Min, int32Max)
  | .eq => (bound, bound)
  | _ => (int32Min, int32Max)

/-- The betas for two operands of which neither is an int32 constant. The second
condition of the source is the constant `JSOP_GT` instead of a comparison with
it, so every operator but `<` is taken for `>`. -/
def betasOfVariables (jsop : CompareOp) (left right : Ref) (b : BlockId) : List Beta :=
  let (smaller, greater) := if jsop = .lt then (left, right) else (right, left)
  [⟨b, smaller, int32Min, int32Max - 1⟩, ⟨b, greater, int32Min + 1, int32Max⟩]

namespace MIRGraph

variable (G : MIRGraph)

/-- The comparison that decides whether `b` is entered, as the pass sees it: the
operator that holds in `b`, and the operands. -/
def decidingCompare (s : BetaState) (b : BlockId) : Option (CompareOp × Ref × Ref) :=
  match G.immediateDominatorBranch b with
  | none => none
  | some (pred, branchDir) =>
      match s.testOperand pred with
      | some (.definition ins) =>
          match (G.definition ins).op, s.operand ins 0, s.operand ins 1 with
          | .compare jsop _, some left, some right => some (effectiveOp jsop branchDir, left, right)
          | _, _, _ => none
      | _ => none

/-- The betas one iteration of `addBetaNobes` inserts, in order. -/
def newBetas (s : BetaState) (b : BlockId) : List Beta :=
  match G.decidingCompare s b with
  | none => []
  | some (jsop, left, right) =>
      match G.constantInt32? left, G.constantInt32? right with
      | some bound, _ =>
          let (low, high) := boundedRange jsop.reverse bound.toInt
          [⟨b, right, low, high⟩]
      | none, some bound =>
          let (low, high) := boundedRange jsop bound.toInt
          [⟨b, left, low, high⟩]
      | none, none => betasOfVariables jsop left right b

/-- One iteration of `addBetaNobes`. -/
def addBetaNobesAt (s : BetaState) (b : BlockId) : BetaState :=
  (G.newBetas s b).foldl G.insertBeta s

/-- `RangeAnalysis::addBetaNobes`: all blocks, in postorder. -/
def addBetaNobes : BetaState := G.blocks.reverse.foldl G.addBetaNobesAt G.initialBetaState

end MIRGraph
end SpiderMonkey.Ion
