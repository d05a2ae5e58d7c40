import SpiderMonkey.Ion.Bce
import SpiderMonkey.Ion.Branch
import SpiderMonkey.Ion.LinearSumSoundness

/-! # Hoisted bounds checks

`Loop::tryHoistBoundsCheck` of `LICM.cpp`. A bounds check on a phi of the loop header, below
a test that bounds the phi by a loop-invariant term, is replaced by two checks in front of
the loop: an upper one on the term, and a lower one on the initial value of the phi, which
the loop does not decrease.
-/

namespace SpiderMonkey.Ion

open Lib

/-- A graph with what `Loop` reads of a definition besides: whether it may be moved, the
store it depends on, and the flag `isLoopInvariant()`. -/
structure LoopGraph extends MIRGraph where
  isMovable : DefId → Bool
  dependency : DefId → Option DefId
  flaggedInvariant : DefId → Bool
  boundsCheck_type : ∀ check minimum maximum,
    (definition check).op = .boundsCheck minimum maximum → (definition check).type = .int32
  constant_type : ∀ d n, (definition d).op = .constant (.int32 n) → (definition d).type = .int32

/-- `lhs <= rhs` or `lhs >= rhs`. The right side is 0 where it is `NULL`. -/
structure LinearInequality where
  lhs : LinearSum
  rhs : Option DefId
  lessEqual : Bool

/-- What the upper check is made on: a term, or a new constant. -/
inductive UpperIndex where
  | definition (d : DefId)
  | constant (n : Int32)

/-- The new `MBoundsCheck`, with one number for minimum and maximum, and the new
`MBoundsCheckLower`. -/
structure HoistedChecks where
  upper : UpperIndex
  length : DefId
  upperOffset : Int32
  lower : DefId
  lowerMinimum : Int32

/-- The comparison as `<=` or `>=`, with the constant on the left side adjusted. -/
def normalizeCompare : CompareOp → Int32 → Option (Int32 × Bool)
  | .le, constant => some (constant, true)
  | .lt, constant => (safeAdd constant 1).map fun c => (c, true)
  | .ge, constant => some (constant, false)
  | .gt, constant => (safeSub constant 1).map fun c => (c, false)
  | _, _ => none

namespace LoopGraph

variable (G : LoopGraph) (header : BlockId)

/-- `Loop::isInLoop`. -/
def isInLoop (ins : DefId) : Bool := header ≤ (G.definition ins).block

def isHoistable (ins : DefId) : Bool := G.isMovable ins && !(G.definition ins).op.isStore

/-- `Loop::isLoopInvariant(MInstruction *)`. -/
def isLoopInvariantInstruction (ins : DefId) : Bool :=
  G.isHoistable ins && !(G.dependency ins).any (G.isInLoop header) &&
    (G.definition ins).operands.all fun o => !G.isInLoop header o || G.flaggedInvariant o

/-- `Loop::isLoopInvariant(MDefinition *)`. -/
def isLoopInvariant (ins : DefId) : Bool :=
  !G.isInLoop header ins ||
    ((G.definition ins).op ≠ .phi && G.isLoopInvariantInstruction header ins)

/-- `preLoop_`, the first predecessor of the header. -/
def preLoop : BlockId := (G.block header).predecessors.headD header

def linearSum (fuel : Nat) (d : DefId) : Option LinearSum :=
  G.extractLinearSum (fun d => (G.definition d).operands) fuel d

/-- `ExtractLinearInequality`, for a test of the definition `test`. -/
def extractLinearInequality (fuel : Nat) (test : DefId) (direction : Bool) :
    Option LinearInequality :=
  match (G.definition test).op, (G.definition test).operands with
  | .compare jsop .int32, [lhs, rhs] => do
      let lsum ← G.linearSum fuel lhs
      let rsum ← G.linearSum fuel rhs
      let constant ← safeSub lsum.constant rsum.constant
      let (constant, lessEqual) ← normalizeCompare (MIRGraph.effectiveOp jsop direction) constant
      return ⟨⟨lsum.term, constant⟩, rsum.term, lessEqual⟩
  | _, _ => none

/-- The sides are swapped where the right one is not loop invariant. -/
def ensureInvariantRhs (ineq : LinearInequality) : Option LinearInequality :=
  match ineq.rhs with
  | none => some ineq
  | some rhs =>
      if G.isLoopInvariant header rhs then some ineq
      else if ineq.lhs.term.any fun t => !G.isLoopInvariant header t then none
      else do
        let constant ← safeSub 0 ineq.lhs.constant
        return ⟨⟨some rhs, constant⟩, ineq.lhs.term, !ineq.lessEqual⟩

/-- `Loop::nonDecreasing`: the definitions on the worklist, with its end first, do not fall
below `initial`. -/
def nonDecreasing (initial : DefId) : Nat → List DefId → List DefId → Option Bool
  | _, _, [] => some true
  | 0, _, _ :: _ => none
  | fuel + 1, seen, d :: worklist =>
      if seen.contains d then nonDecreasing initial fuel seen worklist
      else if G.type d ≠ .int32 then some false
      else if !G.isInLoop header d then
        if d ≠ initial then some false
        else nonDecreasing initial fuel (seen ++ [d]) worklist
      else
        match (G.definition d).op, (G.definition d).operands with
        | .phi, operands =>
            nonDecreasing initial fuel (seen ++ [d]) (operands.reverse ++ worklist)
        | .arith .add .int32 _, [lhs, rhs] =>
            match (G.definition rhs).constantInt32? with
            | some n =>
                if n < 0 then some false
                else nonDecreasing initial fuel (seen ++ [d]) (lhs :: worklist)
            | none => some false
        | _, _ => some false

/-- The check that `index + maximum < length` for all values the test lets through. -/
def upperCheck (rhs : Option DefId) (length : DefId) (adjustment : Int32) (lower : DefId)
    (lowerBound : Int32) : HoistedChecks :=
  match rhs with
  | some rhs => ⟨.definition rhs, length, adjustment, lower, lowerBound⟩
  | none => ⟨.constant adjustment, length, 0, lower, lowerBound⟩

/-- `Loop::tryHoistBoundsCheck`, for a check that is below the `direction` branch of a test
of `test`. There is no pair where the source leaves `*pupper` and `*plower` at `NULL`. The
position of the pre-loop block among the predecessors of the header is 0. -/
def tryHoistBoundsCheck (fuel : Nat) (ins test : DefId) (direction : Bool) :
    Option HoistedChecks :=
  match (G.definition ins).op, (G.definition ins).operands with
  | .boundsCheck minimum maximum, [indexIns, length] => do
      guard (G.isLoopInvariant header length)
      let ineq ← G.extractLinearInequality fuel test direction
      let ineq ← G.ensureInvariantRhs header ineq
      let term ← ineq.lhs.term
      guard ((G.definition term).op = .phi ∧ (G.definition term).block = header)
      let index ← G.linearSum fuel indexIns
      guard (index.term = some term)
      guard ineq.lessEqual
      let adjustment ← safeSub index.constant ineq.lhs.constant
      let adjustment ← safeAdd adjustment maximum
      let initialIndex ← (G.definition term).getOperand? 0
      let grows ← G.nonDecreasing header initialIndex fuel [] [term]
      guard grows
      let lowerBound ← safeSub 0 index.constant
      let lowerBound ← safeSub lowerBound minimum
      return upperCheck ineq.rhs length adjustment initialIndex lowerBound
  | _, _ => none

/-! ## Executions of the graph with the checks in front of the loop -/

/-- `Loop::hoistInstructions`: the loop-invariant instructions are moved to the end of the
block in front of the loop. -/
def hoistInstructions (toHoist : List DefId) : MIRGraph where
  blocks := G.blocks
  entryBlock := G.entryBlock
  osrBlock := G.osrBlock
  block b :=
    { G.block b with
      instructions := ((G.block b).instructions.filter fun d => d ∉ toHoist) ++
        if b = G.preLoop header then toHoist else [] }
  definition d :=
    if d ∈ toHoist then { G.definition d with block := G.preLoop header } else G.definition d

end LoopGraph

namespace HoistedChecks

/-- Both checks pass. -/
def Pass (checks : HoistedChecks) (env : DefId → Int32) : Prop :=
  InBounds checks.upperOffset checks.upperOffset
    (match checks.upper with
      | .definition d => env d
      | .constant n => n) (env checks.length) ∧
    checks.lowerMinimum.toInt ≤ (env checks.lower).toInt

end HoistedChecks

namespace MIRGraph

variable (G : MIRGraph)

/-- The result of an int32 addition or subtraction is the exact one. -/
def LeavesExact (d : DefId) (env : DefId → Int32) (v : Int32) : Prop :=
  ∀ op l r n, G.IsInt32Arith op d l r → ArithOp.exact? op (env l).toInt (env r).toInt = some n →
    v.toInt = n

lemma leavesExact_congr {d : DefId} {env env' : DefId → Int32} {v : Int32}
    (hsame : ∀ o ∈ (G.definition d).operands, env o = env' o) (h : G.LeavesExact d env v) :
    G.LeavesExact d env' v := by
  intro op l r n harith hn
  rw [← hsame l (by simp [harith.operands_eq]), ← hsame r (by simp [harith.operands_eq])] at hn
  exact h op l r n harith hn

/-- The graph as a program that makes the checks at the end of the block `preLoop`, and in
which the instructions `exactly` do not wrap around. The bounds checks of the graph itself
check nothing. -/
def hoistedSsa (preLoop : BlockId) (checks : HoistedChecks) (exactly : DefId → Prop) :
    Ssa BlockId DefId Int32 where
  toFlowGraph := G.ssa.toFlowGraph
  phis := G.ssa.phis
  body := G.ssa.body
  operands := G.ssa.operands
  sources := G.ssa.sources
  computes d env v :=
    G.ComputesInt32 (fun _ => none) d env v ∧ (exactly d → G.LeavesExact d env v)
  take b env target :=
    G.BranchesInt32 (G.block b).lastIns env target ∧ (b = preLoop → checks.Pass env)
  computes_congr hsame h :=
    ⟨computesInt32_congr hsame h.1, fun hd => G.leavesExact_congr hsame (h.2 hd)⟩
  edge_of_take h := mem_successors_of_branchesInt32 h.1

lemma WellFormed.hoistedSsa {G : MIRGraph} (wf : G.WellFormed) (preLoop : BlockId)
    (checks : HoistedChecks) (exactly : DefId → Prop) :
    (G.hoistedSsa preLoop checks exactly).WellFormed where
  block_unique := wf.ssa.block_unique
  phi_not_body := wf.ssa.phi_not_body
  nodup_body := wf.ssa.nodup_body
  operand_above := wf.ssa.operand_above

end MIRGraph

/-- What `Loop::init` and `Loop::optimize` rely on or have found out about a loop: the header
has the block in front of the loop and the back edge as its predecessors, the ids are in
reverse postorder, and the loop-invariant instructions of the loop are among those moved. -/
structure LoopGraph.IsLoop (G : LoopGraph) (header : BlockId) (toHoist : List DefId) :
    Prop where
  predecessors_eq : ∃ backedge, (G.block header).predecessors = [G.preLoop header, backedge] ∧
    G.ssa.Dominates header backedge
  preLoop_above : G.ssa.StrictlyDominates (G.preLoop header) header
  lt_of_strictlyDominates : ∀ {a b}, G.ssa.Reachable b → G.ssa.StrictlyDominates a b → a < b
  mem_toHoist : ∀ d, G.isInLoop header d = true → G.isLoopInvariant header d = true →
    d ∈ toHoist

/-- The compiled graph as a program: the invariant instructions are moved in front of the
loop, and the checks are made after them. -/
abbrev LoopGraph.compiledSsa (G : LoopGraph) (header : BlockId) (toHoist : List DefId)
    (checks : HoistedChecks) (exactly : DefId → Prop) : Ssa BlockId DefId Int32 :=
  (G.hoistInstructions header toHoist).hoistedSsa (G.preLoop header) checks exactly

end SpiderMonkey.Ion
