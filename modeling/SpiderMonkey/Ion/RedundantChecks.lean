import SpiderMonkey.Lib.Preorder
import SpiderMonkey.Ion.LinearSum

/-! # Redundant bounds checks

`EliminateRedundantBoundsChecks` of `IonAnalysis.cpp`. The pass walks over the dominator
tree in pre-order. A bounds check with the same length and the same index term as one that
dominates it is eliminated, and the range of the dominating check is widened. The checks are
found by a hash of the index term and the length; that a check in the table still dominates
is decided by the numbers of the blocks in the walk.
-/

namespace SpiderMonkey.Ion

open Lib

/-- A graph with its dominator tree, the checks that may be moved, and where the definitions
are in memory. -/
structure BoundsCheckGraph extends MIRGraph where
  immediatelyDominated : BlockId → List BlockId
  isMovable : DefId → Bool
  address : DefId → UInt64
  boundsCheck_type : ∀ check minimum maximum,
    (definition check).op = .boundsCheck minimum maximum → (definition check).type = .int32

/-- `minimum()` of an `MBoundsCheck`. -/
def MDefinition.minimum (d : MDefinition) : Int32 :=
  match d.op with
  | .boundsCheck minimum _ => minimum
  | _ => 0

/-- `maximum()` of an `MBoundsCheck`. -/
def MDefinition.maximum (d : MDefinition) : Int32 :=
  match d.op with
  | .boundsCheck _ maximum => maximum
  | _ => 0

/-- `BoundsCheckInfo`. -/
structure BoundsCheckInfo where
  check : DefId
  validUntil : Nat

/-- What the pass changes: the operands, the ranges of the checks, the map `checks`, and
which checks are discarded. -/
structure BoundsCheckState where
  operands : DefId → List DefId
  minimum : DefId → Int32
  maximum : DefId → Int32
  checks : UInt32 → Option BoundsCheckInfo
  discarded : DefId → Bool

/-- Why the pass returns false: a sum of offsets overflows. `fuel` is for the model alone. -/
inductive BoundsCheckFailure where
  | overflow | fuel
deriving DecidableEq, Repr

namespace BoundsCheckState

variable (s : BoundsCheckState)

/-- `check->index()`. -/
def index (check : DefId) : DefId := (s.operands check).getD 0 0

/-- `check->length()`. -/
def length (check : DefId) : DefId := (s.operands check).getD 1 0

def replaceAllUsesWith (check index : DefId) : BoundsCheckState :=
  { s with operands := fun d => (s.operands d).map fun o => if o = check then index else o }

def put (hash : UInt32) (info : BoundsCheckInfo) : BoundsCheckState :=
  { s with checks := Function.update s.checks hash (some info) }

/-- `setMinimum` and `setMaximum`. -/
def setRange (check : DefId) (minimum maximum : Int32) : BoundsCheckState :=
  { s with
    minimum := Function.update s.minimum check minimum
    maximum := Function.update s.maximum check maximum }

def discardDef (check : DefId) : BoundsCheckState :=
  { s with discarded := Function.update s.discarded check true }

/-- The range a check checks in the compiled code. -/
def checkedRange (d : DefId) : Option (Int32 × Int32) :=
  if s.discarded d then none else some (s.minimum d, s.maximum d)

end BoundsCheckState

/-- The range of the dominating check that covers both ranges, given the offsets of the two
indexes and the two ranges. -/
def coverBoth (constantA constantB minA maxA minB maxB : Int32) : Option (Int32 × Int32) := do
  let minimumA ← safeAdd constantA minA
  let maximumA ← safeAdd constantA maxA
  let minimumB ← safeAdd constantB minB
  let maximumB ← safeAdd constantB maxB
  let newMinimum ← safeSub (min minimumA minimumB) constantA
  let newMaximum ← safeSub (max maximumA maximumB) constantA
  return (newMinimum, newMaximum)

namespace BoundsCheckGraph

variable (G : BoundsCheckGraph)

/-- `ExtractLinearSum` on the graph as it is by now. -/
def linearSum (fuel : Nat) (s : BoundsCheckState) (d : DefId) :
    Except BoundsCheckFailure LinearSum :=
  match G.extractLinearSum s.operands fuel d with
  | some sum => .ok sum
  | none => .error .fuel

/-- `BoundsCheckHashIgnoreOffset`. A hash is the low half of the word. -/
def boundsCheckHashIgnoreOffset (fuel : Nat) (s : BoundsCheckState) (check : DefId) :
    Except BoundsCheckFailure UInt32 := do
  let indexSum ← G.linearSum fuel s (s.index check)
  let index := (indexSum.term.map G.address).getD 0
  return (index ^^^ G.address (s.length check)).toUInt32

/-- `FindDominatingBoundsCheck`. -/
def findDominatingBoundsCheck (fuel : Nat) (s : BoundsCheckState) (check : DefId)
    (index : Nat) : Except BoundsCheckFailure (BoundsCheckState × DefId) := do
  let hash ← G.boundsCheckHashIgnoreOffset fuel s check
  match (s.checks hash).filter fun info => index ≤ info.validUntil with
  | some info => return (s, info.check)
  | none =>
      let validUntil := index + (G.block (G.definition check).block).numDominated
      return (s.put hash { check := check, validUntil := validUntil }, check)

/-- `TryEliminateBoundsCheck`, with the value of `*eliminated`. -/
def tryEliminateBoundsCheck (fuel : Nat) (s : BoundsCheckState) (dominating dominated : DefId) :
    Except BoundsCheckFailure (BoundsCheckState × Bool) :=
  if s.length dominating ≠ s.length dominated then return (s, false)
  else do
    let sumA ← G.linearSum fuel s (s.index dominating)
    let sumB ← G.linearSum fuel s (s.index dominated)
    if sumA.term ≠ sumB.term then return (s, false)
    else
      match coverBoth sumA.constant sumB.constant (s.minimum dominating) (s.maximum dominating)
          (s.minimum dominated) (s.maximum dominated) with
      | none => .error .overflow
      | some (newMinimum, newMaximum) =>
          return (s.setRange dominating newMinimum newMaximum, true)

/-- The body of the loop over the definitions of a block, for a bounds check. -/
def visitBoundsCheck (fuel index : Nat) (s : BoundsCheckState) (check : DefId) :
    Except BoundsCheckFailure BoundsCheckState :=
  let s := s.replaceAllUsesWith check (s.index check)
  if G.isMovable check then do
    let (s, dominating) ← G.findDominatingBoundsCheck fuel s check index
    if dominating = check then return s
    else do
      let (s, eliminated) ← G.tryEliminateBoundsCheck fuel s dominating check
      return if eliminated then s.discardDef check else s
  else return s

def visitDefinition (fuel index : Nat) (s : BoundsCheckState) (d : DefId) :
    Except BoundsCheckFailure BoundsCheckState :=
  match (G.definition d).op with
  | .boundsCheck _ _ => G.visitBoundsCheck fuel index s d
  | _ => return s

/-- The loop over the phis and the instructions of a block. -/
def visitDefinitions (fuel index : Nat) (s : BoundsCheckState) (block : BlockId) :
    Except BoundsCheckFailure BoundsCheckState :=
  ((G.block block).phis ++ (G.block block).instructions).foldlM (G.visitDefinition fuel index) s

/-- `while (!worklist.empty())`, for at most `rounds` blocks. The end of the worklist is its
first element here. -/
def visitWorklist (fuel : Nat) : Nat → Nat → List BlockId → BoundsCheckState →
    Except BoundsCheckFailure BoundsCheckState
  | _, _, [], s => return s
  | 0, _, _ :: _, _ => .error .fuel
  | rounds + 1, index, block :: worklist, s => do
      let s ← G.visitDefinitions fuel index s block
      visitWorklist fuel rounds (index + 1)
        ((G.immediatelyDominated block).reverse ++ worklist) s

/-- The self-dominating blocks, the last one first. -/
def selfDominating : List BlockId :=
  (G.blocks.filter fun block => (G.block block).immediateDominator = block).reverse

def initialState : BoundsCheckState where
  operands d := (G.definition d).operands
  minimum d := (G.definition d).minimum
  maximum d := (G.definition d).maximum
  checks _ := none
  discarded _ := false

/-- `EliminateRedundantBoundsChecks`. -/
def eliminateRedundantBoundsChecks (fuel : Nat) : Except BoundsCheckFailure BoundsCheckState :=
  G.visitWorklist fuel G.blocks.length 0 G.selfDominating G.initialState

/-! ## The dominator tree -/

/-- The tree of the blocks each block immediately dominates. -/
def dominatorForest : Forest BlockId where
  children := G.immediatelyDominated
  numBelow b := (G.block b).numDominated

/-- The dominator tree is correct: a block is a child of its immediate dominator, which
strictly dominates it, and each block knows the number of blocks below it. -/
structure HasDominatorTree : Prop where
  mem_immediatelyDominated : ∀ {a b}, b ∈ G.immediatelyDominated a ↔
    b ∈ G.blocks ∧ (G.block b).immediateDominator = a ∧ b ≠ a
  nodup_immediatelyDominated : ∀ a, (G.immediatelyDominated a).Nodup
  numDominated_eq : ∀ a, (G.block a).numDominated =
    ((G.immediatelyDominated a).map fun b => (G.block b).numDominated + 1).sum
  strictlyDominates : ∀ {b}, b ∈ G.blocks → (G.block b).immediateDominator ≠ b →
    G.ssa.StrictlyDominates (G.block b).immediateDominator b

end BoundsCheckGraph
end SpiderMonkey.Ion
