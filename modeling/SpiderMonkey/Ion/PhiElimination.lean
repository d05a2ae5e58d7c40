import SpiderMonkey.Lib.Ssa

/-! # Phi elimination

`EliminatePhis` of `IonAnalysis.cpp`: redundant phis are replaced by the definition they
stand for, and phis that no observable phi needs are discarded. The pass runs over the
phis in postorder, then empties a worklist of live phis, then sweeps.

A definition is a number. What uses a definition is a phi, an instruction or a resume
point; the last two are consumers and only have an operand each here.
-/

namespace SpiderMonkey.Ion

open Lib

inductive ConsumerKind where
  | instruction | resumePoint
deriving DecidableEq, Repr

/-- An operand of an instruction or of a resume point of the block. -/
structure Consumer where
  kind : ConsumerKind
  block : Nat
  operand : Nat
deriving DecidableEq, Repr

/-- The phis of a graph in the order of `PostorderIterator`, and all uses. -/
structure PhiGraph where
  phis : List Nat
  operands : Nat → List Nat
  slot : Nat → Nat
  bytecodeUses : Nat → Bool
  consumers : List Consumer

/-- What the pass changes: the phis that are not discarded, the operands, the bytecode
use flags, the flag `Unused`, and the worklist. A phi has its flag `InWorklist` set while
it is on the worklist, which is written from its top. -/
structure PhiState where
  phis : List Nat
  operands : Nat → List Nat
  bytecodeUses : Nat → Bool
  consumers : List Consumer
  unused : Nat → Bool
  worklist : List Nat

/-- One definition in place of another. -/
def substitute (p r o : Nat) : Nat := if o = p then r else o

namespace PhiState

variable (s : PhiState)

/-- `MDefinition::replaceAllUsesWith`. -/
def replaceAllUsesWith (p r : Nat) : PhiState :=
  { s with
    operands := fun q => (s.operands q).map (substitute p r)
    consumers := s.consumers.map fun c => { c with operand := substitute p r c.operand } }

/-- `MBasicBlock::discardPhiAt`. -/
def discardPhi (p : Nat) : PhiState :=
  { s with
    phis := s.phis.filter (· ≠ p)
    operands := Function.update s.operands p [] }

/-- The test of `IsPhiRedundant`. -/
def isPhiRedundant (p : Nat) : Option Nat :=
  match s.operands p with
  | [] => none
  | first :: rest => if rest.all fun o => o = first ∨ o = p then some first else none

end PhiState

namespace PhiGraph

variable (g : PhiGraph)

/-- The flag `IsPhiRedundant` propagates from `p` to the definition it returns. -/
def propagateBytecodeUses (s : PhiState) (p first : Nat) : PhiState :=
  if s.bytecodeUses p = true ∧ first ∈ g.phis then
    { s with bytecodeUses := Function.update s.bytecodeUses first true }
  else s

/-- `IsPhiObservable`. The slot of `|this|` is 1. -/
def isPhiObservable (s : PhiState) (p : Nat) : Bool :=
  s.bytecodeUses p ||
    s.consumers.any (fun c => decide (c.kind = .instruction ∧ c.operand = p)) ||
    decide (g.slot p = 1)

def initial : PhiState where
  phis := g.phis
  operands := g.operands
  bytecodeUses := g.bytecodeUses
  consumers := g.consumers
  unused := fun _ => false
  worklist := []

/-- The body of the first loop. -/
def visitPhi (s : PhiState) (p : Nat) : PhiState :=
  let s := { s with unused := Function.update s.unused p true }
  match s.isPhiRedundant p with
  | some r => ((g.propagateBytecodeUses s p r).replaceAllUsesWith p r).discardPhi p
  | none => if g.isPhiObservable s p then { s with worklist := p :: s.worklist } else s

/-- Puts an operand on the worklist that is an unused phi and not on it. -/
def enqueueOperand (s : PhiState) (o : Nat) : PhiState :=
  if o ∉ g.phis ∨ s.unused o = false ∨ o ∈ s.worklist then s
  else { s with worklist := o :: s.worklist }

/-- What becomes of a phi taken from the worklist. -/
def replaceOrMark (s : PhiState) (p : Nat) : PhiState :=
  match s.isPhiRedundant p with
  | some r =>
      let s := (g.propagateBytecodeUses s p r).replaceAllUsesWith p r
      if r ∈ g.phis then { s with unused := Function.update s.unused r true } else s
  | none => { s with unused := Function.update s.unused p false }

/-- The marking loop. -/
def markLoop : Nat → PhiState → Option PhiState
  | 0, _ => none
  | fuel + 1, s =>
      match s.worklist with
      | [] => some s
      | p :: worklist =>
          let s := g.replaceOrMark { s with worklist := worklist } p
          markLoop fuel ((s.operands p).foldl g.enqueueOperand s)

/-- The last loop discards the unused phis. -/
def sweep (s : PhiState) : PhiState :=
  { s with
    phis := s.phis.filter fun p => !s.unused p
    operands := fun p => if p ∈ s.phis ∧ s.unused p = true then [] else s.operands p }

/-- `EliminatePhis`, with fuel for the marking loop. -/
def eliminatePhis (fuel : Nat) : Option PhiState :=
  (g.markLoop fuel (g.phis.foldl g.visitPhi g.initial)).map sweep

end PhiGraph

/-! ## Graphs in SSA form -/

/-- A graph with an execution semantics, in SSA form and with the blocks in reverse
postorder. `code` runs the instructions; its phis read the operands of the graph. -/
structure PhiProgram (ν : Type) where
  graph : PhiGraph
  code : Ssa Nat Nat ν
  predecessors : Nat → List Nat
  wellFormed : code.WellFormed
  nodup : graph.phis.Nodup
  mem_phis : ∀ p, p ∈ graph.phis ↔ ∃ b, p ∈ code.phis b
  reachable : ∀ {p b}, p ∈ code.phis b → code.Reachable b
  /-- An entry block has no phis. -/
  not_root : ∀ {p b}, p ∈ code.phis b → ¬ code.root b
  mem_predecessors : ∀ {a b}, code.edge a b → a ∈ predecessors b
  /-- One operand per predecessor. -/
  length_operands : ∀ {p b}, p ∈ code.phis b →
    (graph.operands p).length = (predecessors b).length
  sources : ∀ {a b src}, code.sources a b src → ∃ k : Nat, (predecessors b)[k]? = some a ∧
    ∀ p ∈ code.phis b, (graph.operands p)[k]? = some (src p)
  /-- An operand of a phi is defined above the predecessor it belongs to. -/
  operand_above : ∀ {p b a o} {k : Nat}, p ∈ code.phis b → (predecessors b)[k]? = some a →
    (graph.operands p)[k]? = some o → ∃ c, code.Defines c o ∧ code.Dominates c a
  /-- In postorder, a block comes before the blocks that strictly dominate it. -/
  postorder : ∀ {p q a b before after}, p ∈ code.phis a → q ∈ code.phis b →
    code.StrictlyDominates a b → graph.phis = before ++ p :: after → q ∈ before
  instruction_operand : ∀ c ∈ graph.consumers, c.kind = .instruction →
    ∃ d ∈ code.body c.block, c.operand ∈ code.operands d
  resumePoint_operand : ∀ c ∈ graph.consumers, c.kind = .resumePoint →
    ∃ a, code.Defines a c.operand ∧ code.Dominates a c.block

end SpiderMonkey.Ion
