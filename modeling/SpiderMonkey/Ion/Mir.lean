import SpiderMonkey.Lib.Ssa
import SpiderMonkey.Vm.Value
import SpiderMonkey.Ion.Types

/-! # The mid-level IR graph

The control-flow graph of `MIR.h` and `MIRGraph.h` that the optimisation passes
read: definitions with an opcode, operands, a block and a type, and blocks with
phis, instructions, a control instruction and predecessors. Definitions and
blocks are known by their ids.

`MIRGraph.ssa` gives the graph its executions. The instructions the passes match
on compute what the engine computes for int32 operands; every other instruction,
or one of these on other operands, may leave any value.
-/

namespace SpiderMonkey.Ion

abbrev DefId := Nat
abbrev BlockId := Nat

/-- The binary arithmetic instructions. -/
inductive ArithOp where
  | add | sub | mul | div | mod
deriving DecidableEq, Repr

/-- The binary bitwise and shift instructions. -/
inductive BitOp where
  | bitAnd | bitOr | bitXor | lsh | rsh | ursh
deriving DecidableEq, Repr

/-- `MDefinition::Opcode`, with the fields of the instruction the passes read. An
instruction no pass matches on is `other`, with the answer of
`getAliasSet().isStore()`. -/
inductive Opcode where
  | constant (value : Value)
  | phi
  | compare (jsop : CompareOp) (specialization : MIRType)
  | arith (op : ArithOp) (specialization : MIRType) (implicitTruncate : Bool)
  | bitwise (op : BitOp) (specialization : MIRType)
  | toInt32
  | unbox
  | box
  | elements
  | initializedLength
  | boundsCheck (minimum maximum : Int32)
  | boundsCheckLower (minimum : Int32)
  | other (isStore : Bool)
deriving DecidableEq

/-- `numOperands()`, where the class fixes it. -/
def Opcode.numOperands? : Opcode → Option Nat
  | .constant _ => some 0
  | .compare _ _ => some 2
  | .arith _ _ _ => some 2
  | .bitwise _ _ => some 2
  | .toInt32 => some 1
  | .unbox => some 1
  | .box => some 1
  | .elements => some 1
  | .initializedLength => some 1
  | .boundsCheck _ _ => some 2
  | .boundsCheckLower _ => some 1
  | .phi => none
  | .other _ => none

/-- `MDefinition`. -/
structure MDefinition where
  op : Opcode
  operands : List DefId
  block : BlockId
  type : MIRType
deriving DecidableEq

/-- `MControlInstruction`, with its successors in order; `other` has its operands and
the answer of `getAliasSet().isStore()`. -/
inductive MControl where
  | goto (target : BlockId)
  | test (ins : DefId) (ifTrue ifFalse : BlockId)
  | other (operands : List DefId) (isStore : Bool) (successors : List BlockId)
deriving DecidableEq, Repr

/-- `MBasicBlock::Kind`. -/
inductive BlockKind where
  | normal | pendingLoopHeader | loopHeader | splitEdge
deriving DecidableEq, Repr

/-- `MBasicBlock`. -/
structure MBasicBlock where
  kind : BlockKind
  phis : List DefId
  instructions : List DefId
  lastIns : MControl
  predecessors : List BlockId
  immediateDominator : BlockId
  domIndex : Nat
  numDominated : Nat
deriving DecidableEq, Repr

/-- `MIRGraph`: its blocks in reverse postorder, where control enters it, and what
the ids stand for. -/
structure MIRGraph where
  blocks : List BlockId
  entryBlock : BlockId
  osrBlock : Option BlockId
  block : BlockId → MBasicBlock
  definition : DefId → MDefinition

namespace MControl

/-- The successors, by position. -/
def successors : MControl → List BlockId
  | goto target => [target]
  | test _ ifTrue ifFalse => [ifTrue, ifFalse]
  | other _ _ successors => successors

end MControl

namespace MDefinition

/-- `getOperand`. -/
def getOperand? (d : MDefinition) (i : Nat) : Option DefId := d.operands[i]?

/-- The value of an `MConstant`. -/
def constantValue? (d : MDefinition) : Option Value :=
  match d.op with
  | .constant value => some value
  | _ => none

/-- The int32 value of an `MConstant` that holds one. -/
def constantInt32? (d : MDefinition) : Option Int32 := d.constantValue?.bind Value.toInt32?

end MDefinition

namespace MBasicBlock

/-- `MBasicBlock::dominates`, by the numbering of the dominator tree. -/
def dominates (b other : MBasicBlock) : Bool :=
  b.domIndex ≤ other.domIndex && other.domIndex ≤ b.domIndex + b.numDominated

end MBasicBlock

namespace MIRGraph

variable (G : MIRGraph)

/-! ## Executions -/

/-- What an int32 addition leaves: the sum, if it does not bail out. -/
def AddsInt32 (implicitTruncate : Bool) (a b : Int32) (v : Value) : Prop :=
  if implicitTruncate then v = .int32 (a + b)
  else ∃ n : Int32, v = .int32 n ∧ n.toInt = a.toInt + b.toInt

/-- The values an instruction may leave. -/
def Computes (d : MDefinition) (env : DefId → Value) (v : Value) : Prop :=
  match d.op, d.operands with
  | .constant value, _ => v = value
  | .compare jsop _, [l, r] =>
      ∀ a b, env l = .int32 a → env r = .int32 b → v = .boolean (jsop.eval a.toInt b.toInt)
  | .arith .add .int32 implicitTruncate, [l, r] =>
      ∀ a b, env l = .int32 a → env r = .int32 b → AddsInt32 implicitTruncate a b v
  | .toInt32, [input] => ∀ a, env input = .int32 a → v = .int32 a
  | .unbox, [input] => v = env input
  | .box, [input] => v = env input
  | _, _ => True

/-- The successors a control instruction may branch to. -/
def Branches (lastIns : MControl) (env : DefId → Value) (target : BlockId) : Prop :=
  match lastIns with
  | .goto t => target = t
  | .test ins ifTrue ifFalse => target = if (env ins).toBoolean then ifTrue else ifFalse
  | .other _ _ successors => target ∈ successors

lemma mem_successors_of_branches {lastIns : MControl} {env : DefId → Value} {target : BlockId}
    (h : Branches lastIns env target) : target ∈ lastIns.successors := by
  cases lastIns with
  | goto t => simpa [MControl.successors, Branches] using h
  | test ins ifTrue ifFalse =>
    simp only [Branches] at h
    split_ifs at h <;> simp [MControl.successors, h]
  | other _ _ successors => exact h

/-- An instruction reads nothing but its operands. -/
lemma computes_congr {d : MDefinition} {env env' : DefId → Value} {v : Value}
    (hsame : ∀ o ∈ d.operands, env o = env' o) (h : Computes d env v) : Computes d env' v := by
  unfold Computes at *
  split at h
  · exact h
  · rename_i l r _ hops
    rwa [← hsame l (by simp [hops]), ← hsame r (by simp [hops])]
  · rename_i l r _ hops
    rwa [← hsame l (by simp [hops]), ← hsame r (by simp [hops])]
  · rename_i input _ hops
    rwa [← hsame input (by simp [hops])]
  · rename_i input _ hops
    rwa [← hsame input (by simp [hops])]
  · rename_i input _ hops
    rwa [← hsame input (by simp [hops])]
  · trivial

/-- The graph as a program in SSA form. A phi reads the operand at the position of
the predecessor it is entered from. -/
def ssa : Lib.Ssa BlockId DefId Value where
  root b := b = G.entryBlock ∨ G.osrBlock = some b
  edge b c := c ∈ (G.block b).lastIns.successors
  phis b := (G.block b).phis
  body b := (G.block b).instructions
  operands d := (G.definition d).operands
  sources b c src := ∃ k, (G.block c).predecessors[k]? = some b ∧
    ∀ phi ∈ (G.block c).phis, (G.definition phi).getOperand? k = some (src phi)
  computes d := Computes (G.definition d)
  take b := Branches (G.block b).lastIns
  computes_congr := computes_congr
  edge_of_take := mem_successors_of_branches

/-- A well-formed graph: SSA form with the operands of phis defined above the
predecessors they belong to and the operands of tests above the test, distinct
blocks, operands as many as the class has, agreeing predecessor and successor
lists, and neither predecessors nor phis where control enters. -/
structure WellFormed : Prop where
  ssa : G.ssa.WellFormed
  nodup_blocks : G.blocks.Nodup
  numOperands : ∀ {d n}, (G.definition d).op.numOperands? = some n →
    (G.definition d).operands.length = n
  phi_op : ∀ {b d}, d ∈ (G.block b).phis → (G.definition d).op = .phi
  instruction_op : ∀ {b d}, d ∈ (G.block b).instructions → (G.definition d).op ≠ .phi
  definition_block : ∀ {b d}, G.ssa.Defines b d → (G.definition d).block = b
  mem_predecessors : ∀ {b c}, c ∈ (G.block b).lastIns.successors → b ∈ (G.block c).predecessors
  root_predecessors : ∀ {b}, G.ssa.root b → (G.block b).predecessors = []
  root_phis : ∀ {b}, G.ssa.root b → (G.block b).phis = []
  phi_operand_above : ∀ {b phi p o} {k : Nat}, phi ∈ (G.block b).phis →
    (G.block b).predecessors[k]? = some p → (G.definition phi).operands[k]? = some o →
    ∃ a, G.ssa.Defines a o ∧ G.ssa.Dominates a p
  test_above : ∀ {b ins ifTrue ifFalse}, (G.block b).lastIns = .test ins ifTrue ifFalse →
    ∃ a, G.ssa.Defines a ins ∧ G.ssa.Dominates a b

variable {G}

/-- A definition that is not a phi is executed in the body of its block. -/
lemma WellFormed.mem_instructions (wf : G.WellFormed) {b : BlockId} {d : DefId}
    (hd : G.ssa.Defines b d) (hop : (G.definition d).op ≠ .phi) :
    d ∈ (G.block b).instructions :=
  hd.resolve_left fun hphi => hop (wf.phi_op hphi)

/-- A binary instruction has a left and a right operand. -/
lemma WellFormed.operands_eq_pair (wf : G.WellFormed) {d : DefId}
    (hop : (G.definition d).op.numOperands? = some 2) :
    ∃ l r, (G.definition d).operands = [l, r] := by
  have hlen := wf.numOperands hop
  match hops : (G.definition d).operands, hlen with
  | [l, r], _ => exact ⟨l, r, rfl⟩

/-- An operand of an instruction executed above a block is defined above it. -/
lemma WellFormed.operand_above (wf : G.WellFormed) {a b : BlockId} {d o : DefId}
    (hd : d ∈ (G.block a).instructions) (hab : G.ssa.Dominates a b)
    (ho : o ∈ (G.definition d).operands) : ∃ c, G.ssa.Defines c o ∧ G.ssa.Dominates c b := by
  rcases wf.ssa.operand_defined (b := a) hd ho with hin | ⟨c, hdef, hdom⟩
  · exact ⟨a, hin, hab⟩
  · exact ⟨c, hdef, hdom.1.trans hab⟩

end MIRGraph
end SpiderMonkey.Ion
