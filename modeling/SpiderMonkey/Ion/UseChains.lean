import SpiderMonkey.Lib.Transition

/-! # Use chains

The operands of the nodes of a MIR graph and the use chains of its definitions, with
the primitives that edit both (`MIR.h`, `MIR.cpp`, `MIRGraph.cpp`). A use is a node
with the index of the operand; the chain of a definition is a list with its newest
use in front.

The lists of instructions and phis of the blocks are left out: no primitive reads
them to decide what it does to a chain.
-/

namespace SpiderMonkey.Ion

open Lib

abbrev NodeId := Nat

/-- `MUse`: the node that uses an operand and its index there. -/
structure MUse where
  node : NodeId
  index : Nat
deriving DecidableEq, Repr

/-- What the primitives ask about a node. -/
inductive NodeKind where
  | instruction (isGuard isControlInstruction : Bool)
  | phi
  | resumePoint
deriving DecidableEq, Repr

/-- The nodes of a graph. An operand of a resume point may be `NULL`. `idWord` is the
word `MPhi::removeOperand` reads as the id of a node; in a resume point it is some
other field. -/
structure UseGraph where
  kind : NodeId → NodeKind
  idWord : NodeId → Nat
  discarded : NodeId → Bool
  operands : NodeId → List (Option NodeId)
  uses : NodeId → List MUse

namespace UseGraph

variable (g : UseGraph)

/-- `getOperand`. -/
def getOperand? (n : NodeId) (k : Nat) : Option NodeId := (g.operands n)[k]?.join

/-- The operand a node that counts has at an index. -/
def operand? (n : NodeId) (k : Nat) : Option NodeId :=
  if g.discarded n then none else g.getOperand? n k

/-- Every use of a definition is in its chain once, and nothing else is. -/
def Exact : Prop :=
  ∀ d u, (g.uses d).count u = if g.operand? u.node u.index = some d then 1 else 0

/-- `setOperand`. -/
def setOperand (n : NodeId) (k : Nat) (d : NodeId) : UseGraph :=
  { g with operands := Function.update g.operands n ((g.operands n).set k (some d)) }

/-- Put another list in the place of a chain. -/
def setUses (d : NodeId) (l : List MUse) : UseGraph :=
  { g with uses := Function.update g.uses d l }

/-- `linkUse`, and `addUse` with a new use: `pushFront`. -/
def linkUse (d : NodeId) (u : MUse) : UseGraph := g.setUses d (u :: g.uses d)

/-- `removeUse`. -/
def removeUse (d : NodeId) (u : MUse) : UseGraph := g.setUses d ((g.uses d).erase u)

/-- `MNode::replaceOperand(MUseIterator, MDefinition *)` with a definition. -/
def replaceUse (used : NodeId) (u : MUse) (ins : NodeId) : UseGraph :=
  if used = ins then g
  else ((g.removeUse used u).setOperand u.node u.index ins).linkUse ins u

/-- `MNode::replaceOperand(size_t, MDefinition *)` with a definition. -/
def replaceOperand (n : NodeId) (k : Nat) (ins : NodeId) : UseGraph :=
  match g.getOperand? n k with
  | some d => if ⟨n, k⟩ ∈ g.uses d then g.replaceUse d ⟨n, k⟩ ins else g
  | none => g

/-- `replaceOperand(i, NULL)`: the use goes, the operand stays. -/
def unlinkOperand (n : NodeId) (k : Nat) : UseGraph :=
  match g.getOperand? n k with
  | some d => g.removeUse d ⟨n, k⟩
  | none => g

/-- One round of the loop of `replaceAllUsesWith` for another definition. -/
def moveUse (dom : NodeId) (u : MUse) : UseGraph :=
  (g.setOperand u.node u.index dom).linkUse dom u

/-- `replaceAllUsesWith`. With itself for the new definition, a use pushed to the front
is cut out again by the removal of the next one, so that only the last use stays. -/
def replaceAllUsesWith (d dom : NodeId) : UseGraph :=
  if d = dom then g.setUses d ((g.uses d).getLast?.toList)
  else (g.uses d).foldl (fun g u => g.moveUse dom u) (g.setUses d [])

/-- `MPhi::addInput`. -/
def addInput (phi ins : NodeId) : UseGraph :=
  { g.linkUse ins ⟨phi, (g.operands phi).length⟩ with
    operands := Function.update g.operands phi (g.operands phi ++ [some ins]) }

/-- The first use in the chain of `d` at an index of a node with the id of the phi. -/
def findUse? (d phi : NodeId) (k : Nat) : Option MUse :=
  (g.uses d).find? fun u => g.idWord u.node = g.idWord phi ∧ u.index = k

/-- One round of the second loop of `MPhi::removeOperand`: the use of the operand that is
now at `i` gets that index. -/
def shiftUse (phi : NodeId) (i : Nat) : UseGraph :=
  match g.getOperand? phi i with
  | some d =>
      match g.findUse? d phi (i + 1) with
      | some u => (g.removeUse d u).linkUse d ⟨u.node, i⟩
      | none => g
  | none => g

/-- The search of `MPhi::removeOperand` for the use of the operand. -/
def dropUse (phi : NodeId) (k : Nat) : UseGraph :=
  match g.getOperand? phi k with
  | some d =>
      match g.findUse? d phi k with
      | some u => g.removeUse d u
      | none => g
  | none => g

/-- `MPhi::removeOperand`. -/
def removeOperand (phi : NodeId) (k : Nat) : UseGraph :=
  let g := g.dropUse phi k
  let g := { g with operands := Function.update g.operands phi ((g.operands phi).eraseIdx k) }
  (List.range' k ((g.operands phi).length - k)).foldl (fun g i => g.shiftUse phi i) g

/-- `discard`, `discardAt`, `discardPhi` and `discardPhiAt`. -/
def discard (n : NodeId) : UseGraph :=
  let g := (List.range (g.operands n).length).foldl (fun g k => g.unlinkOperand n k) g
  { g with discarded := Function.update g.discarded n true }

/-- `initOperand`, which `initSlot` calls on the entry resume point. -/
def initSlot (resumePoint : NodeId) (slot : Nat) (ins : NodeId) : UseGraph :=
  (g.setOperand resumePoint slot ins).linkUse ins ⟨resumePoint, slot⟩

/-- Whether `replaceWithInstruction` discards what has no uses left. -/
def isRemovable (d : NodeId) : Bool :=
  match g.kind d with
  | .instruction isGuard isControlInstruction => !isGuard && !isControlInstruction
  | .phi => true
  | .resumePoint => false

/-- `replaceWithInstruction`, of an instruction or a phi. -/
def replaceWithInstruction (d ins : NodeId) : UseGraph :=
  let g := g.replaceAllUsesWith d ins
  if (g.uses d).isEmpty && g.isRemovable d then g.discard d else g

end UseGraph

/-- A call of one of the primitives. -/
inductive UseEdit where
  | replaceUse (used : NodeId) (use : MUse) (ins : NodeId)
  | replaceOperand (node : NodeId) (index : Nat) (ins : NodeId)
  | replaceAllUsesWith (d dom : NodeId)
  | addInput (phi ins : NodeId)
  | removeOperand (phi : NodeId) (index : Nat)
  | discard (node : NodeId)
  | initSlot (resumePoint : NodeId) (slot : Nat) (ins : NodeId)
  | replaceWithInstruction (d ins : NodeId)
deriving DecidableEq

namespace UseGraph

/-- What a primitive takes for granted: nodes that were not discarded, of the kind it is
for, a use that is in the chain, an operand that is there. Only what has no uses is
discarded. -/
def Enabled (g : UseGraph) : UseEdit → Prop
  | .replaceUse used u _ => u ∈ g.uses used
  | .replaceOperand n k _ => (g.operand? n k).isSome
  | .replaceAllUsesWith _ _ => True
  | .addInput phi _ => g.kind phi = .phi ∧ g.discarded phi = false
  | .removeOperand phi k => g.kind phi = .phi ∧ (g.operand? phi k).isSome
  | .discard n => g.discarded n = false ∧ g.uses n = []
  | .initSlot resumePoint slot _ => g.kind resumePoint = .resumePoint ∧
      g.discarded resumePoint = false ∧ slot < (g.operands resumePoint).length
  | .replaceWithInstruction d _ => g.discarded d = false

instance (g : UseGraph) (e : UseEdit) : Decidable (g.Enabled e) := by
  cases e <;> unfold Enabled <;> infer_instance

/-- The graph after a call. -/
def edit (g : UseGraph) : UseEdit → UseGraph
  | .replaceUse used u ins => g.replaceUse used u ins
  | .replaceOperand n k ins => g.replaceOperand n k ins
  | .replaceAllUsesWith d dom => g.replaceAllUsesWith d dom
  | .addInput phi ins => g.addInput phi ins
  | .removeOperand phi k => g.removeOperand phi k
  | .discard n => g.discard n
  | .initSlot resumePoint slot ins => g.initSlot resumePoint slot ins
  | .replaceWithInstruction d ins => g.replaceWithInstruction d ins

end UseGraph

/-- Calls of the primitives one after the other, from an exact graph on. -/
def useTransition : Transition UseGraph UseEdit where
  initial := UseGraph.Exact
  step g e := if g.Enabled e then some (g.edit e) else none

end SpiderMonkey.Ion
