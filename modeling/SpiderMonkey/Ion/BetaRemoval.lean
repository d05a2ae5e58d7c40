import SpiderMonkey.Ion.BetaNodes

/-! # Removal of beta nodes

`RangeAnalysis::removeBetaNobes`, and `addBetaNobes` with what `BetaState` leaves out: the
instruction lists that the betas are inserted in, their own operands, and the resume points.
-/

namespace SpiderMonkey.Ion

/-- `MResumePoint` -/
structure MResumePoint where
  block : BlockId
  operands : List DefId

/-- A graph with its resume points. -/
structure ResumableGraph extends MIRGraph where
  resumePoint : Nat → MResumePoint

/-- The operands of a control instruction. -/
def MControl.operands : MControl → List DefId
  | goto _ => []
  | test ins _ _ => [ins]
  | other operands _ _ => operands

/-- `MNode`: what has operands. -/
inductive MNode where
  | definition (d : DefId)
  | control (b : BlockId)
  | resumePoint (r : Nat)
  | beta (k : Nat)
deriving DecidableEq

/-- The graph as it is changed: the betas as they were created, the instructions of each block in
front of its control instruction, and what each operand reads. -/
structure BetaGraph where
  betas : List Beta
  instructions : BlockId → List Ref
  operand : MNode → Nat → Option Ref

namespace ResumableGraph

variable (G : ResumableGraph)

def initialOperand : MNode → Nat → Option DefId
  | .definition d, i => (G.definition d).getOperand? i
  | .control b, i => (G.block b).lastIns.operands[i]?
  | .resumePoint r, i => (G.resumePoint r).operands[i]?
  | .beta _, _ => none

def initialBetaGraph : BetaGraph where
  betas := []
  instructions b := (G.block b).instructions.map .definition
  operand node i := (G.initialOperand node i).map .definition

/-- `IsDominatedUse` -/
def isDominatedUse (betas : List Beta) (b : BlockId) : MNode → Nat → Bool
  | .definition d, i => G.toMIRGraph.isDominatedUse b d i
  | .control c, _ => (G.block b).dominates (G.block c)
  | .resumePoint r, _ => (G.block b).dominates (G.block (G.resumePoint r).block)
  | .beta k, _ =>
    match betas[k]? with
    | some beta => (G.block b).dominates (G.block beta.block)
    | none => false

/-- `replaceDominatedUsesWith` -/
def replaceDominatedUsesWith (s : BetaGraph) (orig : Ref) (dom : Nat) (b : BlockId) : BetaGraph :=
  { s with
    operand := fun node i =>
      if s.operand node i = some orig ∧ node ≠ .beta dom ∧ G.isDominatedUse s.betas b node i then
        some (.beta dom)
      else s.operand node i }

/-- `MBeta::New`, `insertBefore` the first instruction of the block, and
`replaceDominatedUsesWith`. -/
def insertBeta (s : BetaGraph) (beta : Beta) : BetaGraph :=
  let k := s.betas.length
  let s :=
    { betas := s.betas ++ [beta]
      instructions :=
        Function.update s.instructions beta.block (.beta k :: s.instructions beta.block)
      operand := Function.update s.operand (.beta k) fun i => if i = 0 then some beta.val else none }
  G.replaceDominatedUsesWith s beta.val k beta.block

/-- What `addBetaNobes` looks at to choose the betas of a block. -/
def readState (s : BetaGraph) : BetaState where
  betas := s.betas
  operand d i := s.operand (.definition d) i
  testOperand b :=
    match (G.block b).lastIns with
    | .test _ _ _ => s.operand (.control b) 0
    | _ => none

/-- One iteration of `addBetaNobes`. -/
def addBetaNobesAt (s : BetaGraph) (b : BlockId) : BetaGraph :=
  (G.newBetas (G.readState s) b).foldl G.insertBeta s

def addBetaNobes : BetaGraph := G.blocks.reverse.foldl G.addBetaNobesAt G.initialBetaGraph

end ResumableGraph

namespace BetaGraph

variable (s : BetaGraph)

/-- `MDefinition::replaceAllUsesWith` -/
def replaceAllUsesWith (d dom : Ref) : BetaGraph :=
  { s with operand := fun node i => if s.operand node i = some d then some dom else s.operand node i }

/-- The operands of a node are no uses any more. -/
def discardOperands (node : MNode) : BetaGraph :=
  { s with operand := Function.update s.operand node fun _ => none }

/-- The inner loop of `removeBetaNobes` over instructions, with those that are left. A beta always
has its operand. -/
def removeLoop : List Ref → BetaGraph → BetaGraph × List Ref
  | [], s => (s, [])
  | .definition d :: rest, s => (s, .definition d :: rest)
  | .beta k :: rest, s =>
    match s.operand (.beta k) 0 with
    | some op => removeLoop rest ((s.replaceAllUsesWith (.beta k) op).discardOperands (.beta k))
    | none => (s, .beta k :: rest)

end BetaGraph

namespace ResumableGraph

variable (G : ResumableGraph)

/-- One iteration of `removeBetaNobes`. The definitions of a block begin with its phis, and the loop
ends at the first one that is no beta. -/
def removeBetaNobesAt (s : BetaGraph) (b : BlockId) : BetaGraph :=
  if (G.block b).phis ≠ [] then s
  else
    let (s', rest) := BetaGraph.removeLoop (s.instructions b) s
    { s' with instructions := Function.update s'.instructions b rest }

def removeBetaNobes (s : BetaGraph) : BetaGraph := G.blocks.reverse.foldl G.removeBetaNobesAt s

end ResumableGraph

end SpiderMonkey.Ion
