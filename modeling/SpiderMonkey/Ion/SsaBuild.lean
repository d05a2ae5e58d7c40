import SpiderMonkey.Ion.Mir

/-! # Building blocks in SSA form

The part of `MBasicBlock` in `MIRGraph.cpp` that keeps the slots: new blocks, joins, loop
headers and their backedges. A definition is known by its block and its place there, and a
block by when it was created.

What the callers keep to is part of the steps below: a block takes its predecessors before
anything is put into it, what is put into a slot was in a slot of the block or has just been
made there, and a loop header is no longer a predecessor once it has its backedge. A block
without predecessors (the entry, and the OSR entry) can also hold an instruction of an earlier
one: the lazy `arguments` constant.
-/

namespace SpiderMonkey.Ion.SsaBuild

/-- `MDefinition`: an instruction or a phi, with its index among those of its block. -/
inductive MDefinition where
  | instruction (block index : Nat)
  | phi (block index : Nat)
deriving DecidableEq, Repr

def MDefinition.block : MDefinition → Nat
  | .instruction block _ => block
  | .phi block _ => block

def MDefinition.isPhi : MDefinition → Bool
  | .instruction _ _ => false
  | .phi _ _ => true

/-- `MPhi`. -/
structure MPhi where
  slot : Nat
  inputs : List MDefinition
deriving DecidableEq, Repr

/-- `MBasicBlock`. The slots are those below `stackPosition_`. Of the last instruction only
matters what the slots were when it was added. -/
structure MBasicBlock where
  kind : BlockKind
  slots : List MDefinition
  predecessors : List Nat
  phis : List MPhi
  entryResumePoint : List MDefinition
  lastIns : Option (List MDefinition)
deriving DecidableEq, Repr

abbrev MIRGraph := List MBasicBlock

namespace MBasicBlock

/-- `addInput`, of the phi with index `n`. -/
def addInput (block : MBasicBlock) (n : Nat) (d : MDefinition) : MBasicBlock :=
  { block with phis := block.phis.modify n fun phi => { phi with inputs := phi.inputs ++ [d] } }

/-- A new phi for slot `i` that has `mine` from the predecessors so far. -/
def newPhi (b : Nat) (block : MBasicBlock) (i : Nat) (mine : MDefinition) : MBasicBlock :=
  let phi := MDefinition.phi b block.phis.length
  { block with
    phis := block.phis ++ [⟨i, List.replicate block.predecessors.length mine⟩]
    slots := block.slots.set i phi
    entryResumePoint := block.entryResumePoint.set i phi }

/-- What `addPredecessor` does for slot `i` of block `b`; the new predecessor has `other`. -/
def joinSlot (b : Nat) (block : MBasicBlock) (i : Nat) (other : MDefinition) : MBasicBlock :=
  match block.slots[i]? with
  | none => block
  | some mine =>
    if mine = other then block
    else match mine with
      | .phi b' n =>
        -- already placed in this block
        if b' = b then block.addInput n other
        else (newPhi b block i mine).addInput block.phis.length other
      | .instruction _ _ => (newPhi b block i mine).addInput block.phis.length other

/-- The loop of `addPredecessor`, from slot `i` on. -/
def joinSlots (b : Nat) (block : MBasicBlock) : Nat → List MDefinition → MBasicBlock
  | _, [] => block
  | i, other :: others => joinSlots b (joinSlot b block i other) (i + 1) others

/-- The loop of `setBackedge`, from slot `i` on. -/
def backedgeSlots (b : Nat) (block : MBasicBlock) :
    Nat → List MDefinition → Option MBasicBlock
  | _, [] => some block
  | i, exitDef :: exitDefs => do
    let entryDef ← block.entryResumePoint[i]?
    match entryDef with
    | .instruction _ _ => none
    | .phi b' n =>
      guard (b' = b)
      let phi ← block.phis[n]?
      -- the same definition: a redundant phi
      let exitDef ← if entryDef = exitDef then phi.inputs[0]? else some exitDef
      let block := block.addInput n exitDef
      backedgeSlots b { block with slots := block.slots.set i entryDef } (i + 1) exitDefs

/-- The loop of `inheritPhis`, over the phis of `header` from index `n` on. -/
def inheritSlots (header : Nat) (block : MBasicBlock) : Nat → List MPhi → Option MBasicBlock
  | _, [] => some block
  | n, phi :: phis => do
    guard (phi.inputs.length = 2)
    let entryDef ← phi.inputs[0]?
    let exitDef ← block.slots[phi.slot]?
    let block := if entryDef ≠ exitDef then block
      else { block with slots := block.slots.set phi.slot (.phi header n) }
    inheritSlots header block (n + 1) phis

end MBasicBlock

namespace MIRGraph

/-- `New`, with a predecessor: `inherit`. -/
def newBlock (g : MIRGraph) (pred : Nat) : Option MIRGraph := do
  let p ← g[pred]?
  some (g ++ [{
    kind := .normal, slots := p.slots, predecessors := [pred], phis := []
    entryResumePoint := p.slots, lastIns := none }])

/-- `NewPendingLoopHeader`: a phi for every slot. -/
def newPendingLoopHeader (g : MIRGraph) (pred : Nat) : Option MIRGraph := do
  let p ← g[pred]?
  let phis := (List.range p.slots.length).map (MDefinition.phi g.length)
  some (g ++ [{
    kind := .pendingLoopHeader, slots := phis, predecessors := [pred]
    phis := p.slots.mapIdx fun i d => ⟨i, [d]⟩
    entryResumePoint := phis, lastIns := none }])

/-- `addPredecessor`. -/
def addPredecessor (g : MIRGraph) (b pred : Nat) : Option MIRGraph := do
  let block ← g[b]?
  let p ← g[pred]?
  guard (block.predecessors ≠ [])
  guard p.lastIns.isSome
  guard (p.slots.length = block.slots.length)
  let joined := block.joinSlots b 0 p.slots
  some (g.set b { joined with predecessors := joined.predecessors ++ [pred] })

/-- `setBackedge`. -/
def setBackedge (g : MIRGraph) (b pred : Nat) : Option MIRGraph := do
  let block ← g[b]?
  let p ← g[pred]?
  guard block.lastIns.isSome
  guard p.lastIns.isSome
  guard (p.slots.length = block.entryResumePoint.length)
  guard (block.kind = .pendingLoopHeader)
  let block ← block.backedgeSlots b 0 p.slots
  some (g.set b { block with
    kind := .loopHeader, predecessors := block.predecessors ++ [pred] })

/-- `inheritPhis`. -/
def inheritPhis (g : MIRGraph) (b header : Nat) : Option MIRGraph := do
  let block ← g[b]?
  let h ← g[header]?
  let block ← block.inheritSlots header 0 h.phis
  some (g.set b block)

/-- `b` was created from `header`, through the predecessors that blocks were created with. -/
inductive Descends (g : MIRGraph) (header : Nat) : Nat → Prop where
  | refl : Descends g header header
  | next {b block pred} : g[b]? = some block → block.predecessors[0]? = some pred →
      Descends g header pred → Descends g header b

/-- Whether a block can be taken as a predecessor. -/
def isExit (g : MIRGraph) (pred : Nat) : Prop :=
  ∃ p, g[pred]? = some p ∧ p.lastIns.isSome ∧ p.kind ≠ .loopHeader

/-- Whether there is nothing in a block yet. -/
def atEntry (g : MIRGraph) (b : Nat) : Prop :=
  ∃ block, g[b]? = some block ∧ block.kind = .normal ∧ block.lastIns = none ∧
    block.slots = block.entryResumePoint

/-- A step of the builder. -/
inductive Step : MIRGraph → MIRGraph → Prop where
  /-- `New` without a predecessor, and `initSlot`. -/
  | newEntry {g slots} : (∀ d ∈ slots, d.isPhi = false ∧ (d.block = g.length ∨
        ∃ block, g[d.block]? = some block ∧ block.predecessors = [])) →
      Step g (g ++ [{
        kind := .normal, slots := slots, predecessors := [], phis := []
        entryResumePoint := slots, lastIns := none }])
  | newBlock {g pred g'} : g.isExit pred → g.newBlock pred = some g' → Step g g'
  | newPendingLoopHeader {g pred g'} : g.isExit pred → g.newPendingLoopHeader pred = some g' →
      Step g g'
  | addPredecessor {g b pred g'} : g.isExit pred → g.atEntry b →
      g.addPredecessor b pred = some g' → Step g g'
  | setBackedge {g b pred g'} : g.isExit pred → g.setBackedge b pred = some g' → Step g g'
  /-- Of a loop successor or a break block. -/
  | inheritPhis {g b header block g'} : g.Descends header b → g[header]? = some block →
      block.kind = .loopHeader → g.inheritPhis b header = some g' → Step g g'
  /-- What the bytecode does: `push`, `pop`, `setSlot`, `pick` and so on. -/
  | body {g b block slots} : g[b]? = some block → block.lastIns = none →
      (∀ d ∈ slots, d ∈ block.slots ∨ ∃ n, d = .instruction b n) →
      Step g (g.set b { block with slots := slots })
  | finish {g b block} : g[b]? = some block → block.lastIns = none →
      Step g (g.set b { block with lastIns := some block.slots })

/-- The graphs that the builder makes. -/
abbrev Built : MIRGraph → Prop := Relation.ReflTransGen Step []

/-! ## Runs -/

/-- The slots of a block at its end. -/
def exits (g : MIRGraph) (b : Nat) : Option (List MDefinition) := do
  let block ← g[b]?
  block.lastIns

/-- Control arrives at `b` from its predecessor `j`: the phis get their operands. -/
def enter {V : Type} (g : MIRGraph) (b j : Nat) (env : MDefinition → V) : MDefinition → V
  | .instruction c n => env (.instruction c n)
  | .phi c n =>
    if c = b then
      match (g[b]?.bind fun block => block.phis[n]?.bind fun phi => phi.inputs[j]?) with
      | some d => env d
      | none => env (.phi c n)
    else env (.phi c n)

/-- A run that is at the end of a block, with the values of the definitions. It begins at a
block without predecessors; instructions can give any value. -/
inductive Runs {V : Type} (g : MIRGraph) : Nat → (MDefinition → V) → Prop where
  | start {b block} (env) : g[b]? = some block → block.predecessors = [] → Runs g b env
  | step {p b block j env env'} : Runs g p env → g[b]? = some block →
      block.predecessors[j]? = some p →
      (∀ d, (∀ n, d ≠ .instruction b n) → env' d = g.enter b j env d) → Runs g b env'

end MIRGraph

end SpiderMonkey.Ion.SsaBuild
