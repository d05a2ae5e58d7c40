import Mathlib

/-! # Alias analysis

`AliasAnalysis::analyze`: one sweep over the blocks in reverse postorder that numbers
the definitions and gives every load the last store it may depend on. A definition is
the id the sweep gives it, so that "later" is "larger".
-/

namespace SpiderMonkey.Ion

/-- The kinds of memory of `AliasSet::Flag`. -/
inductive AliasFlag where
  | objectFields
  | element
  | slot
  | typedArrayElement
deriving DecidableEq, Repr

/-- The bits below `Any` of an alias set. -/
abbrev AliasFlags := AliasFlag → Bool

namespace AliasFlags

/-- The flags in the order of their bits. -/
def all : List AliasFlag := [.objectFields, .element, .slot, .typedArrayElement]

/-- `AliasSetIterator`. -/
def iterator (flags : AliasFlags) : List AliasFlag := all.filter flags

def union (a b : AliasFlags) : AliasFlags := fun f => a f || b f

/-- `!(a & b).isNone()` -/
def intersects (a b : AliasFlags) : Bool := all.any fun f => a f && b f

@[simp] lemma mem_iterator {flags : AliasFlags} {f : AliasFlag} :
    f ∈ flags.iterator ↔ flags f = true := by
  cases f <;> simp [iterator, all]

@[simp] lemma union_eq_true {a b : AliasFlags} {f : AliasFlag} :
    a.union b f = true ↔ a f = true ∨ b f = true := by
  simp [union]

lemma intersects_iff {a b : AliasFlags} :
    a.intersects b = true ↔ ∃ f, a f = true ∧ b f = true := by
  constructor
  · intro h
    rcases List.any_eq_true.mp h with ⟨f, _, hf⟩
    exact ⟨f, (Bool.and_eq_true _ _).mp hf⟩
  · intro ⟨f, ha, hb⟩
    exact List.any_eq_true.mpr ⟨f, by cases f <;> simp [all], by simp [ha, hb]⟩

end AliasFlags

/-- What a definition reads or writes. The constructors assert that the flags are not
empty. -/
inductive AliasSet where
  | none
  | load (flags : AliasFlags) (nonempty : ∃ f, flags f = true)
  | store (flags : AliasFlags) (nonempty : ∃ f, flags f = true)

namespace AliasSet

def flags : AliasSet → AliasFlags
  | none => fun _ => false
  | load flags _ => flags
  | store flags _ => flags

def isLoad : AliasSet → Bool
  | load _ _ => true
  | _ => false

def isStore : AliasSet → Bool
  | store _ _ => true
  | _ => false

end AliasSet

/-- A block. Phis have no alias set. `control` is the last instruction, `instructions` are
the ones before it. `backedge` is the last predecessor of a loop header, and `none` for
other blocks. -/
structure AliasBlock where
  phis : Nat
  instructions : List AliasSet
  control : AliasSet
  successors : List Nat
  backedge : Option Nat

namespace AliasBlock

/-- What `MDefinitionIterator` visits. -/
def defs (b : AliasBlock) : List AliasSet :=
  List.replicate b.phis .none ++ (b.instructions ++ [b.control])

def isLoopHeader (b : AliasBlock) : Bool := b.backedge.isSome

end AliasBlock

/-- The blocks of a graph in reverse postorder. Control enters at block 0 and at the OSR
block. -/
structure AliasGraph where
  numBlocks : Nat
  block : Nat → AliasBlock
  osrBlock : Option Nat

namespace AliasGraph

variable (g : AliasGraph)

/-- `block->isLoopBackedge()` -/
def isLoopBackedge (k : Nat) : Bool :=
  match (g.block k).successors.getLast? with
  | some h => (g.block h).backedge == some k
  | none => false

/-- The id of the first definition of a block. The numbering starts with 1. -/
def firstId : Nat → Nat
  | 0 => 1
  | k + 1 => firstId k + (g.block k).defs.length

/-- `*block->begin()`, the first definition that is not a phi. -/
def firstInstruction (k : Nat) : Nat := g.firstId k + (g.block k).phis

/-- `block->lastIns()` -/
def lastIns (k : Nat) : Nat := g.firstId (k + 1) - 1

/-- The alias sets of the definitions in the order of their ids. -/
def aliasSets : List AliasSet := (List.range g.numBlocks).flatMap fun k => (g.block k).defs

/-- `def->getAliasSet()` of the definition with an id. -/
def aliasSet : Nat → AliasSet
  | 0 => .none
  | n + 1 => g.aliasSets.getD n .none

end AliasGraph

/-- `LoopAliasInfo`. -/
structure LoopAliasInfo where
  loopHeader : Nat
  loopStores : AliasFlags
  invariantLoads : List Nat

namespace LoopAliasInfo

def addStore (l : LoopAliasInfo) (flags : AliasFlags) : LoopAliasInfo :=
  { l with loopStores := l.loopStores.union flags }

def addInvariantLoad (l : LoopAliasInfo) (id : Nat) : LoopAliasInfo :=
  { l with invariantLoads := l.invariantLoads ++ [id] }

end LoopAliasInfo

/-- The variables of `analyze`: `loops` is `loop_` with the chain of its outer loops. -/
structure AliasState where
  newId : Nat
  stores : AliasFlag → Nat
  loops : List LoopAliasInfo
  dependency : Nat → Option Nat

/-- The most recent of the recorded stores over some flags. -/
def lastStore (stores : AliasFlag → Nat) (flags : List AliasFlag) : Option Nat :=
  flags.foldl (fun last f =>
    match last with
    | none => some (stores f)
    | some id => if id < stores f then some (stores f) else some id) none

namespace AliasState

/-- `loop_ = new LoopAliasInfo(loop_, block)` -/
def enterLoop (s : AliasState) (header : Nat) : AliasState :=
  { s with loops :=
      { loopHeader := header, loopStores := fun _ => false, invariantLoads := [] } :: s.loops }

/-- The case of a store. -/
def visitStore (s : AliasState) (flags : AliasFlags) : AliasState :=
  { s with
    stores := fun f => if flags f then s.newId else s.stores f
    loops := s.loops.modifyHead fun loop => loop.addStore flags }

/-- The case of a load. -/
def visitLoad (g : AliasGraph) (s : AliasState) (flags : AliasFlags) : AliasState :=
  match lastStore s.stores flags.iterator with
  | none => s
  | some id =>
      { s with
        dependency := Function.update s.dependency s.newId (some id)
        loops := s.loops.modifyHead fun loop =>
          if id < g.firstInstruction loop.loopHeader then loop.addInvariantLoad s.newId
          else loop }

/-- The body of the loop over the definitions. -/
def visitDef (g : AliasGraph) (s : AliasState) (set : AliasSet) : AliasState :=
  let s' := match set with
    | .none => s
    | .store flags _ => s.visitStore flags
    | .load flags _ => s.visitLoad g flags
  { s' with newId := s.newId + 1 }

/-- The body of the loop over the invariant loads of a loop that ends. The state's
`loops` are the outer ones. -/
def visitInvariantLoad (g : AliasGraph) (loop : LoopAliasInfo) (s : AliasState) (id : Nat) :
    AliasState :=
  if loop.loopStores.intersects (g.aliasSet id).flags then
    { s with dependency :=
        Function.update s.dependency id (some (g.lastIns loop.loopHeader)) }
  else
    { s with loops := s.loops.modifyHead fun outerLoop =>
        if (s.dependency id).any (· < g.firstInstruction outerLoop.loopHeader) then
          outerLoop.addInvariantLoad id
        else outerLoop }

/-- The end of a loop at its backedge. -/
def leaveLoop (g : AliasGraph) (s : AliasState) : AliasState :=
  match s.loops with
  | [] => s
  | loop :: outer =>
      loop.invariantLoads.foldl (visitInvariantLoad g loop)
        { s with loops := outer.modifyHead fun outerLoop => outerLoop.addStore loop.loopStores }

/-- The body of the loop over the blocks. -/
def visitBlock (g : AliasGraph) (s : AliasState) (k : Nat) : AliasState :=
  let s₁ := if (g.block k).isLoopHeader then s.enterLoop k else s
  let s₂ := (g.block k).defs.foldl (visitDef g) s₁
  if g.isLoopBackedge k then s₂.leaveLoop g else s₂

/-- Before the first block, every kind of memory was last stored to by the first
instruction of the graph. -/
def initial (g : AliasGraph) : AliasState where
  newId := 1
  stores := fun _ => g.firstInstruction 0
  loops := []
  dependency := fun _ => none

end AliasState

/-- `AliasAnalysis::analyze`, without its failures to allocate. -/
def AliasGraph.analyze (g : AliasGraph) : AliasState :=
  (List.range g.numBlocks).foldl (AliasState.visitBlock g) (AliasState.initial g)

end SpiderMonkey.Ion
