import SpiderMonkey.Lib.ParallelMove

/-! # The move resolver

`MoveResolver` of `MoveResolver.cpp`: it puts the moves of a group, which are to happen at
once, in an order in which they can be emitted one by one. It is a depth-first search for the
moves that block a move, and finds a cycle when a blocking move writes what the move at the
bottom of the stack reads.
-/

namespace SpiderMonkey.Ion

open Lib

/-- `MoveOperand`. An effective address is a value, not a place. -/
inductive MoveOperand where
  | reg (code : Nat)
  | floatReg (code : Nat)
  | memory (base : Nat) (disp : Int)
  | effectiveAddress (base : Nat) (disp : Int)
deriving DecidableEq

/-- `Move::Kind`. -/
inductive MoveKind where
  | general
  | double
deriving DecidableEq

/-- `Move`. -/
structure Move where
  src : MoveOperand
  dst : MoveOperand
  kind : MoveKind
  inCycle : Bool
deriving DecidableEq

namespace Move

/-- `setInCycle`. -/
def setInCycle (m : Move) : Move := { m with inCycle := true }

/-- The move without its mark, as it was added. -/
def unmarked (m : Move) : Move := { m with inCycle := false }

/-- `other` reads what this move writes, so that this move has to wait for it. -/
def blockedBy (m other : Move) : Bool := other.src = m.dst

/-- A move between operands taken as places. -/
def toParallel (m : Move) : ParallelMove MoveOperand := ⟨m.src, m.dst, m.inCycle⟩

@[simp] lemma toParallel_src (m : Move) : m.toParallel.src = m.src := rfl
@[simp] lemma toParallel_dst (m : Move) : m.toParallel.dst = m.dst := rfl
@[simp] lemma toParallel_marked (m : Move) : m.toParallel.marked = m.inCycle := rfl

end Move

/-- The lists of a `MoveResolver` in the inner loop of `resolve`. The traversal stack is
`upper`, its top first, above `root`, the move `pm` of the outer loop. -/
structure MoveResolver where
  pending : List Move
  upper : List Move
  root : Move
  orderedMoves : List Move
  hasCycles : Bool

/-- `findBlockingMove`: the first pending move that reads what `last` writes. -/
def findBlockingMove (pending : List Move) (last : Move) : Option Move :=
  pending.find? last.blockedBy

/-- `pending_.remove(blocking)`, for the move that `findBlockingMove` found. -/
def removeBlockingMove (pending : List Move) (last : Move) : List Move :=
  pending.eraseP last.blockedBy

namespace MoveResolver

/-- `stack.peekBack()`. -/
def last (r : MoveResolver) : Move := r.upper.headD r.root

/-- A blocking move goes from the pending list to the stack. -/
def push (r : MoveResolver) (blocking : Move) : MoveResolver :=
  { r with
    pending := removeBlockingMove r.pending r.last
    upper := blocking :: r.upper }

/-- The same for a move that closes a cycle: it and the root are marked. -/
def pushInCycle (r : MoveResolver) (blocking : Move) : MoveResolver :=
  { r with
    pending := removeBlockingMove r.pending r.last
    upper := blocking.setInCycle :: r.upper
    root := r.root.setInCycle
    hasCycles := true }

/-- The move on top of the stack is done. -/
def pop (r : MoveResolver) (done : Move) (upper : List Move) : MoveResolver :=
  { r with upper := upper, orderedMoves := r.orderedMoves ++ [done] }

end MoveResolver

lemma length_removeBlockingMove {pending : List Move} {last blocking : Move}
    (h : findBlockingMove pending last = some blocking) :
    (removeBlockingMove pending last).length + 1 = pending.length := by
  have hmem := List.mem_of_find?_eq_some h
  have hlength := List.length_eraseP_of_mem hmem (List.find?_some h)
  have hpos := List.length_pos_of_mem hmem
  rw [removeBlockingMove, hlength]
  omega

/-- The inner loop: until the root is done. -/
def MoveResolver.traverse (r : MoveResolver) : MoveResolver :=
  match _hblocking : findBlockingMove r.pending r.last with
  | some blocking =>
    if blocking.dst = r.root.src then traverse (r.pushInCycle blocking)
    else traverse (r.push blocking)
  | none =>
    match _hupper : r.upper with
    | [] => r.pop r.root []
    | done :: upper => traverse (r.pop done upper)
termination_by 2 * r.pending.length + r.upper.length
decreasing_by
  · have h := length_removeBlockingMove _hblocking
    simp only [MoveResolver.pushInCycle, List.length_cons]
    omega
  · have h := length_removeBlockingMove _hblocking
    simp only [MoveResolver.push, List.length_cons]
    omega
  · simp only [MoveResolver.pop, _hupper, List.length_cons]
    omega

/-- A traversal only takes moves from the pending list. -/
lemma MoveResolver.pending_traverse_length_le (r : MoveResolver) :
    r.traverse.pending.length ≤ r.pending.length := by
  fun_induction traverse r with
  | case1 r blocking hblocking _ ih =>
    have hlength : r.pending.length = _ := (length_removeBlockingMove hblocking).symm
    have ih : (r.pushInCycle blocking).traverse.pending.length ≤
        (removeBlockingMove r.pending r.last).length := ih
    omega
  | case2 r blocking hblocking _ ih =>
    have hlength : r.pending.length = _ := (length_removeBlockingMove hblocking).symm
    have ih : (r.push blocking).traverse.pending.length ≤
        (removeBlockingMove r.pending r.last).length := ih
    omega
  | case3 r => exact Nat.le_refl _
  | case4 r _ done upper _ ih => exact ih

/-- What `resolve` leaves: `orderedMoves_` and `hasCycles_`. -/
structure ResolvedMoves where
  orderedMoves : List Move
  hasCycles : Bool

/-- The outer loop of `resolve`: each round takes the last pending move as its root. -/
def resolveLoop (pending : List Move) (resolved : ResolvedMoves) : ResolvedMoves :=
  match _hpm : pending.getLast? with
  | none => resolved
  | some pm =>
    let r := MoveResolver.traverse {
      pending := pending.dropLast
      upper := []
      root := pm
      orderedMoves := resolved.orderedMoves
      hasCycles := resolved.hasCycles }
    resolveLoop r.pending { orderedMoves := r.orderedMoves, hasCycles := r.hasCycles }
termination_by pending.length
decreasing_by
  have hle := MoveResolver.pending_traverse_length_le {
    pending := pending.dropLast
    upper := []
    root := pm
    orderedMoves := resolved.orderedMoves
    hasCycles := resolved.hasCycles }
  have hpos : 0 < pending.length := by
    rw [List.length_pos_iff]
    rintro rfl
    cases _hpm
  rw [List.length_dropLast] at hle
  omega

/-- `addMove`, for each of the moves of a group in turn. -/
def addMoves (moves : List (MoveOperand × MoveOperand × MoveKind)) : List Move :=
  moves.map fun m => ⟨m.1, m.2.1, m.2.2, false⟩

/-- `resolve`, from the moves that were added. -/
def resolve (pending : List Move) : ResolvedMoves :=
  resolveLoop pending { orderedMoves := [], hasCycles := false }

/-! ## The emitter's rule for cycles -/

/-- What the emitted moves work on: the places operands name, the cycle slot, and `inCycle_`. -/
structure EmitterState (V : Type) where
  places : MoveOperand → V
  cycleSlot : V
  inCycle : Bool

namespace EmitterState

variable {V : Type}

/-- `breakCycle`: the destination is saved. -/
def breakCycle (s : EmitterState V) (m : Move) : EmitterState V :=
  { s with cycleSlot := s.places m.dst }

/-- `completeCycle`: the destination is written from the cycle slot. -/
def completeCycle (s : EmitterState V) (m : Move) : EmitterState V :=
  { s with places := Function.update s.places m.dst s.cycleSlot }

/-- `emitMove` and `emitDoubleMove`. -/
def emitMove (s : EmitterState V) (m : Move) : EmitterState V :=
  { s with places := Function.update s.places m.dst (s.places m.src) }

/-- `emit`, for one move. -/
def emit (s : EmitterState V) (m : Move) : EmitterState V :=
  if m.inCycle then
    if s.inCycle then { s.completeCycle m with inCycle := false }
    else { s.breakCycle m with inCycle := true }.emitMove m
  else s.emitMove m

/-- `emit`, for the moves of a resolver. -/
def emitAll (s : EmitterState V) (moves : List Move) : EmitterState V := moves.foldl emit s

def toMoveState (s : EmitterState V) : MoveState MoveOperand V :=
  ⟨s.places, s.cycleSlot, s.inCycle⟩

end EmitterState

end SpiderMonkey.Ion
