import SpiderMonkey.Ion.MoveResolver

/-! # The move emitter of x86

`MoveEmitterX86` of `MoveEmitter-x86-shared.cpp`, with the instructions it emits and what they do
to a machine. A memory cell holds one value, a word or a double; both are taken as numbers.
-/

namespace SpiderMonkey.Ion.X86

/-- What differs between x86 and x64: the size of a word, and `ScratchFloatReg`. -/
structure Platform where
  wordSize : Nat
  scratchFloatReg : Nat
  wordSize_pos : 0 < wordSize

def Platform.x86 : Platform := ⟨4, 7, Nat.zero_lt_succ 3⟩

/-- `StackPointer`. -/
def stackPointer : Nat := 4

/-- The register that `tempReg` picks: `Register::FromCode(2)`. -/
def temp : Nat := 2

/-- `Operand` of the assembler. -/
inductive Operand where
  | reg (code : Nat)
  | floatReg (code : Nat)
  | address (base : Nat) (disp : Int)
deriving DecidableEq

/-- The instructions. -/
inductive Instruction where
  | mov (src dst : Operand)
  | movsd (src dst : Operand)
  | lea (base : Nat) (disp : Int) (dst : Nat)
  | push (reg : Nat)
  | reserveStack (amount : Nat)
  | freeStack (amount : Int)
deriving DecidableEq

/-! ## The machine -/

structure Machine where
  regs : Nat → Int
  floatRegs : Nat → Int
  memory : Int → Int

namespace Machine

def read (m : Machine) : Operand → Int
  | .reg code => m.regs code
  | .floatReg code => m.floatRegs code
  | .address base disp => m.memory (m.regs base + disp)

def setReg (m : Machine) (code : Nat) (v : Int) : Machine :=
  { m with regs := Function.update m.regs code v }

def setCell (m : Machine) (a v : Int) : Machine :=
  { m with memory := Function.update m.memory a v }

def write (m : Machine) (v : Int) : Operand → Machine
  | .reg code => m.setReg code v
  | .floatReg code => { m with floatRegs := Function.update m.floatRegs code v }
  | .address base disp => m.setCell (m.regs base + disp) v

def exec (p : Platform) (m : Machine) : Instruction → Machine
  | .mov src dst => m.write (m.read src) dst
  | .movsd src dst => m.write (m.read src) dst
  | .lea base disp dst => m.setReg dst (m.regs base + disp)
  | .push reg =>
    let sp := m.regs stackPointer - p.wordSize
    (m.setReg stackPointer sp).setCell sp (m.regs reg)
  | .reserveStack amount => m.setReg stackPointer (m.regs stackPointer - amount)
  | .freeStack amount => m.setReg stackPointer (m.regs stackPointer + amount)

def run (p : Platform) (m : Machine) (code : List Instruction) : Machine := code.foldl (exec p) m

end Machine

/-! ## The emitter -/

/-- `MoveEmitterX86`, with the code of its assembler. An offset is -1 if no stack space has been
allocated, and `spilledReg` is none if it is `InvalidReg`. -/
structure MoveEmitter where
  inCycle : Bool
  framePushed : Int
  pushedAtStart : Int
  pushedAtCycle : Int
  pushedAtSpill : Int
  spilledReg : Option Nat
  code : List Instruction

namespace MoveEmitter

/-- The constructor. -/
def new (framePushed : Int) : MoveEmitter := ⟨false, framePushed, framePushed, -1, -1, none, []⟩

/-- An instruction of the assembler. -/
def masm (e : MoveEmitter) (i : Instruction) : MoveEmitter := { e with code := e.code ++ [i] }

/-- `Push`. -/
def pushReg (p : Platform) (e : MoveEmitter) (reg : Nat) : MoveEmitter :=
  { e.masm (.push reg) with framePushed := e.framePushed + p.wordSize }

/-- `reserveStack`. -/
def reserveStack (e : MoveEmitter) (amount : Nat) : MoveEmitter :=
  { e.masm (.reserveStack amount) with framePushed := e.framePushed + amount }

/-- `freeStack`. -/
def freeStack (e : MoveEmitter) (amount : Int) : MoveEmitter :=
  { e.masm (.freeStack amount) with framePushed := e.framePushed - amount }

def cycleSlot (e : MoveEmitter) : Operand := .address stackPointer (e.framePushed - e.pushedAtCycle)

def spillSlot (e : MoveEmitter) : Operand := .address stackPointer (e.framePushed - e.pushedAtSpill)

/-- The displacement of an address that is relative to `base`. -/
def adjust (e : MoveEmitter) (base : Nat) (disp : Int) : Int :=
  if base ≠ stackPointer then disp else disp + (e.framePushed - e.pushedAtStart)

/-- `toOperand`. -/
def toOperand (e : MoveEmitter) : MoveOperand → Operand
  | .reg code => .reg code
  | .floatReg code => .floatReg code
  | .memory base disp => .address base (e.adjust base disp)
  | .effectiveAddress base disp => .address base (e.adjust base disp)

/-- `tempReg`: afterwards `temp` is free to be used. -/
def tempReg (p : Platform) (e : MoveEmitter) : MoveEmitter :=
  if e.spilledReg.isSome then e
  else if e.pushedAtSpill = -1 then
    let e := { e with spilledReg := some temp }.pushReg p temp
    { e with pushedAtSpill := e.framePushed }
  else { e with spilledReg := some temp }.masm (.mov (.reg temp) e.spillSlot)

/-- `breakCycle`. -/
def breakCycle (p : Platform) (e : MoveEmitter) (dst : MoveOperand) (kind : MoveKind) :
    MoveEmitter :=
  match kind, dst with
  | .double, .memory base disp =>
    let e := e.masm (.movsd (e.toOperand (.memory base disp)) (.floatReg p.scratchFloatReg))
    e.masm (.movsd (.floatReg p.scratchFloatReg) e.cycleSlot)
  | .double, dst => e.masm (.movsd (e.toOperand dst) e.cycleSlot)
  | .general, .memory base disp =>
    let e := e.tempReg p
    let e := e.masm (.mov (e.toOperand (.memory base disp)) (.reg temp))
    e.masm (.mov (.reg temp) e.cycleSlot)
  | .general, dst => e.masm (.mov (e.toOperand dst) e.cycleSlot)

/-- `completeCycle`. -/
def completeCycle (p : Platform) (e : MoveEmitter) (dst : MoveOperand) (kind : MoveKind) :
    MoveEmitter :=
  match kind, dst with
  | .double, .memory base disp =>
    let e := e.masm (.movsd e.cycleSlot (.floatReg p.scratchFloatReg))
    e.masm (.movsd (.floatReg p.scratchFloatReg) (e.toOperand (.memory base disp)))
  | .double, dst => e.masm (.movsd e.cycleSlot (e.toOperand dst))
  | .general, .memory base disp =>
    let e := e.tempReg p
    let e := e.masm (.mov e.cycleSlot (.reg temp))
    e.masm (.mov (.reg temp) (e.toOperand (.memory base disp)))
  | .general, dst => e.masm (.mov e.cycleSlot (e.toOperand dst))

/-- A load from memory, or of an effective address, into a register. -/
def load (e : MoveEmitter) (src : MoveOperand) (dst : Nat) : MoveEmitter :=
  match src with
  | .effectiveAddress base disp => e.masm (.lea base (e.adjust base disp) dst)
  | src => e.masm (.mov (e.toOperand src) (.reg dst))

/-- The destination is the spilled register: its value in the spill slot is no longer needed. -/
def forget (e : MoveEmitter) (dst : MoveOperand) : MoveEmitter :=
  match dst with
  | .reg code => if e.spilledReg = some code then { e with spilledReg := none } else e
  | _ => e

/-- The spilled register gets its value back. -/
def reload (e : MoveEmitter) (code : Nat) : MoveEmitter :=
  if e.spilledReg = some code then
    { e.masm (.mov e.spillSlot (.reg code)) with spilledReg := none }
  else e

/-- A move to memory from an address with the given base. The base gets its value back if it is
the temp. -/
def emitThroughTemp (p : Platform) (e : MoveEmitter) (base : Nat) (src dst : MoveOperand) :
    MoveEmitter :=
  let e := e.tempReg p
  let e := if base = temp then e.masm (.mov e.spillSlot (.reg temp)) else e
  let e := e.load src temp
  e.masm (.mov (.reg temp) (e.toOperand dst))

/-- `emitMove`. -/
def emitMove (p : Platform) (e : MoveEmitter) (src dst : MoveOperand) : MoveEmitter :=
  let e := e.forget dst
  match src, dst with
  | .reg code, dst =>
    let e := e.reload code
    e.masm (.mov (.reg code) (e.toOperand dst))
  | src, .reg code => e.load src code
  | .memory base disp, dst => e.emitThroughTemp p base (.memory base disp) dst
  | .effectiveAddress base disp, dst => e.emitThroughTemp p base (.effectiveAddress base disp) dst
  | .floatReg _, _ => e

/-- `emitDoubleMove`. -/
def emitDoubleMove (p : Platform) (e : MoveEmitter) (src dst : MoveOperand) : MoveEmitter :=
  match src, dst with
  | .floatReg code, dst => e.masm (.movsd (.floatReg code) (e.toOperand dst))
  | src, .floatReg code => e.masm (.movsd (e.toOperand src) (.floatReg code))
  | src, dst =>
    let e := e.masm (.movsd (e.toOperand src) (.floatReg p.scratchFloatReg))
    e.masm (.movsd (.floatReg p.scratchFloatReg) (e.toOperand dst))

/-- The move itself, by its kind. -/
def emitKind (p : Platform) (e : MoveEmitter) (m : Move) : MoveEmitter :=
  match m.kind with
  | .double => e.emitDoubleMove p m.src m.dst
  | .general => e.emitMove p m.src m.dst

/-- `emit`, for one move. -/
def emit (p : Platform) (e : MoveEmitter) (m : Move) : MoveEmitter :=
  if m.inCycle then
    if e.inCycle then { e.completeCycle p m.dst m.kind with inCycle := false }
    else { e.breakCycle p m.dst m.kind with inCycle := true }.emitKind p m
  else e.emitKind p m

/-- The stack for the cycle slot: the size of a double. -/
def reserveCycleSlot (e : MoveEmitter) (hasCycles : Bool) : MoveEmitter :=
  if hasCycles then
    let e := e.reserveStack 8
    { e with pushedAtCycle := e.framePushed }
  else e

/-- `emit`, for the moves of a resolver. -/
def emitAll (p : Platform) (e : MoveEmitter) (moves : ResolvedMoves) : MoveEmitter :=
  moves.orderedMoves.foldl (emit p) (e.reserveCycleSlot moves.hasCycles)

/-- `finish`. -/
def finish (e : MoveEmitter) : MoveEmitter :=
  let e := match e.spilledReg with
    | some code => if e.pushedAtSpill ≠ -1 then e.masm (.mov e.spillSlot (.reg code)) else e
    | none => e
  e.freeStack (e.framePushed - e.pushedAtStart)

end MoveEmitter

/-- The code for a group of moves. -/
def moveCode (p : Platform) (framePushed : Int)
    (moves : List (MoveOperand × MoveOperand × MoveKind)) : List Instruction :=
  (((MoveEmitter.new framePushed).emitAll p (resolve (addMoves moves))).finish).code

end SpiderMonkey.Ion.X86
