import SpiderMonkey.Ion.LiveInterval

/-! # Safepoints

`populateSafepoints` of `LinearScan.cpp`: each safepoint gets the registers and stack slots that
hold something for the garbage collector to trace.
-/

namespace SpiderMonkey.Ion.LinearScan

open SpiderMonkey.Lib

/-! ## The graph, after registers have been allocated -/

/-- `LiveInterval`, with its allocation. -/
structure AllocatedInterval where
  ranges : List (HalfOpen Nat)
  nonempty : ranges ≠ []
  ordered : Ordered ranges
  alloc : LAllocation
deriving DecidableEq

namespace AllocatedInterval

def start (i : AllocatedInterval) : Nat := (i.ranges.head i.nonempty).fromPos

/-- `end`. -/
def endPos (i : AllocatedInterval) : Nat := (i.ranges.getLast i.nonempty).toPos

def covers (i : AllocatedInterval) (pos : Nat) : Bool :=
  if pos < i.start ∨ i.endPos ≤ pos then false else coversFrom i.ranges pos

end AllocatedInterval

/-- `VirtualRegister`, with its definition's type and the id of the instruction that defines it.
`canonicalSpill` points to the allocation of one of the intervals and is that interval here; no
two of them are equal. -/
structure VirtualRegister where
  type : DefinitionType
  ins : Nat
  isTemp : Bool
  intervals : List AllocatedInterval
  nonempty : intervals ≠ []
  ordered : intervals.Pairwise fun i j => i.endPos ≤ j.start
  canonicalSpill : Option AllocatedInterval
  canonicalSpill_mem : ∀ c ∈ canonicalSpill, c ∈ intervals
  spillAtDefinition : Bool
  spillPosition : Nat

namespace VirtualRegister

/-- The start of the first interval. -/
def start (r : VirtualRegister) : Nat := (r.intervals.head r.nonempty).start

/-- The end of the last interval. -/
def endPos (r : VirtualRegister) : Nat := (r.intervals.getLast r.nonempty).endPos

/-- The loop of `intervalFor`. -/
def intervalIn : List AllocatedInterval → Nat → Option AllocatedInterval
  | [], _ => none
  | i :: is, pos =>
    if i.covers pos then some i
    else if pos < i.endPos then none
    else intervalIn is pos

def intervalFor (r : VirtualRegister) (pos : Nat) : Option AllocatedInterval :=
  intervalIn r.intervals pos

/-- `canonicalSpillSlot`. -/
def canonicalSpillSlot (r : VirtualRegister) : Nat :=
  match r.canonicalSpill with
  | some c => c.alloc.slot
  | none => 0

/-- `IsSpilledAt`, for an interval of the register. -/
def isSpilledAt (r : VirtualRegister) (i : AllocatedInterval) : Bool :=
  match r.canonicalSpill with
  | some c => c.alloc.isStackSlot && (r.spillAtDefinition || decide (i = c))
  | none => false

end VirtualRegister

/-- A safepoint's instruction. -/
structure LInstruction where
  id : Nat
  isCall : Bool
deriving DecidableEq

/-- The virtual registers by their numbers, and the safepoints. -/
structure AllocatedGraph where
  numVirtualRegisters : Nat
  vregs : Nat → Option VirtualRegister
  safepoints : List LInstruction

/-! ## The safepoints -/

/-- `LSafepoint`. -/
structure LSafepoint where
  gcRegs : List Nat
  gcSlots : List Nat
  valueSlots : List Nat
  nunboxParts : List (LAllocation × LAllocation)
deriving DecidableEq

namespace LSafepoint

def empty : LSafepoint := ⟨[], [], [], []⟩

def addGcRegister (sp : LSafepoint) (reg : Nat) : LSafepoint :=
  { sp with gcRegs := sp.gcRegs ++ [reg] }

def addGcSlot (sp : LSafepoint) (slot : Nat) : LSafepoint :=
  { sp with gcSlots := sp.gcSlots ++ [slot] }

def addValueSlot (sp : LSafepoint) (slot : Nat) : LSafepoint :=
  { sp with valueSlots := sp.valueSlots ++ [slot] }

def addNunboxParts (sp : LSafepoint) (type payload : LAllocation) : LSafepoint :=
  { sp with nunboxParts := sp.nunboxParts ++ [(type, payload)] }

end LSafepoint

/-- The safepoints of the instructions, by their ids. -/
abbrev Safepoints := Nat → LSafepoint

/-- The register of an interval is not live across a call. -/
def LSafepoint.addAllocation (sp : LSafepoint) (ins : LInstruction) : LAllocation → LSafepoint
  | .gpr code => if ins.isCall then sp else sp.addGcRegister code
  | _ => sp

/-- What `populateSafepoints` adds for a traceable register. -/
def recordTraceable (r : VirtualRegister) (ins : LInstruction) (sp : LSafepoint) :
    Option LSafepoint :=
  match r.intervalFor (inputOf ins.id) with
  | none => some sp
  | some i =>
    let sp := sp.addAllocation ins i.alloc
    some (if r.isSpilledAt i then sp.addGcSlot r.canonicalSpillSlot else sp)

/-- What `populateSafepoints` adds for the halves of a value; none if it reads the allocation of
an interval that is not there. -/
def recordNunbox (type payload : VirtualRegister) (ins : LInstruction) (sp : LSafepoint) :
    Option LSafepoint :=
  match type.intervalFor (inputOf ins.id), payload.intervalFor (inputOf ins.id) with
  | none, none => some sp
  | some typeInterval, some payloadInterval =>
    if payloadInterval.alloc.isArgument then some sp
    else
      let sp := if type.isSpilledAt typeInterval && payload.isSpilledAt payloadInterval then
          sp.addValueSlot (baseOfNunboxSlot .payload payload.canonicalSpillSlot)
        else sp
      some (if !ins.isCall &&
          (!type.isSpilledAt typeInterval || payloadInterval.alloc.isGeneralReg) then
          sp.addNunboxParts typeInterval.alloc payloadInterval.alloc
        else sp)
  -- the payload's allocation is read before anything of the type's interval
  | none, some payloadInterval => if payloadInterval.alloc.isArgument then some sp else none
  | some _, none => none

/-- `otherHalfOfNunbox`, of the register with a number. -/
def AllocatedGraph.otherHalfOfNunbox (g : AllocatedGraph) (n : Nat) (r : VirtualRegister) :
    Option VirtualRegister :=
  if r.type = .type then g.vregs (n + 1) else g.vregs (n - 1)

/-- What `populateSafepoints` adds for the register with a number. -/
def AllocatedGraph.record (g : AllocatedGraph) (n : Nat) (r : VirtualRegister)
    (ins : LInstruction) (sp : LSafepoint) : Option LSafepoint :=
  if isNunbox r.type then
    match g.otherHalfOfNunbox n r with
    | none => none
    | some other =>
      if r.type = .type then recordNunbox r other ins sp else recordNunbox other r ins sp
  else recordTraceable r ins sp

/-- The instruction defines the register; its temps do not count. -/
def VirtualRegister.isOutputOf (r : VirtualRegister) (ins : LInstruction) : Bool :=
  r.ins = ins.id && !r.isTemp

/-- `findFirstSafepoint`. -/
def findFirstSafepoint (safepoints : List LInstruction) (start : Nat) (startFrom : Nat) :
    Nat :=
  startFrom +
    ((safepoints.drop startFrom).takeWhile fun ins => !decide (start ≤ inputOf ins.id)).length

/-- The loop of `populateSafepoints` over the safepoints from the first one in range. -/
def AllocatedGraph.visitSafepoints (g : AllocatedGraph) (n : Nat) (r : VirtualRegister) :
    List LInstruction → Safepoints → Option Safepoints
  | [], sps => some sps
  | ins :: rest, sps =>
    if r.endPos < inputOf ins.id then some sps
    else if r.isOutputOf ins then g.visitSafepoints n r rest sps
    else
      match g.record n r ins (sps ins.id) with
      | none => none
      | some sp => g.visitSafepoints n r rest (Function.update sps ins.id sp)

/-- The loop of `populateSafepoints` over the registers, from number `n` on. -/
def AllocatedGraph.populateFrom (g : AllocatedGraph) (n firstSafepoint : Nat) (sps : Safepoints) :
    Option Safepoints :=
  if _hn : n < g.numVirtualRegisters then
    match g.vregs n with
    | none => g.populateFrom (n + 1) firstSafepoint sps
    | some r =>
      if isTraceable r.type || isNunbox r.type then
        let firstSafepoint := findFirstSafepoint g.safepoints r.start firstSafepoint
        if g.safepoints.length ≤ firstSafepoint then some sps
        else
          match g.visitSafepoints n r (g.safepoints.drop firstSafepoint) sps with
          | none => none
          | some sps =>
            -- the other half of a value has been dealt with
            g.populateFrom (if isNunbox r.type then n + 2 else n + 1) firstSafepoint sps
      else g.populateFrom (n + 1) firstSafepoint sps
  else some sps
termination_by g.numVirtualRegisters - n
decreasing_by
  all_goals first | omega | (split <;> omega)

/-- `populateSafepoints`; none if the code reads an interval that is not there. -/
def AllocatedGraph.populateSafepoints (g : AllocatedGraph) : Option Safepoints :=
  g.populateFrom 0 0 fun _ => .empty

end SpiderMonkey.Ion.LinearScan
