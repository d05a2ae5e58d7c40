import SpiderMonkey.Ion.MoveEmitter
import SpiderMonkey.Ion.MoveResolverSoundness

/-! # The code of the emitter carries out the moves

The machine is followed next to the emitter's rule for cycles, in which a place is named by an
operand. While the temp register is spilled, its value is the one in the spill slot. A step
meets its condition if no address is formed with a register whose value is gone, and no cycle
is opened or closed at the spilled register.
-/

namespace SpiderMonkey.Ion.X86

open MoveEmitter Function Option

/-- What an operand stands for before the moves. -/
def Machine.value (m : Machine) : MoveOperand → Int
  | .reg code => m.regs code
  | .floatReg code => m.floatRegs code
  | .memory base disp => m.memory (m.regs base + disp)
  | .effectiveAddress base disp => m.regs base + disp

/-- The machine after the code emitted so far. -/
def MoveEmitter.machine (e : MoveEmitter) (p : Platform) (m₀ : Machine) : Machine :=
  m₀.run p e.code

lemma machine_masm (e : MoveEmitter) (p : Platform) (m₀ : Machine) (i : Instruction) :
    (e.masm i).machine p m₀ = (e.machine p m₀).exec p i := by
  show (e.code ++ [i]).foldl (Machine.exec p) m₀ = _
  rw [List.foldl_append]
  rfl

/-! ## The simulation -/

/-- Where the emitter's stack slots are: `size` bytes are reserved for the cycle slot, and the
spill slot comes after them. -/
structure Layout (p : Platform) (size : Int) (e : MoveEmitter) : Prop where
  reserved : size = 0 ∨ size = 8
  start : 0 ≤ e.pushedAtStart
  cycle : size = 8 → e.pushedAtCycle = e.pushedAtStart + 8
  spill : (e.pushedAtSpill = -1 ∧ e.spilledReg = none ∧ e.framePushed = e.pushedAtStart + size) ∨
    (e.pushedAtSpill = e.pushedAtStart + size + p.wordSize ∧
      e.framePushed = e.pushedAtStart + size + p.wordSize)
  reg : ∀ r, e.spilledReg = some r → r = temp

/-- The stack below `m₀`'s stack pointer that the emitter uses. -/
def Reserved (p : Platform) (m₀ : Machine) (size a : Int) : Prop :=
  m₀.regs stackPointer - (size + p.wordSize) ≤ a ∧ a < m₀.regs stackPointer

/-- The memory operands among `ops` are different cells, outside the emitter's stack. -/
structure Separated (p : Platform) (m₀ : Machine) (size : Int) (ops : List MoveOperand) :
    Prop where
  distinct : ∀ b d b' d', .memory b d ∈ ops → .memory b' d' ∈ ops →
    m₀.regs b + d = m₀.regs b' + d' → b = b' ∧ d = d'
  outside : ∀ b d, .memory b d ∈ ops → ¬ Reserved p m₀ size (m₀.regs b + d)

/-- The machine `m` holds what the places of `s` do. -/
structure Sim (p : Platform) (m₀ : Machine) (size : Int) (ops : List MoveOperand) (m : Machine)
    (e : MoveEmitter) (s : EmitterState Int) : Prop where
  layout : Layout p size e
  sp : m.regs stackPointer = m₀.regs stackPointer - (e.framePushed - e.pushedAtStart)
  reg : ∀ r, r ≠ stackPointer → e.spilledReg ≠ some r → m.regs r = s.places (.reg r)
  spilled : e.spilledReg = some temp →
    m.memory (m₀.regs stackPointer - (size + p.wordSize)) = s.places (.reg temp)
  float : ∀ f, f ≠ p.scratchFloatReg → m.floatRegs f = s.places (.floatReg f)
  cell : ∀ b d, .memory b d ∈ ops → m.memory (m₀.regs b + d) = s.places (.memory b d)
  other : ∀ a, ¬ Reserved p m₀ size a → (∀ b d, .memory b d ∈ ops → m₀.regs b + d ≠ a) →
    m.memory a = m₀.memory a
  slot : e.inCycle = true → m.memory (m₀.regs stackPointer - 8) = s.cycleSlot
  inCycle : e.inCycle = s.inCycle
  address : ∀ b d, s.places (.effectiveAddress b d) = m₀.regs b + d

variable {p : Platform} {m₀ m : Machine} {size : Int} {ops : List MoveOperand} {e : MoveEmitter}
  {s : EmitterState Int}

lemma temp_ne_stackPointer : temp ≠ stackPointer := by decide

/-- The register has the value it had before the moves. -/
def Ready (m₀ : Machine) (e : MoveEmitter) (s : EmitterState Int) (b : Nat) : Prop :=
  b = stackPointer ∨ (e.spilledReg ≠ some b ∧ s.places (.reg b) = m₀.regs b)

variable {b : Nat}

lemma Sim.addr (h : Sim p m₀ size ops m e s) (hb : Ready m₀ e s b) (d : Int) :
    m.regs b + e.adjust b d = m₀.regs b + d := by
  rcases hb with rfl | ⟨hspilled, hplace⟩
  · rw [adjust, if_neg (fun h => h rfl), h.sp]
    omega
  · rcases Decidable.em (b = stackPointer) with rfl | hne
    · rw [adjust, if_neg (fun h => h rfl), h.sp]
      omega
    · rw [adjust, if_pos hne, h.reg b hne hspilled, hplace]

variable {d : Int}

lemma Sim.read_memory (h : Sim p m₀ size ops m e s) (hb : Ready m₀ e s b)
    (hop : .memory b d ∈ ops) :
    m.read (e.toOperand (.memory b d)) = s.places (.memory b d) := by
  show m.memory (m.regs b + e.adjust b d) = _
  rw [h.addr hb, h.cell b d hop]

lemma Sim.spillSlot_addr (h : Sim p m₀ size ops m e s) (hspill : e.pushedAtSpill ≠ -1) :
    m.regs stackPointer + (e.framePushed - e.pushedAtSpill) =
      m₀.regs stackPointer - (size + p.wordSize) := by
  rcases h.layout.spill with ⟨hnone, _⟩ | ⟨hat, _⟩
  · exact absurd hnone hspill
  · rw [h.sp, hat]
    omega

lemma Sim.read_spillSlot (h : Sim p m₀ size ops m e s) (hspilled : e.spilledReg = some temp) :
    m.read e.spillSlot = s.places (.reg temp) := by
  have hspill : e.pushedAtSpill ≠ -1 := by
    rcases h.layout.spill with ⟨_, hnone, _⟩ | ⟨hat, _⟩
    · rw [hspilled] at hnone
      cases hnone
    · have hstart := h.layout.start
      rcases h.layout.reserved with hsize | hsize <;> omega
  show m.memory (m.regs stackPointer + (e.framePushed - e.pushedAtSpill)) = _
  rw [h.spillSlot_addr hspill, h.spilled hspilled]

lemma Sim.cycleSlot_addr (h : Sim p m₀ size ops m e s) (hsize : size = 8) :
    m.regs stackPointer + (e.framePushed - e.pushedAtCycle) = m₀.regs stackPointer - 8 := by
  rw [h.sp, h.layout.cycle hsize]
  omega

/-! ### Changes of the machine -/

/-- The spilled register may be overwritten. -/
lemma Sim.setTemp (h : Sim p m₀ size ops m e s) (hspilled : e.spilledReg = some temp) (v : Int) :
    Sim p m₀ size ops (m.setReg temp v) e s := by
  refine ⟨h.layout, ?_, ?_, h.spilled, h.float, h.cell, h.other, h.slot, h.inCycle, h.address⟩
  · show update m.regs temp v stackPointer = _
    rw [update_of_ne temp_ne_stackPointer.symm, h.sp]
  · intro r hr hne
    have htemp : r ≠ temp := by
      rintro rfl
      exact hne hspilled
    show update m.regs temp v r = _
    rw [update_of_ne htemp, h.reg r hr hne]

lemma forget_reg (e : MoveEmitter) (r : Nat) :
    e.forget (.reg r) = { e with spilledReg := if e.spilledReg = some r then none
      else e.spilledReg } := by
  rw [MoveEmitter.forget]
  split <;> rfl

lemma Layout.forget (h : Layout p size e) (r : Nat) : Layout p size (e.forget (.reg r)) := by
  rw [forget_reg]
  rcases Decidable.em (e.spilledReg = some r) with hspilled | hne
  · rw [if_pos hspilled]
    refine ⟨h.reserved, h.start, h.cycle, ?_, ?_⟩
    · rcases h.spill with ⟨hat, _, hframe⟩ | hspill
      · exact Or.inl ⟨hat, rfl, hframe⟩
      · exact Or.inr hspill
    · intro r hr
      cases hr
  · rw [if_neg hne]
    exact h

/-- A register is written. What has been spilled of it is no longer needed. -/
lemma Sim.setReg (h : Sim p m₀ size ops m e s) {r : Nat} (hr : r ≠ stackPointer) (v : Int) :
    Sim p m₀ size ops (m.setReg r v) (e.forget (.reg r))
      { s with places := update s.places (.reg r) v } := by
  have hlayout := h.layout.forget r
  rw [forget_reg] at hlayout ⊢
  refine ⟨hlayout, ?_, ?_, ?_, ?_, ?_, h.other, h.slot, h.inCycle, ?_⟩
  · show update m.regs r v stackPointer = _
    rw [update_of_ne hr.symm, h.sp]
  · intro r' hr' hne
    show update m.regs r v r' = update s.places (.reg r) v (.reg r')
    rcases Decidable.em (r' = r) with rfl | hrr
    · rw [update_self, update_self]
    · have hop : MoveOperand.reg r' ≠ .reg r := fun heq => hrr (MoveOperand.reg.inj heq)
      rw [update_of_ne hrr, update_of_ne hop]
      refine h.reg r' hr' ?_
      intro hspilled
      have hother : ¬ e.spilledReg = some r := by
        rw [hspilled]
        exact fun heq => hrr (some.inj heq)
      exact hne ((if_neg hother).trans hspilled)
  · intro hspilled
    rcases Decidable.em (e.spilledReg = some r) with hforget | hkeep
    · rw [show (if e.spilledReg = some r then none else e.spilledReg) = none from
        if_pos hforget] at hspilled
      cases hspilled
    · have hspilled : e.spilledReg = some temp := (if_neg hkeep).symm.trans hspilled
      have hop : MoveOperand.reg temp ≠ .reg r := by
        intro heq
        rw [MoveOperand.reg.inj heq] at hspilled
        exact hkeep hspilled
      show m.memory _ = update s.places (.reg r) v (.reg temp)
      rw [update_of_ne hop, h.spilled hspilled]
  · intro f hf
    show m.floatRegs f = update s.places (.reg r) v (.floatReg f)
    rw [update_of_ne (fun heq => by cases heq), h.float f hf]
  · intro b d hop
    show m.memory _ = update s.places (.reg r) v (.memory b d)
    rw [update_of_ne (fun heq => by cases heq), h.cell b d hop]
  · intro b d
    show update s.places (.reg r) v (.effectiveAddress b d) = _
    rw [update_of_ne (fun heq => by cases heq), h.address]

lemma Sim.setFloat (h : Sim p m₀ size ops m e s) (f : Nat) (v : Int) :
    Sim p m₀ size ops { m with floatRegs := update m.floatRegs f v } e
      { s with places := update s.places (.floatReg f) v } := by
  refine ⟨h.layout, h.sp, ?_, ?_, ?_, ?_, h.other, h.slot, h.inCycle, ?_⟩
  · intro r hr hne
    show m.regs r = update s.places (.floatReg f) v (.reg r)
    rw [update_of_ne (fun heq => by cases heq), h.reg r hr hne]
  · intro hspilled
    show m.memory _ = update s.places (.floatReg f) v (.reg temp)
    rw [update_of_ne (fun heq => by cases heq), h.spilled hspilled]
  · intro f' hf'
    show update m.floatRegs f v f' = update s.places (.floatReg f) v (.floatReg f')
    rcases Decidable.em (f' = f) with rfl | hne
    · rw [update_self, update_self]
    · have hop : MoveOperand.floatReg f' ≠ .floatReg f := fun heq => hne (MoveOperand.floatReg.inj heq)
      rw [update_of_ne hne, update_of_ne hop, h.float f' hf']
  · intro b d hop
    show m.memory _ = update s.places (.floatReg f) v (.memory b d)
    rw [update_of_ne (fun heq => by cases heq), h.cell b d hop]
  · intro b d
    show update s.places (.floatReg f) v (.effectiveAddress b d) = _
    rw [update_of_ne (fun heq => by cases heq), h.address]

lemma Sim.setScratch (h : Sim p m₀ size ops m e s) (v : Int) :
    Sim p m₀ size ops { m with floatRegs := update m.floatRegs p.scratchFloatReg v } e s := by
  refine ⟨h.layout, h.sp, h.reg, h.spilled, ?_, h.cell, h.other, h.slot, h.inCycle, h.address⟩
  intro f hf
  show update m.floatRegs p.scratchFloatReg v f = _
  rw [update_of_ne hf, h.float f hf]

/-- The cell of an operand is written. -/
lemma Sim.setCell (h : Sim p m₀ size ops m e s) (hsep : Separated p m₀ size ops)
    (hop : .memory b d ∈ ops) (hcycle : e.inCycle = true → size = 8) (v : Int) :
    Sim p m₀ size ops (m.setCell (m₀.regs b + d) v) e
      { s with places := update s.places (.memory b d) v } := by
  have hout := hsep.outside b d hop
  have hword := p.wordSize_pos
  have hspill : m₀.regs stackPointer - (size + p.wordSize) ≠ m₀.regs b + d := by
    intro heq
    refine hout ⟨Int.le_of_eq heq, ?_⟩
    rcases h.layout.reserved with hsize | hsize <;> omega
  refine ⟨h.layout, h.sp, ?_, ?_, ?_, ?_, ?_, ?_, h.inCycle, ?_⟩
  · intro r hr hne
    show m.regs r = update s.places (.memory b d) v (.reg r)
    rw [update_of_ne (fun heq => by cases heq), h.reg r hr hne]
  · intro hspilled
    show update m.memory (m₀.regs b + d) v _ =
      update s.places (.memory b d) v (.reg temp)
    rw [update_of_ne hspill, update_of_ne (fun heq => by cases heq),
      h.spilled hspilled]
  · intro f hf
    show m.floatRegs f = update s.places (.memory b d) v (.floatReg f)
    rw [update_of_ne (fun heq => by cases heq), h.float f hf]
  · intro b' d' hop'
    show update m.memory (m₀.regs b + d) v (m₀.regs b' + d') =
      update s.places (.memory b d) v (.memory b' d')
    rcases Decidable.em (MoveOperand.memory b' d' = .memory b d) with heq | hne
    · cases heq
      rw [update_self, update_self]
    · have haddr : m₀.regs b' + d' ≠ m₀.regs b + d := by
        intro haddr
        rcases hsep.distinct b' d' b d hop' hop haddr with ⟨rfl, rfl⟩
        exact hne rfl
      rw [update_of_ne haddr, update_of_ne hne, h.cell b' d' hop']
  · intro a ha hne
    show update m.memory (m₀.regs b + d) v a = _
    rw [update_of_ne (hne b d hop).symm, h.other a ha hne]
  · intro hin
    have hslot : m₀.regs stackPointer - 8 ≠ m₀.regs b + d := by
      intro heq
      have hsize := hcycle hin
      refine hout ⟨?_, ?_⟩ <;> omega
    show update m.memory (m₀.regs b + d) v _ = s.cycleSlot
    rw [update_of_ne hslot, h.slot hin]
  · intro b' d'
    show update s.places (.memory b d) v (.effectiveAddress b' d') = _
    rw [update_of_ne (fun heq => by cases heq), h.address]

/-- A cycle is opened: the cycle slot is written. -/
lemma Sim.openCycle (h : Sim p m₀ size ops m e s) (hsep : Separated p m₀ size ops)
    (hsize : size = 8) (v : Int) :
    Sim p m₀ size ops (m.setCell (m₀.regs stackPointer - 8) v) { e with inCycle := true }
      { s with cycleSlot := v, inCycle := true } := by
  have hword := p.wordSize_pos
  have hreserved : Reserved p m₀ size (m₀.regs stackPointer - 8) := by
    constructor <;> omega
  refine ⟨⟨h.layout.reserved, h.layout.start, h.layout.cycle, h.layout.spill, h.layout.reg⟩, h.sp,
    h.reg, ?_, h.float, ?_, ?_, ?_, rfl, h.address⟩
  · intro hspilled
    have hne : m₀.regs stackPointer - (size + p.wordSize) ≠ m₀.regs stackPointer - 8 := by omega
    show update m.memory _ v _ = _
    rw [update_of_ne hne]
    exact h.spilled hspilled
  · intro b d hop
    have hne : m₀.regs b + d ≠ m₀.regs stackPointer - 8 := by
      intro heq
      exact hsep.outside b d hop (heq.symm ▸ hreserved)
    show update m.memory _ v _ = _
    rw [update_of_ne hne, h.cell b d hop]
  · intro a ha hne
    have hout : a ≠ m₀.regs stackPointer - 8 := by
      rintro rfl
      exact ha hreserved
    show update m.memory _ v a = _
    rw [update_of_ne hout, h.other a ha hne]
  · intro _
    exact update_self _ v m.memory

lemma Sim.closeCycle (h : Sim p m₀ size ops m e s) :
    Sim p m₀ size ops m { e with inCycle := false } { s with inCycle := false } :=
  ⟨⟨h.layout.reserved, h.layout.start, h.layout.cycle, h.layout.spill, h.layout.reg⟩, h.sp, h.reg,
    h.spilled, h.float, h.cell, h.other, fun hin => (by cases hin), rfl, h.address⟩

/-- `temp` is put into the spill slot. -/
lemma Sim.spill (h : Sim p m₀ size ops m e s) (hsep : Separated p m₀ size ops)
    (hcycle : e.inCycle = true → size = 8) (hnone : e.spilledReg = none) {m' : Machine}
    {e' : MoveEmitter} (hlayout : Layout p size e')
    (hin : e'.inCycle = e.inCycle)
    (hsp : m'.regs stackPointer = m₀.regs stackPointer - (e'.framePushed - e'.pushedAtStart))
    (hregs : ∀ r, r ≠ stackPointer → m'.regs r = m.regs r) (hfloat : m'.floatRegs = m.floatRegs)
    (hmemory : m'.memory = update m.memory
      (m₀.regs stackPointer - (size + p.wordSize)) (m.regs temp)) :
    Sim p m₀ size ops m' e' s := by
  have hword := p.wordSize_pos
  have hreserved : Reserved p m₀ size (m₀.regs stackPointer - (size + p.wordSize)) := by
    rcases h.layout.reserved with hsize | hsize <;> constructor <;> omega
  have hclear : ∀ r, e.spilledReg ≠ some r := by
    intro r hr
    rw [hnone] at hr
    cases hr
  refine ⟨hlayout, hsp, ?_, ?_, ?_, ?_, ?_, ?_, hin.trans h.inCycle, h.address⟩
  · intro r hr _
    rw [hregs r hr, h.reg r hr (hclear r)]
  · intro _
    rw [hmemory, update_self, h.reg temp temp_ne_stackPointer (hclear temp)]
  · intro f hf
    rw [hfloat, h.float f hf]
  · intro b d hop
    have hne : m₀.regs b + d ≠ m₀.regs stackPointer - (size + p.wordSize) := by
      intro heq
      exact hsep.outside b d hop (heq.symm ▸ hreserved)
    rw [hmemory, update_of_ne hne, h.cell b d hop]
  · intro a ha hne
    have hout : a ≠ m₀.regs stackPointer - (size + p.wordSize) := by
      rintro rfl
      exact ha hreserved
    rw [hmemory, update_of_ne hout, h.other a ha hne]
  · intro hin'
    rw [hin] at hin'
    have hsize := hcycle hin'
    have hne : m₀.regs stackPointer - 8 ≠ m₀.regs stackPointer - (size + p.wordSize) := by omega
    rw [hmemory, update_of_ne hne, h.slot hin']

/-! ## The emitter's functions -/

/-- The simulation, for the code emitted so far. -/
def Simulates (p : Platform) (m₀ : Machine) (size : Int) (ops : List MoveOperand)
    (e : MoveEmitter) (s : EmitterState Int) : Prop :=
  Sim p m₀ size ops (e.machine p m₀) e s

lemma Sim.withCode (h : Sim p m₀ size ops m e s) (code : List Instruction) :
    Sim p m₀ size ops m { e with code := code } s :=
  ⟨⟨h.layout.reserved, h.layout.start, h.layout.cycle, h.layout.spill, h.layout.reg⟩, h.sp, h.reg,
    h.spilled, h.float, h.cell, h.other, h.slot, h.inCycle, h.address⟩

variable {i : Instruction}

lemma Simulates.masm (h : Sim p m₀ size ops ((e.machine p m₀).exec p i) e s) :
    Simulates p m₀ size ops (e.masm i) s := by
  rw [Simulates, machine_masm]
  exact h.withCode _

/-- What the functions that follow rely on. -/
structure Context (p : Platform) (m₀ : Machine) (size : Int) (ops : List MoveOperand)
    (e : MoveEmitter) (s : EmitterState Int) : Prop where
  sim : Simulates p m₀ size ops e s
  separated : Separated p m₀ size ops
  cycle : e.inCycle = true → size = 8

lemma Context.tempReg (h : Context p m₀ size ops e s) :
    Context p m₀ size ops (e.tempReg p) s ∧ (e.tempReg p).spilledReg = some temp ∧
      (e.spilledReg = none →
        ((e.tempReg p).machine p m₀).regs temp = (e.machine p m₀).regs temp) := by
  have hlayout := h.sim.layout
  cases hspilled : e.spilledReg with
  | some r =>
    have hsame : e.tempReg p = e := by simp [MoveEmitter.tempReg, hspilled]
    rw [hsame, hspilled, hlayout.reg r hspilled]
    exact ⟨h, rfl, fun hnone => (by cases hnone)⟩
  | none =>
    rcases Decidable.em (e.pushedAtSpill = -1) with hfirst | hagain
    · -- the first use: the register is pushed
      have hpush : e.tempReg p = { e with
          spilledReg := some temp, framePushed := e.framePushed + p.wordSize
          pushedAtSpill := e.framePushed + p.wordSize, code := e.code ++ [.push temp] } := by
        simp [MoveEmitter.tempReg, hspilled, hfirst, MoveEmitter.pushReg, MoveEmitter.masm]
      have hframe : e.framePushed = e.pushedAtStart + size := by
        rcases hlayout.spill with ⟨_, _, hframe⟩ | ⟨hat, _⟩
        · exact hframe
        · have hstart := hlayout.start
          rcases hlayout.reserved with hsize | hsize <;> omega
      have hmachine : (e.tempReg p).machine p m₀ = (e.machine p m₀).exec p (.push temp) := by
        rw [hpush]
        exact machine_masm e p m₀ _
      have hsp := h.sim.sp
      have haddr : (e.machine p m₀).regs stackPointer - p.wordSize =
          m₀.regs stackPointer - (size + p.wordSize) := by
        rw [hsp, hframe]
        omega
      have hregs : ∀ r, r ≠ stackPointer →
          ((e.tempReg p).machine p m₀).regs r = (e.machine p m₀).regs r := by
        intro r hr
        rw [hmachine]
        exact update_of_ne hr _ _
      refine ⟨⟨?_, h.separated, ?_⟩, ?_, fun _ => hregs temp temp_ne_stackPointer⟩
      · refine h.sim.spill h.separated h.cycle hspilled ?_ ?_ ?_ hregs ?_ ?_
        · rw [hpush]
          refine ⟨hlayout.reserved, hlayout.start, hlayout.cycle, Or.inr ?_, ?_⟩
          · constructor <;> simp only [hframe]
          · intro r hr
            exact (some.inj hr).symm
        · rw [hpush]
        · rw [hmachine, hpush]
          have hexec : ((e.machine p m₀).exec p (.push temp)).regs stackPointer =
              (e.machine p m₀).regs stackPointer - p.wordSize :=
            update_self stackPointer _ (e.machine p m₀).regs
          show _ = m₀.regs stackPointer - (e.framePushed + p.wordSize - e.pushedAtStart)
          rw [hexec, haddr, hframe]
          omega
        · rw [hmachine]
          rfl
        · rw [hmachine]
          show update _ ((e.machine p m₀).regs stackPointer - p.wordSize) _ = _
          rw [haddr]
          rfl
      · intro hin
        rw [hpush] at hin
        exact h.cycle hin
      · rw [hpush]
    · -- the spill slot is there already
      have hstore : e.tempReg p = { e with
          spilledReg := some temp, code := e.code ++ [.mov (.reg temp) e.spillSlot] } := by
        simp [MoveEmitter.tempReg, hspilled, hagain, MoveEmitter.masm, MoveEmitter.spillSlot]
      have hmachine : (e.tempReg p).machine p m₀ =
          (e.machine p m₀).exec p (.mov (.reg temp) e.spillSlot) := by
        rw [hstore]
        exact machine_masm e p m₀ _
      have haddr := h.sim.spillSlot_addr hagain
      refine ⟨⟨?_, h.separated, ?_⟩, ?_, ?_⟩
      · refine h.sim.spill h.separated h.cycle hspilled ?_ ?_ ?_ ?_ ?_ ?_
        · rw [hstore]
          refine ⟨hlayout.reserved, hlayout.start, hlayout.cycle, ?_, ?_⟩
          · rcases hlayout.spill with ⟨hat, _⟩ | hspill
            · exact absurd hat hagain
            · exact Or.inr hspill
          · intro r hr
            exact (some.inj hr).symm
        · rw [hstore]
        · rw [hmachine, hstore]
          exact h.sim.sp
        · intro r _
          rw [hmachine]
          rfl
        · rw [hmachine]
          rfl
        · rw [hmachine]
          show update _ ((e.machine p m₀).regs stackPointer + _) _ = _
          rw [haddr]
          rfl
      · intro hin
        rw [hstore] at hin
        exact h.cycle hin
      · rw [hstore]
      · intro _
        rw [hmachine]
        rfl

/-- The spilled register gets its value back. -/
lemma Context.reload (h : Context p m₀ size ops e s) (r : Nat) (hr : r ≠ stackPointer) :
    Context p m₀ size ops (e.reload r) s ∧ (e.reload r).spilledReg ≠ some r ∧
      ((e.reload r).machine p m₀).regs r = s.places (.reg r) ∧
      (∀ b, e.spilledReg ≠ some b → (e.reload r).spilledReg ≠ some b) := by
  rcases Decidable.em (e.spilledReg = some r) with hspilled | hne
  · have htemp := h.sim.layout.reg r hspilled
    subst htemp
    have hreload : e.reload temp =
        { e.masm (.mov e.spillSlot (.reg temp)) with spilledReg := none } := if_pos hspilled
    have hvalue := h.sim.read_spillSlot hspilled
    have hmachine : (e.reload temp).machine p m₀ =
        (e.machine p m₀).setReg temp (s.places (.reg temp)) := by
      rw [hreload, ← hvalue]
      exact machine_masm e p m₀ _
    have hset := h.sim.setReg temp_ne_stackPointer (s.places (.reg temp))
    rw [update_eq_self, forget_reg, if_pos hspilled] at hset
    refine ⟨⟨?_, h.separated, ?_⟩, ?_, ?_, ?_⟩
    · rw [Simulates, hmachine, hreload]
      exact hset.withCode _
    · intro hin
      rw [hreload] at hin
      exact h.cycle hin
    · rw [hreload]
      intro hnone
      cases hnone
    · rw [hmachine]
      exact update_self temp _ (e.machine p m₀).regs
    · intro b _
      rw [hreload]
      intro hnone
      cases hnone
  · have hsame : e.reload r = e := if_neg hne
    rw [hsame]
    exact ⟨h, hne, h.sim.reg r hr hne, fun b hb => hb⟩

/-! ### One instruction -/

variable {v : Int}

lemma Context.storeCell (h : Context p m₀ size ops e s) (hop : .memory b d ∈ ops)
    (hb : Ready m₀ e s b)
    (hi : (e.machine p m₀).exec p i = (e.machine p m₀).write v (e.toOperand (.memory b d))) :
    Context p m₀ size ops (e.masm i)
      { s with places := update s.places (.memory b d) v } := by
  refine ⟨Simulates.masm ?_, h.separated, h.cycle⟩
  rw [hi]
  show Sim p m₀ size ops ((e.machine p m₀).setCell ((e.machine p m₀).regs b + e.adjust b d) v) e _
  rw [h.sim.addr hb]
  exact h.sim.setCell h.separated hop h.cycle v

lemma Context.writeReg (h : Context p m₀ size ops e s) {r : Nat} (hr : r ≠ stackPointer)
    (hi : (e.machine p m₀).exec p i = (e.machine p m₀).setReg r v) :
    Context p m₀ size ops ((e.forget (.reg r)).masm i)
      { s with places := update s.places (.reg r) v } := by
  have hset := h.sim.setReg hr v
  have hmachine : (e.forget (.reg r)).machine p m₀ = e.machine p m₀ := by
    rw [forget_reg]
    rfl
  refine ⟨Simulates.masm ?_, h.separated, ?_⟩
  · rw [hmachine, hi]
    exact hset
  · rw [forget_reg]
    exact h.cycle

lemma forget_of_ne {r : Nat} (h : e.spilledReg ≠ some r) : e.forget (.reg r) = e := if_neg h

lemma Context.writeFloat (h : Context p m₀ size ops e s) {f : Nat}
    (hi : (e.machine p m₀).exec p i = (e.machine p m₀).write v (.floatReg f)) :
    Context p m₀ size ops (e.masm i)
      { s with places := update s.places (.floatReg f) v } := by
  refine ⟨Simulates.masm ?_, h.separated, h.cycle⟩
  rw [hi]
  exact h.sim.setFloat f v

lemma Context.writeScratch (h : Context p m₀ size ops e s)
    (hi : (e.machine p m₀).exec p i = (e.machine p m₀).write v (.floatReg p.scratchFloatReg)) :
    Context p m₀ size ops (e.masm i) s ∧
      ((e.masm i).machine p m₀).floatRegs p.scratchFloatReg = v := by
  refine ⟨⟨Simulates.masm ?_, h.separated, h.cycle⟩, ?_⟩
  · rw [hi]
    exact h.sim.setScratch v
  · rw [machine_masm, hi]
    exact update_self p.scratchFloatReg v (e.machine p m₀).floatRegs

lemma Context.writeTemp (h : Context p m₀ size ops e s) (hspilled : e.spilledReg = some temp)
    (hi : (e.machine p m₀).exec p i = (e.machine p m₀).setReg temp v) :
    Context p m₀ size ops (e.masm i) s ∧ ((e.masm i).machine p m₀).regs temp = v := by
  refine ⟨⟨Simulates.masm ?_, h.separated, h.cycle⟩, ?_⟩
  · rw [hi]
    exact h.sim.setTemp hspilled v
  · rw [machine_masm, hi]
    exact update_self temp v (e.machine p m₀).regs

/-- The value saved when a cycle is opened. -/
lemma Context.openCycle (h : Context p m₀ size ops e s) (hsize : size = 8)
    (hi : (e.machine p m₀).exec p i = (e.machine p m₀).write v e.cycleSlot) :
    Context p m₀ size ops { e.masm i with inCycle := true }
      { s with cycleSlot := v, inCycle := true } := by
  refine ⟨?_, h.separated, fun _ => hsize⟩
  have hopen := h.sim.openCycle h.separated hsize v
  have hexec : (e.machine p m₀).exec p i =
      (e.machine p m₀).setCell (m₀.regs stackPointer - 8) v := by
    rw [hi]
    show (e.machine p m₀).setCell ((e.machine p m₀).regs stackPointer + _) v = _
    rw [h.sim.cycleSlot_addr hsize]
  rw [← hexec, ← machine_masm] at hopen
  exact hopen.withCode _

lemma Context.closeCycle (h : Context p m₀ size ops e s) :
    Context p m₀ size ops { e with inCycle := false } { s with inCycle := false } :=
  ⟨h.sim.closeCycle, h.separated, fun hin => (by cases hin)⟩

lemma Context.read_cycleSlot (h : Context p m₀ size ops e s) (hin : e.inCycle = true) :
    (e.machine p m₀).read e.cycleSlot = s.cycleSlot := by
  show (e.machine p m₀).memory ((e.machine p m₀).regs stackPointer + _) = _
  rw [h.sim.cycleSlot_addr (h.cycle hin), h.sim.slot hin]

/-! ### Loads -/

/-- An operand with an address: a known cell, or an effective address. -/
def IsAddress (ops : List MoveOperand) (src : MoveOperand) (b : Nat) (d : Int) : Prop :=
  (src = .memory b d ∧ src ∈ ops) ∨ src = .effectiveAddress b d

/-- A load gives what the operand holds, if its address is right. -/
lemma Sim.load (h : Sim p m₀ size ops m e s) {src : MoveOperand} (hsrc : IsAddress ops src b d)
    (haddr : m.regs b + e.adjust b d = m₀.regs b + d) (r : Nat) :
    ∃ i, (∀ x, { e with spilledReg := x }.load src r = { e with spilledReg := x }.masm i) ∧
      m.exec p i = m.setReg r (s.places src) := by
  rcases hsrc with ⟨rfl, hop⟩ | rfl
  · refine ⟨.mov (e.toOperand (.memory b d)) (.reg r), fun _ => rfl, ?_⟩
    show m.setReg r (m.memory (m.regs b + e.adjust b d)) = _
    rw [haddr, h.cell b d hop]
  · refine ⟨.lea b (e.adjust b d) r, fun _ => rfl, ?_⟩
    show m.setReg r (m.regs b + e.adjust b d) = _
    rw [haddr, h.address]

/-! ### Moves -/

/-- The base of an address has not been written: it is the stack pointer, or a register whose
place is as it was. -/
def Kept (m₀ : Machine) (s : EmitterState Int) (b : Nat) : Prop :=
  b = stackPointer ∨ s.places (.reg b) = m₀.regs b

lemma Kept.ready (h : Kept m₀ s b) (hne : e.spilledReg ≠ some b) : Ready m₀ e s b := by
  rcases h with hsp | hplace
  · exact Or.inl hsp
  · exact Or.inr ⟨hne, hplace⟩

lemma Context.emitThroughTemp (h : Context p m₀ size ops e s) {src : MoveOperand} {b b' : Nat}
    {d d' : Int} (hsrc : IsAddress ops src b d) (hb : Kept m₀ s b) (hop : .memory b' d' ∈ ops)
    (hb' : Kept m₀ s b') (hne : b' ≠ temp) :
    Context p m₀ size ops (e.emitThroughTemp p b src (.memory b' d'))
      { s with places := update s.places (.memory b' d') (s.places src) } := by
  rcases h.tempReg with ⟨h₁, hspilled, _⟩
  -- the base has its value for the load, be it the temp itself
  have hbase : ∃ e₂, e₂ = (if b = temp then
        (e.tempReg p).masm (.mov (e.tempReg p).spillSlot (.reg temp)) else e.tempReg p) ∧
      Context p m₀ size ops e₂ s ∧ e₂.spilledReg = some temp ∧
      (e₂.machine p m₀).regs b + e₂.adjust b d = m₀.regs b + d := by
    rcases Decidable.em (b = temp) with rfl | hother
    · have hexec : ((e.tempReg p).machine p m₀).exec p
          (.mov (e.tempReg p).spillSlot (.reg temp)) =
          ((e.tempReg p).machine p m₀).setReg temp (s.places (.reg temp)) := by
        rw [← h₁.sim.read_spillSlot hspilled]
        rfl
      rcases h₁.writeTemp hspilled hexec with ⟨h₂, hvalue⟩
      refine ⟨_, (if_pos rfl).symm, h₂, hspilled, ?_⟩
      rcases hb with hsp | hplace
      · exact absurd hsp temp_ne_stackPointer
      · rw [hvalue, hplace, adjust, if_pos temp_ne_stackPointer]
    · refine ⟨_, (if_neg hother).symm, h₁, hspilled, ?_⟩
      refine h₁.sim.addr (hb.ready ?_) d
      rw [hspilled]
      exact fun heq => hother (some.inj heq).symm
  rcases hbase with ⟨e₂, he₂, h₂, hspilled₂, haddr⟩
  rcases h₂.sim.load hsrc haddr temp with ⟨i, hload, hexec⟩
  rcases h₂.writeTemp hspilled₂ hexec with ⟨h₃, hvalue⟩
  have hemit : e.emitThroughTemp p b src (.memory b' d') =
      (e₂.masm i).masm (.mov (.reg temp) ((e₂.masm i).toOperand (.memory b' d'))) := by
    have hload := hload e₂.spilledReg
    rw [MoveEmitter.emitThroughTemp, ← he₂]
    show (e₂.load src temp).masm (.mov _ ((e₂.load src temp).toOperand _)) = _
    rw [show e₂.load src temp = e₂.masm i from hload]
  rw [hemit]
  refine h₃.storeCell hop (hb'.ready ?_) ?_
  · show e₂.spilledReg ≠ some b'
    rw [hspilled₂]
    exact fun heq => hne (some.inj heq).symm
  · rw [← hvalue]
    rfl

/-- From a register to a register. -/
lemma Context.emitMove_reg_reg (h : Context p m₀ size ops e s) {c r : Nat}
    (hc : c ≠ stackPointer) (hr : r ≠ stackPointer) (hself : c = r → e.spilledReg ≠ some r) :
    Context p m₀ size ops (e.emitMove p (.reg c) (.reg r))
      { s with places := update s.places (.reg r) (s.places (.reg c)) } := by
  rcases Decidable.em (e.spilledReg = some r) with hspilled | hne
  · -- the destination is the spilled register, and is only written
    have hcr : c ≠ r := fun heq => hself heq hspilled
    have hclear : (e.forget (.reg r)).spilledReg = none := by
      rw [forget_reg]
      exact if_pos hspilled
    have hemit : e.emitMove p (.reg c) (.reg r) =
        (e.forget (.reg r)).masm (.mov (.reg c) (.reg r)) := by
      have hreload : (e.forget (.reg r)).reload c = e.forget (.reg r) := by
        rw [MoveEmitter.reload, hclear]
        rfl
      show ((e.forget (.reg r)).reload c).masm _ = _
      rw [hreload]
      rfl
    rw [hemit]
    refine h.writeReg hr ?_
    have hvalue := h.sim.reg c hc (fun heq => hcr (some.inj (heq.symm.trans hspilled)))
    rw [← hvalue]
    rfl
  · rcases h.reload c hc with ⟨h₁, _, hvalue, hkeep⟩
    have hwritten := h₁.writeReg (i := .mov (.reg c) (.reg r)) (v := s.places (.reg c)) hr (by
      rw [← hvalue]
      rfl)
    have hemit : e.emitMove p (.reg c) (.reg r) = (e.reload c).masm (.mov (.reg c) (.reg r)) := by
      show ((e.forget (.reg r)).reload c).masm _ = _
      rw [forget_of_ne hne]
      rfl
    rw [hemit]
    rwa [forget_of_ne (hkeep r hne)] at hwritten

/-- From a register to memory. -/
lemma Context.emitMove_reg_memory (h : Context p m₀ size ops e s) {c b : Nat}
    (hc : c ≠ stackPointer) (hop : .memory b d ∈ ops) (hb : Kept m₀ s b)
    (hspilled : e.spilledReg = some b → c = b) :
    Context p m₀ size ops (e.emitMove p (.reg c) (.memory b d))
      { s with places := update s.places (.memory b d) (s.places (.reg c)) } := by
  rcases h.reload c hc with ⟨h₁, hclear, hvalue, hkeep⟩
  have hready : (e.reload c).spilledReg ≠ some b := by
    rcases Decidable.em (e.spilledReg = some b) with hb | hb
    · rw [← hspilled hb]
      exact hclear
    · exact hkeep b hb
  have hstored := h₁.storeCell hop (hb.ready hready)
    (i := .mov (.reg c) ((e.reload c).toOperand (.memory b d))) (v := s.places (.reg c)) (by
      rw [← hvalue]
      rfl)
  exact hstored

/-- From an address to a register. -/
lemma Context.emitMove_address_reg (h : Context p m₀ size ops e s) {src : MoveOperand}
    {b r : Nat} (hsrc : IsAddress ops src b d) (hr : r ≠ stackPointer) (hb : Kept m₀ s b)
    (hspilled : e.spilledReg ≠ some b) :
    Context p m₀ size ops (e.emitMove p src (.reg r))
      { s with places := update s.places (.reg r) (s.places src) } := by
  rcases h.sim.load hsrc (h.sim.addr (hb.ready hspilled) d) r with ⟨i, hload, hexec⟩
  have hload := hload (if e.spilledReg = some r then none else e.spilledReg)
  rw [← forget_reg] at hload
  have hemit : e.emitMove p src (.reg r) = (e.forget (.reg r)).load src r := by
    rcases hsrc with ⟨rfl, _⟩ | rfl <;> rfl
  rw [hemit, hload]
  exact h.writeReg hr hexec

/-! ### Conditions -/

/-- No move has written the base of an address. -/
def BaseFree (written : List MoveOperand) (b : Nat) : Prop := b = stackPointer ∨ .reg b ∉ written

/-- The base of an address can be used. -/
def BaseReady (e : MoveEmitter) (written : List MoveOperand) (b : Nat) : Prop :=
  BaseFree written b ∧ e.spilledReg ≠ some b

/-- When `emitMove` does the move: a spilled register is reloaded where it is the source, or the
base of the source of a move between memory cells. -/
def EmitMoveOk (e : MoveEmitter) (written : List MoveOperand) : MoveOperand → MoveOperand → Prop
  | .reg c, .reg r => c = r → e.spilledReg ≠ some r
  | .reg c, .memory b _ => BaseFree written b ∧ (e.spilledReg = some b → c = b)
  | .memory b _, .reg _ | .effectiveAddress b _, .reg _ => BaseReady e written b
  | .memory b _, .memory b' _ | .effectiveAddress b _, .memory b' _ =>
    BaseFree written b ∧ BaseFree written b' ∧ b' ≠ temp
  | _, _ => True

/-- When `emitDoubleMove` does the move. -/
def EmitDoubleMoveOk (e : MoveEmitter) (written : List MoveOperand) :
    MoveOperand → MoveOperand → Prop
  | .floatReg _, .memory b _ | .memory b _, .floatReg _ => BaseReady e written b
  | .memory b _, .memory b' _ => BaseReady e written b ∧ BaseReady e written b'
  | _, _ => True

def EmitKindOk (e : MoveEmitter) (written : List MoveOperand) (m : Move) : Prop :=
  match m.kind with
  | .double => EmitDoubleMoveOk e written m.src m.dst
  | .general => EmitMoveOk e written m.src m.dst

/-- When `breakCycle` saves the destination: not if it is the spilled register. -/
def BreakCycleOk (e : MoveEmitter) (written : List MoveOperand) (kind : MoveKind) :
    MoveOperand → Prop
  | .memory b _ => BaseReady e written b
  | .reg r => kind = .general → e.spilledReg ≠ some r
  | _ => True

/-- When `completeCycle` writes the destination. -/
def CompleteCycleOk (e : MoveEmitter) (written : List MoveOperand) (kind : MoveKind) :
    MoveOperand → Prop
  | .memory b _ => BaseReady e written b ∧ (kind = .general → b ≠ temp)
  | .reg r => kind = .general → e.spilledReg ≠ some r
  | _ => True

/-- When `emit` does the move, after moves that have written `written`. -/
def StepOk (p : Platform) (e : MoveEmitter) (written : List MoveOperand) (m : Move) : Prop :=
  if m.inCycle then
    if e.inCycle then CompleteCycleOk e written m.kind m.dst
    else BreakCycleOk e written m.kind m.dst ∧
      EmitKindOk { e.breakCycle p m.dst m.kind with inCycle := true } written m
  else EmitKindOk e written m

/-- Every step of the emitter meets its condition. -/
def StepsOk (p : Platform) (e : MoveEmitter) (written : List MoveOperand) : List Move → Prop
  | [] => True
  | m :: ms => StepOk p e written m ∧ StepsOk p (e.emit p m) (m.dst :: written) ms

section decidable

variable (e : MoveEmitter) (written : List MoveOperand)

instance (b : Nat) : Decidable (BaseFree written b) :=
  inferInstanceAs (Decidable (_ ∨ _))

instance (b : Nat) : Decidable (BaseReady e written b) :=
  inferInstanceAs (Decidable (_ ∧ _))

instance : (src dst : MoveOperand) → Decidable (EmitMoveOk e written src dst)
  | .reg c, .reg r => inferInstanceAs (Decidable (c = r → e.spilledReg ≠ some r))
  | .reg c, .memory b _ =>
    inferInstanceAs (Decidable (BaseFree written b ∧ (e.spilledReg = some b → c = b)))
  | .memory b _, .reg _ | .effectiveAddress b _, .reg _ =>
    inferInstanceAs (Decidable (BaseReady e written b))
  | .memory b _, .memory b' _ | .effectiveAddress b _, .memory b' _ =>
    inferInstanceAs (Decidable (BaseFree written b ∧ BaseFree written b' ∧ b' ≠ temp))
  | .floatReg _, _ => isTrue trivial
  | .reg _, .floatReg _ | .memory _ _, .floatReg _ | .effectiveAddress _ _, .floatReg _ =>
    isTrue trivial
  | .reg _, .effectiveAddress _ _ | .memory _ _, .effectiveAddress _ _
  | .effectiveAddress _ _, .effectiveAddress _ _ => isTrue trivial

instance : (src dst : MoveOperand) → Decidable (EmitDoubleMoveOk e written src dst)
  | .floatReg _, .memory b _ | .memory b _, .floatReg _ =>
    inferInstanceAs (Decidable (BaseReady e written b))
  | .memory b _, .memory b' _ =>
    inferInstanceAs (Decidable (BaseReady e written b ∧ BaseReady e written b'))
  | .reg _, _ | .effectiveAddress _ _, _ => isTrue trivial
  | .floatReg _, .reg _ | .floatReg _, .floatReg _ | .floatReg _, .effectiveAddress _ _ =>
    isTrue trivial
  | .memory _ _, .reg _ | .memory _ _, .effectiveAddress _ _ => isTrue trivial

instance : (m : Move) → Decidable (EmitKindOk e written m)
  | ⟨src, dst, .double, _⟩ => inferInstanceAs (Decidable (EmitDoubleMoveOk e written src dst))
  | ⟨src, dst, .general, _⟩ => inferInstanceAs (Decidable (EmitMoveOk e written src dst))

instance (kind : MoveKind) : (dst : MoveOperand) → Decidable (BreakCycleOk e written kind dst)
  | .memory b _ => inferInstanceAs (Decidable (BaseReady e written b))
  | .reg r => inferInstanceAs (Decidable (kind = .general → e.spilledReg ≠ some r))
  | .floatReg _ | .effectiveAddress _ _ => isTrue trivial

instance (kind : MoveKind) :
    (dst : MoveOperand) → Decidable (CompleteCycleOk e written kind dst)
  | .memory b _ =>
    inferInstanceAs (Decidable (BaseReady e written b ∧ (kind = .general → b ≠ temp)))
  | .reg r => inferInstanceAs (Decidable (kind = .general → e.spilledReg ≠ some r))
  | .floatReg _ | .effectiveAddress _ _ => isTrue trivial

instance (p : Platform) (m : Move) : Decidable (StepOk p e written m) :=
  inferInstanceAs (Decidable (if m.inCycle then
    if e.inCycle then CompleteCycleOk e written m.kind m.dst
    else BreakCycleOk e written m.kind m.dst ∧
      EmitKindOk { e.breakCycle p m.dst m.kind with inCycle := true } written m
  else EmitKindOk e written m))

instance decidableStepsOk (p : Platform) :
    ∀ (ms : List Move) (e : MoveEmitter) (written : List MoveOperand),
      Decidable (StepsOk p e written ms)
  | [], _, _ => isTrue trivial
  | m :: ms, e, written =>
    have : Decidable (StepsOk p (e.emit p m) (m.dst :: written) ms) := decidableStepsOk p ms _ _
    inferInstanceAs (Decidable (_ ∧ _))

end decidable

/-- The operands that a move of a kind can have. -/
def SourceOk (p : Platform) : MoveKind → MoveOperand → Prop
  | .general, .reg c => c ≠ stackPointer
  | .general, .memory _ _ | .general, .effectiveAddress _ _ => True
  | .double, .floatReg f => f ≠ p.scratchFloatReg
  | .double, .memory _ _ => True
  | _, _ => False

def DestinationOk (p : Platform) (kind : MoveKind) (dst : MoveOperand) : Prop :=
  SourceOk p kind dst ∧ ∀ b d, dst ≠ .effectiveAddress b d

/-- The registers that no move has written are as they were. -/
def Untouched (m₀ : Machine) (s : EmitterState Int) (written : List MoveOperand) : Prop :=
  ∀ r, .reg r ∉ written → s.places (.reg r) = m₀.regs r

lemma BaseFree.kept {written : List MoveOperand} (h : BaseFree written b)
    (hw : Untouched m₀ s written) : Kept m₀ s b := by
  rcases h with hsp | hfree
  · exact Or.inl hsp
  · exact Or.inr (hw b hfree)

lemma BaseReady.ready {written : List MoveOperand} (h : BaseReady e written b)
    (hw : Untouched m₀ s written) : Ready m₀ e s b := (h.1.kept hw).ready h.2

lemma Context.emitMove (h : Context p m₀ size ops e s) {src dst : MoveOperand}
    {written : List MoveOperand} (hw : Untouched m₀ s written) (hsrc : SourceOk p .general src)
    (hdst : DestinationOk p .general dst) (hsrc' : src ∈ ops) (hdst' : dst ∈ ops)
    (hok : EmitMoveOk e written src dst) :
    Context p m₀ size ops (e.emitMove p src dst)
      { s with places := update s.places dst (s.places src) } := by
  cases dst with
  | floatReg f => cases hdst.1
  | effectiveAddress b d => exact absurd rfl (hdst.2 b d)
  | reg r =>
    cases src with
    | floatReg f => cases hsrc
    | reg c => exact h.emitMove_reg_reg hsrc hdst.1 hok
    | memory b d => exact h.emitMove_address_reg (Or.inl ⟨rfl, hsrc'⟩) hdst.1 (hok.1.kept hw) hok.2
    | effectiveAddress b d =>
      exact h.emitMove_address_reg (Or.inr rfl) hdst.1 (hok.1.kept hw) hok.2
  | memory b' d' =>
    cases src with
    | floatReg f => cases hsrc
    | reg c => exact h.emitMove_reg_memory hsrc hdst' (hok.1.kept hw) hok.2
    | memory b d =>
      exact h.emitThroughTemp (Or.inl ⟨rfl, hsrc'⟩) (hok.1.kept hw) hdst' (hok.2.1.kept hw) hok.2.2
    | effectiveAddress b d =>
      exact h.emitThroughTemp (Or.inr rfl) (hok.1.kept hw) hdst' (hok.2.1.kept hw) hok.2.2

lemma Context.emitDoubleMove (h : Context p m₀ size ops e s) {src dst : MoveOperand}
    {written : List MoveOperand} (hw : Untouched m₀ s written) (hsrc : SourceOk p .double src)
    (hdst : DestinationOk p .double dst) (hsrc' : src ∈ ops) (hdst' : dst ∈ ops)
    (hok : EmitDoubleMoveOk e written src dst) :
    Context p m₀ size ops (e.emitDoubleMove p src dst)
      { s with places := update s.places dst (s.places src) } := by
  cases dst with
  | reg r => cases hdst.1
  | effectiveAddress b d => exact absurd rfl (hdst.2 b d)
  | floatReg f =>
    cases src with
    | reg c => cases hsrc
    | effectiveAddress b d => cases hsrc
    | floatReg f' =>
      refine h.writeFloat ?_
      rw [← h.sim.float f' hsrc]
      rfl
    | memory b d =>
      refine h.writeFloat ?_
      rw [← h.sim.read_memory (hok.ready hw) hsrc']
      rfl
  | memory b' d' =>
    cases src with
    | reg c => cases hsrc
    | effectiveAddress b d => cases hsrc
    | floatReg f' =>
      refine h.storeCell hdst' (hok.ready hw) ?_
      rw [← h.sim.float f' hsrc]
      rfl
    | memory b d =>
      have hread := h.sim.read_memory (hok.1.ready hw) hsrc'
      rcases h.writeScratch (i := .movsd (e.toOperand (.memory b d)) (.floatReg p.scratchFloatReg))
        (v := s.places (.memory b d)) (by rw [← hread]; rfl) with ⟨h₁, hvalue⟩
      refine h₁.storeCell hdst' (hok.2.ready hw) ?_
      rw [← hvalue]
      rfl

lemma Context.emitKind (h : Context p m₀ size ops e s) {m : Move} {written : List MoveOperand}
    (hw : Untouched m₀ s written) (hsrc : SourceOk p m.kind m.src)
    (hdst : DestinationOk p m.kind m.dst) (hsrc' : m.src ∈ ops) (hdst' : m.dst ∈ ops)
    (hok : EmitKindOk e written m) : Context p m₀ size ops (e.emitKind p m) (s.emitMove m) := by
  rcases m with ⟨src, dst, kind, inCycle⟩
  cases kind with
  | general => exact h.emitMove hw hsrc hdst hsrc' hdst' hok
  | double => exact h.emitDoubleMove hw hsrc hdst hsrc' hdst' hok

lemma Context.breakCycle (h : Context p m₀ size ops e s) {dst : MoveOperand} {kind : MoveKind}
    {written : List MoveOperand} (hw : Untouched m₀ s written) (hdst : DestinationOk p kind dst)
    (hdst' : dst ∈ ops) (hsize : size = 8) (hok : BreakCycleOk e written kind dst) :
    Context p m₀ size ops { e.breakCycle p dst kind with inCycle := true }
      { s with cycleSlot := s.places dst, inCycle := true } := by
  cases kind with
  | double =>
    cases dst with
    | reg r => cases hdst.1
    | effectiveAddress b d => exact absurd rfl (hdst.2 b d)
    | floatReg f =>
      refine h.openCycle hsize ?_
      rw [← h.sim.float f hdst.1]
      rfl
    | memory b d =>
      have hread := h.sim.read_memory (hok.ready hw) hdst'
      rcases h.writeScratch (i := .movsd (e.toOperand (.memory b d)) (.floatReg p.scratchFloatReg))
        (v := s.places (.memory b d)) (by rw [← hread]; rfl) with ⟨h₁, hvalue⟩
      refine h₁.openCycle hsize ?_
      rw [← hvalue]
      rfl
  | general =>
    cases dst with
    | floatReg f => cases hdst.1
    | effectiveAddress b d => exact absurd rfl (hdst.2 b d)
    | reg r =>
      refine h.openCycle hsize ?_
      rw [← h.sim.reg r hdst.1 (hok rfl)]
      rfl
    | memory b d =>
      rcases h.tempReg with ⟨h₁, hspilled, hfresh⟩
      -- the temp is not yet overwritten if it is the base: it was not spilled before
      have haddr : ((e.tempReg p).machine p m₀).regs b + (e.tempReg p).adjust b d =
          m₀.regs b + d := by
        rcases Decidable.em (b = temp) with rfl | hne
        · have hnone : e.spilledReg = none := by
            cases hsome : e.spilledReg with
            | none => rfl
            | some r =>
              rw [h.sim.layout.reg r hsome] at hsome
              exact absurd hsome hok.2
          rw [hfresh hnone, adjust, if_pos temp_ne_stackPointer,
            h.sim.reg temp temp_ne_stackPointer hok.2]
          rcases hok.1.kept hw with hsp | hplace
          · exact absurd hsp temp_ne_stackPointer
          · rw [hplace]
        · refine h₁.sim.addr ((hok.1.kept hw).ready ?_) d
          rw [hspilled]
          exact fun heq => hne (some.inj heq).symm
      have hexec : ((e.tempReg p).machine p m₀).exec p
          (.mov ((e.tempReg p).toOperand (.memory b d)) (.reg temp)) =
          ((e.tempReg p).machine p m₀).setReg temp (s.places (.memory b d)) := by
        show ((e.tempReg p).machine p m₀).setReg temp (((e.tempReg p).machine p m₀).memory
          (((e.tempReg p).machine p m₀).regs b + (e.tempReg p).adjust b d)) = _
        rw [haddr, h₁.sim.cell b d hdst']
      rcases h₁.writeTemp hspilled hexec with ⟨h₂, hvalue⟩
      refine h₂.openCycle hsize ?_
      rw [← hvalue]
      rfl

lemma Context.completeCycle (h : Context p m₀ size ops e s) {dst : MoveOperand}
    {kind : MoveKind} {written : List MoveOperand} (hw : Untouched m₀ s written)
    (hdst : DestinationOk p kind dst) (hdst' : dst ∈ ops) (hin : e.inCycle = true)
    (hok : CompleteCycleOk e written kind dst) :
    Context p m₀ size ops (e.completeCycle p dst kind)
      { s with places := update s.places dst s.cycleSlot } := by
  cases kind with
  | double =>
    cases dst with
    | reg r => cases hdst.1
    | effectiveAddress b d => exact absurd rfl (hdst.2 b d)
    | floatReg f =>
      refine h.writeFloat ?_
      rw [← h.read_cycleSlot hin]
      rfl
    | memory b d =>
      rcases h.writeScratch (i := .movsd e.cycleSlot (.floatReg p.scratchFloatReg))
        (v := s.cycleSlot) (by rw [← h.read_cycleSlot hin]; rfl) with ⟨h₁, hvalue⟩
      refine h₁.storeCell hdst' (hok.1.ready hw) ?_
      rw [← hvalue]
      rfl
  | general =>
    cases dst with
    | floatReg f => cases hdst.1
    | effectiveAddress b d => exact absurd rfl (hdst.2 b d)
    | reg r =>
      have hwritten := h.writeReg (i := .mov e.cycleSlot (.reg r)) (v := s.cycleSlot) hdst.1 (by
        rw [← h.read_cycleSlot hin]
        rfl)
      rwa [forget_of_ne (hok rfl)] at hwritten
    | memory b d =>
      rcases h.tempReg with ⟨h₁, hspilled, _⟩
      have hin₁ : (e.tempReg p).inCycle = true := by
        rw [h₁.sim.inCycle, ← h.sim.inCycle, hin]
      have hread := h₁.read_cycleSlot hin₁
      rcases h₁.writeTemp hspilled (i := .mov (e.tempReg p).cycleSlot (.reg temp))
        (v := s.cycleSlot) (by rw [← hread]; rfl) with ⟨h₂, hvalue⟩
      refine h₂.storeCell hdst' ((hok.1.1.kept hw).ready ?_) ?_
      · show (e.tempReg p).spilledReg ≠ some b
        rw [hspilled]
        exact fun heq => hok.2 rfl (some.inj heq).symm
      · rw [← hvalue]
        rfl

/-! ## Steps and runs -/

lemma emit_places (s : EmitterState Int) (m : Move) :
    ∃ v, (s.emit m).places = update s.places m.dst v := by
  rw [EmitterState.emit]
  rcases Decidable.em (m.inCycle = true) with hmark | hmark
  · rw [if_pos hmark]
    rcases Decidable.em (s.inCycle = true) with hin | hin
    · rw [if_pos hin]
      exact ⟨_, rfl⟩
    · rw [if_neg hin]
      exact ⟨_, rfl⟩
  · rw [if_neg hmark]
    exact ⟨_, rfl⟩

lemma Untouched.emit {written : List MoveOperand} (h : Untouched m₀ s written) (m : Move) :
    Untouched m₀ (s.emit m) (m.dst :: written) := by
  intro r hr
  rw [List.mem_cons, not_or] at hr
  rcases emit_places s m with ⟨v, hv⟩
  rw [hv, update_of_ne hr.1, h r hr.2]

/-- A move whose operands are right for its kind, and known. -/
structure MoveOk (p : Platform) (ops : List MoveOperand) (m : Move) : Prop where
  src : SourceOk p m.kind m.src
  dst : DestinationOk p m.kind m.dst
  src_mem : m.src ∈ ops
  dst_mem : m.dst ∈ ops

/-- One step of the emitter. -/
lemma Context.emit (h : Context p m₀ size ops e s) {m : Move} {written : List MoveOperand}
    (hw : Untouched m₀ s written) (hm : MoveOk p ops m) (hsize : m.inCycle = true → size = 8)
    (hok : StepOk p e written m) : Context p m₀ size ops (e.emit p m) (s.emit m) := by
  have hin := h.sim.inCycle
  rw [StepOk] at hok
  rw [MoveEmitter.emit, EmitterState.emit]
  rcases Decidable.em (m.inCycle = true) with hmark | hmark
  · rw [if_pos hmark] at hok ⊢
    rw [if_pos hmark, ← hin]
    rcases Decidable.em (e.inCycle = true) with hopen | hclosed
    · rw [if_pos hopen] at hok ⊢
      rw [if_pos hopen]
      exact (h.completeCycle hw hm.dst hm.dst_mem hopen hok).closeCycle
    · rw [if_neg hclosed] at hok ⊢
      rw [if_neg hclosed]
      have hbroken := h.breakCycle hw hm.dst hm.dst_mem (hsize hmark) hok.1
      exact hbroken.emitKind hw hm.src hm.dst hm.src_mem hm.dst_mem hok.2
  · rw [if_neg hmark] at hok ⊢
    rw [if_neg hmark]
    exact h.emitKind hw hm.src hm.dst hm.src_mem hm.dst_mem hok

/-- A run whose steps meet their conditions. -/
lemma Context.emitAll {ms : List Move} (h : Context p m₀ size ops e s)
    {written : List MoveOperand} (hw : Untouched m₀ s written) (hms : ∀ m ∈ ms, MoveOk p ops m)
    (hsize : ∀ m ∈ ms, m.inCycle = true → size = 8) (hok : StepsOk p e written ms) :
    Context p m₀ size ops (ms.foldl (MoveEmitter.emit p) e) (s.emitAll ms) := by
  induction ms generalizing e s written with
  | nil => exact h
  | cons m ms ih =>
    have hstep := h.emit hw (hms m List.mem_cons_self) (hsize m List.mem_cons_self) hok.1
    exact ih hstep (hw.emit m) (fun m' hm' => hms m' (List.mem_cons_of_mem m hm'))
      (fun m' hm' => hsize m' (List.mem_cons_of_mem m hm')) hok.2

lemma Separated.mono {size' : Int} (h : Separated p m₀ size ops) (hle : size' ≤ size) :
    Separated p m₀ size' ops := by
  refine ⟨h.distinct, ?_⟩
  intro b d hop hreserved
  refine h.outside b d hop ⟨?_, hreserved.2⟩
  have hlow := hreserved.1
  omega

/-- The places before the moves. -/
def initialPlaces (m₀ : Machine) : EmitterState Int := ⟨m₀.value, 0, false⟩

/-- The bytes reserved for the cycle slot. -/
def cycleSize (hasCycles : Bool) : Int := if hasCycles then 8 else 0

lemma context_start {framePushed : Int} (hframe : 0 ≤ framePushed) (hasCycles : Bool)
    (hsep : Separated p m₀ 8 ops) :
    Context p m₀ (cycleSize hasCycles) ops ((new framePushed).reserveCycleSlot hasCycles)
      (initialPlaces m₀) := by
  cases hasCycles with
  | false =>
    refine ⟨⟨?_, ?_, fun r _ _ => rfl, fun hnone => (by cases hnone), fun f _ => rfl,
      fun b d _ => rfl, fun a _ _ => rfl, fun hin => (by cases hin), rfl, fun b d => rfl⟩,
      hsep.mono (by decide), fun hin => (by cases hin)⟩
    · refine ⟨Or.inl rfl, hframe, fun h => (by cases h), Or.inl ⟨rfl, rfl, ?_⟩,
        fun r hr => (by cases hr)⟩
      exact (Int.add_zero framePushed).symm
    · show m₀.regs stackPointer = m₀.regs stackPointer - (framePushed - framePushed)
      omega
  | true =>
    refine ⟨⟨?_, ?_, ?_, fun hnone => (by cases hnone), fun f _ => rfl,
      fun b d _ => rfl, fun a _ _ => rfl, fun hin => (by cases hin), rfl, fun b d => rfl⟩,
      hsep, fun hin => (by cases hin)⟩
    · exact ⟨Or.inr rfl, hframe, fun _ => rfl, Or.inl ⟨rfl, rfl, rfl⟩, fun r hr => (by cases hr)⟩
    · show update m₀.regs stackPointer (m₀.regs stackPointer - 8) stackPointer =
        m₀.regs stackPointer - (framePushed + 8 - framePushed)
      rw [update_self]
      omega
    · intro r hr _
      exact update_of_ne hr _ _

/-- What `finish` leaves: every register has its place's value, and the stack pointer its own. -/
lemma Context.finish (h : Context p m₀ size ops e s) :
    (∀ r, r ≠ stackPointer → (e.finish.machine p m₀).regs r = s.places (.reg r)) ∧
      (e.finish.machine p m₀).regs stackPointer = m₀.regs stackPointer ∧
      (e.finish.machine p m₀).floatRegs = (e.machine p m₀).floatRegs ∧
      (e.finish.machine p m₀).memory = (e.machine p m₀).memory := by
  have hreload : ∃ e' : MoveEmitter, e.finish = e'.freeStack (e'.framePushed - e'.pushedAtStart) ∧
      e'.framePushed = e.framePushed ∧ e'.pushedAtStart = e.pushedAtStart ∧
      (∀ r, r ≠ stackPointer → (e'.machine p m₀).regs r = s.places (.reg r)) ∧
      (e'.machine p m₀).regs stackPointer = (e.machine p m₀).regs stackPointer ∧
      (e'.machine p m₀).floatRegs = (e.machine p m₀).floatRegs ∧
      (e'.machine p m₀).memory = (e.machine p m₀).memory := by
    cases hspilled : e.spilledReg with
    | none =>
      refine ⟨e, ?_, rfl, rfl, ?_, rfl, rfl, rfl⟩
      · rw [MoveEmitter.finish, hspilled]
      · intro r hr
        refine h.sim.reg r hr ?_
        rw [hspilled]
        exact fun heq => by cases heq
    | some r₀ =>
      have htemp := h.sim.layout.reg r₀ hspilled
      subst htemp
      have hspill : e.pushedAtSpill ≠ -1 := by
        rcases h.sim.layout.spill with ⟨_, hnone, _⟩ | ⟨hat, _⟩
        · rw [hspilled] at hnone
          cases hnone
        · have hstart := h.sim.layout.start
          rcases h.sim.layout.reserved with hsize | hsize <;> omega
      have hmachine : (e.masm (.mov e.spillSlot (.reg temp))).machine p m₀ =
          (e.machine p m₀).setReg temp (s.places (.reg temp)) := by
        rw [machine_masm, ← h.sim.read_spillSlot hspilled]
        rfl
      refine ⟨e.masm (.mov e.spillSlot (.reg temp)), ?_, rfl, rfl, ?_, ?_, ?_, ?_⟩
      · simp only [MoveEmitter.finish, hspilled, ne_eq, hspill, not_false_eq_true, if_true]
      · intro r hr
        rw [hmachine]
        show update (e.machine p m₀).regs temp (s.places (.reg temp)) r = _
        rcases Decidable.em (r = temp) with rfl | hne
        · rw [update_self]
        · rw [update_of_ne hne]
          refine h.sim.reg r hr ?_
          rw [hspilled]
          exact fun heq => hne (some.inj heq).symm
      · rw [hmachine]
        exact update_of_ne temp_ne_stackPointer.symm (s.places (.reg temp))
          (e.machine p m₀).regs
      · rw [hmachine]
        rfl
      · rw [hmachine]
        rfl
  rcases hreload with ⟨e', hfinish, hframe, hstart, hregs, hsp, hfloat, hmemory⟩
  have hmachine : e.finish.machine p m₀ =
      (e'.machine p m₀).exec p (.freeStack (e.framePushed - e.pushedAtStart)) := by
    rw [hfinish, hframe, hstart]
    exact machine_masm e' p m₀ _
  rw [hmachine]
  refine ⟨?_, ?_, hfloat, hmemory⟩
  · intro r hr
    rw [← hregs r hr]
    exact update_of_ne hr _ _
  · have hexec : ((e'.machine p m₀).exec p
        (.freeStack (e.framePushed - e.pushedAtStart))).regs stackPointer =
        (e'.machine p m₀).regs stackPointer + (e.framePushed - e.pushedAtStart) :=
      update_self stackPointer _ (e'.machine p m₀).regs
    rw [hexec, hsp, h.sim.sp]
    omega

/-! ## The moves of a group -/

/-- The operands of a group of moves. -/
def operands (moves : List (MoveOperand × MoveOperand × MoveKind)) : List MoveOperand :=
  moves.flatMap fun m => [m.1, m.2.1]

/-- What a place named by an operand holds; the addresses are those before the moves. -/
def Machine.place (m₀ m : Machine) : MoveOperand → Int
  | .reg code => m.regs code
  | .floatReg code => m.floatRegs code
  | .memory base disp | .effectiveAddress base disp => m.memory (m₀.regs base + disp)

/-- The moves have all been done at once, and nothing else has been: registers and memory
outside the stack below the stack pointer are as they were. -/
structure Assigned (p : Platform) (m₀ m : Machine)
    (moves : List (MoveOperand × MoveOperand × MoveKind)) : Prop where
  delivered : ∀ mv ∈ moves, m₀.place m mv.2.1 = m₀.value mv.1
  reg : ∀ r, .reg r ∉ moves.map (fun mv => mv.2.1) → m.regs r = m₀.regs r
  float : ∀ f, f ≠ p.scratchFloatReg → .floatReg f ∉ moves.map (fun mv => mv.2.1) →
    m.floatRegs f = m₀.floatRegs f
  memory : ∀ a, ¬ Reserved p m₀ 8 a →
    (∀ b d, .memory b d ∈ moves.map (fun mv => mv.2.1) → m₀.regs b + d ≠ a) →
    m.memory a = m₀.memory a

/-- The emitter when it gets the moves. -/
def emitterAt (framePushed : Int) (moves : ResolvedMoves) : MoveEmitter :=
  (new framePushed).reserveCycleSlot moves.hasCycles

/-- **The emitted code carries out the moves at once**, if every step of the emitter meets its
condition. -/
theorem moveCode_assigned (p : Platform) {framePushed : Int} (hframe : 0 ≤ framePushed)
    (moves : List (MoveOperand × MoveOperand × MoveKind))
    (hdst : (moves.map fun mv => mv.2.1).Nodup)
    (hmoves : ∀ mv ∈ moves, SourceOk p mv.2.2 mv.1 ∧ DestinationOk p mv.2.2 mv.2.1)
    (m₀ : Machine) (hsep : Separated p m₀ 8 (operands moves))
    (hok : StepsOk p (emitterAt framePushed (resolve (addMoves moves))) []
      (resolve (addMoves moves)).orderedMoves) :
    Assigned p m₀ (m₀.run p (moveCode p framePushed moves)) moves := by
  have hmem : ∀ mv ∈ moves, mv.1 ∈ operands moves ∧ mv.2.1 ∈ operands moves := by
    intro mv hmv
    constructor
    · exact List.mem_flatMap.2 ⟨mv, hmv, List.mem_cons_self⟩
    · exact List.mem_flatMap.2 ⟨mv, hmv, List.mem_cons_of_mem _ List.mem_cons_self⟩
  have hmove : ∀ m ∈ (resolve (addMoves moves)).orderedMoves, MoveOk p (operands moves) m := by
    intro m hm
    have hadded := resolve_mem moves hdst hm
    rcases hmoves _ hadded with ⟨hsrc, hdst⟩
    rcases hmem _ hadded with ⟨hsrc', hdst'⟩
    exact ⟨hsrc, hdst, hsrc', hdst'⟩
  have hsize : ∀ m ∈ (resolve (addMoves moves)).orderedMoves, m.inCycle = true →
      cycleSize (resolve (addMoves moves)).hasCycles = 8 := by
    intro m hm hmark
    rw [resolve_hasCycles moves m hm hmark]
    rfl
  have hstart := context_start hframe (resolve (addMoves moves)).hasCycles hsep
  have hrun := hstart.emitAll (fun r _ => rfl) hmove hsize hok
  rcases emitAll_delivers moves hdst (initialPlaces m₀) rfl with ⟨_, hdelivered, hothers⟩
  rcases hrun.finish with ⟨hregs, hsp, hfloat, hmemory⟩
  -- a destination is a place of its kind
  have hplace : ∀ mv ∈ moves, m₀.place (m₀.run p (moveCode p framePushed moves)) mv.2.1 =
      ((initialPlaces m₀).emitAll (resolve (addMoves moves)).orderedMoves).places mv.2.1 := by
    intro mv hmv
    have hop := (hmem mv hmv).2
    have hdst := (hmoves mv hmv).2
    rcases mv with ⟨src, dst, kind⟩
    cases dst with
    | reg r =>
      cases kind with
      | general => exact hregs r hdst.1
      | double => cases hdst.1
    | floatReg f =>
      cases kind with
      | general => cases hdst.1
      | double => exact (congrFun hfloat f).trans (hrun.sim.float f hdst.1)
    | memory b d => exact (congrFun hmemory _).trans (hrun.sim.cell b d hop)
    | effectiveAddress b d => exact absurd rfl (hdst.2 b d)
  refine ⟨?_, ?_, ?_, ?_⟩
  · intro mv hmv
    rw [hplace mv hmv]
    exact hdelivered mv hmv
  · intro r hr
    rcases Decidable.em (r = stackPointer) with rfl | hne
    · exact hsp
    · exact (hregs r hne).trans (hothers (.reg r) hr)
  · intro f hf hnone
    exact (congrFun hfloat f).trans ((hrun.sim.float f hf).trans (hothers (.floatReg f) hnone))
  · intro a ha hnone
    refine (congrFun hmemory a).trans ?_
    by_cases hop : ∃ b d, MoveOperand.memory b d ∈ operands moves ∧ m₀.regs b + d = a
    · -- the cell of a source that is no destination
      rcases hop with ⟨b, d, hop, rfl⟩
      refine (hrun.sim.cell b d hop).trans (hothers (.memory b d) ?_)
      intro hdest
      exact hnone b d hdest rfl
    · refine hrun.sim.other a ?_ ?_
      · intro hreserved
        refine ha ⟨?_, hreserved.2⟩
        have hlow := hreserved.1
        have hle : cycleSize (resolve (addMoves moves)).hasCycles ≤ 8 := by
          cases (resolve (addMoves moves)).hasCycles <;> decide
        omega
      · intro b d hmem heq
        exact hop ⟨b, d, hmem, heq⟩

/-- A move between stack cells, a copy of the temp and a cycle. -/
def sampleMoves : List (MoveOperand × MoveOperand × MoveKind) :=
  [(.reg 0, .reg 1, .general), (.reg 1, .reg 0, .general), (.reg 2, .reg 3, .general),
    (.memory 4 0, .memory 4 8, .general)]

/-- A cycle through the temp, and a move between stack cells. -/
def tempCycleMoves : List (MoveOperand × MoveOperand × MoveKind) :=
  [(.reg 0, .reg 2, .general), (.reg 2, .reg 0, .general), (.memory 4 0, .memory 4 8, .general)]

/-- Every register and cell holds something else; the stack pointer is 1000. -/
def sampleMachine : Machine :=
  ⟨fun r => if r = stackPointer then 1000 else 10 * r + 5, fun f => 100 + f, fun a => 5000 + a⟩

/-- The cells of both groups. -/
lemma sampleMachine_separated {ops : List MoveOperand}
    (hops : ∀ b d, .memory b d ∈ ops → b = 4 ∧ (d = 0 ∨ d = 8)) :
    Separated .x86 sampleMachine 8 ops := by
  have hsp : sampleMachine.regs stackPointer = 1000 := rfl
  have hbase : sampleMachine.regs 4 = 1000 := rfl
  constructor
  · intro b d b' d' h h' heq
    rcases hops b d h with ⟨rfl, _⟩
    rcases hops b' d' h' with ⟨rfl, _⟩
    exact ⟨rfl, by omega⟩
  · intro b d h hreserved
    rcases hops b d h with ⟨rfl, hd⟩
    have hlt := hreserved.2
    omega

theorem moveCode_assigned_sample : Assigned .x86 sampleMachine
    (sampleMachine.run .x86 (moveCode .x86 0 sampleMoves)) sampleMoves := by
  refine moveCode_assigned .x86 (by decide) sampleMoves (by decide) ?_ sampleMachine ?_ ?_
  · simp [sampleMoves, SourceOk, DestinationOk, stackPointer]
  · apply sampleMachine_separated
    intro b d h
    simp [sampleMoves, operands] at h
    omega
  · decide +kernel

/-- The cycle is broken at the temp when it is spilled: what is saved is not its value, and
register 0 gets the moved cell instead. -/
theorem moveCode_tempCycle :
    Separated .x86 sampleMachine 8 (operands tempCycleMoves) ∧
      (tempCycleMoves.map fun mv => mv.2.1).Nodup ∧
      (∀ mv ∈ tempCycleMoves, SourceOk .x86 mv.2.2 mv.1 ∧ DestinationOk .x86 mv.2.2 mv.2.1) ∧
      ¬ Assigned .x86 sampleMachine
        (sampleMachine.run .x86 (moveCode .x86 0 tempCycleMoves)) tempCycleMoves := by
  refine ⟨?_, by decide, ?_, ?_⟩
  · apply sampleMachine_separated
    intro b d h
    simp [tempCycleMoves, operands] at h
    omega
  · simp [tempCycleMoves, SourceOk, DestinationOk, stackPointer]
  · intro h
    have hzero : (sampleMachine.run .x86 (moveCode .x86 0 tempCycleMoves)).regs 0 = 25 :=
      h.delivered (.reg 2, .reg 0, .general) (by decide)
    have hcell : (sampleMachine.run .x86 (moveCode .x86 0 tempCycleMoves)).regs 0 = 6000 := by
      decide +kernel
    omega

end SpiderMonkey.Ion.X86
