import SpiderMonkey.Ion.Safepoints

/-! # What the loops of `populateSafepoints` add

The entries of a safepoint after the loops, which keep a cursor and stop early: one for each
register that gets to the safepoint.
-/

namespace SpiderMonkey.Ion.LinearScan

open SpiderMonkey.Lib List

/-! ## Intervals -/

lemma AllocatedInterval.start_le {i : AllocatedInterval} {pos : Nat}
    (h : Covers i.ranges pos) : i.start ≤ pos := by
  rcases i with ⟨ranges, hne, hordered, alloc⟩
  cases ranges with
  | nil => exact absurd rfl hne
  | cons r rs => exact hordered.head_le h

lemma AllocatedInterval.lt_endPos {i : AllocatedInterval} {pos : Nat}
    (h : Covers i.ranges pos) : pos < i.endPos :=
  i.ordered.lt_getLast i.nonempty h

lemma AllocatedInterval.covers_iff (i : AllocatedInterval) (pos : Nat) :
    i.covers pos = true ↔ Covers i.ranges pos := by
  rw [AllocatedInterval.covers]
  split_ifs with hout
  · constructor
    · intro hfalse
      cases hfalse
    · intro h
      have hstart := AllocatedInterval.start_le h
      have hend := AllocatedInterval.lt_endPos h
      omega
  · exact coversFrom_iff i.ordered pos

namespace VirtualRegister

/-- The register is live at a position: one of its intervals covers it. -/
def Live (r : VirtualRegister) (pos : Nat) : Prop :=
  ∃ i ∈ r.intervals, Covers i.ranges pos

instance (r : VirtualRegister) (pos : Nat) : Decidable (r.Live pos) :=
  inferInstanceAs (Decidable (∃ i ∈ r.intervals, Covers i.ranges pos))

lemma intervalIn_eq_some {is : List AllocatedInterval}
    (h : is.Pairwise fun i j => i.endPos ≤ j.start) {pos : Nat} {i : AllocatedInterval} :
    intervalIn is pos = some i ↔ i ∈ is ∧ Covers i.ranges pos := by
  induction is with
  | nil => simp [intervalIn]
  | cons j js ih =>
    rw [pairwise_cons] at h
    rw [intervalIn]
    split_ifs with hcovers hbefore
    · rw [AllocatedInterval.covers_iff] at hcovers
      constructor
      · intro heq
        cases heq
        exact ⟨mem_cons_self, hcovers⟩
      · rintro ⟨hmem, hi⟩
        rcases mem_cons.1 hmem with rfl | hmem
        · rfl
        · -- the later intervals start after the position
          have hle := h.1 i hmem
          have hstart := AllocatedInterval.start_le hi
          have hend := AllocatedInterval.lt_endPos hcovers
          omega
    · constructor
      · intro hnone
        cases hnone
      · rintro ⟨hmem, hi⟩
        rcases mem_cons.1 hmem with rfl | hmem
        · exact absurd ((AllocatedInterval.covers_iff i pos).2 hi) hcovers
        · have hle := h.1 i hmem
          have hstart := AllocatedInterval.start_le hi
          omega
    · rw [ih h.2]
      constructor
      · rintro ⟨hmem, hi⟩
        exact ⟨mem_cons_of_mem j hmem, hi⟩
      · rintro ⟨hmem, hi⟩
        rcases mem_cons.1 hmem with rfl | hmem
        · exact absurd ((AllocatedInterval.covers_iff i pos).2 hi) hcovers
        · exact ⟨hmem, hi⟩

lemma intervalFor_eq_some {r : VirtualRegister} {pos : Nat} {i : AllocatedInterval} :
    r.intervalFor pos = some i ↔ i ∈ r.intervals ∧ Covers i.ranges pos :=
  intervalIn_eq_some r.ordered

lemma live_iff {r : VirtualRegister} {pos : Nat} :
    r.Live pos ↔ ∃ i, r.intervalFor pos = some i := by
  constructor
  · rintro ⟨i, hmem, hi⟩
    exact ⟨i, intervalFor_eq_some.2 ⟨hmem, hi⟩⟩
  · rintro ⟨i, hi⟩
    exact ⟨i, intervalFor_eq_some.1 hi⟩

/-- The interval at a position is the only one. -/
lemma interval_unique {r : VirtualRegister} {pos : Nat} {i j : AllocatedInterval}
    (hi : i ∈ r.intervals) (hcovers : Covers i.ranges pos) (hj : r.intervalFor pos = some j) :
    i = j := by
  have heq := intervalFor_eq_some.2 ⟨hi, hcovers⟩
  rw [hj] at heq
  exact (Option.some.inj heq).symm

/-- The locations that hold the value at a position and that later code may read: where the
interval of the position is, and the spill slot, if it was filled at the definition. A slot that
was not is filled anew by the move into the interval that is read from it. -/
inductive Holds (r : VirtualRegister) (pos : Nat) : LAllocation → Prop where
  | interval {i} : i ∈ r.intervals → Covers i.ranges pos → Holds r pos i.alloc
  | spilled {c} : r.Live pos → r.spillAtDefinition = true → r.canonicalSpill = some c →
      Holds r pos c.alloc

/-- The location has been written by the time the position is reached: at the definition, or at
the start of the interval that is there. -/
inductive Written (r : VirtualRegister) (pos : Nat) : LAllocation → Prop where
  | interval {i} : i ∈ r.intervals → Covers i.ranges pos → Written r pos i.alloc
  | spilled {c} : r.spillAtDefinition = true → r.canonicalSpill = some c →
      r.spillPosition ≤ pos → Written r pos c.alloc

lemma Holds.live {r : VirtualRegister} {pos : Nat} {loc : LAllocation}
    (h : r.Holds pos loc) : r.Live pos := by
  cases h with
  | interval hmem hcovers => exact ⟨_, hmem, hcovers⟩
  | spilled hlive _ _ => exact hlive

end VirtualRegister

/-! ## What is recorded -/

/-- A record of a safepoint. -/
inductive SafepointEntry where
  | gcReg (code : Nat)
  | gcSlot (slot : Nat)
  | valueSlot (slot : Nat)
  | nunboxParts (type payload : LAllocation)

open SafepointEntry

def LSafepoint.Has (sp : LSafepoint) : SafepointEntry → Prop
  | .gcReg code => code ∈ sp.gcRegs
  | .gcSlot slot => slot ∈ sp.gcSlots
  | .valueSlot slot => slot ∈ sp.valueSlots
  | .nunboxParts type payload => (type, payload) ∈ sp.nunboxParts

namespace LSafepoint

lemma has_empty (e : SafepointEntry) : ¬ LSafepoint.empty.Has e := by
  cases e <;> exact not_mem_nil

lemma has_addGcRegister (sp : LSafepoint) (code : Nat) (e : SafepointEntry) :
    (sp.addGcRegister code).Has e ↔ sp.Has e ∨ e = .gcReg code := by
  cases e <;> simp [Has, addGcRegister]

lemma has_addGcSlot (sp : LSafepoint) (slot : Nat) (e : SafepointEntry) :
    (sp.addGcSlot slot).Has e ↔ sp.Has e ∨ e = .gcSlot slot := by
  cases e <;> simp [Has, addGcSlot]

lemma has_addValueSlot (sp : LSafepoint) (slot : Nat) (e : SafepointEntry) :
    (sp.addValueSlot slot).Has e ↔ sp.Has e ∨ e = .valueSlot slot := by
  cases e <;> simp [Has, addValueSlot]

lemma has_addNunboxParts (sp : LSafepoint) (type payload : LAllocation) (e : SafepointEntry) :
    (sp.addNunboxParts type payload).Has e ↔ sp.Has e ∨ e = .nunboxParts type payload := by
  cases e <;> simp [Has, addNunboxParts]

end LSafepoint

/-- What `recordTraceable` adds. -/
inductive TraceableAdds (r : VirtualRegister) (ins : LInstruction) : SafepointEntry → Prop where
  | gcReg {i code} : r.intervalFor (inputOf ins.id) = some i → i.alloc = .gpr code →
      ins.isCall = false → TraceableAdds r ins (.gcReg code)
  | gcSlot {i} : r.intervalFor (inputOf ins.id) = some i → r.isSpilledAt i = true →
      TraceableAdds r ins (.gcSlot r.canonicalSpillSlot)

/-- What `recordNunbox` adds. -/
inductive NunboxAdds (t p : VirtualRegister) (ins : LInstruction) : SafepointEntry → Prop where
  | valueSlot {ti pi} : t.intervalFor (inputOf ins.id) = some ti →
      p.intervalFor (inputOf ins.id) = some pi → pi.alloc.isArgument = false →
      t.isSpilledAt ti = true → p.isSpilledAt pi = true →
      NunboxAdds t p ins (.valueSlot (baseOfNunboxSlot .payload p.canonicalSpillSlot))
  | parts {ti pi} : t.intervalFor (inputOf ins.id) = some ti →
      p.intervalFor (inputOf ins.id) = some pi → pi.alloc.isArgument = false →
      ins.isCall = false → (t.isSpilledAt ti = false ∨ pi.alloc.isGeneralReg = true) →
      NunboxAdds t p ins (.nunboxParts ti.alloc pi.alloc)

/-- `recordNunbox` reads an interval that is not there: one half is live alone, and it is not a
payload in an argument. -/
def NunboxFails (t p : VirtualRegister) (ins : LInstruction) : Prop :=
  (t.Live (inputOf ins.id) ∧ ¬ p.Live (inputOf ins.id)) ∨
    (¬ t.Live (inputOf ins.id) ∧
      ∃ pi, p.intervalFor (inputOf ins.id) = some pi ∧ pi.alloc.isArgument = false)

lemma recordTraceable_spec (r : VirtualRegister) (ins : LInstruction) (sp : LSafepoint) :
    ∃ sp', recordTraceable r ins sp = some sp' ∧
      ∀ e, sp'.Has e ↔ sp.Has e ∨ TraceableAdds r ins e := by
  rw [recordTraceable]
  cases hi : r.intervalFor (inputOf ins.id) with
  | none =>
    refine ⟨sp, rfl, fun e => ⟨Or.inl, ?_⟩⟩
    rintro (h | h)
    · exact h
    · cases h with
      | gcReg hi' _ _ => rw [hi] at hi'; cases hi'
      | gcSlot hi' _ => rw [hi] at hi'; cases hi'
  | some i =>
    refine ⟨_, rfl, ?_⟩
    -- the two additions, one after the other
    have hreg : ∀ e, (sp.addAllocation ins i.alloc).Has e ↔
        sp.Has e ∨ ∃ code, i.alloc = .gpr code ∧ ins.isCall = false ∧ e = .gcReg code := by
      intro e
      cases i.alloc with
      | gpr code =>
        rw [LSafepoint.addAllocation]
        cases hcall : ins.isCall with
        | true => simp
        | false => simp [LSafepoint.has_addGcRegister]
      | _ => simp [LSafepoint.addAllocation]
    have hslot : ∀ (sp : LSafepoint) e,
        (if r.isSpilledAt i then sp.addGcSlot r.canonicalSpillSlot else sp).Has e ↔
          sp.Has e ∨ (r.isSpilledAt i = true ∧ e = .gcSlot r.canonicalSpillSlot) := by
      intro sp e
      cases hspilled : r.isSpilledAt i with
      | true => simp [LSafepoint.has_addGcSlot]
      | false => simp
    intro e
    rw [hslot, hreg, or_assoc]
    apply or_congr_right
    constructor
    · rintro (⟨code, halloc, hcall, rfl⟩ | ⟨hspilled, rfl⟩)
      · exact TraceableAdds.gcReg hi halloc hcall
      · exact TraceableAdds.gcSlot hi hspilled
    · intro h
      cases h with
      | gcReg hi' halloc hcall =>
        rw [hi] at hi'
        cases hi'
        exact Or.inl ⟨_, halloc, hcall, rfl⟩
      | gcSlot hi' hspilled =>
        rw [hi] at hi'
        cases hi'
        exact Or.inr ⟨hspilled, rfl⟩

/-- `recordNunbox` with both halves live. -/
lemma recordNunbox_both {t p : VirtualRegister} {ins : LInstruction} {ti pi : AllocatedInterval}
    (ht : t.intervalFor (inputOf ins.id) = some ti) (hp : p.intervalFor (inputOf ins.id) = some pi)
    (sp : LSafepoint) :
    ∃ sp', recordNunbox t p ins sp = some sp' ∧
      ∀ e, sp'.Has e ↔ sp.Has e ∨ NunboxAdds t p ins e := by
  rw [recordNunbox, ht, hp]
  cases harg : pi.alloc.isArgument with
  | true =>
    simp only [harg, if_true]
    refine ⟨sp, rfl, fun e => ⟨Or.inl, ?_⟩⟩
    rintro (h | h)
    · exact h
    · cases h with
      | valueSlot ht' hp' harg' _ _ =>
        rw [hp] at hp'
        cases hp'
        rw [harg] at harg'
        cases harg'
      | parts ht' hp' harg' _ _ =>
        rw [hp] at hp'
        cases hp'
        rw [harg] at harg'
        cases harg'
  | false =>
    simp only [harg, Bool.false_eq_true, if_false]
    refine ⟨_, rfl, ?_⟩
    have hslot : ∀ (sp : LSafepoint) e,
        (if t.isSpilledAt ti && p.isSpilledAt pi then
          sp.addValueSlot (baseOfNunboxSlot .payload p.canonicalSpillSlot) else sp).Has e ↔
          sp.Has e ∨ (t.isSpilledAt ti = true ∧ p.isSpilledAt pi = true ∧
            e = .valueSlot (baseOfNunboxSlot .payload p.canonicalSpillSlot)) := by
      intro sp e
      split_ifs with hspilled
      · rw [LSafepoint.has_addValueSlot]
        rw [Bool.and_eq_true] at hspilled
        simp [hspilled]
      · rw [Bool.and_eq_true] at hspilled
        constructor
        · exact Or.inl
        · rintro (h | ⟨ht', hp', _⟩)
          · exact h
          · exact absurd ⟨ht', hp'⟩ hspilled
    have hparts : ∀ (sp : LSafepoint) e,
        (if !ins.isCall && (!t.isSpilledAt ti || pi.alloc.isGeneralReg) then
          sp.addNunboxParts ti.alloc pi.alloc else sp).Has e ↔
          sp.Has e ∨ (ins.isCall = false ∧
            (t.isSpilledAt ti = false ∨ pi.alloc.isGeneralReg = true) ∧
            e = .nunboxParts ti.alloc pi.alloc) := by
      intro sp e
      split_ifs with htorn
      · rw [LSafepoint.has_addNunboxParts]
        simp only [Bool.and_eq_true, Bool.or_eq_true, Bool.not_eq_true'] at htorn
        simp [htorn]
      · simp only [Bool.and_eq_true, Bool.or_eq_true, Bool.not_eq_true'] at htorn
        constructor
        · exact Or.inl
        · rintro (h | ⟨hcall, hor, _⟩)
          · exact h
          · exact absurd ⟨hcall, hor⟩ htorn
    intro e
    refine (hparts _ e).trans ?_
    rw [hslot, or_assoc]
    apply or_congr_right
    constructor
    · rintro (⟨htype, hpayload, rfl⟩ | ⟨hcall, hor, rfl⟩)
      · exact NunboxAdds.valueSlot ht hp harg htype hpayload
      · exact NunboxAdds.parts ht hp harg hcall hor
    · intro h
      cases h with
      | valueSlot ht' hp' _ htype hpayload =>
        rw [ht] at ht'
        rw [hp] at hp'
        cases ht'
        cases hp'
        exact Or.inl ⟨htype, hpayload, rfl⟩
      | parts ht' hp' _ hcall hor =>
        rw [ht] at ht'
        rw [hp] at hp'
        cases ht'
        cases hp'
        exact Or.inr ⟨hcall, hor, rfl⟩

lemma recordNunbox_spec (t p : VirtualRegister) (ins : LInstruction) (sp : LSafepoint) :
    (NunboxFails t p ins → recordNunbox t p ins sp = none) ∧
      (¬ NunboxFails t p ins → ∃ sp', recordNunbox t p ins sp = some sp' ∧
        ∀ e, sp'.Has e ↔ sp.Has e ∨ NunboxAdds t p ins e) := by
  have hnothing : t.intervalFor (inputOf ins.id) = none → ∀ e, ¬ NunboxAdds t p ins e := by
    intro hnone e h
    cases h with
    | valueSlot ht _ _ _ _ => rw [hnone] at ht; cases ht
    | parts ht _ _ _ _ => rw [hnone] at ht; cases ht
  have hsame : t.intervalFor (inputOf ins.id) = none →
      ∀ e, sp.Has e ↔ sp.Has e ∨ NunboxAdds t p ins e := by
    intro hnone e
    simp [hnothing hnone e]
  simp only [NunboxFails, VirtualRegister.live_iff]
  cases ht : t.intervalFor (inputOf ins.id) with
  | none =>
    cases hp : p.intervalFor (inputOf ins.id) with
    | none =>
      refine ⟨fun h => by simp at h, fun _ => ⟨sp, ?_, hsame ht⟩⟩
      rw [recordNunbox, ht, hp]
    | some pi =>
      cases harg : pi.alloc.isArgument with
      | true =>
        refine ⟨fun h => by simp [harg] at h, fun _ => ⟨sp, ?_, hsame ht⟩⟩
        simp [recordNunbox, ht, hp, harg]
      | false =>
        refine ⟨fun _ => ?_, fun h => by simp [harg] at h⟩
        simp [recordNunbox, ht, hp, harg]
  | some ti =>
    cases hp : p.intervalFor (inputOf ins.id) with
    | none =>
      refine ⟨fun _ => ?_, fun h => by simp at h⟩
      rw [recordNunbox, ht, hp]
    | some pi =>
      exact ⟨fun h => by simp at h, fun _ => recordNunbox_both ht hp sp⟩

/-! ## The loops -/

namespace AllocatedGraph

/-- The code fails where it records the register with a number. -/
def Fails (g : AllocatedGraph) (n : Nat) (r : VirtualRegister) (ins : LInstruction) : Prop :=
  r.type = .type ∧ ∃ p, g.vregs (n + 1) = some p ∧ NunboxFails r p ins

/-- What the code adds for the register with a number. -/
def Adds (g : AllocatedGraph) (n : Nat) (r : VirtualRegister) (ins : LInstruction)
    (e : SafepointEntry) : Prop :=
  if r.type = .type then ∃ p, g.vregs (n + 1) = some p ∧ NunboxAdds r p ins e
  else TraceableAdds r ins e

/-- The registers at which the loop stops: the traceable ones, and the first halves of values. -/
def IsRoot (g : AllocatedGraph) (n : Nat) (r : VirtualRegister) : Prop :=
  g.vregs n = some r ∧ (isTraceable r.type = true ∨ r.type = .type)

/-- The safepoint is not past the end of the register, and does not define it. -/
def InRange (r : VirtualRegister) (ins : LInstruction) : Prop :=
  inputOf ins.id ≤ r.endPos ∧ r.isOutputOf ins = false

/-- What lowering makes sure of: the safepoints in order, and the halves of a value numbered one
after the other and defined together; and register allocation: what an interval has in memory is
the register's spill slot or argument, more than one interval has it only if it is filled at the
definition, which comes before the safepoints at which the register is live, and the slots of the
halves of a value are next to each other. -/
structure WellFormed (g : AllocatedGraph) : Prop where
  number : ∀ {n r}, g.vregs n = some r → n < g.numVirtualRegisters
  sorted : g.safepoints.Pairwise fun a b => a.id < b.id
  halves : ∀ {n t}, g.vregs n = some t → t.type = .type → ∃ p, g.vregs (n + 1) = some p ∧
    p.type = .payload ∧ ∀ ins ∈ g.safepoints, t.isOutputOf ins = p.isOutputOf ins
  halves' : ∀ {n p}, g.vregs n = some p → p.type = .payload →
    ∃ m t, n = m + 1 ∧ g.vregs m = some t ∧ t.type = .type
  memory : ∀ {n r c}, g.vregs n = some r → r.canonicalSpill = some c → c.alloc.isMemory = true
  spills : ∀ {n r}, g.vregs n = some r → ∀ i ∈ r.intervals, i.alloc.isMemory = true →
    ∃ c, r.canonicalSpill = some c ∧ c.alloc = i.alloc ∧ (c = i ∨ r.spillAtDefinition = true)
  definition : ∀ {n r}, g.vregs n = some r → r.spillAtDefinition = true →
    ∀ ins ∈ g.safepoints, r.Live (inputOf ins.id) → r.isOutputOf ins = false →
      r.spillPosition ≤ inputOf ins.id
  adjacent : ∀ {n t p c d}, g.vregs n = some t → t.type = .type → g.vregs (n + 1) = some p →
    t.canonicalSpill = some c → p.canonicalSpill = some d → c.alloc.isStackSlot = true →
    d.alloc.isStackSlot = true → c.alloc.slot + 1 = d.alloc.slot

variable {g : AllocatedGraph}

lemma IsRoot.stops {n : Nat} {r : VirtualRegister} (h : g.IsRoot n r) :
    (isTraceable r.type || isNunbox r.type) = true := by
  rcases h.2 with htraceable | htype
  · simp [htraceable]
  · simp [isNunbox, htype]

lemma WellFormed.record_spec (wf : g.WellFormed) {n : Nat} {r : VirtualRegister}
    (h : g.IsRoot n r) (ins : LInstruction) (sp : LSafepoint) :
    (g.Fails n r ins → g.record n r ins sp = none) ∧
      (¬ g.Fails n r ins → ∃ sp', g.record n r ins sp = some sp' ∧
        ∀ e, sp'.Has e ↔ sp.Has e ∨ g.Adds n r ins e) := by
  by_cases htype : r.type = .type
  · rcases wf.halves h.1 htype with ⟨p, hp, _⟩
    have hrecord : g.record n r ins sp = recordNunbox r p ins sp := by
      simp [record, isNunbox, htype, otherHalfOfNunbox, hp]
    have hfails : g.Fails n r ins ↔ NunboxFails r p ins := by
      simp [Fails, htype, hp]
    have hadds : ∀ e, g.Adds n r ins e ↔ NunboxAdds r p ins e := by
      intro e
      simp [Adds, htype, hp]
    simp only [hrecord, hfails, hadds]
    exact recordNunbox_spec r p ins sp
  · have htraceable : isTraceable r.type = true := h.2.resolve_right htype
    have hnunbox : isNunbox r.type = false := by
      cases hr : r.type <;> simp_all [isTraceable, isNunbox]
    have hrecord : g.record n r ins sp = recordTraceable r ins sp := by
      simp [record, hnunbox]
    have hadds : ∀ e, g.Adds n r ins e ↔ TraceableAdds r ins e := by
      intro e
      simp [Adds, htype]
    simp only [hrecord, hadds]
    exact ⟨fun hfails => absurd hfails.1 htype, fun _ => recordTraceable_spec r ins sp⟩

/-- The loop over the safepoints stops at the first one past the end of the register; the later
ones are past it too. -/
lemma WellFormed.visitSafepoints_spec (wf : g.WellFormed) {n : Nat} {r : VirtualRegister}
    (h : g.IsRoot n r) {l : List LInstruction} (hl : l.Pairwise fun a b => a.id < b.id)
    (sps : Safepoints) :
    ((∃ ins ∈ l, InRange r ins ∧ g.Fails n r ins) → g.visitSafepoints n r l sps = none) ∧
      ((∀ ins ∈ l, InRange r ins → ¬ g.Fails n r ins) →
        ∃ sps', g.visitSafepoints n r l sps = some sps' ∧
          ∀ id e, (sps' id).Has e ↔
            (sps id).Has e ∨ ∃ ins ∈ l, ins.id = id ∧ InRange r ins ∧ g.Adds n r ins e) := by
  induction l generalizing sps with
  | nil =>
    constructor
    · rintro ⟨ins, hmem, _⟩
      cases hmem
    · intro _
      exact ⟨sps, rfl, fun id e => by simp⟩
  | cons ins rest ih =>
    rw [pairwise_cons] at hl
    rw [visitSafepoints]
    split_ifs with hend houtput
    · -- every safepoint left is past the end
      have hnone : ∀ ins' ∈ ins :: rest, ¬ InRange r ins' := by
        intro ins' hmem hin
        have hle : inputOf ins.id ≤ inputOf ins'.id := by
          rcases mem_cons.1 hmem with rfl | hmem
          · exact le_rfl
          · have hlt := hl.1 ins' hmem
            simp only [inputOf]
            omega
        have hin := hin.1
        omega
      constructor
      · rintro ⟨ins', hmem, hin, _⟩
        exact absurd hin (hnone ins' hmem)
      · intro _
        refine ⟨sps, rfl, fun id e => ⟨Or.inl, ?_⟩⟩
        rintro (h | ⟨ins', hmem, _, hin, _⟩)
        · exact h
        · exact absurd hin (hnone ins' hmem)
    · have hout : ¬ InRange r ins := by
        intro hin
        rw [hin.2] at houtput
        cases houtput
      simpa [hout] using ih hl.2 sps
    · have hin : InRange r ins := ⟨not_lt.1 hend, by simpa using houtput⟩
      rcases wf.record_spec h ins (sps ins.id) with ⟨hfail, hrecord⟩
      by_cases hfails : g.Fails n r ins
      · rw [hfail hfails]
        constructor
        · intro _
          rfl
        · intro hall
          exact absurd hfails (hall ins mem_cons_self hin)
      · rcases hrecord hfails with ⟨sp', heq, hhas⟩
        rw [heq]
        rcases ih hl.2 (Function.update sps ins.id sp') with ⟨hrest, hrest'⟩
        constructor
        · rintro ⟨ins', hmem, hin', hfails'⟩
          rcases mem_cons.1 hmem with rfl | hmem
          · exact absurd hfails' hfails
          · exact hrest ⟨ins', hmem, hin', hfails'⟩
        · intro hall
          rcases hrest' fun ins' hmem => hall ins' (mem_cons_of_mem ins hmem) with
            ⟨sps', hsome, hchar⟩
          refine ⟨sps', hsome, fun id e => ?_⟩
          rw [hchar]
          have hupdate : (Function.update sps ins.id sp' id).Has e ↔
              (sps id).Has e ∨ (ins.id = id ∧ g.Adds n r ins e) := by
            rcases Decidable.em (id = ins.id) with rfl | hne
            · rw [Function.update_self, hhas]
              simp
            · rw [Function.update_of_ne hne]
              simp [Ne.symm hne]
          rw [hupdate, or_assoc]
          apply or_congr_right
          simp [hin]

/-! ### The cursor -/

end AllocatedGraph

/-- Where the first element that fails a test is, if those after it fail too. -/
lemma takeWhile_length_le {α : Type} {p : α → Bool} {l : List α}
    (h : l.Pairwise fun a b => p b = true → p a = true) {k : Nat} (hk : k < l.length) :
    (l.takeWhile p).length ≤ k ↔ p (l.get ⟨k, hk⟩) = false := by
  induction l generalizing k with
  | nil => cases hk
  | cons a l ih =>
    rw [pairwise_cons] at h
    cases ha : p a with
    | false =>
      rw [takeWhile_cons_of_neg (by simp [ha])]
      refine ⟨fun _ => ?_, fun _ => Nat.zero_le k⟩
      cases k with
      | zero => exact ha
      | succ k =>
        cases hb : p (l.get ⟨k, Nat.lt_of_succ_lt_succ hk⟩) with
        | false => exact hb
        | true =>
          have htrue := h.1 _ (get_mem l ⟨k, Nat.lt_of_succ_lt_succ hk⟩) hb
          rw [ha] at htrue
          cases htrue
    | true =>
      rw [takeWhile_cons_of_pos ha]
      cases k with
      | zero => simp [ha]
      | succ k =>
        rw [length_cons, Nat.succ_le_succ_iff]
        exact ih h.2 (Nat.lt_of_succ_lt_succ hk)

namespace AllocatedGraph

variable {g : AllocatedGraph}

/-- No register with a number up to `n` at which the loop stops starts after the safepoint. -/
def Reached (g : AllocatedGraph) (n : Nat) (ins : LInstruction) : Prop :=
  ∀ m ≤ n, ∀ r, g.IsRoot m r → r.start ≤ inputOf ins.id

/-- The loop gets to the safepoint with the register. -/
structure Visits (g : AllocatedGraph) (n : Nat) (r : VirtualRegister) (ins : LInstruction) :
    Prop where
  root : g.IsRoot n r
  mem : ins ∈ g.safepoints
  reached : g.Reached n ins
  inRange : InRange r ins

/-- The cursor is at the first safepoint that no register before `n` starts after. -/
def Cursor (g : AllocatedGraph) (n c : Nat) : Prop :=
  ∀ k (hk : k < g.safepoints.length), c ≤ k ↔
    ∀ m < n, ∀ r, g.IsRoot m r → r.start ≤ inputOf (g.safepoints.get ⟨k, hk⟩).id

lemma Cursor.skip {n c : Nat} (h : g.Cursor n c) (hn : ∀ r, ¬ g.IsRoot n r) :
    g.Cursor (n + 1) c := by
  intro k hk
  rw [h k hk]
  constructor
  · intro hall m hm r hr
    rcases Nat.lt_succ_iff_lt_or_eq.1 hm with hlt | rfl
    · exact hall m hlt r hr
    · exact absurd hr (hn r)
  · intro hall m hm
    exact hall m (Nat.lt_succ_of_lt hm)

lemma Cursor.findFirst (wf : g.WellFormed) {n c : Nat} (h : g.Cursor n c)
    {r : VirtualRegister} (hr : g.IsRoot n r) :
    g.Cursor (n + 1) (findFirstSafepoint g.safepoints r.start c) := by
  intro k hk
  have hroot : (∀ m < n + 1, ∀ r', g.IsRoot m r' →
        r'.start ≤ inputOf (g.safepoints.get ⟨k, hk⟩).id) ↔
      c ≤ k ∧ r.start ≤ inputOf (g.safepoints.get ⟨k, hk⟩).id := by
    rw [h k hk]
    constructor
    · intro hall
      exact ⟨fun m hm => hall m (Nat.lt_succ_of_lt hm), hall n (Nat.lt_succ_self n) r hr⟩
    · rintro ⟨hall, hstart⟩ m hm r' hr'
      rcases Nat.lt_succ_iff_lt_or_eq.1 hm with hlt | rfl
      · exact hall m hlt r' hr'
      · have heq := hr.1
        rw [hr'.1] at heq
        rw [Option.some.inj heq]
        exact hstart
  rw [hroot, findFirstSafepoint]
  by_cases hle : c ≤ k
  · have hdrop : k - c < (g.safepoints.drop c).length := by
      rw [length_drop]
      omega
    have hmono : (g.safepoints.drop c).Pairwise fun a b =>
        (!decide (r.start ≤ inputOf b.id)) = true → (!decide (r.start ≤ inputOf a.id)) = true := by
      refine (wf.sorted.sublist (drop_sublist c g.safepoints)).imp ?_
      intro a b hab hb
      have hlt : ¬ r.start ≤ inputOf b.id := by simpa using hb
      have hlt' : ¬ r.start ≤ inputOf a.id := by
        simp only [inputOf] at hlt ⊢
        omega
      simpa using hlt'
    have hfirst := takeWhile_length_le hmono hdrop
    have hget : (g.safepoints.drop c).get ⟨k - c, hdrop⟩ = g.safepoints.get ⟨k, hk⟩ := by
      simp only [get_eq_getElem, getElem_drop]
      congr 1
      omega
    rw [hget] at hfirst
    have hshift : c + ((g.safepoints.drop c).takeWhile fun ins =>
          !decide (r.start ≤ inputOf ins.id)).length ≤ k ↔
        ((g.safepoints.drop c).takeWhile fun ins =>
          !decide (r.start ≤ inputOf ins.id)).length ≤ k - c := by
      omega
    rw [hshift, hfirst]
    simp [hle]
  · constructor
    · intro hsum
      omega
    · intro hboth
      exact absurd hboth.1 hle

lemma Cursor.mem_drop {n c : Nat} (h : g.Cursor (n + 1) c) (ins : LInstruction) :
    ins ∈ g.safepoints.drop c ↔ ins ∈ g.safepoints ∧ g.Reached n ins := by
  have hreached : ∀ k (hk : k < g.safepoints.length),
      c ≤ k ↔ g.Reached n (g.safepoints.get ⟨k, hk⟩) := by
    intro k hk
    rw [h k hk]
    exact ⟨fun hall m hm => hall m (Nat.lt_succ_of_le hm), fun hall m hm =>
      hall m (Nat.le_of_lt_succ hm)⟩
  constructor
  · intro hmem
    refine ⟨mem_of_mem_drop hmem, ?_⟩
    rcases mem_iff_get.1 hmem with ⟨⟨j, hj⟩, rfl⟩
    have hk : c + j < g.safepoints.length := by
      rw [length_drop] at hj
      omega
    have hget : (g.safepoints.drop c).get ⟨j, hj⟩ = g.safepoints.get ⟨c + j, hk⟩ := by
      simp only [get_eq_getElem, getElem_drop]
    rw [hget]
    exact (hreached _ hk).1 (Nat.le_add_right c j)
  · rintro ⟨hmem, hins⟩
    rcases mem_iff_get.1 hmem with ⟨⟨k, hk⟩, rfl⟩
    have hle := (hreached k hk).2 hins
    refine mem_iff_get.2 ⟨⟨k - c, by rw [length_drop]; omega⟩, ?_⟩
    simp only [get_eq_getElem, getElem_drop]
    congr 1
    omega

/-- The loop from number `n` on fails if it fails at a safepoint that it gets to, and else has
added what it adds at each of them. -/
def Populates (g : AllocatedGraph) (n : Nat) (sps : Safepoints) (result : Option Safepoints) :
    Prop :=
  ((∃ m r ins, n ≤ m ∧ g.Visits m r ins ∧ g.Fails m r ins) → result = none) ∧
    ((∀ m r ins, n ≤ m → g.Visits m r ins → ¬ g.Fails m r ins) → ∃ sps', result = some sps' ∧
      ∀ id e, (sps' id).Has e ↔ (sps id).Has e ∨
        ∃ m r ins, n ≤ m ∧ ins.id = id ∧ g.Visits m r ins ∧ g.Adds m r ins e)

lemma Populates.skip {n : Nat} {sps : Safepoints} {result : Option Safepoints}
    (h : g.Populates (n + 1) sps result) (hn : ∀ r, ¬ g.IsRoot n r) :
    g.Populates n sps result := by
  have hnext : ∀ {m r ins}, n ≤ m → g.Visits m r ins → n + 1 ≤ m := by
    intro m r ins hle hvisits
    rcases Nat.lt_or_eq_of_le hle with hlt | rfl
    · exact hlt
    · exact absurd hvisits.root (hn r)
  constructor
  · rintro ⟨m, r, ins, hle, hvisits, hfails⟩
    exact h.1 ⟨m, r, ins, hnext hle hvisits, hvisits, hfails⟩
  · intro hall
    rcases h.2 fun m r ins hle => hall m r ins (Nat.le_of_succ_le hle) with ⟨sps', heq, hchar⟩
    refine ⟨sps', heq, fun id e => ?_⟩
    rw [hchar]
    apply or_congr_right
    constructor
    · rintro ⟨m, r, ins, hle, hrest⟩
      exact ⟨m, r, ins, Nat.le_of_succ_le hle, hrest⟩
    · rintro ⟨m, r, ins, hle, hid, hvisits, hadds⟩
      exact ⟨m, r, ins, hnext hle hvisits, hid, hvisits, hadds⟩

/-- Past the last safepoint no register has anything to visit. -/
lemma Populates.stop {n : Nat} (hnone : ∀ m r ins, n ≤ m → ¬ g.Visits m r ins)
    (sps : Safepoints) : g.Populates n sps (some sps) := by
  constructor
  · rintro ⟨m, r, ins, hle, hvisits, _⟩
    exact absurd hvisits (hnone m r ins hle)
  · intro _
    refine ⟨sps, rfl, fun id e => ⟨Or.inl, ?_⟩⟩
    rintro (h | ⟨m, r, ins, hle, _, hvisits, _⟩)
    · exact h
    · exact absurd hvisits (hnone m r ins hle)

lemma Populates.visit (wf : g.WellFormed) {n c : Nat} {r : VirtualRegister}
    (hr : g.IsRoot n r) (hc : g.Cursor (n + 1) c) {sps : Safepoints}
    {rest : Safepoints → Option Safepoints} (h : ∀ sps, g.Populates (n + 1) sps (rest sps)) :
    g.Populates n sps ((g.visitSafepoints n r (g.safepoints.drop c) sps).bind rest) := by
  have hsorted := wf.sorted.sublist (drop_sublist c g.safepoints)
  rcases wf.visitSafepoints_spec hr hsorted sps with ⟨hfail, hvisit⟩
  have hmem : ∀ ins, (ins ∈ g.safepoints.drop c ∧ InRange r ins) ↔ g.Visits n r ins := by
    intro ins
    rw [hc.mem_drop]
    exact ⟨fun ⟨⟨hins, hreached⟩, hin⟩ => ⟨hr, hins, hreached, hin⟩,
      fun hvisits => ⟨⟨hvisits.mem, hvisits.reached⟩, hvisits.inRange⟩⟩
  have hroot : ∀ {r'}, g.IsRoot n r' → r' = r := by
    intro r' hr'
    have heq := hr'.1
    rw [hr.1] at heq
    exact (Option.some.inj heq).symm
  constructor
  · rintro ⟨m, r', ins, hle, hvisits, hfails⟩
    by_cases hfirst : ∃ ins ∈ g.safepoints.drop c, InRange r ins ∧ g.Fails n r ins
    · rw [hfail hfirst]
      rfl
    · rcases hvisit fun ins hins hin hfails => hfirst ⟨ins, hins, hin, hfails⟩ with
        ⟨sps', heq, _⟩
      rw [heq]
      rcases Nat.lt_or_eq_of_le hle with hlt | rfl
      · exact (h sps').1 ⟨m, r', ins, hlt, hvisits, hfails⟩
      · have hr' := hroot hvisits.root
        subst hr'
        have hin := (hmem ins).2 hvisits
        exact absurd ⟨ins, hin.1, hin.2, hfails⟩ hfirst
  · intro hall
    rcases hvisit fun ins hins hin => hall n r ins le_rfl ((hmem ins).1 ⟨hins, hin⟩) with
      ⟨sps', heq, hchar⟩
    rcases (h sps').2 fun m r ins hle => hall m r ins (Nat.le_of_succ_le hle) with
      ⟨sps'', heq', hchar'⟩
    refine ⟨sps'', by rw [heq]; exact heq', fun id e => ?_⟩
    rw [hchar', hchar, or_assoc]
    apply or_congr_right
    constructor
    · rintro (⟨ins, hins, hid, hin, hadds⟩ | ⟨m, r', ins, hle, hrest⟩)
      · exact ⟨n, r, ins, le_rfl, hid, (hmem ins).1 ⟨hins, hin⟩, hadds⟩
      · exact ⟨m, r', ins, Nat.le_of_succ_le hle, hrest⟩
    · rintro ⟨m, r', ins, hle, hid, hvisits, hadds⟩
      rcases Nat.lt_or_eq_of_le hle with hlt | rfl
      · exact Or.inr ⟨m, r', ins, hlt, hid, hvisits, hadds⟩
      · have hr' := hroot hvisits.root
        subst hr'
        have hin := (hmem ins).2 hvisits
        exact Or.inl ⟨ins, hin.1, hid, hin.2, hadds⟩

/-- The loop over the registers. It is never at the second half of a value. -/
lemma WellFormed.populateFrom_spec (wf : g.WellFormed) {n c : Nat} (hc : g.Cursor n c)
    (hhalf : ∀ p, g.vregs n = some p → p.type ≠ .payload) (sps : Safepoints) :
    g.Populates n sps (g.populateFrom n c sps) := by
  rw [populateFrom]
  split_ifs with hn
  · -- the register after one that is no type is no payload
    have hnext : ∀ {m}, (∀ t, g.vregs m = some t → t.type ≠ .type) →
        ∀ p, g.vregs (m + 1) = some p → p.type ≠ .payload := by
      intro m hm p hp hpayload
      rcases wf.halves' hp hpayload with ⟨k, t, hk, ht, htype⟩
      cases Nat.succ.inj hk
      exact hm t ht htype
    have hskip : (∀ r, ¬ g.IsRoot n r) → (∀ t, g.vregs n = some t → t.type ≠ .type) →
        g.Populates n sps (g.populateFrom (n + 1) c sps) := by
      intro hroot htype
      exact (populateFrom_spec wf (hc.skip hroot) (hnext htype) sps).skip hroot
    cases hr : g.vregs n with
    | none =>
      refine hskip ?_ ?_
      · intro r hroot
        rw [hroot.1] at hr
        cases hr
      · intro t ht
        rw [ht] at hr
        cases hr
    | some r =>
      dsimp only
      by_cases hstops : (isTraceable r.type || isNunbox r.type) = true
      · rw [if_pos hstops]
        have hroot : g.IsRoot n r := by
          refine ⟨hr, ?_⟩
          have hpayload := hhalf r hr
          cases hrt : r.type <;> simp_all [isTraceable, isNunbox]
        have hc' := hc.findFirst wf hroot
        by_cases hlast : g.safepoints.length ≤ findFirstSafepoint g.safepoints r.start c
        · rw [if_pos hlast]
          refine Populates.stop ?_ sps
          intro m r' ins hle hvisits
          rcases mem_iff_get.1 hvisits.mem with ⟨⟨k, hk⟩, rfl⟩
          have hk' := (hc' k hk).2 fun m' hm' =>
            hvisits.reached m' (le_trans (Nat.le_of_lt_succ hm') hle)
          omega
        · rw [if_neg hlast]
          have hrest : ∀ sps, g.Populates (n + 1) sps
              (g.populateFrom (if isNunbox r.type then n + 2 else n + 1)
                (findFirstSafepoint g.safepoints r.start c) sps) := by
            intro sps
            by_cases hnunbox : isNunbox r.type = true
            · rw [if_pos hnunbox]
              have htype : r.type = .type := by
                have hpayload := hhalf r hr
                simpa [isNunbox, hpayload] using hnunbox
              rcases wf.halves hr htype with ⟨p, hp, hpayload, _⟩
              have hsecond : ∀ r', ¬ g.IsRoot (n + 1) r' := by
                intro r' hr'
                have heq := hr'.1
                rw [hp] at heq
                cases heq
                rcases hr'.2 with h | h <;> simp [hpayload, isTraceable] at h
              refine (populateFrom_spec wf (hc'.skip hsecond) (hnext ?_) sps).skip hsecond
              intro t ht
              rw [hp] at ht
              cases ht
              rw [hpayload]
              decide
            · rw [if_neg hnunbox]
              refine populateFrom_spec wf hc' (hnext ?_) sps
              intro t ht htype
              rw [hr] at ht
              cases ht
              simp [isNunbox, htype] at hnunbox
          have hvisit : g.Populates n sps _ := Populates.visit wf hroot hc' hrest
          cases hv : g.visitSafepoints n r
            (g.safepoints.drop (findFirstSafepoint g.safepoints r.start c)) sps with
          | none =>
            rw [hv] at hvisit
            exact hvisit
          | some sps' =>
            rw [hv] at hvisit
            exact hvisit
      · rw [if_neg hstops]
        refine hskip ?_ ?_
        · intro r' hroot
          have heq := hroot.1
          rw [hr] at heq
          cases heq
          exact hstops hroot.stops
        · intro t ht htype
          rw [hr] at ht
          cases ht
          simp [isNunbox, htype] at hstops
  · refine Populates.stop ?_ sps
    intro m r ins hle hvisits
    have hlt := wf.number hvisits.root.1
    omega
termination_by g.numVirtualRegisters - n
decreasing_by all_goals omega

lemma WellFormed.populateSafepoints_spec (wf : g.WellFormed) :
    ((∃ n r ins, g.Visits n r ins ∧ g.Fails n r ins) → g.populateSafepoints = none) ∧
      ((∀ n r ins, g.Visits n r ins → ¬ g.Fails n r ins) →
        ∃ sps, g.populateSafepoints = some sps ∧
          ∀ id e, (sps id).Has e ↔
            ∃ n r ins, ins.id = id ∧ g.Visits n r ins ∧ g.Adds n r ins e) := by
  have hcursor : g.Cursor 0 0 := by
    intro k hk
    exact ⟨fun _ m hm => absurd hm (Nat.not_lt_zero m), fun _ => Nat.zero_le k⟩
  have hhalf : ∀ p, g.vregs 0 = some p → p.type ≠ .payload := by
    intro p hp hpayload
    rcases wf.halves' hp hpayload with ⟨m, _, hm, _⟩
    cases hm
  rcases wf.populateFrom_spec hcursor hhalf fun _ => .empty with ⟨hfail, hpopulate⟩
  constructor
  · rintro ⟨n, r, ins, hvisits, hfails⟩
    exact hfail ⟨n, r, ins, Nat.zero_le n, hvisits, hfails⟩
  · intro hall
    rcases hpopulate fun n r ins _ => hall n r ins with ⟨sps, heq, hchar⟩
    refine ⟨sps, heq, fun id e => ?_⟩
    rw [hchar]
    simp [LSafepoint.has_empty]

end AllocatedGraph

end SpiderMonkey.Ion.LinearScan
