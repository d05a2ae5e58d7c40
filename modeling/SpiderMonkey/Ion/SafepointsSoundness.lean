import SpiderMonkey.Ion.SafepointEntries

/-! # What safepoints record

`populateSafepoints` records every location that the garbage collector has to know about just if
its cursor passes no safepoint that a later register needs, the halves of a value are live
together, and the payload of a value has a spill slot only where its type has one.
-/

namespace SpiderMonkey.Ion.LinearScan

open SpiderMonkey.Lib

/-! ## What has to be recorded -/

/-- The collector has to know about the location: it is a stack slot, or a general register that
is not clobbered by a call. -/
def LAllocation.Tracked (ins : LInstruction) (loc : LAllocation) : Prop :=
  loc.isStackSlot = true ∨ (loc.isGeneralReg = true ∧ ins.isCall = false)

lemma LAllocation.Tracked.not_argument {ins : LInstruction} {loc : LAllocation}
    (h : loc.Tracked ins) : loc.isArgument = false := by
  cases loc with
  | argument index => rcases h with h | ⟨h, _⟩ <;> cases h
  | _ => rfl

/-- The location of a traceable register is recorded. -/
inductive Recorded (sp : LSafepoint) : LAllocation → Prop where
  | reg {code} : sp.Has (.gcReg code) → Recorded sp (.gpr code)
  | slot {loc} : loc.isStackSlot = true → sp.Has (.gcSlot loc.slot) → Recorded sp loc

/-- The location of a payload is recorded, with one that holds the type: in a slot of a whole
value, or as one of two parts. -/
inductive RecordedValue (t : VirtualRegister) (pos : Nat) (sp : LSafepoint) :
    LAllocation → Prop where
  | valueSlot {tloc loc} : loc.isStackSlot = true → sp.Has (.valueSlot loc.slot) →
      t.Holds pos tloc → tloc.isStackSlot = true → tloc.slot + 1 = loc.slot →
      RecordedValue t pos sp loc
  | parts {tloc loc} : sp.Has (.nunboxParts tloc loc) → t.Holds pos tloc →
      RecordedValue t pos sp loc

/-- The stack slots that a record is about. -/
def SafepointEntry.Reads (slot : Nat) : SafepointEntry → Prop
  | .gcReg _ => False
  | .gcSlot s => s = slot
  | .valueSlot s => s = slot ∨ s = slot + 1
  | .nunboxParts t p =>
    (t.isStackSlot = true ∧ t.slot = slot) ∨ (p.isStackSlot = true ∧ p.slot = slot)

namespace AllocatedGraph

variable {g : AllocatedGraph}

/-- The garbage collector has to know about the location at the safepoint: it holds the register,
or the payload of the value that the register is the first half of. -/
structure Needs (g : AllocatedGraph) (n : Nat) (r : VirtualRegister) (ins : LInstruction)
    (loc : LAllocation) : Prop where
  root : g.IsRoot n r
  mem : ins ∈ g.safepoints
  output : r.isOutputOf ins = false
  holds : (r.type ≠ .type ∧ r.Holds (inputOf ins.id) loc) ∨
    (r.type = .type ∧ ∃ p, g.vregs (n + 1) = some p ∧ p.Holds (inputOf ins.id) loc)
  tracked : loc.Tracked ins

/-- Every location that has to be is recorded, and no slot is before it has been written. -/
structure Correct (g : AllocatedGraph) (sps : Safepoints) : Prop where
  traceable : ∀ {n r ins loc}, g.Needs n r ins loc → r.type ≠ .type →
    Recorded (sps ins.id) loc
  value : ∀ {n r ins loc}, g.Needs n r ins loc → r.type = .type →
    RecordedValue r (inputOf ins.id) (sps ins.id) loc
  written : ∀ ins ∈ g.safepoints, ∀ e, (sps ins.id).Has e → ∀ slot, e.Reads slot →
    ∃ n r loc, g.vregs n = some r ∧ r.Written (inputOf ins.id) loc ∧ loc.isStackSlot = true ∧
      loc.slot = slot

/-- What `populateSafepoints` relies on: where a location has to be recorded, no register of a
smaller number starts after the safepoint, and the first half of a value has not ended before
it; the halves of a value are live together at the safepoints that the loop gets to; and where
a payload's spill slot holds it, the type is in its spill slot too, or the payload is in the slot
only and the instruction is no call. -/
structure Condition (g : AllocatedGraph) : Prop where
  visited : ∀ {n r ins loc}, g.Needs n r ins loc → g.Visits n r ins
  halves : ∀ {n r ins}, g.Visits n r ins → ¬ g.Fails n r ins
  slots : ∀ {n t ins loc}, g.Needs n t ins loc → t.type = .type → loc.isStackSlot = true →
    (∃ tloc, t.Holds (inputOf ins.id) tloc ∧ tloc.isStackSlot = true) ∨
      (ins.isCall = false ∧ ∃ p, g.vregs (n + 1) = some p ∧
        ∃ i ∈ p.intervals, Covers i.ranges (inputOf ins.id) ∧ i.alloc = loc)

/-- Two locations are the same register or the same slot. -/
def SamePlace (loc loc' : LAllocation) : Prop :=
  (loc.isGeneralReg = true ∧ loc = loc') ∨
    (loc.isStackSlot = true ∧ loc'.isStackSlot = true ∧ loc.slot = loc'.slot)

/-- No two registers are in one place at a safepoint. -/
def ConflictFree (g : AllocatedGraph) : Prop :=
  ∀ {n n' r r' ins loc loc'}, g.vregs n = some r → g.vregs n' = some r' → ins ∈ g.safepoints →
    r.Holds (inputOf ins.id) loc → r'.Holds (inputOf ins.id) loc' → SamePlace loc loc' → n = n'

/-! ### Spill slots -/

lemma WellFormed.holds_slot (wf : g.WellFormed) {n : Nat} {r : VirtualRegister}
    (hr : g.vregs n = some r) {pos : Nat} {loc : LAllocation} (h : r.Holds pos loc)
    (hloc : loc.isMemory = true) :
    ∃ c, r.canonicalSpill = some c ∧ c.alloc = loc := by
  cases h with
  | interval hmem _ =>
    rcases wf.spills hr _ hmem hloc with ⟨c, hc, heq, _⟩
    exact ⟨c, hc, heq⟩
  | spilled _ _ hc => exact ⟨_, hc, rfl⟩

lemma isMemory_of_isStackSlot {loc : LAllocation} (h : loc.isStackSlot = true) :
    loc.isMemory = true := by
  rw [LAllocation.isMemory, h]
  rfl

lemma WellFormed.slot_eq (wf : g.WellFormed) {n : Nat} {r : VirtualRegister}
    (hr : g.vregs n = some r) {pos : Nat} {loc : LAllocation} (h : r.Holds pos loc)
    (hloc : loc.isStackSlot = true) : loc.slot = r.canonicalSpillSlot := by
  rcases wf.holds_slot hr h (isMemory_of_isStackSlot hloc) with ⟨c, hc, rfl⟩
  rw [VirtualRegister.canonicalSpillSlot, hc]

/-- `IsSpilledAt` says whether a stack slot holds the value. -/
lemma WellFormed.isSpilledAt_iff (wf : g.WellFormed) {n : Nat} {r : VirtualRegister}
    (hr : g.vregs n = some r) {pos : Nat} {i : AllocatedInterval}
    (hi : r.intervalFor pos = some i) :
    r.isSpilledAt i = true ↔ ∃ loc, r.Holds pos loc ∧ loc.isStackSlot = true := by
  rcases VirtualRegister.intervalFor_eq_some.1 hi with ⟨hmem, hcovers⟩
  rw [VirtualRegister.isSpilledAt]
  constructor
  · intro h
    cases hc : r.canonicalSpill with
    | none =>
      rw [hc] at h
      cases h
    | some c =>
      rw [hc] at h
      simp only [Bool.and_eq_true, Bool.or_eq_true, decide_eq_true_eq] at h
      rcases h with ⟨hslot, hdef | rfl⟩
      · exact ⟨c.alloc, VirtualRegister.Holds.spilled ⟨i, hmem, hcovers⟩ hdef hc, hslot⟩
      · exact ⟨i.alloc, VirtualRegister.Holds.interval hmem hcovers, hslot⟩
  · rintro ⟨loc, hholds, hslot⟩
    cases hholds with
    | interval hmem' hcovers' =>
      have heq := VirtualRegister.interval_unique hmem' hcovers' hi
      subst heq
      rcases wf.spills hr _ hmem' (isMemory_of_isStackSlot hslot) with ⟨c, hc, halloc, hor⟩
      rw [hc]
      simp only [Bool.and_eq_true, Bool.or_eq_true, decide_eq_true_eq]
      rw [halloc]
      rcases hor with rfl | hdef
      · exact ⟨hslot, Or.inr rfl⟩
      · exact ⟨hslot, Or.inl hdef⟩
    | spilled _ hdef hc =>
      rw [hc]
      simp [hslot, hdef]

/-- A slot that holds a value at a safepoint has been written by then. -/
lemma WellFormed.written (wf : g.WellFormed) {n : Nat} {r : VirtualRegister}
    (hr : g.vregs n = some r) {ins : LInstruction} (hins : ins ∈ g.safepoints)
    (hout : r.isOutputOf ins = false) {loc : LAllocation} (h : r.Holds (inputOf ins.id) loc) :
    r.Written (inputOf ins.id) loc := by
  cases h with
  | interval hmem hcovers => exact VirtualRegister.Written.interval hmem hcovers
  | spilled hlive hdef hc =>
    exact VirtualRegister.Written.spilled hdef hc (wf.definition hr hdef ins hins hlive hout)

lemma WellFormed.adjacent_slots (wf : g.WellFormed) {n : Nat} {t p : VirtualRegister}
    (ht : g.vregs n = some t) (htype : t.type = .type) (hp : g.vregs (n + 1) = some p)
    {pos : Nat} {tloc loc : LAllocation} (htloc : t.Holds pos tloc) (hloc : p.Holds pos loc)
    (hts : tloc.isStackSlot = true) (hps : loc.isStackSlot = true) :
    tloc.slot + 1 = loc.slot := by
  rcases wf.holds_slot ht htloc (isMemory_of_isStackSlot hts) with ⟨c, hc, rfl⟩
  rcases wf.holds_slot hp hloc (isMemory_of_isStackSlot hps) with ⟨d, hd, rfl⟩
  exact wf.adjacent ht htype hp hc hd hts hps

/-- A register holds what the general register of an interval does, or nothing there. -/
lemma WellFormed.holds_reg (wf : g.WellFormed) {n : Nat} {r : VirtualRegister}
    (hr : g.vregs n = some r) {pos : Nat} {loc : LAllocation} (h : r.Holds pos loc)
    (hloc : loc.isGeneralReg = true) {i : AllocatedInterval} (hi : r.intervalFor pos = some i) :
    i.alloc = loc := by
  cases h with
  | interval hmem hcovers =>
    rw [VirtualRegister.interval_unique hmem hcovers hi]
  | @spilled c _ _ hc =>
    have hmemory := wf.memory hr hc
    cases hc' : c.alloc <;> rw [hc'] at hloc hmemory <;> cases hloc
    cases hmemory

/-! ### The condition is enough -/

lemma WellFormed.adds_traceable (wf : g.WellFormed) {n : Nat} {r : VirtualRegister}
    {ins : LInstruction} {loc : LAllocation} (h : g.Needs n r ins loc) (htype : r.type ≠ .type)
    {sp : LSafepoint} (hhas : ∀ e, g.Adds n r ins e → sp.Has e) : Recorded sp loc := by
  have hholds : r.Holds (inputOf ins.id) loc := by
    rcases h.holds with ⟨_, hholds⟩ | ⟨heq, _⟩
    · exact hholds
    · exact absurd heq htype
  have hadds : ∀ e, TraceableAdds r ins e → sp.Has e := by
    intro e he
    refine hhas e ?_
    rw [Adds, if_neg htype]
    exact he
  rcases VirtualRegister.live_iff.1 hholds.live with ⟨i, hi⟩
  rcases h.tracked with hslot | ⟨hreg, hcall⟩
  · refine Recorded.slot hslot ?_
    rw [wf.slot_eq h.root.1 hholds hslot]
    exact hadds _ (TraceableAdds.gcSlot hi ((wf.isSpilledAt_iff h.root.1 hi).2 ⟨loc, hholds, hslot⟩))
  · have halloc := wf.holds_reg h.root.1 hholds hreg hi
    cases hloc : loc with
    | gpr code =>
      rw [hloc] at halloc
      exact Recorded.reg (hadds _ (TraceableAdds.gcReg hi halloc hcall))
    | _ => rw [hloc] at hreg; cases hreg

/-- A payload that has to be recorded is not in an argument. -/
lemma WellFormed.not_argument (wf : g.WellFormed) {n : Nat} {p : VirtualRegister}
    (hp : g.vregs n = some p) {ins : LInstruction} {loc : LAllocation}
    (hholds : p.Holds (inputOf ins.id) loc) (htracked : loc.Tracked ins) {i : AllocatedInterval}
    (hi : p.intervalFor (inputOf ins.id) = some i) : i.alloc.isArgument = false := by
  cases harg : i.alloc.isArgument with
  | false => rfl
  | true =>
    have hloc : loc = i.alloc := by
      cases hholds with
      | interval hmem hcovers => rw [VirtualRegister.interval_unique hmem hcovers hi]
      | spilled _ _ hc =>
        -- the register has no other place in memory
        rcases VirtualRegister.intervalFor_eq_some.1 hi with ⟨hmem, _⟩
        rcases wf.spills hp i hmem (by simp [LAllocation.isMemory, harg]) with ⟨c, hc', heq, _⟩
        rw [hc] at hc'
        cases hc'
        exact heq
    rw [← hloc, htracked.not_argument] at harg
    cases harg

lemma WellFormed.adds_value (wf : g.WellFormed) (hc : g.Condition) {n : Nat}
    {t : VirtualRegister} {ins : LInstruction} {loc : LAllocation} (h : g.Needs n t ins loc)
    (htype : t.type = .type) {sp : LSafepoint} (hhas : ∀ e, g.Adds n t ins e → sp.Has e) :
    RecordedValue t (inputOf ins.id) sp loc := by
  rcases h.holds with ⟨hne, _⟩ | ⟨_, p, hp, hholds⟩
  · exact absurd htype hne
  have hadds : ∀ e, NunboxAdds t p ins e → sp.Has e := by
    intro e he
    refine hhas e ?_
    rw [Adds, if_pos htype]
    exact ⟨p, hp, he⟩
  rcases VirtualRegister.live_iff.1 hholds.live with ⟨pi, hpi⟩
  have harg := wf.not_argument hp hholds h.tracked hpi
  -- else the code would have failed
  have hlive : t.Live (inputOf ins.id) := by
    by_contra hdead
    exact hc.halves (hc.visited h) ⟨htype, p, hp, Or.inr ⟨hdead, pi, hpi, harg⟩⟩
  rcases VirtualRegister.live_iff.1 hlive with ⟨ti, hti⟩
  rcases VirtualRegister.intervalFor_eq_some.1 hti with ⟨htmem, htcovers⟩
  have hvalue : loc.isStackSlot = true →
      (∃ tloc, t.Holds (inputOf ins.id) tloc ∧ tloc.isStackSlot = true) →
      RecordedValue t (inputOf ins.id) sp loc := by
    rintro hslot ⟨tloc, htloc, htslot⟩
    refine RecordedValue.valueSlot hslot ?_ htloc htslot
      (wf.adjacent_slots h.root.1 htype hp htloc hholds htslot hslot)
    rw [wf.slot_eq hp hholds hslot]
    exact hadds _ (NunboxAdds.valueSlot hti hpi harg
      ((wf.isSpilledAt_iff h.root.1 hti).2 ⟨tloc, htloc, htslot⟩)
      ((wf.isSpilledAt_iff hp hpi).2 ⟨loc, hholds, hslot⟩))
  rcases h.tracked with hslot | ⟨hreg, hcall⟩
  · rcases hc.slots h htype hslot with htype' | ⟨hcall, p', hp', i, himem, hicovers, halloc⟩
    · exact hvalue hslot htype'
    · rw [hp] at hp'
      cases hp'
      have heq := VirtualRegister.interval_unique himem hicovers hpi
      subst heq
      cases hspilled : t.isSpilledAt ti with
      | true => exact hvalue hslot ((wf.isSpilledAt_iff h.root.1 hti).1 hspilled)
      | false =>
        rw [← halloc]
        exact RecordedValue.parts
          (hadds _ (NunboxAdds.parts hti hpi harg hcall (Or.inl hspilled)))
          (VirtualRegister.Holds.interval htmem htcovers)
  · have halloc := wf.holds_reg hp hholds hreg hpi
    rw [← halloc] at hreg ⊢
    exact RecordedValue.parts (hadds _ (NunboxAdds.parts hti hpi harg hcall (Or.inr hreg)))
      (VirtualRegister.Holds.interval htmem htcovers)

/-- Only slots that have been written are recorded. -/
lemma WellFormed.adds_written (wf : g.WellFormed) {n : Nat} {r : VirtualRegister}
    {ins : LInstruction} (h : g.Visits n r ins) {e : SafepointEntry} (hadds : g.Adds n r ins e)
    {slot : Nat} (hreads : e.Reads slot) :
    ∃ n r loc, g.vregs n = some r ∧ r.Written (inputOf ins.id) loc ∧ loc.isStackSlot = true ∧
      loc.slot = slot := by
  by_cases htype : r.type = .type
  · rw [Adds, if_pos htype] at hadds
    rcases hadds with ⟨p, hp, hadds⟩
    have hout : p.isOutputOf ins = false := by
      rcases wf.halves h.root.1 htype with ⟨p', hp', _, hsame⟩
      rw [hp] at hp'
      cases hp'
      rw [← hsame ins h.mem]
      exact h.inRange.2
    cases hadds with
    | valueSlot ht hpi _ htspilled hpspilled =>
      rcases (wf.isSpilledAt_iff h.root.1 ht).1 htspilled with ⟨tloc, htloc, htslot⟩
      rcases (wf.isSpilledAt_iff hp hpi).1 hpspilled with ⟨loc, hloc, hslot⟩
      rcases hreads with hbase | hnext
      · refine ⟨n + 1, p, loc, hp, wf.written hp h.mem hout hloc, hslot, ?_⟩
        rw [← hbase]
        exact wf.slot_eq hp hloc hslot
      · refine ⟨n, r, tloc, h.root.1, wf.written h.root.1 h.mem h.inRange.2 htloc, htslot, ?_⟩
        have hadjacent := wf.adjacent_slots h.root.1 htype hp htloc hloc htslot hslot
        have heq := wf.slot_eq hp hloc hslot
        have hnext : p.canonicalSpillSlot = slot + 1 := hnext
        omega
    | parts ht hpi _ _ _ =>
      rcases VirtualRegister.intervalFor_eq_some.1 ht with ⟨htmem, htcovers⟩
      rcases VirtualRegister.intervalFor_eq_some.1 hpi with ⟨hpmem, hpcovers⟩
      rcases hreads with ⟨hslot, heq⟩ | ⟨hslot, heq⟩
      · exact ⟨n, r, _, h.root.1, VirtualRegister.Written.interval htmem htcovers, hslot, heq⟩
      · exact ⟨n + 1, p, _, hp, VirtualRegister.Written.interval hpmem hpcovers, hslot, heq⟩
  · rw [Adds, if_neg htype] at hadds
    cases hadds with
    | gcReg _ _ _ => cases hreads
    | gcSlot hi hspilled =>
      rcases (wf.isSpilledAt_iff h.root.1 hi).1 hspilled with ⟨loc, hloc, hslot⟩
      refine ⟨n, r, loc, h.root.1, wf.written h.root.1 h.mem h.inRange.2 hloc, hslot, ?_⟩
      have hreads : r.canonicalSpillSlot = slot := hreads
      rw [← hreads]
      exact wf.slot_eq h.root.1 hloc hslot

/-! ### The condition is needed -/

/-- Instructions with one id are the same. -/
lemma WellFormed.eq_of_id (wf : g.WellFormed) {a b : LInstruction} (ha : a ∈ g.safepoints)
    (hb : b ∈ g.safepoints) (hid : a.id = b.id) : a = b := by
  have hnodup : (g.safepoints.map LInstruction.id).Nodup :=
    List.pairwise_map.2 (wf.sorted.imp fun hlt => Nat.ne_of_lt hlt)
  exact List.inj_on_of_nodup_map hnodup ha hb hid

/-- What is recorded is recorded for the register that is there. -/
lemma Needs.visits_of_adds (hfree : g.ConflictFree) {n m : Nat} {r r' : VirtualRegister}
    {ins : LInstruction} {loc : LAllocation} (h : g.Needs n r ins loc) (htype : r.type ≠ .type)
    (hvisits : g.Visits m r' ins) {loc' : LAllocation} (hloc' : r'.Holds (inputOf ins.id) loc')
    (hsame : SamePlace loc loc') : g.Visits n r ins := by
  have hholds : r.Holds (inputOf ins.id) loc := by
    rcases h.holds with ⟨_, hholds⟩ | ⟨heq, _⟩
    · exact hholds
    · exact absurd heq htype
  have heq := hfree h.root.1 hvisits.root.1 h.mem hholds hloc' hsame
  subst heq
  have hr := h.root.1
  rw [hvisits.root.1] at hr
  cases hr
  exact hvisits

lemma Needs.visits_of_adds_value (hfree : g.ConflictFree) {n m : Nat}
    {t t' p p' : VirtualRegister} {ins : LInstruction} {loc loc' : LAllocation}
    (h : g.Needs n t ins loc) (hp : g.vregs (n + 1) = some p)
    (hholds : p.Holds (inputOf ins.id) loc) (hvisits : g.Visits m t' ins)
    (hp' : g.vregs (m + 1) = some p') (hloc' : p'.Holds (inputOf ins.id) loc')
    (hsame : SamePlace loc loc') : n = m ∧ g.Visits n t ins := by
  have heq := Nat.succ.inj (hfree hp hp' h.mem hholds hloc' hsame)
  subst heq
  have ht := h.root.1
  rw [hvisits.root.1] at ht
  cases ht
  exact ⟨rfl, hvisits⟩

/-- A location is the same place as itself if the collector has to know about it. -/
lemma samePlace_self {ins : LInstruction} {loc : LAllocation} (h : loc.Tracked ins) :
    SamePlace loc loc := by
  rcases h with hslot | ⟨hreg, _⟩
  · exact Or.inr ⟨hslot, hslot, rfl⟩
  · exact Or.inl ⟨hreg, rfl⟩

lemma Correct.visits_traceable (wf : g.WellFormed) (hfree : g.ConflictFree) {sps : Safepoints}
    (hchar : ∀ id e, (sps id).Has e ↔
      ∃ n r ins, ins.id = id ∧ g.Visits n r ins ∧ g.Adds n r ins e)
    (hcorrect : g.Correct sps) {n : Nat} {r : VirtualRegister} {ins : LInstruction}
    {loc : LAllocation} (h : g.Needs n r ins loc) (htype : r.type ≠ .type) :
    g.Visits n r ins := by
  have hadded : ∀ e, (sps ins.id).Has e → ∃ m r', g.Visits m r' ins ∧ g.Adds m r' ins e := by
    intro e he
    rcases (hchar ins.id e).1 he with ⟨m, r', ins', hid, hvisits, hadds⟩
    have heq := wf.eq_of_id hvisits.mem h.mem hid
    subst heq
    exact ⟨m, r', hvisits, hadds⟩
  cases hcorrect.traceable h htype with
  | @reg code hhas =>
    rcases hadded _ hhas with ⟨m, r', hvisits, hadds⟩
    rw [Adds] at hadds
    split_ifs at hadds with htype'
    · rcases hadds with ⟨_, _, hadds⟩
      cases hadds
    · cases hadds with
      | gcReg hi halloc _ =>
        rcases VirtualRegister.intervalFor_eq_some.1 hi with ⟨hmem, hcovers⟩
        refine h.visits_of_adds hfree htype hvisits
          (VirtualRegister.Holds.interval hmem hcovers) (Or.inl ⟨rfl, halloc.symm⟩)
  | slot hslot hhas =>
    rcases hadded _ hhas with ⟨m, r', hvisits, hadds⟩
    rw [Adds] at hadds
    split_ifs at hadds with htype'
    · rcases hadds with ⟨_, _, hadds⟩
      cases hadds
    · generalize hs : loc.slot = slot at hadds
      cases hadds with
      | gcSlot hi hspilled =>
        rcases (wf.isSpilledAt_iff hvisits.root.1 hi).1 hspilled with ⟨loc', hloc', hslot'⟩
        refine h.visits_of_adds hfree htype hvisits hloc' (Or.inr ⟨hslot, hslot', ?_⟩)
        rw [hs, wf.slot_eq hvisits.root.1 hloc' hslot']

/-- The slot or the parts of a value are recorded where the loop gets to it, and either its type
has a slot too, or the payload is a part. -/
lemma Correct.visits_value (wf : g.WellFormed) (hfree : g.ConflictFree) {sps : Safepoints}
    (hchar : ∀ id e, (sps id).Has e ↔
      ∃ n r ins, ins.id = id ∧ g.Visits n r ins ∧ g.Adds n r ins e)
    (hcorrect : g.Correct sps) {n : Nat} {t : VirtualRegister} {ins : LInstruction}
    {loc : LAllocation} (h : g.Needs n t ins loc) (htype : t.type = .type) :
    g.Visits n t ins ∧
      ((∃ tloc, t.Holds (inputOf ins.id) tloc ∧ tloc.isStackSlot = true) ∨
        (ins.isCall = false ∧ ∃ p, g.vregs (n + 1) = some p ∧
          ∃ i ∈ p.intervals, Covers i.ranges (inputOf ins.id) ∧ i.alloc = loc)) := by
  rcases h.holds with ⟨hne, _⟩ | ⟨_, p, hp, hholds⟩
  · exact absurd htype hne
  have hadded : ∀ e, (sps ins.id).Has e →
      (∀ code, e ≠ .gcReg code) → (∀ slot, e ≠ .gcSlot slot) → ∃ m t' p', g.Visits m t' ins ∧
        g.vregs (m + 1) = some p' ∧ NunboxAdds t' p' ins e := by
    intro e he hreg hslot
    rcases (hchar ins.id e).1 he with ⟨m, t', ins', hid, hvisits, hadds⟩
    have heq := wf.eq_of_id hvisits.mem h.mem hid
    subst heq
    rw [Adds] at hadds
    split_ifs at hadds with htype'
    · rcases hadds with ⟨p', hp', hadds⟩
      exact ⟨m, t', p', hvisits, hp', hadds⟩
    · cases hadds with
      | gcReg _ _ _ => exact absurd rfl (hreg _)
      | gcSlot _ _ => exact absurd rfl (hslot _)
  cases hcorrect.value h htype with
  | valueSlot hslot hhas htloc htslot _ =>
    refine ⟨?_, Or.inl ⟨_, htloc, htslot⟩⟩
    rcases hadded _ hhas (fun _ heq => by cases heq) (fun _ heq => by cases heq) with
      ⟨m, t', p', hvisits, hp', hadds⟩
    generalize hs : loc.slot = slot at hadds
    cases hadds with
    | valueSlot _ hpi _ _ hspilled =>
      rcases (wf.isSpilledAt_iff hp' hpi).1 hspilled with ⟨loc', hloc', hslot'⟩
      refine (h.visits_of_adds_value hfree hp hholds hvisits hp' hloc'
        (Or.inr ⟨hslot, hslot', ?_⟩)).2
      rw [hs, wf.slot_eq hp' hloc' hslot']
      rfl
  | parts hhas htloc =>
    rcases hadded _ hhas (fun _ heq => by cases heq) (fun _ heq => by cases heq) with
      ⟨m, t', p', hvisits, hp', hadds⟩
    cases hadds with
    | parts _ hpi _ hcall _ =>
      rcases VirtualRegister.intervalFor_eq_some.1 hpi with ⟨hmem, hcovers⟩
      rcases h.visits_of_adds_value hfree hp hholds hvisits hp'
        (VirtualRegister.Holds.interval hmem hcovers) (samePlace_self h.tracked) with
        ⟨rfl, hvisits'⟩
      exact ⟨hvisits', Or.inr ⟨hcall, p', hp', _, hmem, hcovers, rfl⟩⟩

/-- **`populateSafepoints` records what it has to just if its condition is met.** -/
theorem populateSafepoints_correct_iff (wf : g.WellFormed) (hfree : g.ConflictFree) :
    (∃ sps, g.populateSafepoints = some sps ∧ g.Correct sps) ↔ g.Condition := by
  rcases wf.populateSafepoints_spec with ⟨hfail, hpopulate⟩
  constructor
  · rintro ⟨sps, heq, hcorrect⟩
    have hhalves : ∀ n r ins, g.Visits n r ins → ¬ g.Fails n r ins := by
      intro n r ins hvisits hfails
      rw [hfail ⟨n, r, ins, hvisits, hfails⟩] at heq
      cases heq
    rcases hpopulate hhalves with ⟨sps', heq', hchar⟩
    rw [heq] at heq'
    cases heq'
    refine ⟨?_, ?_, ?_⟩
    · intro n r ins loc h
      by_cases htype : r.type = .type
      · exact (hcorrect.visits_value wf hfree hchar h htype).1
      · exact hcorrect.visits_traceable wf hfree hchar h htype
    · intro n r ins
      exact hhalves n r ins
    · intro n t ins loc h htype _
      exact (hcorrect.visits_value wf hfree hchar h htype).2
  · intro hc
    rcases hpopulate fun n r ins => hc.halves with ⟨sps, heq, hchar⟩
    have hhas : ∀ {n r ins}, g.Visits n r ins → ∀ e, g.Adds n r ins e → (sps ins.id).Has e := by
      intro n r ins hvisits e hadds
      exact (hchar ins.id e).2 ⟨n, r, ins, rfl, hvisits, hadds⟩
    refine ⟨sps, heq, ?_, ?_, ?_⟩
    · intro n r ins loc h htype
      exact wf.adds_traceable h htype (hhas (hc.visited h))
    · intro n r ins loc h htype
      exact wf.adds_value hc h htype (hhas (hc.visited h))
    · intro ins hins e he slot hreads
      rcases (hchar ins.id e).1 he with ⟨n, r, ins', hid, hvisits, hadds⟩
      have hins' := wf.eq_of_id hvisits.mem hins hid
      subst hins'
      exact wf.adds_written hvisits hadds hreads

end AllocatedGraph

/-! ### A payload in a register, with its spill slot filled -/

/-- An interval of a single range. -/
def singleInterval (fromPos toPos : Nat) (h : fromPos < toPos) (alloc : LAllocation) :
    AllocatedInterval :=
  ⟨[⟨fromPos, toPos, h⟩], by simp, List.pairwise_singleton _ _, alloc⟩

/-- The type stays in a register. -/
def tornType : VirtualRegister :=
  ⟨.type, 2, false, [singleInterval 4 30 (by decide) (.gpr 1)], by decide,
    List.pairwise_singleton _ _, none, by decide, false, 0⟩

/-- The payload is spilled twice, and so at its definition; in between it is in a register. -/
def tornPayload : VirtualRegister :=
  ⟨.payload, 2, false,
    [singleInterval 4 8 (by decide) (.gpr 0), singleInterval 8 10 (by decide) (.stackSlot 2),
      singleInterval 10 20 (by decide) (.gpr 0), singleInterval 20 30 (by decide) (.stackSlot 2)],
    by decide, by decide, some (singleInterval 8 10 (by decide) (.stackSlot 2)), by decide, true, 5⟩

/-- A safepoint that is no call, while the payload is in the register. -/
def tornGraph : AllocatedGraph :=
  ⟨3, fun n => if n = 1 then some tornType else if n = 2 then some tornPayload else none,
    [⟨6, false⟩]⟩

lemma tornGraph_vregs {n : Nat} {r : VirtualRegister} (h : tornGraph.vregs n = some r) :
    (n = 1 ∧ r = tornType) ∨ (n = 2 ∧ r = tornPayload) := by
  simp only [tornGraph] at h
  split_ifs at h with h1 h2
  · exact Or.inl ⟨h1, (Option.some.inj h).symm⟩
  · exact Or.inr ⟨h2, (Option.some.inj h).symm⟩

lemma tornGraph_wellFormed : tornGraph.WellFormed := by
  refine ⟨?_, ?_, ?_, ?_, ?_, ?_, ?_, ?_⟩
  · intro n r h
    rcases tornGraph_vregs h with ⟨rfl, _⟩ | ⟨rfl, _⟩ <;> decide
  · decide
  · intro n t h htype
    rcases tornGraph_vregs h with ⟨rfl, rfl⟩ | ⟨rfl, rfl⟩
    · exact ⟨tornPayload, rfl, rfl, by decide⟩
    · cases htype
  · intro n p h hpayload
    rcases tornGraph_vregs h with ⟨rfl, rfl⟩ | ⟨rfl, rfl⟩
    · cases hpayload
    · exact ⟨1, tornType, rfl, rfl, rfl⟩
  · intro n r c h hc
    rcases tornGraph_vregs h with ⟨rfl, rfl⟩ | ⟨rfl, rfl⟩
    · cases hc
    · cases hc
      rfl
  · intro n r h
    rcases tornGraph_vregs h with ⟨rfl, rfl⟩ | ⟨rfl, rfl⟩
    · decide
    · intro i hi hmemory
      refine ⟨_, rfl, ?_, Or.inr rfl⟩
      revert i
      decide
  · intro n r h hdef ins hins _ _
    rcases tornGraph_vregs h with ⟨rfl, rfl⟩ | ⟨rfl, rfl⟩
    · cases hdef
    · rw [List.mem_singleton.1 hins]
      decide
  · intro n t p c d h htype _ hc _ _ _
    rcases tornGraph_vregs h with ⟨rfl, rfl⟩ | ⟨rfl, rfl⟩
    · cases hc
    · cases htype

lemma tornType_holds {pos : Nat} {loc : LAllocation} (h : tornType.Holds pos loc) :
    loc = .gpr 1 := by
  cases h with
  | interval hmem _ =>
    rw [List.mem_singleton.1 hmem]
    rfl
  | spilled _ hdef _ => cases hdef

lemma tornPayload_holds {pos : Nat} {loc : LAllocation} (h : tornPayload.Holds pos loc) :
    loc = .gpr 0 ∨ loc = .stackSlot 2 := by
  cases h with
  | interval hmem _ =>
    have hall : ∀ i ∈ tornPayload.intervals, i.alloc = .gpr 0 ∨ i.alloc = .stackSlot 2 := by
      decide
    exact hall _ hmem
  | spilled _ _ hc =>
    cases hc
    exact Or.inr rfl

lemma tornGraph_conflictFree : tornGraph.ConflictFree := by
  intro n n' r r' ins loc loc' h h' _ hloc hloc' hsame
  rcases tornGraph_vregs h with ⟨rfl, rfl⟩ | ⟨rfl, rfl⟩ <;>
    rcases tornGraph_vregs h' with ⟨rfl, rfl⟩ | ⟨rfl, rfl⟩
  · rfl
  · rw [tornType_holds hloc] at hsame
    rcases tornPayload_holds hloc' with rfl | rfl <;> revert hsame <;>
      simp [AllocatedGraph.SamePlace, LAllocation.isStackSlot]
  · rw [tornType_holds hloc'] at hsame
    rcases tornPayload_holds hloc with rfl | rfl <;> revert hsame <;>
      simp [AllocatedGraph.SamePlace, LAllocation.isStackSlot]
  · rfl

theorem populateSafepoints_correct_iff_torn :
    (∃ sps, tornGraph.populateSafepoints = some sps ∧ tornGraph.Correct sps) ↔
      tornGraph.Condition :=
  AllocatedGraph.populateSafepoints_correct_iff tornGraph_wellFormed tornGraph_conflictFree

/-- The safepoint has the registers of the value as its parts; the payload's slot, from which it
is read at position 20, is not recorded. -/
theorem populateSafepoints_torn :
    tornGraph.WellFormed ∧ tornGraph.ConflictFree ∧
      ¬ ∃ sps, tornGraph.populateSafepoints = some sps ∧ tornGraph.Correct sps := by
  refine ⟨tornGraph_wellFormed, tornGraph_conflictFree, ?_⟩
  rintro ⟨sps, heq, hcorrect⟩
  have hrecord : sps 6 = ⟨[], [], [], [(.gpr 1, .gpr 0)]⟩ := by
    have hrun : tornGraph.populateSafepoints.map (fun sps => sps 6) =
        some ⟨[], [], [], [(.gpr 1, .gpr 0)]⟩ := by
      decide +kernel
    rw [heq] at hrun
    exact Option.some.inj hrun
  have hlive : tornPayload.Live (inputOf 6) := by decide
  have hneeds : tornGraph.Needs 1 tornType ⟨6, false⟩ (.stackSlot 2) :=
    ⟨⟨rfl, Or.inr rfl⟩, List.mem_singleton_self _, rfl,
      Or.inr ⟨rfl, tornPayload, rfl, VirtualRegister.Holds.spilled hlive rfl rfl⟩, Or.inl rfl⟩
  have hvalue := hcorrect.value hneeds rfl
  simp only at hvalue
  rw [hrecord] at hvalue
  cases hvalue with
  | valueSlot _ hhas _ _ _ => cases hhas
  | parts hhas _ =>
    rcases List.mem_cons.1 hhas with heq | hmem
    · cases heq
    · cases hmem

end SpiderMonkey.Ion.LinearScan
