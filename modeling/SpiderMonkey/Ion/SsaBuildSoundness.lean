import SpiderMonkey.Ion.SsaBuild

/-! # What comes into the slots of a block

In every graph that the builder makes, and in every run of it, the entry slots of a block have
the values that the slots of the predecessor had at its end.
-/

namespace SpiderMonkey.Ion.SsaBuild

open List

/-! ## What is known of a block -/

/-- The slots of the blocks at their ends. -/
abbrev Exits := Nat → Option (List MDefinition)

/-- Slot `i` of block `p` is `x` at its end. -/
def Incoming (exits : Exits) (p i : Nat) (x : MDefinition) : Prop :=
  ∃ s, exits p = some s ∧ s[i]? = some x

/-- What is known of entry slot `i` of block `b`. A phi of the block has an operand for each
predecessor: what comes from there. The phi itself can come over a backedge; the operand is
then that of the first predecessor. -/
inductive EntrySlot (exits : Exits) (b : Nat) (kind : BlockKind) (phis : List MPhi)
    (preds : List Nat) (i : Nat) (d : MDefinition) : Prop where
  | phi {n inputs} (hd : d = .phi b n) (hphi : phis[n]? = some ⟨i, inputs⟩)
      (hlength : inputs.length = preds.length)
      (hin : ∀ (j p : Nat), preds[j]? = some p → ∃ x, Incoming exits p i x ∧
        (inputs[j]? = some x ∨ (x = d ∧ kind = .loopHeader ∧
          ∃ x₀ : MDefinition, inputs = [x₀, x₀] ∧ x₀.block < b)))
  | same (hblock : d.block < b) (hne : preds ≠ []) (hin : ∀ p ∈ preds, Incoming exits p i d)
  | start (hpreds : preds = []) (hphi : d.isPhi = false) (hblock : d.block ≤ b)

/-- What is known of a loop header: it has a phi for each slot. -/
structure HeaderOk (b : Nat) (block : MBasicBlock) : Prop where
  entry : ∀ (i : Nat) (d : MDefinition), block.entryResumePoint[i]? = some d → d = .phi b i
  phis : ∀ (n : Nat) (phi : MPhi), block.phis[n]? = some phi → phi.slot = n ∧
    ∃ (x₀ : MDefinition) (rest : List MDefinition), phi.inputs = x₀ :: rest ∧ x₀.block < b
  pending : block.kind = .pendingLoopHeader → block.predecessors.length = 1

/-- What is known of a block. -/
structure BlockOk (exits : Exits) (b : Nat) (block : MBasicBlock) : Prop where
  entry : ∀ (i : Nat) (d : MDefinition), block.entryResumePoint[i]? = some d →
    EntrySlot exits b block.kind block.phis block.predecessors i d
  slots : ∀ d ∈ block.slots, d ∈ block.entryResumePoint ∨ ∃ n, d = .instruction b n
  exit : ∀ s, block.lastIns = some s → ∀ d ∈ s, d ∈ block.entryResumePoint ∨
    ∃ n, d = .instruction b n
  ended : ∀ s, block.lastIns = some s → block.kind ≠ .loopHeader → block.slots = s
  predecessors : ∀ p ∈ block.predecessors, ∃ s, exits p = some s ∧
    s.length = block.entryResumePoint.length
  first : ∀ p : Nat, block.predecessors[0]? = some p → p < b
  header : block.kind ≠ .normal → HeaderOk b block

def WellBuilt (g : MIRGraph) : Prop := ∀ b block, g[b]? = some block → BlockOk g.exits b block

lemma Incoming.mono {exits exits' : Exits} (h : ∀ p s, exits p = some s → exits' p = some s)
    {p i : Nat} {x : MDefinition} (hin : Incoming exits p i x) : Incoming exits' p i x := by
  rcases hin with ⟨s, hs, hx⟩
  exact ⟨s, h p s hs, hx⟩

variable {b : Nat} {preds : List Nat} {d : MDefinition}

lemma EntrySlot.mono {exits exits' : Exits} (h : ∀ p s, exits p = some s → exits' p = some s)
    {kind : BlockKind} {phis : List MPhi} {i : Nat} (hd : EntrySlot exits b kind phis preds i d) :
    EntrySlot exits' b kind phis preds i d := by
  cases hd with
  | phi hd hphi hlength hin =>
    refine .phi hd hphi hlength ?_
    intro j p hp
    rcases hin j p hp with ⟨x, hx, hoperand⟩
    exact ⟨x, hx.mono h, hoperand⟩
  | same hblock hne hin => exact .same hblock hne fun p hp => (hin p hp).mono h
  | start hpreds hphi hblock => exact .start hpreds hphi hblock

variable {block : MBasicBlock}

lemma BlockOk.mono {exits exits' : Exits} (h : ∀ p s, exits p = some s → exits' p = some s)
    (hok : BlockOk exits b block) : BlockOk exits' b block where
  entry := fun i d hd => (hok.entry i d hd).mono h
  slots := hok.slots
  exit := hok.exit
  ended := hok.ended
  predecessors := fun p hp => by
    rcases hok.predecessors p hp with ⟨s, hs, hlength⟩
    exact ⟨s, h p s hs, hlength⟩
  first := hok.first
  header := hok.header

variable {exits : Exits}

/-- No definition comes from a later block. -/
lemma EntrySlot.block_le {kind : BlockKind} {phis : List MPhi} {i : Nat}
    (h : EntrySlot exits b kind phis preds i d) :
    d.block ≤ b := by
  cases h with
  | phi hd =>
    rw [hd]
    exact Nat.le_refl b
  | same hblock => exact Nat.le_of_lt hblock
  | start _ _ hblock => exact hblock

lemma BlockOk.entry_block_le (hok : BlockOk exits b block) (hd : d ∈ block.entryResumePoint) :
    d.block ≤ b := by
  rcases mem_iff_getElem?.mp hd with ⟨i, hi⟩
  exact (hok.entry i d hi).block_le

lemma BlockOk.slot_block_le (hok : BlockOk exits b block) (hd : d ∈ block.slots) :
    d.block ≤ b := by
  rcases hok.slots d hd with hd | ⟨n, rfl⟩
  · exact hok.entry_block_le hd
  · exact Nat.le_refl b

/-! ## Changing a graph -/

variable {g : MIRGraph}

lemma exits_eq (h : g[b]? = some block) :
    g.exits b = block.lastIns := by
  rw [MIRGraph.exits, h]
  rfl

variable {s : List MDefinition}

lemma exits_append (block : MBasicBlock) {p : Nat} (h : g.exits p = some s) :
    MIRGraph.exits (g ++ [block]) p = some s := by
  rcases Nat.lt_or_ge p g.length with hlt | hge
  · rw [MIRGraph.exits, List.getElem?_append_left hlt]
    exact h
  · rw [MIRGraph.exits, List.getElem?_eq_none hge] at h
    cases h

lemma WellBuilt.append (h : WellBuilt g) (hblock : BlockOk g.exits g.length block) :
    WellBuilt (g ++ [block]) := by
  intro b block' hb
  rcases Nat.lt_or_ge b g.length with hlt | hge
  · rw [List.getElem?_append_left hlt] at hb
    exact (h b block' hb).mono fun p s => exits_append block
  · have hlast : b = g.length := by
      have hsome := (List.getElem?_eq_some_iff.mp hb).1
      rw [length_append, length_singleton] at hsome
      omega
    subst hlast
    rw [List.getElem?_concat_length] at hb
    cases hb
    exact hblock.mono fun p s => exits_append block

lemma exits_set {block block' : MBasicBlock} (hb : g[b]? = some block)
    (hlast : ∀ s, block.lastIns = some s → block'.lastIns = some s) {p : Nat}
    (h : g.exits p = some s) :
    MIRGraph.exits (g.set b block') p = some s := by
  rcases Decidable.em (b = p) with rfl | hne
  · rw [exits_eq hb] at h
    have hset : (g.set b block')[b]? = some block' :=
      List.getElem?_set_self (List.getElem?_eq_some_iff.mp hb).1
    rw [exits_eq hset]
    exact hlast s h
  · rw [MIRGraph.exits, List.getElem?_set_ne hne]
    exact h

lemma WellBuilt.set (h : WellBuilt g) {block block' : MBasicBlock} (hb : g[b]? = some block)
    (hlast : ∀ s, block.lastIns = some s → block'.lastIns = some s)
    (hblock : BlockOk g.exits b block') : WellBuilt (g.set b block') := by
  intro c block'' hc
  rcases Decidable.em (b = c) with rfl | hne
  · rw [List.getElem?_set_self (List.getElem?_eq_some_iff.mp hb).1] at hc
    cases hc
    exact hblock.mono fun p s => exits_set hb hlast
  · rw [List.getElem?_set_ne hne] at hc
    exact (h c block'' hc).mono fun p s => exits_set hb hlast

/-- A predecessor has its slots as they were at its end. -/
lemma WellBuilt.exit_slots (h : WellBuilt g) {pred : Nat} {p : MBasicBlock}
    (hexit : g.isExit pred) (hp : g[pred]? = some p) : g.exits pred = some p.slots := by
  rcases hexit with ⟨p', hp', hended, hkind⟩
  rw [hp] at hp'
  cases hp'
  rcases Option.isSome_iff_exists.mp hended with ⟨s, hs⟩
  rw [exits_eq hp, hs, (h pred p hp).ended s hs hkind]

/-- A phi is in the slots of another block only once its own block has ended. -/
lemma WellBuilt.exits_of_phi (h : WellBuilt g) {b n p : Nat} (hs : g.exits p = some s)
    (hphi : .phi b n ∈ s) :
    (g.exits b).isSome := by
  induction p using Nat.strongRecOn generalizing s with
  | _ p ih =>
    rcases Option.bind_eq_some_iff.mp hs with ⟨block, hblock, hlast⟩
    have hok := h p block hblock
    rcases hok.exit s hlast _ hphi with hentry | ⟨m, hm⟩
    · rcases mem_iff_getElem?.mp hentry with ⟨i, hi⟩
      cases hok.entry i _ hi with
      | phi hd =>
        cases hd
        rw [hs]
        rfl
      | same _ hne hin =>
        -- the first predecessor has it too, and is an earlier block
        rcases exists_cons_of_ne_nil hne with ⟨p₀, rest, hpreds⟩
        have hfirst : block.predecessors[0]? = some p₀ := by
          rw [hpreds]
          rfl
        rcases hin p₀ (mem_of_getElem? hfirst) with ⟨s₀, hs₀, hx⟩
        exact ih p₀ (hok.first p₀ hfirst) hs₀ (mem_of_getElem? hx)
      | start _ hnophi => cases hnophi
    · cases hm

/-! ## Joins -/

/-- Other phis than those of the slot may change. -/
lemma EntrySlot.congr {kind : BlockKind} {phis phis' : List MPhi} {i : Nat}
    (h : EntrySlot exits b kind phis preds i d)
    (hphis : ∀ (n : Nat) inputs, phis[n]? = some ⟨i, inputs⟩ → phis'[n]? = some ⟨i, inputs⟩) :
    EntrySlot exits b kind phis' preds i d := by
  cases h with
  | phi hd hphi hlength hin => exact .phi hd (hphis _ _ hphi) hlength hin
  | same hblock hne hin => exact .same hblock hne hin
  | start hpreds hphi hblock => exact .start hpreds hphi hblock

lemma addInput_phis_self {n : Nat} {phi : MPhi} (d : MDefinition) (h : block.phis[n]? = some phi) :
    (block.addInput n d).phis[n]? = some { phi with inputs := phi.inputs ++ [d] } := by
  simp [MBasicBlock.addInput, h]

lemma addInput_phis_ne (block : MBasicBlock) {n m : Nat} (d : MDefinition) (h : n ≠ m) :
    (block.addInput n d).phis[m]? = block.phis[m]? := by
  simp [MBasicBlock.addInput, h]

lemma newPhi_phis_last (b : Nat) (block : MBasicBlock) (i : Nat) (mine : MDefinition) :
    (block.newPhi b i mine).phis[block.phis.length]? =
      some ⟨i, List.replicate block.predecessors.length mine⟩ := by
  simp [MBasicBlock.newPhi]

lemma newPhi_phis_of_lt (b : Nat) (block : MBasicBlock) (i : Nat) (mine : MDefinition) {m : Nat}
    (h : m < block.phis.length) : (block.newPhi b i mine).phis[m]? = block.phis[m]? :=
  List.getElem?_append_left h

/-- A join block, while it takes `pred`: the slots below `k` are done. -/
structure Joining (exits : Exits) (b : Nat) (preds : List Nat) (pred length k : Nat)
    (block : MBasicBlock) : Prop where
  kind : block.kind = .normal
  predecessors : block.predecessors = preds
  lastIns : block.lastIns = none
  slots : block.slots = block.entryResumePoint
  depth : block.entryResumePoint.length = length
  done : ∀ (i : Nat) (d : MDefinition), i < k → block.entryResumePoint[i]? = some d →
    EntrySlot exits b .normal block.phis (preds ++ [pred]) i d
  todo : ∀ (i : Nat) (d : MDefinition), k ≤ i → block.entryResumePoint[i]? = some d →
    EntrySlot exits b .normal block.phis preds i d

/-- The operands of a phi, with one more for a new predecessor. -/
lemma operand_concat {pred i : Nat} {inputs : List MDefinition} {other : MDefinition}
    (hlength : inputs.length = preds.length)
    (hin : ∀ (j p : Nat), preds[j]? = some p → ∃ x, Incoming exits p i x ∧ inputs[j]? = some x)
    (hother : Incoming exits pred i other) (j p : Nat) (hp : (preds ++ [pred])[j]? = some p) :
    ∃ x, Incoming exits p i x ∧ (inputs ++ [other])[j]? = some x := by
  rcases Nat.lt_or_ge j preds.length with hlt | hge
  · rw [List.getElem?_append_left hlt] at hp
    rcases hin j p hp with ⟨x, hx, hoperand⟩
    refine ⟨x, hx, ?_⟩
    rw [List.getElem?_append_left (hlength ▸ hlt)]
    exact hoperand
  · have hj : j = preds.length := by
      have hlt := (List.getElem?_eq_some_iff.mp hp).1
      rw [length_append, length_singleton] at hlt
      omega
    subst hj
    rw [List.getElem?_concat_length] at hp
    cases hp
    refine ⟨other, hother, ?_⟩
    rw [← hlength, List.getElem?_concat_length]

lemma Joining.addInput {pred length k n : Nat} {other : MDefinition}
    (h : Joining exits b preds pred length k block)
    (hmine : block.entryResumePoint[k]? = some (.phi b n)) (hother : Incoming exits pred k other) :
    Joining exits b preds pred length (k + 1) (block.addInput n other) := by
  rcases h with ⟨hkind, hpreds, hlast, hslots, hlength, hdone, htodo⟩
  -- what is known of slot `k` is that its phi is the one that gets the operand
  have hphi : ∃ inputs, block.phis[n]? = some ⟨k, inputs⟩ ∧ inputs.length = preds.length ∧
      ∀ (j p : Nat), preds[j]? = some p → ∃ x, Incoming exits p k x ∧ inputs[j]? = some x := by
    cases htodo k _ (Nat.le_refl k) hmine with
    | phi hd hphi hlen hin =>
      cases hd
      refine ⟨_, hphi, hlen, ?_⟩
      intro j p hp
      rcases hin j p hp with ⟨x, hx, hoperand | ⟨_, hloop, _⟩⟩
      · exact ⟨x, hx, hoperand⟩
      · cases hloop
    | same hblock => exact absurd hblock (Nat.lt_irrefl b)
    | start _ hnophi => cases hnophi
  rcases hphi with ⟨inputs, hphi, hlen, hin⟩
  have hother' : ∀ i, i ≠ k → ∀ (m : Nat) inputs, block.phis[m]? = some ⟨i, inputs⟩ →
      (block.addInput n other).phis[m]? = some ⟨i, inputs⟩ := by
    intro i hi m inputs' hm
    have hne : n ≠ m := by
      rintro rfl
      rw [hphi] at hm
      cases hm
      exact hi rfl
    rw [addInput_phis_ne block other hne, hm]
  refine ⟨hkind, hpreds, hlast, hslots, hlength, ?_, ?_⟩
  · intro i d hi hd
    rcases Nat.lt_succ_iff_lt_or_eq.mp hi with hlt | rfl
    · exact (hdone i d hlt hd).congr (hother' i (Nat.ne_of_lt hlt))
    · have hd' : d = .phi b n := Option.some.inj (hd.symm.trans hmine)
      refine .phi hd' (addInput_phis_self other hphi) ?_ ?_
      · rw [length_append, length_append, hlen]
        rfl
      · intro j p hp
        rcases operand_concat hlen hin hother j p hp with ⟨x, hx, hoperand⟩
        exact ⟨x, hx, Or.inl hoperand⟩
  · intro i d hi hd
    exact (htodo i d (by omega) hd).congr (hother' i (by omega))

lemma Joining.newPhi {pred length k : Nat} {mine other : MDefinition}
    (h : Joining exits b preds pred length k block)
    (hmine : block.entryResumePoint[k]? = some mine) (hown : ∀ n, mine ≠ .phi b n)
    (hpreds : preds ≠ []) (hother : Incoming exits pred k other) :
    Joining exits b preds pred length (k + 1)
      ((block.newPhi b k mine).addInput block.phis.length other) := by
  rcases h with ⟨hkind, hpreds', hlast, hslots, hlength, hdone, htodo⟩
  have hk : k < block.entryResumePoint.length := (List.getElem?_eq_some_iff.mp hmine).1
  have hin : ∀ p ∈ preds, Incoming exits p k mine := by
    cases htodo k _ (Nat.le_refl k) hmine with
    | phi hd => exact absurd hd (hown _)
    | same _ _ hin => exact hin
    | start hnone => exact absurd hnone hpreds
  have hold : ∀ (i m : Nat) inputs, block.phis[m]? = some ⟨i, inputs⟩ →
      ((block.newPhi b k mine).addInput block.phis.length other).phis[m]? = some ⟨i, inputs⟩ := by
    intro i m inputs hm
    have hlt : m < block.phis.length := (List.getElem?_eq_some_iff.mp hm).1
    rw [addInput_phis_ne _ other (Nat.ne_of_gt hlt), newPhi_phis_of_lt b block k mine hlt, hm]
  have hentry : ((block.newPhi b k mine).addInput block.phis.length other).entryResumePoint =
      block.entryResumePoint.set k (.phi b block.phis.length) := rfl
  refine ⟨hkind, hpreds', hlast, ?_, ?_, ?_, ?_⟩
  · show block.slots.set k _ = block.entryResumePoint.set k _
    rw [hslots]
  · rw [hentry, length_set, hlength]
  · intro i d hi hd
    rw [hentry] at hd
    rcases Nat.lt_succ_iff_lt_or_eq.mp hi with hlt | rfl
    · rw [List.getElem?_set_ne (Nat.ne_of_gt hlt)] at hd
      exact (hdone i d hlt hd).congr (hold i)
    · rw [List.getElem?_set_self hk] at hd
      cases hd
      have hphi := newPhi_phis_last b block i mine
      rw [hpreds'] at hphi
      refine .phi rfl (addInput_phis_self other hphi) ?_ ?_
      · simp
      · intro j p hp
        have hreplicate : ∀ (j p : Nat), preds[j]? = some p →
            ∃ x, Incoming exits p i x ∧ (List.replicate preds.length mine)[j]? = some x := by
          intro j p hp
          have hj := (List.getElem?_eq_some_iff.mp hp).1
          exact ⟨mine, hin p (mem_of_getElem? hp), by simp [hj]⟩
        rcases operand_concat length_replicate hreplicate hother j p hp with ⟨x, hx, hoperand⟩
        exact ⟨x, hx, Or.inl hoperand⟩
  · intro i d hi hd
    have hne : k ≠ i := by omega
    rw [hentry, List.getElem?_set_ne hne] at hd
    exact (htodo i d (by omega) hd).congr (hold i)

/-- The same definition comes from the new predecessor. -/
lemma Joining.skip {pred length k : Nat} {mine : MDefinition}
    (h : Joining exits b preds pred length k block)
    (hmine : block.entryResumePoint[k]? = some mine) (hown : ∀ n, mine ≠ .phi b n)
    (hpreds : preds ≠ []) (hother : Incoming exits pred k mine) :
    Joining exits b preds pred length (k + 1) block := by
  rcases h with ⟨hkind, hpreds', hlast, hslots, hlength, hdone, htodo⟩
  refine ⟨hkind, hpreds', hlast, hslots, hlength, ?_, ?_⟩
  · intro i d hi hd
    rcases Nat.lt_succ_iff_lt_or_eq.mp hi with hlt | rfl
    · exact hdone i d hlt hd
    · have hd' : d = mine := Option.some.inj (hd.symm.trans hmine)
      subst hd'
      cases htodo i _ (Nat.le_refl i) hmine with
      | phi hd => exact absurd hd (hown _)
      | same hblock _ hin =>
        refine .same hblock (by simp) ?_
        intro p hp
        rcases mem_append.mp hp with hp | hp
        · exact hin p hp
        · rw [mem_singleton.mp hp]
          exact hother
      | start hnone => exact absurd hnone hpreds
  · intro i d hi hd
    exact htodo i d (by omega) hd

lemma Joining.joinSlot {pred length k : Nat} {other : MDefinition}
    (h : Joining exits b preds pred length k block) (hpreds : preds ≠ []) (hk : k < length)
    (hown : ∀ n, other ≠ .phi b n) (hother : Incoming exits pred k other) :
    Joining exits b preds pred length (k + 1) (block.joinSlot b k other) := by
  have hk' : k < block.entryResumePoint.length := h.depth.symm ▸ hk
  have hmine := List.getElem?_eq_getElem hk'
  generalize block.entryResumePoint[k] = mine at hmine
  have hslot : block.slots[k]? = some mine := by
    rw [h.slots]
    exact hmine
  rcases Decidable.em (mine = other) with rfl | hne
  · have hjoin : block.joinSlot b k mine = block := by simp [MBasicBlock.joinSlot, hslot]
    rw [hjoin]
    exact h.skip hmine hown hpreds hother
  · cases mine with
    | instruction c n =>
      have hjoin : block.joinSlot b k other =
          (block.newPhi b k (.instruction c n)).addInput block.phis.length other := by
        simp [MBasicBlock.joinSlot, hslot, hne]
      rw [hjoin]
      exact h.newPhi hmine (fun m hm => by cases hm) hpreds hother
    | phi c n =>
      rcases Decidable.em (c = b) with rfl | hc
      · have hjoin : block.joinSlot c k other = block.addInput n other := by
          simp [MBasicBlock.joinSlot, hslot, hne]
        rw [hjoin]
        exact h.addInput hmine hother
      · have hjoin : block.joinSlot b k other =
            (block.newPhi b k (.phi c n)).addInput block.phis.length other := by
          simp [MBasicBlock.joinSlot, hslot, hne, hc]
        rw [hjoin]
        refine h.newPhi hmine ?_ hpreds hother
        rintro m hm
        cases hm
        exact hc rfl

/-- The loop over the slots, with the slots from `k` on still to be done. -/
lemma Joining.joinSlots {pred length : Nat} (hpreds : preds ≠ []) (others : List MDefinition)
    (k : Nat) (block : MBasicBlock) (h : Joining exits b preds pred length k block)
    (hlength : k + others.length = length) (hothers : ∀ (i : Nat) d, others[i]? = some d →
      Incoming exits pred (k + i) d ∧ ∀ n, d ≠ .phi b n) :
    Joining exits b preds pred length length (block.joinSlots b k others) := by
  induction others generalizing k block with
  | nil =>
    rw [length_nil, Nat.add_zero] at hlength
    exact hlength ▸ h
  | cons other others ih =>
    rw [length_cons] at hlength
    rcases hothers 0 other rfl with ⟨hother, hown⟩
    have hstep := h.joinSlot hpreds (by omega) hown hother
    refine ih (k + 1) _ hstep (by omega) ?_
    intro i d hd
    have hnext := hothers (i + 1) d hd
    rwa [Nat.add_comm i 1, ← Nat.add_assoc] at hnext

/-! ## Backedges -/

/-- A loop header, while it takes its backedge from `pred`: the slots below `k` are done. -/
structure Closing (exits : Exits) (b p₀ pred k : Nat) (header block : MBasicBlock) : Prop where
  kind : block.kind = .pendingLoopHeader
  predecessors : block.predecessors = [p₀]
  lastIns : block.lastIns = header.lastIns
  resume : block.entryResumePoint = header.entryResumePoint
  entry : ∀ (i : Nat) (d : MDefinition), block.entryResumePoint[i]? = some d → d = .phi b i
  slots : ∀ d ∈ block.slots, d ∈ block.entryResumePoint ∨ ∃ n, d = .instruction b n
  phis : ∀ (n : Nat) (phi : MPhi), block.phis[n]? = some phi → phi.slot = n ∧
    ∃ (x₀ : MDefinition) (rest : List MDefinition), phi.inputs = x₀ :: rest ∧ x₀.block < b
  done : ∀ (i : Nat) (d : MDefinition), i < k → block.entryResumePoint[i]? = some d →
    EntrySlot exits b .loopHeader block.phis [p₀, pred] i d
  todo : ∀ (i : Nat) (d : MDefinition), k ≤ i → block.entryResumePoint[i]? = some d →
    ∃ x₀ : MDefinition, block.phis[i]? = some ⟨i, [x₀]⟩ ∧ x₀.block < b ∧ Incoming exits p₀ i x₀

lemma Closing.step {b p₀ pred k : Nat} {header block : MBasicBlock}
    (h : Closing exits b p₀ pred k header block) {exitDef x₀ : MDefinition}
    (hentry : block.entryResumePoint[k]? = some (.phi b k))
    (hphi : block.phis[k]? = some ⟨k, [x₀]⟩) (hblock : x₀.block < b) (hin : Incoming exits p₀ k x₀)
    (hexit : Incoming exits pred k exitDef) :
    Closing exits b p₀ pred (k + 1) header
      { block.addInput k (if .phi b k = exitDef then x₀ else exitDef) with
        slots := block.slots.set k (.phi b k) } := by
  generalize he : (if .phi b k = exitDef then x₀ else exitDef) = e
  have hself := addInput_phis_self e hphi
  have hphis : ∀ (n : Nat) (phi : MPhi), (block.addInput k e).phis[n]? = some phi →
      (n = k ∧ phi = ⟨k, [x₀, e]⟩) ∨ block.phis[n]? = some phi := by
    intro n phi hn
    rcases Decidable.em (k = n) with rfl | hne
    · rw [hself] at hn
      cases hn
      exact Or.inl ⟨rfl, rfl⟩
    · rw [addInput_phis_ne block e hne] at hn
      exact Or.inr hn
  refine ⟨h.kind, h.predecessors, h.lastIns, h.resume, h.entry, ?_, ?_, ?_, ?_⟩
  · intro d hd
    rcases mem_or_eq_of_mem_set hd with hd | rfl
    · exact h.slots d hd
    · exact Or.inl (mem_of_getElem? hentry)
  · intro n phi hn
    rcases hphis n phi hn with ⟨rfl, rfl⟩ | hn
    · exact ⟨rfl, x₀, [e], rfl, hblock⟩
    · exact h.phis n phi hn
  · intro i d hi hd
    rcases Nat.lt_succ_iff_lt_or_eq.mp hi with hlt | rfl
    · refine (h.done i d hlt hd).congr ?_
      intro n inputs hn
      show (block.addInput k e).phis[n]? = _
      have hne : k ≠ n := by
        rintro rfl
        rw [hphi] at hn
        cases hn
        exact Nat.lt_irrefl _ hlt
      rw [addInput_phis_ne block e hne, hn]
    · refine .phi (h.entry i d hd) hself rfl ?_
      intro j p hp
      match j with
      | 0 =>
        cases hp
        exact ⟨x₀, hin, Or.inl rfl⟩
      | 1 =>
        cases hp
        refine ⟨exitDef, hexit, ?_⟩
        rcases Decidable.em (.phi b i = exitDef) with heq | hne
        · -- the phi itself: the operand is that of the entry
          rw [if_pos heq] at he
          subst he
          exact Or.inr ⟨heq.symm.trans (h.entry i d hd).symm, rfl, x₀, rfl, hblock⟩
        · rw [if_neg hne] at he
          subst he
          exact Or.inl rfl
      | j + 2 => cases hp
  · intro i d hi hd
    rcases h.todo i d (by omega) hd with ⟨y₀, hy, hyblock, hyin⟩
    refine ⟨y₀, ?_, hyblock, hyin⟩
    show (block.addInput k e).phis[i]? = _
    rw [addInput_phis_ne block e (by omega), hy]

lemma Closing.backedgeSlots {b p₀ pred : Nat} {header : MBasicBlock}
    (exitDefs : List MDefinition) (k : Nat) (block : MBasicBlock)
    (h : Closing exits b p₀ pred k header block)
    (hexits : ∀ (i : Nat) d, exitDefs[i]? = some d → Incoming exits pred (k + i) d)
    {block' : MBasicBlock} (hrun : block.backedgeSlots b k exitDefs = some block') :
    Closing exits b p₀ pred (k + exitDefs.length) header block' := by
  induction exitDefs generalizing k block with
  | nil =>
    cases hrun
    exact h
  | cons exitDef exitDefs ih =>
    rw [MBasicBlock.backedgeSlots] at hrun
    rcases Option.bind_eq_some_iff.mp hrun with ⟨entryDef, hentry, hrun⟩
    have hdef := h.entry k entryDef hentry
    subst hdef
    rcases h.todo k _ (Nat.le_refl k) hentry with ⟨x₀, hphi, hblock, hin⟩
    have hstep := h.step hentry hphi hblock hin (hexits 0 exitDef rfl)
    simp only [guard, if_true, Option.pure_def, Option.bind_eq_bind, Option.bind_some, hphi] at hrun
    have hnext : MBasicBlock.backedgeSlots b
        { block.addInput k (if .phi b k = exitDef then x₀ else exitDef) with
          slots := block.slots.set k (.phi b k) } (k + 1) exitDefs = some block' := by
      rcases Decidable.em (.phi b k = exitDef) with heq | hne
      · rw [if_pos heq] at hrun ⊢
        exact hrun
      · rw [if_neg hne] at hrun ⊢
        exact hrun
    have hrest := ih (k + 1) _ hstep (fun i d hd => by
      have hnext := hexits (i + 1) d hd
      rwa [Nat.add_comm i 1, ← Nat.add_assoc] at hnext) hnext
    rw [length_cons]
    rwa [Nat.add_assoc, Nat.add_comm 1] at hrest

/-! ## Loop successors -/

/-- What is created from a loop header holds nothing from before it. -/
lemma WellBuilt.descends (h : WellBuilt g) {header b : Nat} {hblock : MBasicBlock}
    (hheader : g[header]? = some hblock) (hkind : hblock.kind ≠ .normal)
    (hdesc : g.Descends header b) :
    header ≤ b ∧ ∀ block, g[b]? = some block → ∀ d ∈ block.entryResumePoint, header ≤ d.block := by
  induction hdesc with
  | refl =>
    refine ⟨Nat.le_refl _, ?_⟩
    intro block hb d hd
    rw [hheader] at hb
    cases hb
    rcases mem_iff_getElem?.mp hd with ⟨i, hi⟩
    rw [((h header _ hheader).header hkind).entry i d hi]
    exact Nat.le_refl _
  | @next b block pred hb hpred _ ih =>
    rcases ih with ⟨hle, hpreds⟩
    have hok := h b block hb
    have hlt := hok.first pred hpred
    refine ⟨by omega, ?_⟩
    intro block' hb' d hd
    rw [hb] at hb'
    cases hb'
    rcases mem_iff_getElem?.mp hd with ⟨i, hi⟩
    cases hok.entry i d hi with
    | phi hd =>
      rw [hd]
      show header ≤ b
      omega
    | same _ _ hin =>
      rcases hin pred (mem_of_getElem? hpred) with ⟨s, hs, hx⟩
      rcases Option.bind_eq_some_iff.mp hs with ⟨p, hp, hlast⟩
      rcases (h pred p hp).exit s hlast d (mem_of_getElem? hx) with hentry | ⟨n, rfl⟩
      · exact hpreds p hp d hentry
      · exact hle
    | start hnone =>
      rw [hnone] at hpred
      cases hpred

lemma inheritSlots_eq {header : Nat} {block block' : MBasicBlock} (n : Nat) (phis : List MPhi)
    (hphis : ∀ phi ∈ phis, ∀ x₀, phi.inputs[0]? = some x₀ → x₀ ∉ block.slots)
    (h : block.inheritSlots header n phis = some block') : block' = block := by
  induction phis generalizing n with
  | nil =>
    cases h
    rfl
  | cons phi phis ih =>
    rw [MBasicBlock.inheritSlots] at h
    rcases Option.bind_eq_some_iff.mp h with ⟨_, _, h⟩
    rcases Option.bind_eq_some_iff.mp h with ⟨entryDef, hentry, h⟩
    rcases Option.bind_eq_some_iff.mp h with ⟨exitDef, hexit, h⟩
    have hne : entryDef ≠ exitDef := by
      rintro rfl
      exact hphis phi mem_cons_self _ hentry (mem_of_getElem? hexit)
    rw [if_pos hne] at h
    exact ih (n + 1) (fun phi hphi => hphis phi (mem_cons_of_mem _ hphi)) h

/-- A slot of a loop successor or a break block is never what the slot was before the loop:
the header has phis for all of them. -/
lemma WellBuilt.inheritPhis {g g' : MIRGraph} (h : WellBuilt g) {header b : Nat}
    {hblock : MBasicBlock} (hheader : g[header]? = some hblock) (hkind : hblock.kind ≠ .normal)
    (hdesc : g.Descends header b) (hrun : g.inheritPhis b header = some g') : g' = g := by
  rcases Option.bind_eq_some_iff.mp hrun with ⟨block, hb, hrun⟩
  rcases Option.bind_eq_some_iff.mp hrun with ⟨hblock', hheader', hrun⟩
  rcases Option.bind_eq_some_iff.mp hrun with ⟨block', hinherit, hset⟩
  rw [hheader] at hheader'
  cases hheader'
  rcases h.descends hheader hkind hdesc with ⟨hle, hentry⟩
  have heq : block' = block := by
    refine inheritSlots_eq 0 hblock.phis ?_ hinherit
    intro phi hphi x₀ hx hmem
    rcases mem_iff_getElem?.mp hphi with ⟨n, hn⟩
    rcases ((h header _ hheader).header hkind).phis n phi hn with ⟨_, y₀, rest, hinputs, hy⟩
    rw [hinputs] at hx
    cases hx
    -- what comes from before the loop has an earlier block
    rcases (h b block hb).slots _ hmem with hmem | ⟨m, rfl⟩
    · exact Nat.not_lt.mpr (hentry block hb _ hmem) hy
    · exact Nat.not_lt.mpr hle hy
  rw [heq] at hset
  cases hset
  rcases List.getElem?_eq_some_iff.mp hb with ⟨hlt, hget⟩
  rw [← hget]
  exact set_getElem_self hlt

/-! ## The steps of the builder -/

lemma WellBuilt.newEntry (h : WellBuilt g) {slots : List MDefinition}
    (hslots : ∀ d ∈ slots, d.isPhi = false ∧ (d.block = g.length ∨
      ∃ block, g[d.block]? = some block ∧ block.predecessors = [])) :
    WellBuilt (g ++ [⟨.normal, slots, [], [], slots, none⟩]) := by
  refine h.append ?_
  constructor
  · intro i d hd
    rcases hslots d (mem_of_getElem? hd) with ⟨hphi, hown | ⟨block, hblock, _⟩⟩
    · exact .start rfl hphi (Nat.le_of_eq hown)
    · exact .start rfl hphi (Nat.le_of_lt (List.getElem?_eq_some_iff.mp hblock).1)
  · exact fun d hd => Or.inl hd
  · exact fun s hs => by cases hs
  · exact fun s hs => by cases hs
  · exact fun p hp => by cases hp
  · exact fun p hp => by cases hp
  · exact fun hkind => absurd rfl hkind

lemma WellBuilt.newBlock {g g' : MIRGraph} (h : WellBuilt g) {pred : Nat}
    (hexit : g.isExit pred) (hnew : g.newBlock pred = some g') : WellBuilt g' := by
  rcases Option.bind_eq_some_iff.mp hnew with ⟨p, hp, hset⟩
  cases hset
  have hslots := h.exit_slots hexit hp
  have hlt : pred < g.length := (List.getElem?_eq_some_iff.mp hp).1
  refine h.append ?_
  constructor
  · intro i d hd
    have hle := (h pred p hp).slot_block_le (mem_of_getElem? hd)
    refine .same (Nat.lt_of_le_of_lt hle hlt) (by simp) ?_
    intro p' hp'
    rw [mem_singleton.mp hp']
    exact ⟨p.slots, hslots, hd⟩
  · exact fun d hd => Or.inl hd
  · exact fun s hs => by cases hs
  · exact fun s hs => by cases hs
  · intro p' hp'
    rw [mem_singleton.mp hp']
    exact ⟨p.slots, hslots, rfl⟩
  · intro p' hp'
    cases hp'
    exact hlt
  · exact fun hkind => absurd rfl hkind

lemma WellBuilt.newPendingLoopHeader {g g' : MIRGraph} (h : WellBuilt g) {pred : Nat}
    (hexit : g.isExit pred) (hnew : g.newPendingLoopHeader pred = some g') : WellBuilt g' := by
  rcases Option.bind_eq_some_iff.mp hnew with ⟨p, hp, hset⟩
  cases hset
  have hslots := h.exit_slots hexit hp
  have hlt : pred < g.length := (List.getElem?_eq_some_iff.mp hp).1
  have hentry : ∀ (i : Nat) (d : MDefinition),
      ((List.range p.slots.length).map (MDefinition.phi g.length))[i]? = some d →
        d = .phi g.length i ∧ i < p.slots.length := by
    intro i d hd
    rcases List.getElem?_eq_some_iff.mp hd with ⟨hi, hget⟩
    rw [length_map, length_range] at hi
    rw [getElem_map, getElem_range] at hget
    exact ⟨hget.symm, hi⟩
  have hphis : ∀ (n : Nat) (phi : MPhi),
      (p.slots.mapIdx fun i d => (⟨i, [d]⟩ : MPhi))[n]? = some phi →
        ∃ d, p.slots[n]? = some d ∧ phi = ⟨n, [d]⟩ := by
    intro n phi hn
    rw [List.getElem?_mapIdx] at hn
    rcases Option.map_eq_some_iff.mp hn with ⟨d, hd, rfl⟩
    exact ⟨d, hd, rfl⟩
  refine h.append ?_
  constructor
  · intro i d hd
    rcases hentry i d hd with ⟨rfl, hi⟩
    have hget := List.getElem?_eq_getElem hi
    have hphi : (p.slots.mapIdx fun i d => (⟨i, [d]⟩ : MPhi))[i]? = some ⟨i, [p.slots[i]]⟩ := by
      rw [List.getElem?_mapIdx, hget]
      rfl
    refine .phi rfl hphi rfl ?_
    intro j p' hp'
    match j with
    | 0 =>
      cases hp'
      exact ⟨p.slots[i], ⟨p.slots, hslots, hget⟩, Or.inl rfl⟩
    | j + 1 => cases hp'
  · exact fun d hd => Or.inl hd
  · exact fun s hs => by cases hs
  · exact fun s hs => by cases hs
  · intro p' hp'
    rw [mem_singleton.mp hp']
    exact ⟨p.slots, hslots, by simp⟩
  · intro p' hp'
    cases hp'
    exact hlt
  · intro _
    refine ⟨fun i d hd => (hentry i d hd).1, ?_, fun _ => rfl⟩
    intro n phi hn
    rcases hphis n phi hn with ⟨d, hd, rfl⟩
    have hle := (h pred p hp).slot_block_le (mem_of_getElem? hd)
    exact ⟨rfl, d, [], rfl, Nat.lt_of_le_of_lt hle hlt⟩

lemma WellBuilt.addPredecessor {g g' : MIRGraph} (h : WellBuilt g) {b pred : Nat}
    (hexit : g.isExit pred) (hentry : g.atEntry b) (hadd : g.addPredecessor b pred = some g') :
    WellBuilt g' := by
  rcases Option.bind_eq_some_iff.mp hadd with ⟨block, hb, hadd⟩
  rcases Option.bind_eq_some_iff.mp hadd with ⟨p, hp, hadd⟩
  rcases Option.bind_eq_some_iff.mp hadd with ⟨_, hne, hadd⟩
  rcases Option.bind_eq_some_iff.mp hadd with ⟨_, _, hadd⟩
  rcases Option.bind_eq_some_iff.mp hadd with ⟨_, hdepth, hset⟩
  cases hset
  have hne : block.predecessors ≠ [] := by simpa using hne
  have hdepth : p.slots.length = block.slots.length := by simpa using hdepth
  rcases hentry with ⟨block', hb', hkind, hlast, hslots⟩
  rw [hb] at hb'
  cases hb'
  have hok := h b block hb
  have hexits := h.exit_slots hexit hp
  -- the block has not ended, so that no other block has a phi of it
  have hothers : ∀ (i : Nat) d, p.slots[i]? = some d →
      Incoming g.exits pred (0 + i) d ∧ ∀ n, d ≠ .phi b n := by
    intro i d hd
    rw [Nat.zero_add]
    refine ⟨⟨p.slots, hexits, hd⟩, ?_⟩
    rintro n rfl
    have hended := h.exits_of_phi hexits (mem_of_getElem? hd)
    rw [exits_eq hb, hlast] at hended
    cases hended
  have hstart : Joining g.exits b block.predecessors pred p.slots.length 0 block := by
    refine ⟨hkind, rfl, hlast, hslots, ?_, ?_, ?_⟩
    · rw [hdepth, hslots]
    · exact fun i d hi => absurd hi (Nat.not_lt_zero i)
    · intro i d _ hd
      rw [← hkind]
      exact hok.entry i d hd
  have hjoined := hstart.joinSlots hne p.slots 0 block (Nat.zero_add _) hothers
  have hfirst : (block.predecessors ++ [pred])[0]? = block.predecessors[0]? :=
    List.getElem?_append_left (length_pos_iff.mpr hne)
  refine h.set hb (fun s hs => by rw [hlast] at hs; cases hs) ?_
  constructor
  · intro i d hd
    have hi : i < p.slots.length := by
      rw [← hjoined.depth]
      exact (List.getElem?_eq_some_iff.mp hd).1
    have hslot := hjoined.done i d hi hd
    rw [← hjoined.predecessors, ← hjoined.kind] at hslot
    exact hslot
  · intro d hd
    left
    rw [← hjoined.slots]
    exact hd
  · intro s hs
    rw [hjoined.lastIns] at hs
    cases hs
  · intro s hs
    rw [hjoined.lastIns] at hs
    cases hs
  · show ∀ p' ∈ (block.joinSlots b 0 p.slots).predecessors ++ [pred], ∃ s, g.exits p' = some s ∧
      s.length = (block.joinSlots b 0 p.slots).entryResumePoint.length
    rw [hjoined.predecessors, hjoined.depth]
    intro p' hp'
    rcases mem_append.mp hp' with hp' | hp'
    · rcases hok.predecessors p' hp' with ⟨s, hs, hlength⟩
      exact ⟨s, hs, by rw [hlength, ← hslots, hdepth]⟩
    · rw [mem_singleton.mp hp']
      exact ⟨p.slots, hexits, rfl⟩
  · show ∀ p', ((block.joinSlots b 0 p.slots).predecessors ++ [pred])[0]? = some p' → p' < b
    rw [hjoined.predecessors, hfirst]
    exact hok.first
  · exact fun hnormal => absurd hjoined.kind hnormal

lemma WellBuilt.setBackedge {g g' : MIRGraph} (h : WellBuilt g) {b pred : Nat}
    (hexit : g.isExit pred) (hset : g.setBackedge b pred = some g') : WellBuilt g' := by
  rcases Option.bind_eq_some_iff.mp hset with ⟨block, hb, hset⟩
  rcases Option.bind_eq_some_iff.mp hset with ⟨p, hp, hset⟩
  rcases Option.bind_eq_some_iff.mp hset with ⟨_, _, hset⟩
  rcases Option.bind_eq_some_iff.mp hset with ⟨_, _, hset⟩
  rcases Option.bind_eq_some_iff.mp hset with ⟨_, hdepth, hset⟩
  rcases Option.bind_eq_some_iff.mp hset with ⟨_, hkind, hset⟩
  rcases Option.bind_eq_some_iff.mp hset with ⟨block', hrun, hset⟩
  cases hset
  have hdepth : p.slots.length = block.entryResumePoint.length := by simpa using hdepth
  have hkind : block.kind = .pendingLoopHeader := by simpa using hkind
  have hok := h b block hb
  have hheader := hok.header (by rw [hkind]; decide)
  have hexits := h.exit_slots hexit hp
  rcases length_eq_one_iff.mp (hheader.pending hkind) with ⟨p₀, hpreds⟩
  have hstart : Closing g.exits b p₀ pred 0 block block := by
    refine ⟨hkind, hpreds, rfl, rfl, hheader.entry, hok.slots, hheader.phis, ?_, ?_⟩
    · exact fun i d hi => absurd hi (Nat.not_lt_zero i)
    · -- the phi of a slot has one operand: what comes from the first predecessor
      intro i d _ hd
      have hd' := hheader.entry i d hd
      cases hok.entry i d hd with
      | @phi n inputs hphi hget hlength hin =>
        have hn : n = i := by
          rw [hphi] at hd'
          cases hd'
          rfl
        subst hn
        rcases hheader.phis n _ hget with ⟨_, x₀, rest, hinputs, hblock⟩
        have hinputs : inputs = x₀ :: rest := hinputs
        rw [hinputs, hpreds, length_cons] at hlength
        have hrest : rest = [] := eq_nil_of_length_eq_zero (Nat.succ.inj hlength)
        subst hrest
        rw [hinputs] at hget hin
        rw [hpreds] at hin
        refine ⟨x₀, hget, hblock, ?_⟩
        rcases hin 0 p₀ rfl with ⟨x, hx, hoperand | ⟨_, hloop, _⟩⟩
        · cases hoperand
          exact hx
        · rw [hkind] at hloop
          cases hloop
      | same hblock =>
        rw [hd'] at hblock
        exact absurd hblock (Nat.lt_irrefl b)
      | start hnone =>
        rw [hpreds] at hnone
        cases hnone
  have hclosed := hstart.backedgeSlots p.slots 0 block (fun i d hd => by
    rw [Nat.zero_add]
    exact ⟨p.slots, hexits, hd⟩) hrun
  rw [Nat.zero_add] at hclosed
  refine h.set hb (fun s hs => hclosed.lastIns.trans hs) ?_
  constructor
  · intro i d hd
    have hi : i < p.slots.length := by
      rw [hdepth, ← hclosed.resume]
      exact (List.getElem?_eq_some_iff.mp hd).1
    have hslot := hclosed.done i d hi hd
    show EntrySlot g.exits b .loopHeader block'.phis (block'.predecessors ++ [pred]) i d
    rw [hclosed.predecessors]
    exact hslot
  · exact hclosed.slots
  · show ∀ s, block'.lastIns = some s → ∀ d ∈ s, d ∈ block'.entryResumePoint ∨ _
    rw [hclosed.lastIns, hclosed.resume]
    exact hok.exit
  · intro s _ hloop
    exact absurd rfl hloop
  · show ∀ p' ∈ block'.predecessors ++ [pred], ∃ s, g.exits p' = some s ∧
      s.length = block'.entryResumePoint.length
    rw [hclosed.predecessors, hclosed.resume]
    intro p' hp'
    rcases mem_append.mp hp' with hp' | hp'
    · exact hok.predecessors p' (hpreds ▸ hp')
    · rw [mem_singleton.mp hp']
      exact ⟨p.slots, hexits, hdepth⟩
  · show ∀ p' : Nat, (block'.predecessors ++ [pred])[0]? = some p' → p' < b
    rw [hclosed.predecessors]
    intro p' hp'
    cases hp'
    exact hok.first p₀ (by rw [hpreds]; rfl)
  · intro _
    exact ⟨hclosed.entry, hclosed.phis, fun hpending => by cases hpending⟩

lemma WellBuilt.body (h : WellBuilt g) {slots : List MDefinition} (hb : g[b]? = some block)
    (hlast : block.lastIns = none)
    (hslots : ∀ d ∈ slots, d ∈ block.slots ∨ ∃ n, d = .instruction b n) :
    WellBuilt (g.set b { block with slots := slots }) := by
  have hok := h b block hb
  refine h.set hb (fun s hs => hs) ?_
  refine ⟨hok.entry, ?_, hok.exit, ?_, hok.predecessors, hok.first, ?_⟩
  · intro d hd
    rcases hslots d hd with hd | hown
    · exact hok.slots d hd
    · exact Or.inr hown
  · intro s hs
    rw [show block.lastIns = none from hlast] at hs
    cases hs
  · intro hkind
    rcases hok.header hkind with ⟨hentry, hphis, hpending⟩
    exact ⟨hentry, hphis, hpending⟩

lemma WellBuilt.finish (h : WellBuilt g) (hb : g[b]? = some block) (hlast : block.lastIns = none) :
    WellBuilt (g.set b { block with lastIns := some block.slots }) := by
  have hok := h b block hb
  refine h.set hb (fun s hs => by rw [hlast] at hs; cases hs) ?_
  refine ⟨hok.entry, hok.slots, ?_, ?_, hok.predecessors, hok.first, ?_⟩
  · intro s hs
    cases hs
    exact hok.slots
  · intro s hs _
    cases hs
    rfl
  · intro hkind
    rcases hok.header hkind with ⟨hentry, hphis, hpending⟩
    exact ⟨hentry, hphis, hpending⟩

lemma WellBuilt.step {g g' : MIRGraph} (h : WellBuilt g) (hstep : g.Step g') : WellBuilt g' := by
  cases hstep with
  | newEntry hslots => exact h.newEntry hslots
  | newBlock hexit hnew => exact h.newBlock hexit hnew
  | newPendingLoopHeader hexit hnew => exact h.newPendingLoopHeader hexit hnew
  | addPredecessor hexit hentry hadd => exact h.addPredecessor hexit hentry hadd
  | setBackedge hexit hset => exact h.setBackedge hexit hset
  | inheritPhis hdesc hheader hkind hrun =>
    rw [h.inheritPhis hheader (by rw [hkind]; decide) hdesc hrun]
    exact h
  | body hb hlast hslots => exact h.body hb hlast hslots
  | finish hb hlast => exact h.finish hb hlast

lemma wellBuilt_of_built (h : g.Built) : WellBuilt g := by
  induction h with
  | refl =>
    intro b block hb
    cases hb
  | tail _ hstep ih => exact ih.step hstep

/-! ## Runs -/

variable {V : Type}

lemma enter_of_block_ne (g : MIRGraph) {b j : Nat} (env : MDefinition → V) (h : d.block ≠ b) :
    g.enter b j env d = env d := by
  cases d with
  | instruction c n => rfl
  | phi c n => exact if_neg h

lemma enter_phi {b j n : Nat} {phi : MPhi} (env : MDefinition → V) (hb : g[b]? = some block)
    (hphi : block.phis[n]? = some phi) (hd : phi.inputs[j]? = some d) :
    g.enter b j env (.phi b n) = env d := by
  simp [MIRGraph.enter, hb, hphi, hd]

/-- Where a phi with one operand twice is in the slots, it still has the operand's value: the
operand comes from before the loop, and no block on the way from the header defines it. -/
lemma WellBuilt.redundant_phi (h : WellBuilt g) {c n i : Nat} {header : MBasicBlock}
    {x₀ : MDefinition} (hc : g[c]? = some header) (hphi : header.phis[n]? = some ⟨i, [x₀, x₀]⟩)
    (hpreds : header.predecessors.length = 2) (hblock : x₀.block < c) {env : MDefinition → V}
    (hrun : g.Runs b env) (hs : g.exits b = some s) (hmem : .phi c n ∈ s) :
    env (.phi c n) = env x₀ := by
  induction hrun generalizing s with
  | @start b block env hb hnone =>
    rw [exits_eq hb] at hs
    rcases (h b block hb).exit s hs _ hmem with hmem | ⟨m, hm⟩
    · rcases mem_iff_getElem?.mp hmem with ⟨k, hk⟩
      cases (h b block hb).entry k _ hk with
      | phi hd =>
        -- the header has predecessors
        cases hd
        rw [hc] at hb
        cases hb
        rw [hnone] at hpreds
        cases hpreds
      | same _ hne => exact absurd hnone hne
      | start _ hnophi => cases hnophi
    · cases hm
  | @step p b block j env env' _ hb hj hbody ih =>
    rw [exits_eq hb] at hs
    rcases (h b block hb).exit s hs _ hmem with hmem | ⟨m, hm⟩
    · rcases mem_iff_getElem?.mp hmem with ⟨k, hk⟩
      have hle : c ≤ b := ((h b block hb).entry k _ hk).block_le
      have hx₀ : env' x₀ = env x₀ := by
        rw [hbody x₀ ?_, enter_of_block_ne g env (by omega)]
        rintro m rfl
        exact Nat.not_lt.mpr hle hblock
      have hphi' : env' (.phi c n) = g.enter b j env (.phi c n) := hbody _ fun m hm => by cases hm
      rw [hphi', hx₀]
      cases (h b block hb).entry k _ hk with
      | phi hd =>
        -- at the header, from either side the phi gets the operand
        cases hd
        rw [hc] at hb
        cases hb
        have hlt := (List.getElem?_eq_some_iff.mp hj).1
        rw [hpreds] at hlt
        have hoperand : [x₀, x₀][j]? = some x₀ := by
          match j with
          | 0 | 1 => rfl
        exact enter_phi env hc hphi hoperand
      | same hlt _ hin =>
        rcases hin p (mem_of_getElem? hj) with ⟨s', hs', hx⟩
        rw [enter_of_block_ne g env (Nat.ne_of_lt hlt)]
        exact ih hs' (mem_of_getElem? hx)
      | start _ hnophi => cases hnophi
    · cases hm

/-- What is in an entry slot of a block has, when control arrives from a predecessor, the value
that the predecessor's slot had at its end: a phi of the block has the predecessor's slot as
its operand, unless that is the phi itself, and another definition is in the slots of all
predecessors. `inheritPhis` leaves a loop successor or break block as it is. -/
theorem entrySlot_value {g : MIRGraph} (hg : g.Built) {b i : Nat} {block : MBasicBlock}
    {d : MDefinition} (hb : g[b]? = some block) (hd : block.entryResumePoint[i]? = some d) :
    (∀ (j p : Nat), block.predecessors[j]? = some p → ∃ s x, g.exits p = some s ∧ s[i]? = some x ∧
      (x = d ∨ ∃ n phi, d = .phi b n ∧ block.phis[n]? = some phi ∧ phi.slot = i ∧
        phi.inputs.length = block.predecessors.length ∧ phi.inputs[j]? = some x) ∧
      ∀ env : MDefinition → V, g.Runs p env → g.enter b j env d = env x) ∧
    ∀ header hblock g', g.Descends header b → g[header]? = some hblock →
      hblock.kind = .loopHeader → g.inheritPhis b header = some g' → g' = g := by
  have h := wellBuilt_of_built hg
  constructor
  · intro j p hj
    cases (h b block hb).entry i d hd with
    | @phi n inputs hphi hget hlength hin =>
      rcases hin j p hj with ⟨x, ⟨s, hs, hx⟩, hoperand | ⟨rfl, _, x₀, rfl, hblock⟩⟩
      · refine ⟨s, x, hs, hx, Or.inr ⟨n, _, hphi, hget, rfl, hlength, hoperand⟩, ?_⟩
        intro env _
        rw [hphi]
        exact enter_phi env hb hget hoperand
      · refine ⟨s, x, hs, hx, Or.inl rfl, ?_⟩
        intro env hrun
        subst hphi
        have hlt := (List.getElem?_eq_some_iff.mp hj).1
        rw [← hlength] at hlt
        have hoperand : [x₀, x₀][j]? = some x₀ := by
          match j with
          | 0 | 1 => rfl
          | j + 2 => exact absurd hlt (by simp)
        rw [enter_phi env hb hget hoperand]
        exact (h.redundant_phi hb hget hlength.symm hblock hrun hs (mem_of_getElem? hx)).symm
    | same hlt _ hin =>
      rcases hin p (mem_of_getElem? hj) with ⟨s, hs, hx⟩
      exact ⟨s, d, hs, hx, Or.inl rfl, fun env _ => enter_of_block_ne g env (Nat.ne_of_lt hlt)⟩
    | start hnone =>
      rw [hnone] at hj
      cases hj
  · intro header hblock g' hdesc hheader hkind hrun
    exact h.inheritPhis hheader (by rw [hkind]; decide) hdesc hrun

/-! ### A loop with one slot that changes and one that does not -/

def twoSlotLoop : MIRGraph := [
  ⟨.normal, [.instruction 0 0, .instruction 0 1], [], [], [.instruction 0 0, .instruction 0 1],
    some [.instruction 0 0, .instruction 0 1]⟩,
  ⟨.loopHeader, [.phi 1 0, .phi 1 1], [0, 2],
    [⟨0, [.instruction 0 0, .instruction 2 0]⟩, ⟨1, [.instruction 0 1, .instruction 0 1]⟩],
    [.phi 1 0, .phi 1 1], some [.phi 1 0, .phi 1 1]⟩,
  ⟨.normal, [.instruction 2 0, .phi 1 1], [1], [], [.phi 1 0, .phi 1 1],
    some [.instruction 2 0, .phi 1 1]⟩,
  ⟨.normal, [.phi 1 0, .phi 1 1], [1], [], [.phi 1 0, .phi 1 1], none⟩]

lemma twoSlotLoop_built : twoSlotLoop.Built := by
  have hslots : ∀ d ∈ [MDefinition.instruction 0 0, .instruction 0 1], d.isPhi = false ∧
      (d.block = 0 ∨ ∃ block, ([] : MIRGraph)[d.block]? = some block ∧
        block.predecessors = []) := by
    simp [MDefinition.isPhi, MDefinition.block]
  have hbody : ∀ d ∈ [MDefinition.instruction 2 0, .phi 1 1],
      d ∈ [MDefinition.phi 1 0, .phi 1 1] ∨ ∃ n, d = .instruction 2 n := by
    simp
  have hentry := (Relation.ReflTransGen.single (MIRGraph.Step.newEntry (g := []) hslots)).tail
    (.finish (b := 0) rfl rfl)
  have hpending := hentry.tail
    (.newPendingLoopHeader (show MIRGraph.isExit _ 0 from ⟨_, rfl, rfl, by decide⟩) rfl)
  have hheader := hpending.tail (.finish (b := 1) rfl rfl)
  have hnew := hheader.tail (.newBlock (show MIRGraph.isExit _ 1 from ⟨_, rfl, rfl, by decide⟩) rfl)
  have hloop := (hnew.tail (.body (b := 2) rfl rfl hbody)).tail (.finish (b := 2) rfl rfl)
  have hsuccessor := hloop.tail
    (.newBlock (show MIRGraph.isExit _ 1 from ⟨_, rfl, rfl, by decide⟩) rfl)
  exact hsuccessor.tail
    (.setBackedge (b := 1) (show MIRGraph.isExit _ 2 from ⟨_, rfl, rfl, by decide⟩) rfl)

def loopValues : MDefinition → Nat
  | .instruction 0 0 | .phi 1 0 => 3
  | .instruction 2 0 => 4
  | _ => 7

lemma twoSlotLoop_runs : twoSlotLoop.Runs 2 loopValues := by
  have hentry : twoSlotLoop.Runs 0 loopValues := .start loopValues rfl rfl
  have hheader : twoSlotLoop.Runs 1 loopValues := by
    refine hentry.step (j := 0) rfl rfl ?_
    intro d _
    cases d with
    | instruction c n => rfl
    | phi c n =>
      match c, n with
      | 1, 0 | 1, 1 => rfl
      | 1, n + 2 => rfl
      | 0, _ | c + 2, _ => rfl
  refine hheader.step (j := 0) rfl rfl ?_
  intro d _
  cases d with
  | instruction c n => rfl
  | phi c n =>
    match c with
    | 2 => rfl
    | 0 | 1 | c + 3 => rfl

/-- The slot that the loop leaves alone, when control comes over the backedge. -/
theorem entrySlot_value_twoSlotLoop : ∃ s x, twoSlotLoop.exits 2 = some s ∧ s[1]? = some x ∧
    twoSlotLoop.enter 1 1 loopValues (.phi 1 1) = loopValues x := by
  have hvalue := (entrySlot_value (V := Nat) (b := 1) (i := 1) twoSlotLoop_built rfl rfl).1 1 2 rfl
  rcases hvalue with ⟨s, x, hs, hx, _, henter⟩
  exact ⟨s, x, hs, hx, henter loopValues twoSlotLoop_runs⟩

end SpiderMonkey.Ion.SsaBuild
