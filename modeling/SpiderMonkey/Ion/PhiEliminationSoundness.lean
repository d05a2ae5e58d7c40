import SpiderMonkey.Ion.PhiElimination

/-! # Phi elimination keeps values and live phis

The pass never looks at executions, but what it does amounts to a renaming: at each
moment every use of a definition `o` of the original graph has been moved to one
definition `ρ o`. A phi is renamed only when all its operands are one definition or the
phi itself; that definition lies strictly above the phi, and wherever the phi is defined
both have the same value.
-/

namespace SpiderMonkey.Ion

open Lib Function List

namespace PhiProgram

variable {ν : Type} (M : PhiProgram ν)

/-! ## Values -/

/-- `r` is defined strictly above the block of the phi `p`. -/
def Above (r p : Nat) : Prop :=
  ∃ a b, p ∈ M.code.phis a ∧ M.code.Defines b r ∧ M.code.StrictlyDominates b a

/-- `r` can stand for `o`: it is `o`, or it is defined strictly above the phi `o` and has
the same value wherever the block of `o` dominates. -/
def StandsFor (r o : Nat) : Prop :=
  r = o ∨ M.Above r o ∧ ∀ a, o ∈ M.code.phis a → ∀ c env, M.code.Dominates a c →
    M.code.Within c env → env r = env o

/-- Below the definition of `o`, what stands for `o` has its value. -/
lemma StandsFor.value_eq {r o a c : Nat} {env : Nat → ν} (h : M.StandsFor r o)
    (hdef : M.code.Defines a o) (hac : M.code.Dominates a c) (hwithin : M.code.Within c env) :
    env r = env o := by
  rcases h with rfl | ⟨⟨a', _, hphi, _, _⟩, hvalue⟩
  · rfl
  · have ha : a' = a := M.wellFormed.block_unique (Or.inl hphi) hdef
    subst ha
    exact hvalue a' hphi c env hac hwithin

/-- What stands for `o` is defined where `o` is or above. -/
lemma StandsFor.defines {r o a : Nat} (h : M.StandsFor r o) (hdef : M.code.Defines a o) :
    ∃ b, M.code.Defines b r ∧ M.code.Dominates b a := by
  rcases h with rfl | ⟨⟨a', b, hphi, hr, hstrict⟩, _⟩
  · exact ⟨a, hdef, FlowGraph.dominates_refl a⟩
  · have ha : a' = a := M.wellFormed.block_unique (Or.inl hphi) hdef
    subst ha
    exact ⟨b, hr, hstrict.1⟩

lemma StandsFor.trans {o p r : Nat} (hop : M.StandsFor p o) (hpr : M.StandsFor r p) :
    M.StandsFor r o := by
  rcases hop with rfl | ⟨⟨a, b, ho, hp, hstrict⟩, hvalue⟩
  · exact hpr
  · rcases hpr.defines M hp with ⟨c, hr, hcb⟩
    refine Or.inr ⟨⟨a, c, ho, hr, hcb.trans_strict hstrict (M.reachable ho)⟩, ?_⟩
    intro a' ho' d env had hwithin
    have ha : a' = a := M.wellFormed.block_unique (Or.inl ho') (Or.inl ho)
    subst ha
    rw [← hvalue a' ho' d env had hwithin]
    exact hpr.value_eq M hp (hstrict.1.trans had) hwithin

/-! ## Redundant phis -/

/-- Each operand of a phi has been moved to `r` or to the phi itself. -/
def AllMovedTo (ρ : Nat → Nat) (p r : Nat) : Prop :=
  ∀ o ∈ M.graph.operands p, ρ o = r ∨ ρ o = p

section Redundant

variable {M} {ρ : Nat → Nat} {p r b : Nat} (hstands : ∀ o, M.StandsFor (ρ o) o)
  (hp : p ∈ M.code.phis b) (hmoved : M.AllMovedTo ρ p r)

include hstands hp hmoved

/-- On an edge from a block that `b` does not dominate, the operand is `r`. -/
lemma defines_of_entry {a : Nat} (hedge : M.code.edge a b) (hab : ¬ M.code.Dominates b a) :
    ∃ c, M.code.Defines c r ∧ M.code.Dominates c a := by
  rcases List.getElem?_of_mem (M.mem_predecessors hedge) with ⟨k, hk⟩
  have hlt : k < (M.graph.operands p).length := by
    rw [M.length_operands hp]
    exact (List.getElem?_eq_some_iff.mp hk).1
  have ho := List.getElem?_eq_getElem hlt
  rcases M.operand_above hp hk ho with ⟨c, hdef, hca⟩
  rcases (hstands _).defines M hdef with ⟨c', hdef', hcc'⟩
  rcases hmoved _ (mem_of_getElem? ho) with hr | hself
  · rw [hr] at hdef'
    exact ⟨c', hdef', hcc'.trans hca⟩
  · rw [hself] at hdef'
    -- the phi itself is not available there
    have hc' : c' = b := M.wellFormed.block_unique hdef' (Or.inl hp)
    rw [hc'] at hcc'
    exact absurd (hcc'.trans hca) hab

omit hstands hmoved in
/-- Some edge enters the block for the first time. -/
lemma exists_entry : ∃ a, M.code.edge a b ∧ ¬ M.code.Dominates b a := by
  by_contra hnone
  have havoid : ∀ x, M.code.Reachable x → M.code.Avoids b x := by
    intro x hx
    induction hx with
    | root hroot =>
      refine .root hroot ?_
      rintro rfl
      exact M.not_root hp hroot
    | @step y x hy hyx ih =>
      refine ih.step hyx ?_
      rintro rfl
      exact hnone ⟨y, hyx, fun hdom => hdom ih⟩
  exact (havoid b (M.reachable hp)).ne rfl

/-- The definition a redundant phi stands for lies strictly above it. -/
lemma above_of_redundant : M.Above r p := by
  rcases exists_entry hp with ⟨a, hedge, hab⟩
  rcases defines_of_entry hstands hp hmoved hedge hab with ⟨c, hdef, hca⟩
  refine ⟨b, c, hp, hdef, ?_, ?_⟩
  · -- a path around `c` never gets to `b`
    intro havoid
    have hnever : ∀ x, M.code.Avoids c x → x ≠ b ∧ M.code.Avoids b x := by
      intro x hx
      induction hx with
      | @root x hroot _ =>
        have hxb : x ≠ b := by
          rintro rfl
          exact M.not_root hp hroot
        exact ⟨hxb, .root hroot hxb⟩
      | @step y x hy hyx _ ih =>
        have hxb : x ≠ b := by
          rintro rfl
          rcases defines_of_entry hstands hp hmoved hyx (fun hdom => hdom ih.2) with
            ⟨c', hdef', hcy⟩
          rw [M.wellFormed.block_unique hdef' hdef] at hcy
          exact hcy hy
        exact ⟨hxb, ih.2.step hyx hxb⟩
    exact (hnever b havoid).1 rfl
  · rintro rfl
    exact hab hca

/-- A redundant phi always has the value of the definition it stands for. -/
lemma standsFor_of_redundant : M.StandsFor r p := by
  have habove := above_of_redundant hstands hp hmoved
  refine Or.inr ⟨habove, ?_⟩
  intro b' hp' c env hbc hwithin
  have hb : b' = b := M.wellFormed.block_unique (Or.inl hp') (Or.inl hp)
  subst hb
  rcases habove with ⟨b, d, hpb, hdef, hstrict⟩
  have hb : b = b' := M.wellFormed.block_unique (Or.inl hpb) (Or.inl hp)
  subst hb
  have hreads : ∀ x, x = p ∨ x = r →
      x ∈ M.code.phis b ∨ ∃ a, M.code.Defines a x ∧ M.code.StrictlyDominates a b := by
    rintro x (rfl | rfl)
    · exact Or.inl hp
    · exact Or.inr ⟨d, hdef, hstrict⟩
  have hcongr : ∀ {env env' : Nat → ν}, (∀ x, x = p ∨ x = r → env' x = env x) →
      env r = env p → env' r = env' p := by
    intro env env' hsame heq
    rw [hsame r (Or.inr rfl), hsame p (Or.inl rfl), heq]
  refine M.wellFormed.persists_within _ (fun env => env r = env p) hreads hcongr ?_ hwithin hbc
  intro env harr
  refine M.wellFormed.persists _ (fun env => env r = env p) hreads hcongr
    (fun hroot => absurd hroot (M.not_root hp)) ?_ harr hbc
  intro a env src hleaves htake hsources hback
  rcases M.sources hsources with ⟨k, hk, hsrc⟩
  have hr : r ∉ M.code.phis b := fun hr =>
    hstrict.2 (M.wellFormed.block_unique hdef (Or.inl hr))
  show M.code.enter b src env r = M.code.enter b src env p
  rw [Ssa.enter_of_not_phi hr, Ssa.enter_of_phi hp]
  -- the value read on this edge is the one of the moved operand
  rcases M.operand_above hp hk (hsrc p hp) with ⟨c, hdefc, hca⟩
  have hvalue := (hstands (src p)).value_eq M hdefc hca hleaves.within
  rcases hmoved (src p) (mem_of_getElem? (hsrc p hp)) with hmoved | hmoved
  · rw [← hvalue, hmoved]
  · rcases (hstands (src p)).defines M hdefc with ⟨c', hdefc', hcc'⟩
    rw [hmoved] at hvalue hdefc'
    have hc' : c' = b := M.wellFormed.block_unique hdefc' (Or.inl hp)
    rw [← hvalue]
    exact hback (hc' ▸ hcc'.trans hca)

end Redundant


end PhiProgram

/-! ## Observable phis -/

namespace PhiGraph

variable (g : PhiGraph)

/-- A phi that is observable in the graph the pass is given. -/
def Observable (p : Nat) : Prop := p ∈ g.phis ∧ g.isPhiObservable g.initial p = true

/-- From a phi to its operands, any number of times. -/
def PhiReach : Nat → Nat → Prop :=
  Relation.ReflTransGen fun p o => p ∈ g.phis ∧ o ∈ g.operands p

/-- A phi of the `|this|` slot has no other phis as operands than phis of that slot and
phis with bytecode uses. -/
def ThisClosed : Prop :=
  ∀ p ∈ g.phis, g.slot p = 1 → ∀ o ∈ g.operands p, o ∈ g.phis →
    g.slot o = 1 ∨ g.bytecodeUses o = true

/-- An instruction uses the definition. -/
def HasSsaUse (consumers : List Consumer) (o : Nat) : Prop :=
  ∃ c ∈ consumers, c.kind = .instruction ∧ c.operand = o

lemma isPhiObservable_iff {s : PhiState} {p : Nat} : g.isPhiObservable s p = true ↔
    s.bytecodeUses p = true ∨ HasSsaUse s.consumers p ∨ g.slot p = 1 := by
  simp [isPhiObservable, HasSsaUse, or_assoc]

/-- The phis the pass must keep the values of. -/
def Tracked (o : Nat) : Prop :=
  o ∈ g.phis ∧ (g.bytecodeUses o = true ∨ HasSsaUse g.consumers o ∨ g.slot o = 1 ∧ g.ThisClosed)

end PhiGraph

/-! ## Renaming -/

lemma mem_of_isPhiRedundant {s : PhiState} {p r : Nat} (h : s.isPhiRedundant p = some r) :
    r ∈ s.operands p ∧ ∀ o ∈ s.operands p, o = r ∨ o = p := by
  unfold PhiState.isPhiRedundant at h
  split at h
  · exact absurd h (by simp)
  · rename_i first rest hoperands
    rw [Option.ite_none_right_eq_some, Option.some.injEq] at h
    rcases h with ⟨hall, rfl⟩
    rw [hoperands]
    refine ⟨mem_cons_self, ?_⟩
    intro o ho
    rcases mem_cons.mp ho with rfl | ho
    · exact Or.inl rfl
    · simpa using all_eq_true.mp hall o ho

namespace PhiProgram

variable {ν : Type} {M : PhiProgram ν} {s : PhiState} {ρ : Nat → Nat}

/-- The state is the graph with every use of `o` moved to `ρ o`. -/
structure Renamed (M : PhiProgram ν) (s : PhiState) (ρ : Nat → Nat) : Prop where
  subset : ∀ p ∈ s.phis, p ∈ M.graph.phis
  operands : ∀ p ∈ s.phis, s.operands p = (M.graph.operands p).map ρ
  consumers : s.consumers = M.graph.consumers.map fun c => { c with operand := ρ c.operand }
  standsFor : ∀ o, M.StandsFor (ρ o) o
  reach : ∀ o, M.graph.PhiReach o (ρ o)
  moved : ∀ o, ρ (ρ o) = ρ o
  bytecodeUses_source : ∀ q ∈ M.graph.phis, s.bytecodeUses q = true →
    ∃ p ∈ M.graph.phis, M.graph.bytecodeUses p = true ∧ M.graph.PhiReach p q
  bytecodeUses_moved : ∀ o ∈ M.graph.phis, M.graph.bytecodeUses o = true →
    ρ o ∈ M.graph.phis → s.bytecodeUses (ρ o) = true
  slot_moved : M.graph.ThisClosed → ∀ o ∈ M.graph.phis, M.graph.slot o = 1 →
    ρ o ∈ M.graph.phis → M.graph.slot (ρ o) = 1 ∨ s.bytecodeUses (ρ o) = true

/-- What is redundant lies above and has not been moved itself. -/
lemma Renamed.redundant (h : M.Renamed s ρ) {p r : Nat} (hp : p ∈ s.phis)
    (hr : s.isPhiRedundant p = some r) :
    M.Above r p ∧ M.StandsFor r p ∧ M.graph.PhiReach p r ∧ ρ r = r ∧ r ≠ p := by
  rcases mem_of_isPhiRedundant hr with ⟨hmem, hall⟩
  rw [h.operands p hp] at hmem hall
  rcases (M.mem_phis p).mp (h.subset p hp) with ⟨b, hb⟩
  have hmoved : M.AllMovedTo ρ p r := fun o ho => hall (ρ o) (mem_map_of_mem ho)
  have habove := above_of_redundant h.standsFor hb hmoved
  rcases mem_map.mp hmem with ⟨o, ho, hor⟩
  refine ⟨habove, standsFor_of_redundant h.standsFor hb hmoved, ?_, ?_, ?_⟩
  · rw [← hor]
    exact (Relation.ReflTransGen.single ⟨h.subset p hp, ho⟩).trans (h.reach o)
  · rw [← hor]
    exact h.moved o
  · rintro rfl
    rcases habove with ⟨a, c, hphi, hdef, hstrict⟩
    exact hstrict.2 (M.wellFormed.block_unique hdef (Or.inl hphi))

lemma bytecodeUses_propagate {g : PhiGraph} {p r q : Nat} :
    (g.propagateBytecodeUses s p r).bytecodeUses q = true ↔
      s.bytecodeUses q = true ∨ q = r ∧ s.bytecodeUses p = true ∧ r ∈ g.phis := by
  unfold PhiGraph.propagateBytecodeUses
  split
  · rename_i hflag
    by_cases hq : q = r
    · subst hq
      simp [hflag]
    · simp [hq]
  · rename_i hflag
    constructor
    · exact Or.inl
    · rintro (hq | ⟨_, hflag'⟩)
      · exact hq
      · exact absurd hflag' hflag

lemma propagate_fields {g : PhiGraph} {p r : Nat} :
    (g.propagateBytecodeUses s p r).phis = s.phis ∧
      (g.propagateBytecodeUses s p r).operands = s.operands ∧
      (g.propagateBytecodeUses s p r).consumers = s.consumers ∧
      (g.propagateBytecodeUses s p r).unused = s.unused ∧
      (g.propagateBytecodeUses s p r).worklist = s.worklist := by
  unfold PhiGraph.propagateBytecodeUses
  split <;> exact ⟨rfl, rfl, rfl, rfl, rfl⟩

/-- The renaming after a replacement. -/
def renameWith (ρ : Nat → Nat) (p r : Nat) : Nat → Nat := fun o => substitute p r (ρ o)

lemma renameWith_cases (ρ : Nat → Nat) (p r o : Nat) :
    ρ o = p ∧ renameWith ρ p r o = r ∨ ρ o ≠ p ∧ renameWith ρ p r o = ρ o := by
  unfold renameWith substitute
  by_cases h : ρ o = p
  · exact Or.inl ⟨h, if_pos h⟩
  · exact Or.inr ⟨h, if_neg h⟩

/-- The definitions that stay are those that were there and are not replaced. -/
lemma renameWith_eq_self {p r q : Nat} (hrr : ρ r = r) (hrp : r ≠ p) :
    renameWith ρ p r q = q ↔ ρ q = q ∧ q ≠ p := by
  rcases renameWith_cases ρ p r q with ⟨hq, hnew⟩ | ⟨hq, hnew⟩
  · rw [hnew]
    constructor
    · rintro rfl
      exact absurd (hrr.symm.trans hq) hrp
    · rintro ⟨hself, hne⟩
      exact absurd (hself.symm.trans hq) hne
  · rw [hnew]
    constructor
    · intro hself
      exact ⟨hself, fun hqp => hq (hself.trans hqp)⟩
    · exact And.left

/-- Replacing a redundant phi extends the renaming. -/
lemma Renamed.replace (h : M.Renamed s ρ) {p r : Nat} (hp : p ∈ s.phis)
    (hr : s.isPhiRedundant p = some r) :
    M.Renamed ((M.graph.propagateBytecodeUses s p r).replaceAllUsesWith p r)
      (renameWith ρ p r) := by
  rcases h.redundant hp hr with ⟨_, hstands, hreach, hrr, hrp⟩
  rcases propagate_fields (s := s) (g := M.graph) (p := p) (r := r) with
    ⟨hphis, hoperands, hconsumers, _, _⟩
  refine
    { subset := ?_, operands := ?_, consumers := ?_, standsFor := ?_, reach := ?_, moved := ?_
      bytecodeUses_source := ?_, bytecodeUses_moved := ?_, slot_moved := ?_ }
  · intro q hq
    exact h.subset q (hphis ▸ hq)
  · intro q hq
    show List.map (substitute p r) ((M.graph.propagateBytecodeUses s p r).operands q) = _
    rw [hoperands, h.operands q (hphis ▸ hq), map_map]
    rfl
  · show List.map _ (M.graph.propagateBytecodeUses s p r).consumers = _
    rw [hconsumers, h.consumers, map_map]
    rfl
  · intro o
    rcases renameWith_cases ρ p r o with ⟨ho, hnew⟩ | ⟨_, hnew⟩
    · rw [hnew]
      have hop := h.standsFor o
      rw [ho] at hop
      exact hop.trans M hstands
    · rw [hnew]
      exact h.standsFor o
  · intro o
    rcases renameWith_cases ρ p r o with ⟨ho, hnew⟩ | ⟨_, hnew⟩
    · rw [hnew]
      have hop := h.reach o
      rw [ho] at hop
      exact hop.trans hreach
    · rw [hnew]
      exact h.reach o
  · intro o
    rw [renameWith_eq_self hrr hrp]
    rcases renameWith_cases ρ p r o with ⟨_, hnew⟩ | ⟨ho, hnew⟩
    · rw [hnew]
      exact ⟨hrr, hrp⟩
    · rw [hnew]
      exact ⟨h.moved o, ho⟩
  · intro q hq hbytecode
    rcases bytecodeUses_propagate.mp hbytecode with hbytecode | ⟨rfl, hbytecode, _⟩
    · exact h.bytecodeUses_source q hq hbytecode
    · rcases h.bytecodeUses_source p (h.subset p hp) hbytecode with ⟨o, ho, hflag, hop⟩
      exact ⟨o, ho, hflag, hop.trans hreach⟩
  · intro o ho hflag hphi
    apply bytecodeUses_propagate.mpr
    rcases renameWith_cases ρ p r o with ⟨hop, hnew⟩ | ⟨_, hnew⟩
    · rw [hnew] at hphi ⊢
      have hbytecode := h.bytecodeUses_moved o ho hflag (hop ▸ h.subset p hp)
      rw [hop] at hbytecode
      exact Or.inr ⟨rfl, hbytecode, hphi⟩
    · rw [hnew] at hphi ⊢
      exact Or.inl (h.bytecodeUses_moved o ho hflag hphi)
  · intro hclosed o ho hslot hphi
    show _ ∨ (M.graph.propagateBytecodeUses s p r).bytecodeUses (renameWith ρ p r o) = true
    rw [bytecodeUses_propagate]
    rcases renameWith_cases ρ p r o with ⟨hop, hnew⟩ | ⟨_, hnew⟩
    · rw [hnew] at hphi ⊢
      rcases h.slot_moved hclosed o ho hslot (hop ▸ h.subset p hp) with hthis | hbytecode
      · rw [hop] at hthis
        -- the phi is of the `|this|` slot, so what it stands for is too, or has the flag
        rcases mem_of_isPhiRedundant hr with ⟨hmem, _⟩
        rw [h.operands p hp] at hmem
        rcases mem_map.mp hmem with ⟨o', ho', hor⟩
        have hphi' : o' ∈ M.graph.phis := by
          rcases h.standsFor o' with heq | ⟨⟨a, _, ha, _, _⟩, _⟩
          · rw [← heq, hor]
            exact hphi
          · exact (M.mem_phis o').mpr ⟨a, ha⟩
        rw [← hor] at hphi ⊢
        rcases hclosed p (h.subset p hp) hthis o' ho' hphi' with hslot' | hflag'
        · rcases h.slot_moved hclosed o' hphi' hslot' hphi with hthis' | hbytecode
          · exact Or.inl hthis'
          · exact Or.inr (Or.inl hbytecode)
        · exact Or.inr (Or.inl (h.bytecodeUses_moved o' hphi' hflag' hphi))
      · rw [hop] at hbytecode
        exact Or.inr (Or.inr ⟨rfl, hbytecode, hphi⟩)
    · rw [hnew] at hphi ⊢
      rcases h.slot_moved hclosed o ho hslot hphi with hthis | hbytecode
      · exact Or.inl hthis
      · exact Or.inr (Or.inl hbytecode)

/-- Only what a phi stands for becomes observable when the phi is replaced. -/
lemma isPhiObservable_of_replace {p r q : Nat} (hq : q ≠ r)
    (h : M.graph.isPhiObservable
      ((M.graph.propagateBytecodeUses s p r).replaceAllUsesWith p r) q = true) :
    M.graph.isPhiObservable s q = true := by
  rw [PhiGraph.isPhiObservable_iff] at h ⊢
  rcases h with hflag | ⟨c, hc, hkind, hop⟩ | hslot
  · rcases bytecodeUses_propagate.mp hflag with hflag | ⟨hqr, _⟩
    · exact Or.inl hflag
    · exact absurd hqr hq
  · have hc' : c ∈ (M.graph.propagateBytecodeUses s p r).consumers.map
        fun c => { c with operand := substitute p r c.operand } := hc
    rw [(propagate_fields).2.2.1] at hc'
    rcases mem_map.mp hc' with ⟨c₀, hc₀, rfl⟩
    refine Or.inr (Or.inl ⟨c₀, hc₀, hkind, ?_⟩)
    unfold substitute at hop
    split at hop
    · exact absurd hop.symm hq
    · exact hop
  · exact Or.inr (Or.inr hslot)

/-- The phi a use was moved to comes from an observable phi if it is observable now. -/
lemma Renamed.exists_observable (h : M.Renamed s ρ) {q : Nat} (hq : q ∈ M.graph.phis)
    (hobs : M.graph.isPhiObservable s q = true) :
    ∃ p, M.graph.Observable p ∧ M.graph.PhiReach p q := by
  rw [PhiGraph.isPhiObservable_iff] at hobs
  rcases hobs with hflag | ⟨c, hc, hkind, hop⟩ | hslot
  · rcases h.bytecodeUses_source q hq hflag with ⟨p, hp, hflag, hreach⟩
    exact ⟨p, ⟨hp, (M.graph.isPhiObservable_iff).mpr (Or.inl hflag)⟩, hreach⟩
  · rw [h.consumers] at hc
    rcases mem_map.mp hc with ⟨c₀, hc₀, rfl⟩
    have hphi : c₀.operand ∈ M.graph.phis := by
      rcases h.standsFor c₀.operand with heq | ⟨⟨a, _, ha, _, _⟩, _⟩
      · have hop' : ρ c₀.operand = q := hop
        rw [← heq, hop']
        exact hq
      · exact (M.mem_phis _).mpr ⟨a, ha⟩
    refine ⟨c₀.operand, ⟨hphi, ?_⟩, ?_⟩
    · exact (M.graph.isPhiObservable_iff).mpr (Or.inr (Or.inl ⟨c₀, hc₀, hkind, rfl⟩))
    · have hreach := h.reach c₀.operand
      have hop' : ρ c₀.operand = q := hop
      rwa [hop'] at hreach
  · exact ⟨q, ⟨hq, (M.graph.isPhiObservable_iff).mpr (Or.inr (Or.inr hslot))⟩, .refl⟩

/-! ## The first loop -/

/-- What holds when the phis in `visited` have been visited. -/
structure Scanned (M : PhiProgram ν) (visited : List Nat) (s : PhiState) (ρ : Nat → Nat) :
    Prop where
  renamed : M.Renamed s ρ
  phis : ∀ q, q ∈ s.phis ↔ q ∈ M.graph.phis ∧ ρ q = q
  fixed : ∀ q ∈ M.graph.phis, q ∉ visited → ρ q = q
  unused : ∀ q ∈ visited, s.unused q = true
  worklist : ∀ q ∈ s.worklist, q ∈ visited ∧ ρ q = q ∧
    ∃ p, M.graph.Observable p ∧ M.graph.PhiReach p q
  nodup : s.worklist.Nodup
  live : ∀ q ∈ visited, ρ q = q → M.graph.isPhiObservable s q = true → q ∈ s.worklist

lemma scanned_initial : M.Scanned [] M.graph.initial id where
  renamed :=
    { subset := fun _ hp => hp
      operands := fun _ _ => (map_id _).symm
      consumers := (map_id _).symm
      standsFor := fun _ => Or.inl rfl
      reach := fun _ => .refl
      moved := fun _ => rfl
      bytecodeUses_source := fun q hq hflag => ⟨q, hq, hflag, .refl⟩
      bytecodeUses_moved := fun _ _ hflag _ => hflag
      slot_moved := fun _ _ _ hslot _ => Or.inl hslot }
  phis := fun _ => ⟨fun hq => ⟨hq, rfl⟩, And.left⟩
  fixed := fun _ _ _ => rfl
  unused := fun _ hq => absurd hq not_mem_nil
  worklist := fun _ hq => absurd hq not_mem_nil
  nodup := nodup_nil
  live := fun _ hq => absurd hq not_mem_nil

/-- The definition a phi stands for is visited after it. -/
lemma not_mem_visited_of_above {visited rest : List Nat} {p r : Nat}
    (hphis : M.graph.phis = visited ++ p :: rest) (habove : M.Above r p) : r ∉ visited := by
  intro hr
  rcases append_of_mem hr with ⟨before, after, hvisited⟩
  rcases habove with ⟨a, b, hp, hdef, hstrict⟩
  have hrphi : r ∈ M.graph.phis := by
    rw [hphis]
    exact mem_append_left _ hr
  rcases (M.mem_phis r).mp hrphi with ⟨b', hb'⟩
  rw [← M.wellFormed.block_unique (Or.inl hb') hdef] at hstrict
  have hsplit : M.graph.phis = before ++ r :: (after ++ p :: rest) := by
    rw [hphis, hvisited]
    simp
  have hp' := M.postorder hb' hp hstrict hsplit
  have hnodup := M.nodup
  rw [hphis, nodup_append] at hnodup
  refine hnodup.2.2 p ?_ p mem_cons_self rfl
  rw [hvisited]
  exact mem_append_left _ hp'

/-- Visiting the next phi. -/
lemma scanned_visitPhi {visited rest : List Nat} {p : Nat}
    (hphis : M.graph.phis = visited ++ p :: rest) (h : M.Scanned visited s ρ) :
    ∃ ρ', M.Scanned (visited ++ [p]) (M.graph.visitPhi s p) ρ' := by
  have hp : p ∈ M.graph.phis := by
    rw [hphis]
    simp
  have hpnot : p ∉ visited := by
    have hnodup := M.nodup
    rw [hphis, nodup_append] at hnodup
    exact fun hin => hnodup.2.2 p hin p mem_cons_self rfl
  have hpp : ρ p = p := h.fixed p hp hpnot
  have hps : p ∈ s.phis := (h.phis p).mpr ⟨hp, hpp⟩
  have hunused : ∀ q ∈ visited ++ [p], update s.unused p true q = true := by
    intro q hq
    by_cases hqp : q = p
    · rw [hqp, update_self]
    · rw [update_of_ne hqp]
      rcases mem_append.mp hq with hq | hq
      · exact h.unused q hq
      · exact absurd (mem_singleton.mp hq) hqp
  have hrenamed : M.Renamed { s with unused := update s.unused p true } ρ :=
    { h.renamed with }
  unfold PhiGraph.visitPhi
  simp only
  cases hr : PhiState.isPhiRedundant { s with unused := update s.unused p true } p with
  | some r =>
    rcases hrenamed.redundant hps hr with ⟨habove, _, _, hrr, hrp⟩
    have hnew := hrenamed.replace hps hr
    rcases propagate_fields (s := { s with unused := update s.unused p true })
      (g := M.graph) (p := p) (r := r) with ⟨hphis', _, _, hunused', hworklist⟩
    have hrnot := not_mem_visited_of_above hphis habove
    have hmem : ∀ q, q ∈ (M.graph.propagateBytecodeUses
        { s with unused := update s.unused p true } p r).phis.filter (· ≠ p) ↔
        q ∈ M.graph.phis ∧ renameWith ρ p r q = q := by
      intro q
      rw [hphis', mem_filter, renameWith_eq_self hrr hrp, h.phis q]
      simp [and_assoc]
    refine ⟨renameWith ρ p r, ?_⟩
    refine
      { renamed := ?_, phis := hmem, fixed := ?_, unused := ?_, worklist := ?_, nodup := ?_
        live := ?_ }
    · refine { hnew with subset := ?_, operands := ?_ }
      · intro q hq
        exact ((hmem q).mp hq).1
      · intro q hq
        rcases mem_filter.mp hq with ⟨hq, hqp⟩
        show update (_ : Nat → List Nat) p [] q = _
        rw [update_of_ne (by simpa using hqp)]
        exact hnew.operands q hq
    · intro q hq hqnot
      rw [renameWith_eq_self hrr hrp]
      have hq' : q ∉ visited ∧ q ≠ p := by simpa using hqnot
      exact ⟨h.fixed q hq hq'.1, hq'.2⟩
    · intro q hq
      show (M.graph.propagateBytecodeUses _ p r).unused q = true
      rw [hunused']
      exact hunused q hq
    · intro q hq
      have hq' : q ∈ s.worklist := by
        change q ∈ (M.graph.propagateBytecodeUses _ p r).worklist at hq
        rwa [hworklist] at hq
      rcases h.worklist q hq' with ⟨hvisited, hqq, hreach⟩
      refine ⟨mem_append_left _ hvisited, ?_, hreach⟩
      rw [renameWith_eq_self hrr hrp]
      exact ⟨hqq, fun hqp => hpnot (hqp ▸ hvisited)⟩
    · show (M.graph.propagateBytecodeUses _ p r).worklist.Nodup
      rw [hworklist]
      exact h.nodup
    · intro q hq hqq hobs
      show q ∈ (M.graph.propagateBytecodeUses _ p r).worklist
      rw [hworklist]
      rw [renameWith_eq_self hrr hrp] at hqq
      have hvisited : q ∈ visited := by
        rcases mem_append.mp hq with hq | hq
        · exact hq
        · exact absurd (mem_singleton.mp hq) hqq.2
      have hqr : q ≠ r := by
        rintro rfl
        exact hrnot hvisited
      have hbefore := isPhiObservable_of_replace (p := p)
        (s := { s with unused := update s.unused p true }) hqr hobs
      exact h.live q hvisited hqq.1 hbefore
  | none =>
    simp only
    refine ⟨ρ, ?_⟩
    have hfixed : ∀ q ∈ M.graph.phis, q ∉ visited ++ [p] → ρ q = q :=
      fun q hq hqnot => h.fixed q hq fun hin => hqnot (mem_append_left _ hin)
    split
    · rename_i hobs
      refine
        { renamed := { h.renamed with }, phis := h.phis, fixed := hfixed, unused := hunused
          worklist := ?_, nodup := ?_, live := ?_ }
      · intro q hq
        rcases mem_cons.mp hq with rfl | hq
        · exact ⟨by simp, hpp, hrenamed.exists_observable hp hobs⟩
        · rcases h.worklist q hq with ⟨hvisited, hrest⟩
          exact ⟨mem_append_left _ hvisited, hrest⟩
      · exact nodup_cons.mpr ⟨fun hin => hpnot (h.worklist p hin).1, h.nodup⟩
      · intro q hq hqq hobsq
        rcases mem_append.mp hq with hq | hq
        · exact mem_cons_of_mem _ (h.live q hq hqq hobsq)
        · rw [mem_singleton.mp hq]
          exact mem_cons_self
    · rename_i hobs
      refine
        { renamed := { h.renamed with }, phis := h.phis, fixed := hfixed, unused := hunused
          worklist := ?_, nodup := h.nodup, live := ?_ }
      · intro q hq
        rcases h.worklist q hq with ⟨hvisited, hrest⟩
        exact ⟨mem_append_left _ hvisited, hrest⟩
      · intro q hq hqq hobsq
        rcases mem_append.mp hq with hq | hq
        · exact h.live q hq hqq hobsq
        · rw [mem_singleton.mp hq] at hobsq
          exact absurd hobsq hobs

/-- After the first loop. -/
lemma scanned_foldl :
    ∃ ρ, M.Scanned M.graph.phis (M.graph.phis.foldl M.graph.visitPhi M.graph.initial) ρ := by
  have hprefix : ∀ (rest visited : List Nat) (s : PhiState) (ρ : Nat → Nat),
      M.graph.phis = visited ++ rest → M.Scanned visited s ρ →
        ∃ ρ', M.Scanned M.graph.phis (rest.foldl M.graph.visitPhi s) ρ' := by
    intro rest
    induction rest with
    | nil =>
      intro visited s ρ hphis h
      rw [append_nil] at hphis
      exact ⟨ρ, hphis ▸ h⟩
    | cons p rest ih =>
      intro visited s ρ hphis h
      rcases scanned_visitPhi hphis h with ⟨ρ', h'⟩
      exact ih (visited ++ [p]) _ ρ' (by simp [hphis]) h'
  exact hprefix M.graph.phis [] _ id rfl scanned_initial

/-! ## The marking loop -/

/-- The phi is marked, or will be: it is on the worklist or about to be put there. -/
def Live (due : List Nat) (s : PhiState) (q : Nat) : Prop :=
  q ∈ s.worklist ∨ s.unused q = false ∨ q ∈ due

/-- What holds in the marking loop while the operands in `due` are being put on the
worklist. -/
structure Marking (M : PhiProgram ν) (due : List Nat) (s : PhiState) (ρ : Nat → Nat) : Prop where
  renamed : M.Renamed s ρ
  phis : ∀ q ∈ M.graph.phis, ρ q = q → q ∈ s.phis
  worklist : ∀ q ∈ s.worklist, q ∈ M.graph.phis ∧ ρ q = q ∧ s.unused q = true
  due_moved : ∀ q ∈ due, ρ q = q
  nodup : s.worklist.Nodup
  marked : ∀ q ∈ M.graph.phis, s.unused q = false → ρ q = q
  reach : ∀ q ∈ M.graph.phis, Live due s q → ∃ p, M.graph.Observable p ∧ M.graph.PhiReach p q
  instruction : ∀ c ∈ s.consumers, c.kind = .instruction → c.operand ∈ M.graph.phis →
    Live due s c.operand
  operand : ∀ q ∈ M.graph.phis, s.unused q = false → ∀ o ∈ s.operands q, o ∈ M.graph.phis →
    Live due s o
  tracked : ∀ o, M.graph.Tracked o → ρ o ∈ M.graph.phis → Live due s (ρ o)

/-- The first loop leaves every observable phi on the worklist. -/
lemma Scanned.marking (h : M.Scanned M.graph.phis s ρ) : M.Marking [] s ρ := by
  have hmoved := h.renamed.moved
  have hlive : ∀ q ∈ M.graph.phis, ρ q = q → M.graph.isPhiObservable s q = true →
      Live [] s q := fun q hq hqq hobs => Or.inl (h.live q hq hqq hobs)
  have hunused : ∀ q ∈ M.graph.phis, s.unused q ≠ false := by
    intro q hq
    rw [h.unused q hq]
    decide
  refine
    { renamed := h.renamed, phis := fun q hq hqq => (h.phis q).mpr ⟨hq, hqq⟩, worklist := ?_
      due_moved := fun _ hq => absurd hq not_mem_nil, nodup := h.nodup
      marked := fun q hq hmarked => absurd hmarked (hunused q hq), reach := ?_, instruction := ?_
      operand := fun q hq hmarked => absurd hmarked (hunused q hq), tracked := ?_ }
  · intro q hq
    rcases h.worklist q hq with ⟨hphi, hqq, _⟩
    exact ⟨hphi, hqq, h.unused q hphi⟩
  · rintro q hq (hin | hmarked | hdue)
    · exact (h.worklist q hin).2.2
    · exact absurd hmarked (hunused q hq)
    · exact absurd hdue not_mem_nil
  · intro c hc hkind hphi
    have hfixed : ρ c.operand = c.operand := by
      rw [h.renamed.consumers] at hc
      rcases mem_map.mp hc with ⟨c₀, _, rfl⟩
      exact hmoved c₀.operand
    exact hlive _ hphi hfixed ((M.graph.isPhiObservable_iff).mpr (Or.inr (Or.inl ⟨c, hc, hkind, rfl⟩)))
  · rintro o ⟨ho, hobs⟩ hphi
    refine hlive _ hphi (hmoved o) ((M.graph.isPhiObservable_iff).mpr ?_)
    rcases hobs with hflag | ⟨c, hc, hkind, hop⟩ | ⟨hslot, hclosed⟩
    · exact Or.inl (h.renamed.bytecodeUses_moved o ho hflag hphi)
    · refine Or.inr (Or.inl ⟨{ c with operand := ρ c.operand }, ?_, hkind, by rw [hop]⟩)
      rw [h.renamed.consumers]
      exact mem_map_of_mem hc
    · rcases h.renamed.slot_moved hclosed o ho hslot hphi with hthis | hflag
      · exact Or.inr (Or.inr hthis)
      · exact Or.inl hflag

/-- One operand is put on the worklist. -/
lemma Marking.enqueueOperand {o : Nat} {due : List Nat} (h : M.Marking (o :: due) s ρ) :
    M.Marking due (M.graph.enqueueOperand s o) ρ := by
  unfold PhiGraph.enqueueOperand
  by_cases hskip : o ∉ M.graph.phis ∨ s.unused o = false ∨ o ∈ s.worklist
  · rw [if_pos hskip]
    have hlive : ∀ q ∈ M.graph.phis, Live (o :: due) s q → Live due s q := by
      rintro q hq (hin | hmarked | hdue)
      · exact Or.inl hin
      · exact Or.inr (Or.inl hmarked)
      · rcases mem_cons.mp hdue with rfl | hdue
        · rcases hskip with hnot | hmarked | hin
          · exact absurd hq hnot
          · exact Or.inr (Or.inl hmarked)
          · exact Or.inl hin
        · exact Or.inr (Or.inr hdue)
    have hmono : ∀ q, Live due s q → Live (o :: due) s q := by
      rintro q (hin | hmarked | hdue)
      · exact Or.inl hin
      · exact Or.inr (Or.inl hmarked)
      · exact Or.inr (Or.inr (mem_cons_of_mem _ hdue))
    exact
      { h with
        due_moved := fun q hq => h.due_moved q (mem_cons_of_mem _ hq)
        reach := fun q hq hl => h.reach q hq (hmono q hl)
        instruction := fun c hc hkind hphi => hlive _ hphi (h.instruction c hc hkind hphi)
        operand := fun q hq hmarked p hp hphi => hlive p hphi (h.operand q hq hmarked p hp hphi)
        tracked := fun p hp hphi => hlive _ hphi (h.tracked p hp hphi) }
  · rw [if_neg hskip]
    rw [not_or, not_or, not_not, Bool.not_eq_false] at hskip
    rcases hskip with ⟨hphi, hunused, hnot⟩
    have hlive : ∀ q, Live (o :: due) s q ↔ Live due { s with worklist := o :: s.worklist } q := by
      intro q
      unfold Live
      rw [mem_cons, mem_cons]
      tauto
    refine
      { renamed := { h.renamed with }, phis := h.phis, worklist := ?_
        due_moved := fun q hq => h.due_moved q (mem_cons_of_mem _ hq)
        nodup := nodup_cons.mpr ⟨hnot, h.nodup⟩, marked := h.marked
        reach := fun q hq hl => h.reach q hq ((hlive q).mpr hl)
        instruction := fun c hc hkind hphi => (hlive _).mp (h.instruction c hc hkind hphi)
        operand := fun q hq hmarked p hp hphi =>
          (hlive p).mp (h.operand q hq hmarked p hp hphi)
        tracked := fun p hp hphi => (hlive _).mp (h.tracked p hp hphi) }
    intro q hq
    rcases mem_cons.mp hq with rfl | hq
    · exact ⟨hphi, h.due_moved q mem_cons_self, hunused⟩
    · exact h.worklist q hq

/-- All operands are put on the worklist. -/
lemma Marking.enqueueOperands {due : List Nat} (h : M.Marking due s ρ) :
    M.Marking [] (due.foldl M.graph.enqueueOperand s) ρ := by
  induction due generalizing s with
  | nil => exact h
  | cons o due ih => exact ih h.enqueueOperand

/-- The phis that are not replaced, and then the unused ones, are counted. -/
def remaining (M : PhiProgram ν) (s : PhiState) (ρ : Nat → Nat) : Nat :=
  (M.graph.phis.countP fun q => ρ q = q) * (M.graph.phis.length + 1) +
    M.graph.phis.countP fun q => s.unused q

lemma remaining_foldl (due : List Nat) (s : PhiState) :
    M.remaining (due.foldl M.graph.enqueueOperand s) ρ = M.remaining s ρ := by
  have hunused : (due.foldl M.graph.enqueueOperand s).unused = s.unused := by
    induction due generalizing s with
    | nil => rfl
    | cons o due ih =>
      rw [foldl_cons, ih]
      unfold PhiGraph.enqueueOperand
      split <;> rfl
  unfold remaining
  rw [hunused]

/-- A predicate that loses an element of the list and gains none holds less often. -/
lemma countP_lt {l : List Nat} {P Q : Nat → Bool} {p : Nat} (hp : p ∈ l) (hP : P p = true)
    (hQ : Q p = false) (hsub : ∀ q ∈ l, Q q = true → P q = true) : l.countP Q < l.countP P := by
  induction l with
  | nil => exact absurd hp not_mem_nil
  | cons q l ih =>
    have hle : l.countP Q ≤ l.countP P :=
      countP_mono_left fun x hx => hsub x (mem_cons_of_mem _ hx)
    rcases mem_cons.mp hp with rfl | hp
    · rw [countP_cons_of_pos hP, countP_cons_of_neg (by simp [hQ])]
      omega
    · have hlt := ih hp fun x hx => hsub x (mem_cons_of_mem _ hx)
      rw [countP_cons, countP_cons]
      have hq := hsub q mem_cons_self
      split
      · rename_i hQq
        rw [if_pos (hq hQq)]
        omega
      · omega

/-- A popped phi that is not redundant is marked. -/
lemma Marking.mark (h : M.Marking [] s ρ) {p : Nat} {rest : List Nat}
    (hworklist : s.worklist = p :: rest) :
    M.Marking (s.operands p)
      { s with worklist := rest, unused := update s.unused p false } ρ ∧
    M.remaining { s with worklist := rest, unused := update s.unused p false } ρ <
      M.remaining s ρ := by
  have hp := h.worklist p (hworklist ▸ mem_cons_self)
  have hnodup := h.nodup
  rw [hworklist, nodup_cons] at hnodup
  have hrest : ∀ q ∈ rest, q ∈ s.worklist := fun q hq => hworklist ▸ mem_cons_of_mem _ hq
  have hunused : ∀ q, update s.unused p false q = false ↔ q = p ∨ s.unused q = false := by
    intro q
    by_cases hqp : q = p
    · simp [hqp]
    · simp [hqp]
  have hlive : ∀ q, Live [] s q → Live (s.operands p)
      { s with worklist := rest, unused := update s.unused p false } q := by
    rintro q (hin | hmarked | hdue)
    · rw [hworklist] at hin
      rcases mem_cons.mp hin with rfl | hin
      · exact Or.inr (Or.inl ((hunused q).mpr (Or.inl rfl)))
      · exact Or.inl hin
    · exact Or.inr (Or.inl ((hunused q).mpr (Or.inr hmarked)))
    · exact absurd hdue not_mem_nil
  have hoperands := h.renamed.operands p (h.phis p hp.1 hp.2.1)
  constructor
  · refine
      { renamed := { h.renamed with }, phis := h.phis, worklist := ?_, due_moved := ?_
        nodup := hnodup.2, marked := ?_, reach := ?_
        instruction := fun c hc hkind hphi => hlive _ (h.instruction c hc hkind hphi)
        operand := ?_, tracked := fun o ho hphi => hlive _ (h.tracked o ho hphi) }
    · intro q hq
      have hqw := h.worklist q (hrest q hq)
      refine ⟨hqw.1, hqw.2.1, ?_⟩
      have hqp : q ≠ p := fun hqp => hnodup.1 (hqp ▸ hq)
      show update s.unused p false q = true
      rw [update_of_ne hqp]
      exact hqw.2.2
    · intro q hq
      rw [hoperands] at hq
      rcases mem_map.mp hq with ⟨o, _, rfl⟩
      exact h.renamed.moved o
    · intro q hq hmarked
      rcases (hunused q).mp hmarked with rfl | hmarked
      · exact hp.2.1
      · exact h.marked q hq hmarked
    · rintro q hq (hin | hmarked | hdue)
      · exact h.reach q hq (Or.inl (hrest q hin))
      · rcases (hunused q).mp hmarked with rfl | hmarked
        · exact h.reach q hq (Or.inl (hworklist ▸ mem_cons_self))
        · exact h.reach q hq (Or.inr (Or.inl hmarked))
      · rw [hoperands] at hdue
        rcases mem_map.mp hdue with ⟨o, ho, rfl⟩
        rcases h.reach p hp.1 (Or.inl (hworklist ▸ mem_cons_self)) with ⟨p₀, hobs, hreach⟩
        exact ⟨p₀, hobs, (hreach.tail ⟨hp.1, ho⟩).trans (h.renamed.reach o)⟩
    · intro q hq hmarked o ho hphi
      rcases (hunused q).mp hmarked with rfl | hmarked
      · exact Or.inr (Or.inr ho)
      · exact hlive _ (h.operand q hq hmarked o ho hphi)
  · have hlt : (M.graph.phis.countP fun q => update s.unused p false q) <
        M.graph.phis.countP fun q => s.unused q := by
      refine countP_lt hp.1 hp.2.2 (by simp) ?_
      intro q _ hq
      by_cases hqp : q = p
      · rw [hqp]
        exact hp.2.2
      · rwa [update_of_ne hqp] at hq
    unfold remaining
    simp only
    omega

/-- A popped phi that is redundant is replaced. What it stands for is due again. -/
lemma Marking.replace (h : M.Marking [] s ρ) {p r : Nat} {rest : List Nat}
    (hworklist : s.worklist = p :: rest) (hr : s.isPhiRedundant p = some r) {s' : PhiState}
    (hs' : s' = M.graph.replaceOrMark { s with worklist := rest } p) :
    M.Marking (s'.operands p) s' (renameWith ρ p r) ∧
      M.remaining s' (renameWith ρ p r) < M.remaining s ρ := by
  have hp := h.worklist p (hworklist ▸ mem_cons_self)
  have hps := h.phis p hp.1 hp.2.1
  have hnodup := h.nodup
  rw [hworklist, nodup_cons] at hnodup
  have hrest : ∀ q ∈ rest, q ∈ s.worklist := fun q hq => hworklist ▸ mem_cons_of_mem _ hq
  have hrenamed : M.Renamed { s with worklist := rest } ρ := { h.renamed with }
  have hr' : PhiState.isPhiRedundant { s with worklist := rest } p = some r := hr
  rcases hrenamed.redundant hps hr' with ⟨_, _, _, hrr, hrp⟩
  have hnew := hrenamed.replace hps hr'
  rcases propagate_fields (s := { s with worklist := rest }) (g := M.graph) (p := p) (r := r)
    with ⟨hphis, hoperands, hconsumers, hunused, hrestlist⟩
  -- the state is the replaced one, with `r` unused if it is a phi
  have hfields : s'.phis = s.phis ∧ s'.worklist = rest ∧
      s'.consumers = s.consumers.map (fun c => { c with operand := substitute p r c.operand }) ∧
      (∀ q, s'.operands q = (s.operands q).map (substitute p r)) ∧
      (∀ q, s'.unused q = false → s.unused q = false) ∧
      (∀ q, s.unused q = false → s'.unused q = false ∨ q = r) := by
    rw [hs']
    unfold PhiGraph.replaceOrMark
    rw [hr']
    simp only
    split
    · refine ⟨hphis, hrestlist, ?_, ?_, ?_, ?_⟩
      · exact congrArg _ hconsumers
      · intro q
        exact congrArg (fun f : Nat → List Nat => (f q).map (substitute p r)) hoperands
      · intro q hq
        change update (M.graph.propagateBytecodeUses _ p r).unused r true q = false at hq
        rw [hunused] at hq
        by_cases hqr : q = r
        · rw [hqr, update_self] at hq
          exact absurd hq (by decide)
        · rw [update_of_ne hqr] at hq
          exact hq
      · intro q hq
        by_cases hqr : q = r
        · exact Or.inr hqr
        · left
          change update (M.graph.propagateBytecodeUses _ p r).unused r true q = false
          rw [hunused, update_of_ne hqr]
          exact hq
    · refine ⟨hphis, hrestlist, ?_, ?_, ?_, ?_⟩
      · exact congrArg _ hconsumers
      · intro q
        exact congrArg (fun f : Nat → List Nat => (f q).map (substitute p r)) hoperands
      · intro q hq
        change (M.graph.propagateBytecodeUses _ p r).unused q = false at hq
        rw [hunused] at hq
        exact hq
      · intro q hq
        left
        change (M.graph.propagateBytecodeUses _ p r).unused q = false
        rw [hunused]
        exact hq
  have hrenamed' : M.Renamed s' (renameWith ρ p r) := by
    rw [hs']
    unfold PhiGraph.replaceOrMark
    rw [hr']
    simp only
    split
    · exact { hnew with }
    · exact hnew
  rcases hfields with ⟨hphis', hworklist', hconsumers', hoperands', hmarked', hkept'⟩
  have hrmem : r ∈ s'.operands p := by
    rw [hoperands']
    refine mem_map.mpr ⟨r, (mem_of_isPhiRedundant hr).1, ?_⟩
    exact if_neg hrp
  -- a use of `p` is a use of `r` now, and `r` is due
  have hlive : ∀ q, Live [] s q → Live (s'.operands p) s' (substitute p r q) := by
    intro q hq
    unfold substitute
    by_cases hqp : q = p
    · rw [if_pos hqp]
      exact Or.inr (Or.inr hrmem)
    · rw [if_neg hqp]
      rcases hq with hin | hmarked | hdue
      · rw [hworklist] at hin
        rcases mem_cons.mp hin with hqp' | hin
        · exact absurd hqp' hqp
        · left
          rw [hworklist']
          exact hin
      · rcases hkept' q hmarked with hmarked | rfl
        · exact Or.inr (Or.inl hmarked)
        · exact Or.inr (Or.inr hrmem)
      · exact absurd hdue not_mem_nil
  have hphi_of : ∀ q, substitute p r q ∈ M.graph.phis → q ∈ M.graph.phis := by
    intro q hq
    unfold substitute at hq
    split at hq
    · rename_i hqp
      rw [hqp]
      exact hp.1
    · exact hq
  have hoperand_moved : ∀ o ∈ s'.operands p, ∃ o' ∈ M.graph.operands p,
      renameWith ρ p r o' = o := by
    intro o ho
    rw [hrenamed'.operands p (hphis' ▸ hps)] at ho
    exact mem_map.mp ho
  constructor
  · refine
      { renamed := hrenamed', phis := ?_, worklist := ?_, due_moved := ?_
        nodup := hworklist' ▸ hnodup.2, marked := ?_, reach := ?_, instruction := ?_
        operand := ?_, tracked := ?_ }
    · intro q hq hqq
      rw [renameWith_eq_self hrr hrp] at hqq
      rw [hphis']
      exact h.phis q hq hqq.1
    · intro q hq
      rw [hworklist'] at hq
      have hqw := h.worklist q (hrest q hq)
      refine ⟨hqw.1, ?_, ?_⟩
      · rw [renameWith_eq_self hrr hrp]
        exact ⟨hqw.2.1, fun hqp => hnodup.1 (hqp ▸ hq)⟩
      · by_contra hnot
        have hmarked := hmarked' q (by simpa using hnot)
        exact absurd (hqw.2.2.symm.trans hmarked) (by decide)
    · intro q hq
      rcases hoperand_moved q hq with ⟨o, _, rfl⟩
      exact hrenamed'.moved o
    · intro q hq hmarked
      rw [renameWith_eq_self hrr hrp]
      have hmarked := hmarked' q hmarked
      refine ⟨h.marked q hq hmarked, ?_⟩
      rintro rfl
      exact absurd (hp.2.2.symm.trans hmarked) (by decide)
    · rintro q hq (hin | hmarked | hdue)
      · rw [hworklist'] at hin
        exact h.reach q hq (Or.inl (hrest q hin))
      · exact h.reach q hq (Or.inr (Or.inl (hmarked' q hmarked)))
      · rcases hoperand_moved q hdue with ⟨o, ho, rfl⟩
        rcases h.reach p hp.1 (Or.inl (hworklist ▸ mem_cons_self)) with ⟨p₀, hobs, hreach⟩
        exact ⟨p₀, hobs, (hreach.tail ⟨hp.1, ho⟩).trans (hrenamed'.reach o)⟩
    · intro c hc hkind hphi
      rw [hconsumers'] at hc
      rcases mem_map.mp hc with ⟨c₀, hc₀, rfl⟩
      exact hlive _ (h.instruction c₀ hc₀ hkind (hphi_of _ hphi))
    · intro q hq hmarked o ho hphi
      rw [hoperands'] at ho
      rcases mem_map.mp ho with ⟨o', ho', rfl⟩
      exact hlive _ (h.operand q hq (hmarked' q hmarked) o' ho' (hphi_of _ hphi))
    · intro o ho hphi
      exact hlive _ (h.tracked o ho (hphi_of _ hphi))
  · have hlt : (M.graph.phis.countP fun q => renameWith ρ p r q = q) <
        M.graph.phis.countP fun q => ρ q = q := by
      refine countP_lt hp.1 (by simpa using hp.2.1) ?_ ?_
      · simp only [decide_eq_false_iff_not]
        rw [renameWith_eq_self hrr hrp]
        exact fun hpp => hpp.2 rfl
      · intro q _ hq
        simp only [decide_eq_true_eq] at hq ⊢
        exact ((renameWith_eq_self hrr hrp).mp hq).1
    have hle : (M.graph.phis.countP fun q => s'.unused q) ≤ M.graph.phis.length :=
      countP_le_length
    have hmul := Nat.mul_le_mul_right (M.graph.phis.length + 1) (Nat.succ_le_of_lt hlt)
    rw [Nat.succ_mul] at hmul
    unfold remaining
    omega

/-- One turn of the marking loop. -/
lemma Marking.turn (h : M.Marking [] s ρ) {p : Nat} {rest : List Nat}
    (hworklist : s.worklist = p :: rest) {s' : PhiState}
    (hs' : s' = M.graph.replaceOrMark { s with worklist := rest } p) :
    ∃ ρ', M.Marking (s'.operands p) s' ρ' ∧ M.remaining s' ρ' < M.remaining s ρ := by
  cases hr : s.isPhiRedundant p with
  | some r => exact ⟨renameWith ρ p r, h.replace hworklist hr hs'⟩
  | none =>
    have hr' : PhiState.isPhiRedundant { s with worklist := rest } p = none := hr
    have hmark := h.mark hworklist
    unfold PhiGraph.replaceOrMark at hs'
    rw [hr'] at hs'
    rw [hs']
    exact ⟨ρ, hmark⟩

/-- The marking loop ends with every phi settled. -/
lemma markLoop_spec : ∀ (fuel : Nat) (s : PhiState) (ρ : Nat → Nat), M.Marking [] s ρ →
    M.remaining s ρ < fuel → ∃ s' ρ', M.graph.markLoop fuel s = some s' ∧ M.Marking [] s' ρ' ∧
      s'.worklist = [] := by
  intro fuel
  induction fuel with
  | zero =>
    intro s ρ _ hfuel
    exact absurd hfuel (Nat.not_lt_zero _)
  | succ fuel ih =>
    intro s ρ h hfuel
    unfold PhiGraph.markLoop
    cases hworklist : s.worklist with
    | nil => exact ⟨s, ρ, rfl, h, hworklist⟩
    | cons p rest =>
      rcases h.turn hworklist rfl with ⟨ρ', hmarking, hlt⟩
      have hlt' := remaining_foldl (M := M) (ρ := ρ')
        ((M.graph.replaceOrMark { s with worklist := rest } p).operands p)
        (M.graph.replaceOrMark { s with worklist := rest } p)
      exact ih _ ρ' hmarking.enqueueOperands (by omega)

/-! ## The result -/

/-- A definition that is still part of the graph: no phi, or a phi that is left. -/
def Survives (M : PhiProgram ν) (s : PhiState) (o : Nat) : Prop :=
  o ∈ M.graph.phis → o ∈ s.phis

/-- What the pass keeps. -/
structure Preserved (M : PhiProgram ν) (s : PhiState) : Prop where
  /-- The operand of an instruction or resume point has the value of the original one.
  It is part of the graph, if the consumer is an instruction or the original operand is
  no phi or one the pass must keep. -/
  consumers : List.Forall₂ (fun c c' : Consumer => c'.kind = c.kind ∧ c'.block = c.block ∧
    (∀ env, M.code.Within c.block env → env c'.operand = env c.operand) ∧
    (c.kind = .instruction ∨ (c.operand ∈ M.graph.phis → M.graph.Tracked c.operand) →
      M.Survives s c'.operand)) M.graph.consumers s.consumers
  /-- So has the operand of a phi that is left, at the end of the predecessor, and it is
  part of the graph. -/
  operands : ∀ p ∈ s.phis, ∀ b, p ∈ M.code.phis b → ∀ (k : Nat) a o,
    (M.predecessors b)[k]? = some a → (M.graph.operands p)[k]? = some o →
      ∃ o', (s.operands p)[k]? = some o' ∧ (∀ env, M.code.Leaves a env → env o' = env o) ∧
        M.Survives s o'
  /-- A phi that is left is reachable from an observable phi. -/
  reachable : ∀ p ∈ s.phis, p ∈ M.graph.phis ∧
    ∃ q, M.graph.Observable q ∧ M.graph.PhiReach q p

/-- A consumer reads a definition from above. -/
lemma consumer_operand_above {c : Consumer} (hc : c ∈ M.graph.consumers) :
    ∃ a, M.code.Defines a c.operand ∧ M.code.Dominates a c.block := by
  cases hkind : c.kind with
  | instruction =>
    rcases M.instruction_operand c hc hkind with ⟨d, hd, ho⟩
    rcases M.wellFormed.operand_defined hd ho with hdef | ⟨a, hdef, hstrict⟩
    · exact ⟨c.block, hdef, FlowGraph.dominates_refl _⟩
    · exact ⟨a, hdef, hstrict.1⟩
  | resumePoint => exact M.resumePoint_operand c hc hkind

/-- Once the worklist is empty, the sweep keeps what the pass must keep. -/
lemma Marking.preserved (h : M.Marking [] s ρ) (hempty : s.worklist = []) :
    M.Preserved (PhiGraph.sweep s) := by
  have hsurvives : ∀ o, (o ∈ M.graph.phis → Live [] s o) → M.Survives (PhiGraph.sweep s) o := by
    intro o hlive ho
    rcases hlive ho with hin | hmarked | hdue
    · rw [hempty] at hin
      exact absurd hin not_mem_nil
    · exact mem_filter.mpr ⟨h.phis o ho (h.marked o ho hmarked), by rw [hmarked]; rfl⟩
    · exact absurd hdue not_mem_nil
  have hleft : ∀ p ∈ (PhiGraph.sweep s).phis, p ∈ s.phis ∧ s.unused p = false := by
    intro p hp
    rcases mem_filter.mp hp with ⟨hps, hunused⟩
    exact ⟨hps, by simpa using hunused⟩
  refine ⟨?_, ?_, ?_⟩
  · show List.Forall₂ _ M.graph.consumers s.consumers
    have hconsumers := h.renamed.consumers
    rw [hconsumers, forall₂_map_right_iff, forall₂_same]
    intro c hc
    rcases consumer_operand_above hc with ⟨a, hdef, hdom⟩
    refine ⟨rfl, rfl, ?_, ?_⟩
    · intro env hwithin
      exact (h.renamed.standsFor c.operand).value_eq M hdef hdom hwithin
    · intro hkept
      apply hsurvives
      intro hphi
      rcases hkept with hkind | htracked
      · refine h.instruction { c with operand := ρ c.operand } ?_ hkind hphi
        rw [hconsumers]
        exact mem_map_of_mem hc
      · refine h.tracked c.operand (htracked ?_) hphi
        rcases h.renamed.standsFor c.operand with heq | ⟨⟨b, _, hb, _, _⟩, _⟩
        · rwa [heq] at hphi
        · exact (M.mem_phis _).mpr ⟨b, hb⟩
  · intro p hp b hb k a o ha ho
    rcases hleft p hp with ⟨hps, hmarked⟩
    have hoperands : (PhiGraph.sweep s).operands p = (M.graph.operands p).map ρ := by
      show (if p ∈ s.phis ∧ s.unused p = true then [] else s.operands p) = _
      rw [if_neg (fun hunused => absurd (hunused.2.symm.trans hmarked) (by decide))]
      exact h.renamed.operands p hps
    rcases M.operand_above hb ha ho with ⟨c, hdef, hdom⟩
    refine ⟨ρ o, by rw [hoperands, List.getElem?_map, ho]; rfl, ?_, ?_⟩
    · intro env hleaves
      exact (h.renamed.standsFor o).value_eq M hdef hdom hleaves.within
    · apply hsurvives
      intro hphi
      refine h.operand p (h.renamed.subset p hps) hmarked (ρ o) ?_ hphi
      rw [h.renamed.operands p hps]
      exact mem_map_of_mem (mem_of_getElem? ho)
  · intro p hp
    rcases hleft p hp with ⟨hps, hmarked⟩
    have hphi := h.renamed.subset p hps
    exact ⟨hphi, h.reach p hphi (Or.inr (Or.inl hmarked))⟩

/-- `EliminatePhis` ends, and keeps the value of every use it does not discard. -/
theorem eliminatePhis_preserved (M : PhiProgram ν) :
    ∃ bound, ∀ fuel > bound, ∃ s, M.graph.eliminatePhis fuel = some s ∧ M.Preserved s := by
  rcases scanned_foldl (M := M) with ⟨ρ, hscanned⟩
  refine ⟨M.remaining (M.graph.phis.foldl M.graph.visitPhi M.graph.initial) ρ, ?_⟩
  intro fuel hfuel
  rcases markLoop_spec fuel _ ρ hscanned.marking hfuel with ⟨s, ρ', hloop, hmarking, hempty⟩
  refine ⟨PhiGraph.sweep s, ?_, hmarking.preserved hempty⟩
  unfold PhiGraph.eliminatePhis
  rw [hloop]
  rfl

/-! ### A `|this|` phi that stands for another phi

Block 0 goes to block 1 in two ways, and that to block 2 in two ways. The phi 2 of block 1
joins the definitions 0 and 1. The phi 3 of block 2 is of the `|this|` slot and has the phi 2
as both operands. -/

/-- The flow of the example. A definition of block 0 may have any value. -/
def thisCode : Ssa Nat Nat Nat where
  root b := b = 0
  edge a b := a = 0 ∧ b = 1 ∨ a = 1 ∧ b = 2
  phis b := if b = 1 then [2] else if b = 2 then [3] else []
  body b := if b = 0 then [0, 1] else []
  operands _ := []
  sources a b src := a = 0 ∧ b = 1 ∧ (src 2 = 0 ∨ src 2 = 1) ∨ a = 1 ∧ b = 2 ∧ src 3 = 2
  computes _ _ _ := True
  take a _ b := a = 0 ∧ b = 1 ∨ a = 1 ∧ b = 2
  computes_congr _ _ := trivial
  edge_of_take h := h

def thisGraph : PhiGraph where
  phis := [3, 2]
  operands p := if p = 2 then [0, 1] else if p = 3 then [2, 2] else []
  slot p := if p = 3 then 1 else 5
  bytecodeUses _ := false
  consumers := [{ kind := .resumePoint, block := 2, operand := 3 }]

lemma mem_thisCode_phis {p b : Nat} : p ∈ thisCode.phis b ↔ p = 2 ∧ b = 1 ∨ p = 3 ∧ b = 2 := by
  show p ∈ (if b = 1 then [2] else if b = 2 then [3] else []) ↔ _
  split
  · simp
    omega
  · split
    · simp
      omega
    · simp
      omega

lemma mem_thisCode_body {d b : Nat} : d ∈ thisCode.body b ↔ (d = 0 ∨ d = 1) ∧ b = 0 := by
  show d ∈ (if b = 0 then [0, 1] else []) ↔ _
  split
  · simp
    omega
  · simp
    omega

lemma thisCode_wellFormed : thisCode.WellFormed where
  block_unique := by
    intro d a b ha hb
    unfold Ssa.Defines at ha hb
    rw [mem_thisCode_phis, mem_thisCode_body] at ha hb
    omega
  phi_not_body := by
    intro b d hphi hbody
    rw [mem_thisCode_phis] at hphi
    rw [mem_thisCode_body] at hbody
    omega
  nodup_body b := by
    show (if b = 0 then [0, 1] else []).Nodup
    split <;> decide
  operand_above _ ho := absurd ho not_mem_nil

lemma reachable_thisCode : thisCode.Reachable 1 ∧ thisCode.Reachable 2 := by
  have h0 : thisCode.Reachable 0 := .root rfl
  have h1 : thisCode.Reachable 1 := h0.step (Or.inl ⟨rfl, rfl⟩)
  exact ⟨h1, h1.step (Or.inr ⟨rfl, rfl⟩)⟩

def thisProgram : PhiProgram Nat where
  graph := thisGraph
  code := thisCode
  predecessors b := if b = 1 then [0, 0] else if b = 2 then [1, 1] else []
  wellFormed := thisCode_wellFormed
  nodup := by decide
  mem_phis := by
    intro p
    show p ∈ [3, 2] ↔ _
    constructor
    · intro hp
      rcases mem_cons.mp hp with rfl | hp
      · exact ⟨2, mem_thisCode_phis.mpr (Or.inr ⟨rfl, rfl⟩)⟩
      · rw [mem_singleton.mp hp]
        exact ⟨1, mem_thisCode_phis.mpr (Or.inl ⟨rfl, rfl⟩)⟩
    · rintro ⟨b, hb⟩
      rcases mem_thisCode_phis.mp hb with ⟨rfl, _⟩ | ⟨rfl, _⟩
      · decide
      · decide
  reachable := by
    intro p b hp
    rcases mem_thisCode_phis.mp hp with ⟨_, rfl⟩ | ⟨_, rfl⟩
    · exact reachable_thisCode.1
    · exact reachable_thisCode.2
  not_root := by
    intro p b hp hroot
    have hb : b = 0 := hroot
    rw [mem_thisCode_phis] at hp
    omega
  mem_predecessors := by
    rintro a b (⟨rfl, rfl⟩ | ⟨rfl, rfl⟩)
    · decide
    · decide
  length_operands := by
    intro p b hp
    rcases mem_thisCode_phis.mp hp with ⟨rfl, rfl⟩ | ⟨rfl, rfl⟩
    · decide
    · decide
  sources := by
    rintro a b src (⟨rfl, rfl, hsrc | hsrc⟩ | ⟨rfl, rfl, hsrc⟩)
    · refine ⟨0, rfl, fun p hp => ?_⟩
      rcases mem_thisCode_phis.mp hp with ⟨rfl, _⟩ | ⟨_, hb⟩
      · rw [hsrc]
        rfl
      · omega
    · refine ⟨1, rfl, fun p hp => ?_⟩
      rcases mem_thisCode_phis.mp hp with ⟨rfl, _⟩ | ⟨_, hb⟩
      · rw [hsrc]
        rfl
      · omega
    · refine ⟨0, rfl, fun p hp => ?_⟩
      rcases mem_thisCode_phis.mp hp with ⟨_, hb⟩ | ⟨rfl, _⟩
      · omega
      · rw [hsrc]
        rfl
  operand_above := by
    intro p b a o k hp ha ho
    have hmem := mem_of_getElem? ha
    have homem := mem_of_getElem? ho
    rcases mem_thisCode_phis.mp hp with ⟨rfl, rfl⟩ | ⟨rfl, rfl⟩
    · have ha' : a = 0 := by simpa using hmem
      have ho' : o = 0 ∨ o = 1 := by simpa [thisGraph] using homem
      rw [ha']
      exact ⟨0, Or.inr (mem_thisCode_body.mpr ⟨ho', rfl⟩), FlowGraph.dominates_refl 0⟩
    · have ha' : a = 1 := by simpa using hmem
      have ho' : o = 2 := by simpa [thisGraph] using homem
      rw [ha', ho']
      exact ⟨1, Or.inl (mem_thisCode_phis.mpr (Or.inl ⟨rfl, rfl⟩)), FlowGraph.dominates_refl 1⟩
  postorder := by
    intro p q a b before after hp hq hstrict hsplit
    rcases mem_thisCode_phis.mp hp with ⟨rfl, rfl⟩ | ⟨rfl, rfl⟩
    · rcases mem_thisCode_phis.mp hq with ⟨_, rfl⟩ | ⟨rfl, rfl⟩
      · exact absurd rfl hstrict.2
      · cases before with
        | nil =>
          have hhead : 3 = 2 := (List.cons.inj hsplit).1
          exact absurd hhead (by decide)
        | cons x before =>
          rw [← (List.cons.inj hsplit).1]
          exact mem_cons_self
    · rcases mem_thisCode_phis.mp hq with ⟨_, rfl⟩ | ⟨_, rfl⟩
      · have h0 : thisCode.Avoids 2 0 := .root rfl (by decide)
        exact absurd (h0.step (Or.inl ⟨rfl, rfl⟩) (by decide)) hstrict.1
      · exact absurd rfl hstrict.2
  instruction_operand := by
    intro c hc hkind
    rw [mem_singleton.mp hc] at hkind
    exact absurd hkind (by decide)
  resumePoint_operand := by
    intro c hc _
    rw [mem_singleton.mp hc]
    exact ⟨2, Or.inl (mem_thisCode_phis.mpr (Or.inr ⟨rfl, rfl⟩)), FlowGraph.dominates_refl 2⟩

/-- The resume point is left with a phi that was discarded. -/
theorem this_lost_by_eliminatePhis :
    ¬ ∀ (M : PhiProgram Nat) (fuel : Nat) (s : PhiState), M.graph.eliminatePhis fuel = some s →
      ∀ (k : Nat) c c', M.graph.consumers[k]? = some c → s.consumers[k]? = some c' →
        c.kind = .resumePoint → M.graph.Observable c.operand → M.Survives s c'.operand := by
  intro hall
  have hrun : (thisGraph.eliminatePhis 10).map (fun s => (s.phis, s.consumers)) =
      some ([], [{ kind := .resumePoint, block := 2, operand := 2 }]) := by decide
  rcases Option.map_eq_some_iff.mp hrun with ⟨s, hs, hfields⟩
  have hphis : s.phis = [] := congrArg Prod.fst hfields
  have hconsumers : s.consumers = [{ kind := .resumePoint, block := 2, operand := 2 }] :=
    congrArg Prod.snd hfields
  have hsurvives := hall thisProgram 10 s hs 0 _ _ rfl (by rw [hconsumers]; rfl) rfl
    ⟨by decide, by decide⟩ (by decide)
  rw [hphis] at hsurvives
  exact not_mem_nil hsurvives

end PhiProgram
end SpiderMonkey.Ion
