import SpiderMonkey.Ion.Mir

/-! # Graphs that are written out

Well-formedness of a graph with finitely many blocks can be computed, but for dominance.
-/

namespace SpiderMonkey.Ion.MIRGraph

open SpiderMonkey.Lib

variable (G : MIRGraph) (doms : List (BlockId × BlockId))

def definesb (b : BlockId) (d : DefId) : Bool :=
  (G.block b).phis.contains d || (G.block b).instructions.contains d

/-- Defined at the end of a block. -/
def aboveb (b : BlockId) (o : DefId) : Bool :=
  G.definesb b o || doms.any fun x => x.2 == b && G.definesb x.1 o

/-- Whether the operands of the instructions of a block are above them. -/
def operandsb (b : BlockId) : List DefId → List DefId → Bool
  | _, [] => true
  | before, d :: after =>
    (G.definition d).operands.all (fun o => (G.block b).phis.contains o || before.contains o ||
      doms.any fun x => x.2 == b && x.1 != b && G.definesb x.1 o) &&
    operandsb b (before ++ [d]) after

def blockb (b : BlockId) : Bool :=
  (G.block b).phis.all (fun d => (G.definition d).op == .phi && (G.definition d).block == b &&
    ((G.block b).predecessors.zip (G.definition d).operands).all fun x => G.aboveb doms x.1 x.2) &&
  (G.block b).instructions.all (fun d => (G.definition d).op != .phi && (G.definition d).block == b) &&
  decide (G.block b).instructions.Nodup &&
  G.operandsb doms b [] (G.block b).instructions &&
  (G.block b).lastIns.successors.all (fun c => (G.block c).predecessors.contains b) &&
  match (G.block b).lastIns with
  | .test ins _ _ => G.aboveb doms b ins
  | _ => true

variable {G doms}

lemma defines_of_definesb {b : BlockId} {d : DefId} (h : G.definesb b d = true) :
    G.ssa.Defines b d := by
  simpa [definesb, Ssa.Defines, ssa] using h

lemma above_of_aboveb (hdoms : ∀ x ∈ doms, G.ssa.Dominates x.1 x.2) {b : BlockId} {o : DefId}
    (h : G.aboveb doms b o = true) : ∃ a, G.ssa.Defines a o ∧ G.ssa.Dominates a b := by
  rcases Bool.or_eq_true_iff.1 h with h | h
  · exact ⟨b, defines_of_definesb h, FlowGraph.dominates_refl b⟩
  · obtain ⟨x, hx, h⟩ := List.any_eq_true.1 h
    obtain ⟨hb, hdef⟩ := Bool.and_eq_true_iff.1 h
    exact ⟨x.1, defines_of_definesb hdef, eq_of_beq hb ▸ hdoms x hx⟩

lemma operand_above_of_operandsb (hdoms : ∀ x ∈ doms, G.ssa.Dominates x.1 x.2) {b : BlockId}
    {d o : DefId} (done : List DefId) {before after : List DefId}
    (h : G.operandsb doms b done (before ++ d :: after) = true) (ho : o ∈ (G.definition d).operands) :
    o ∈ (G.block b).phis ∨ o ∈ done ++ before ∨
      ∃ a, G.ssa.Defines a o ∧ G.ssa.StrictlyDominates a b := by
  induction before generalizing done with
  | nil =>
    have hall := List.all_eq_true.1 (Bool.and_eq_true_iff.1 h).1 o ho
    simp only [Bool.or_eq_true, List.contains_iff_mem, List.any_eq_true, Bool.and_eq_true, beq_iff_eq,
      bne_iff_ne, or_assoc] at hall
    rw [List.append_nil]
    refine hall.imp_right (Or.imp_right ?_)
    rintro ⟨x, hx, ⟨hb, hne⟩, hdef⟩
    exact ⟨x.1, defines_of_definesb hdef, hb ▸ hdoms x hx, hne⟩
  | cons a before ih =>
    rw [List.append_cons done]
    exact ih (done ++ [a]) (Bool.and_eq_true_iff.1 h).2

/-- A graph is well-formed if its blocks pass, and the numbers of no block stand for empty ones. The
list has the pairs of blocks that are used for dominance. -/
lemma wellFormed_of_blockb (doms : List (BlockId × BlockId))
    (hblocksb : G.blocks.all (G.blockb doms) = true)
    (hother : ∀ b, b ∉ G.blocks → (G.block b).phis = [] ∧ (G.block b).instructions = [] ∧
      (G.block b).lastIns = .other [] false [])
    (hdoms : ∀ x ∈ doms, G.ssa.Dominates x.1 x.2) (hblocks : G.blocks.Nodup)
    (hosr : G.osrBlock = none) (hentry : (G.block G.entryBlock).predecessors = [] ∧
      (G.block G.entryBlock).phis = [])
    (hnum : ∀ {d n}, (G.definition d).op.numOperands? = some n →
      (G.definition d).operands.length = n) : G.WellFormed := by
  have hblock : ∀ b, G.blockb doms b = true := by
    intro b
    by_cases hb : b ∈ G.blocks
    · exact List.all_eq_true.1 hblocksb b hb
    · obtain ⟨hphis, hins, hlast⟩ := hother b hb
      simp [blockb, hphis, hins, hlast, operandsb, MControl.successors]
  simp only [blockb, Bool.and_eq_true, List.all_eq_true, beq_iff_eq, bne_iff_ne, ne_eq,
    decide_eq_true_eq, List.contains_iff_mem] at hblock
  have hroot : ∀ b, G.ssa.root b → b = G.entryBlock := by
    rintro b (rfl | h)
    · rfl
    · rw [hosr] at h
      cases h
  have hdef : ∀ {b d}, G.ssa.Defines b d → (G.definition d).block = b := by
    rintro b d (hd | hd)
    · exact ((hblock b).1.1.1.1.1 d hd).1.2
    · exact ((hblock b).1.1.1.1.2 d hd).2
  exact
    { ssa :=
        { block_unique := fun ha hb => (hdef ha).symm.trans (hdef hb)
          phi_not_body := fun hphi hbody =>
            ((hblock _).1.1.1.1.2 _ hbody).1 ((hblock _).1.1.1.1.1 _ hphi).1.1
          nodup_body := fun b => (hblock b).1.1.1.2
          operand_above := fun {b d o before after} heq ho =>
            operand_above_of_operandsb hdoms []
              ((show (G.block b).instructions = _ from heq) ▸ (hblock b).1.1.2) ho }
      nodup_blocks := hblocks
      numOperands := hnum
      phi_op := fun hd => ((hblock _).1.1.1.1.1 _ hd).1.1
      instruction_op := fun hd => ((hblock _).1.1.1.1.2 _ hd).1
      definition_block := hdef
      mem_predecessors := fun hc => (hblock _).1.2 _ hc
      root_predecessors := fun hb => hroot _ hb ▸ hentry.1
      root_phis := fun hb => hroot _ hb ▸ hentry.2
      phi_operand_above := fun {b phi p o k} hphi hp ho =>
        above_of_aboveb hdoms (((hblock b).1.1.1.1.1 phi hphi).2 (p, o)
          (List.mem_of_getElem? (i := k) (by simp [List.getElem?_zip_eq_some, hp, ho])))
      test_above := fun {b ins ifTrue ifFalse} hlast => by
        have htest := (hblock b).2
        rw [hlast] at htest
        exact above_of_aboveb hdoms htest }

end SpiderMonkey.Ion.MIRGraph
