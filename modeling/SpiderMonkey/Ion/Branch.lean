import SpiderMonkey.Ion.Mir

/-! # Blocks decided by a test

`MBasicBlock::immediateDominatorBranch` finds the test that decides whether a block
is entered. Its comparison then had the outcome of the branch (`decided`): no
operand of it is assigned between the comparison and the block.
-/

namespace SpiderMonkey.Ion

open SpiderMonkey.Lib

namespace MIRGraph

variable (G : MIRGraph)

/-- The operand of the test a block ends in. -/
def testOperand? (b : BlockId) : Option DefId :=
  match (G.block b).lastIns with
  | .test ins _ _ => some ins
  | _ => none

/-- `MBasicBlock::immediateDominatorBranch`: the block whose test decides whether
`b` is entered, and whether `b` is its true branch. -/
def immediateDominatorBranch (b : BlockId) : Option (BlockId × Bool) :=
  match (G.block b).predecessors with
  | [pred] =>
      if (G.block b).immediateDominator ≠ pred then none
      else
        match (G.block pred).lastIns with
        | .test _ ifTrue ifFalse =>
            if ifTrue = b ∧ ifFalse = b then none else some (pred, decide (ifTrue = b))
        | _ => none
  | _ => none

/-- The operator that holds of the operands when the branch is taken. -/
def effectiveOp (jsop : CompareOp) (branchDir : Bool) : CompareOp :=
  if branchDir then jsop else jsop.negate

variable {G}

/-- What `immediateDominatorBranch` answers about a block. -/
lemma immediateDominatorBranch_eq_some {b pred : BlockId} {dir : Bool}
    (h : G.immediateDominatorBranch b = some (pred, dir)) :
    (G.block b).predecessors = [pred] ∧ ∃ ins ifTrue ifFalse,
      (G.block pred).lastIns = .test ins ifTrue ifFalse ∧ ¬ (ifTrue = b ∧ ifFalse = b) ∧
        dir = decide (ifTrue = b) := by
  unfold immediateDominatorBranch at h
  split at h
  · rename_i p hpreds
    split at h
    · simp at h
    · split at h
      · rename_i ins ifTrue ifFalse hlast
        split at h
        · simp at h
        · rename_i hboth
          simp only [Option.some.injEq, Prod.mk.injEq] at h
          obtain ⟨rfl, rfl⟩ := h
          exact ⟨hpreds, ins, ifTrue, ifFalse, hlast, hboth, rfl⟩
      · simp at h
  · simp at h

/-- The block that decides the branch strictly dominates the block it decides. -/
lemma deciding_strictlyDominates (wf : G.WellFormed) {b pred : BlockId} {dir : Bool}
    (hbranch : G.immediateDominatorBranch b = some (pred, dir)) (hreach : G.ssa.Reachable b) :
    G.ssa.StrictlyDominates pred b := by
  obtain ⟨hpreds, -⟩ := immediateDominatorBranch_eq_some hbranch
  have hroot : ¬ G.ssa.root b := fun h => by simp [wf.root_predecessors h] at hpreds
  exact FlowGraph.strictlyDominates_of_sole_predecessor hroot
    (fun x hx => by simpa [hpreds] using wf.mem_predecessors hx) hreach

/-- The operands of the deciding comparison are defined above the test. -/
lemma compare_operand_above (wf : G.WellFormed) {pred : BlockId} {ins o : DefId}
    {jsop : CompareOp} {spec : MIRType} (htest : G.testOperand? pred = some ins)
    (hop : (G.definition ins).op = .compare jsop spec) (ho : o ∈ (G.definition ins).operands) :
    ∃ a, G.ssa.Defines a o ∧ G.ssa.Dominates a pred := by
  unfold testOperand? at htest
  split at htest
  · rename_i ins' _ _ hlast
    rw [Option.some.injEq] at htest
    subst htest
    obtain ⟨a, hdef, hdom⟩ := wf.test_above hlast
    exact wf.operand_above (wf.mem_instructions hdef (by simp [hop])) hdom ho
  · simp at htest

/-- A block decided by a test is entered from the block of the test, with the
outcome of its branch. -/
lemma arrives_cases (wf : G.WellFormed) {b pred : BlockId} {dir : Bool} {ins : DefId}
    (hbranch : G.immediateDominatorBranch b = some (pred, dir))
    (htest : G.testOperand? pred = some ins) {env : DefId → Value} (harr : G.ssa.Arrives b env) :
    ∃ src end_, G.ssa.Leaves pred end_ ∧ env = G.ssa.enter b src end_ ∧
      (end_ ins).toBoolean = dir := by
  obtain ⟨hpreds, ins', ifTrue, ifFalse, hlast, hboth, rfl⟩ :=
    immediateDominatorBranch_eq_some hbranch
  simp only [testOperand?, hlast, Option.some.injEq] at htest
  subst htest
  cases harr with
  | root h => simp [wf.root_predecessors h] at hpreds
  | @step p _ start end_ src harr hrun htake hsrc =>
    obtain ⟨k, hk, -⟩ := hsrc
    have hp : p = pred := by
      rw [hpreds] at hk
      cases k <;> simp_all
    subst hp
    refine ⟨src, end_, ⟨start, harr, hrun⟩, rfl, ?_⟩
    simp only [ssa, Branches, hlast] at htake
    split_ifs at htake with hcond
    · simp [htake, hcond]
    · have hne : ifTrue ≠ b := fun h => hboth ⟨h, htake.symm⟩
      simp [hne, hcond]

/-- On entry to a block, the comparison that decided the branch to it had the
outcome of that branch, on the values its operands still have. -/
lemma decided (wf : G.WellFormed) {b pred : BlockId} {dir : Bool} {ins : DefId}
    {jsop : CompareOp} {spec : MIRType} (hbranch : G.immediateDominatorBranch b = some (pred, dir))
    (htest : G.testOperand? pred = some ins) (hop : (G.definition ins).op = .compare jsop spec)
    {env : DefId → Value} (harr : G.ssa.Arrives b env) {l r : DefId} {x y : Int32}
    (hops : (G.definition ins).operands = [l, r]) (hl : env l = .int32 x) (hr : env r = .int32 y) :
    (effectiveOp jsop dir).eval x.toInt y.toInt = true := by
  have hstrict := deciding_strictlyDominates wf hbranch harr.reachable
  obtain ⟨src, end_, hend, rfl, hcond⟩ := arrives_cases wf hbranch htest harr
  have hsame : ∀ o ∈ (G.definition ins).operands, G.ssa.enter b src end_ o = end_ o := by
    intro o ho
    obtain ⟨a, ha, hap⟩ := compare_operand_above wf htest hop ho
    exact wf.ssa.enter_of_above ha hap hstrict harr.reachable src end_
  rw [hsame l (by simp [hops])] at hl
  rw [hsame r (by simp [hops])] at hr
  have hholds : Computes (G.definition ins) end_ (end_ ins) := by
    unfold testOperand? at htest
    split at htest
    · rename_i hlast
      rw [Option.some.injEq] at htest
      subst htest
      obtain ⟨a, hdef, hdom⟩ := wf.test_above hlast
      exact wf.ssa.holds_at_end hend (wf.mem_instructions hdef (by simp [hop])) hdom
    · simp at htest
  simp only [Computes, hop, hops] at hholds
  rw [hholds x y hl hr, Value.toBoolean_boolean] at hcond
  unfold effectiveOp
  cases dir <;> simp [hcond]

/-- A constant the deciding comparison reads has its value where the block is
entered. -/
lemma compared_constant (wf : G.WellFormed) {b pred : BlockId} {dir : Bool} {ins o : DefId}
    {jsop : CompareOp} {spec : MIRType} (hbranch : G.immediateDominatorBranch b = some (pred, dir))
    (htest : G.testOperand? pred = some ins) (hop : (G.definition ins).op = .compare jsop spec)
    (ho : o ∈ (G.definition ins).operands) {value : Value}
    (hvalue : (G.definition o).op = .constant value) {env : DefId → Value}
    (harr : G.ssa.Arrives b env) : env o = value := by
  have hstrict := deciding_strictlyDominates wf hbranch harr.reachable
  obtain ⟨a, ha, hap⟩ := compare_operand_above wf htest hop ho
  have hholds := wf.ssa.holds_of_strictlyDominates harr
    (wf.mem_instructions ha (by simp [hvalue])) (hap.trans_strict hstrict harr.reachable)
  simpa only [ssa, Computes, hvalue] using hholds

end MIRGraph
end SpiderMonkey.Ion
