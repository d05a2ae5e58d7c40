import SpiderMonkey.Ion.FiniteGraph
import SpiderMonkey.Ion.BetaNodes

/-! # Beta nodes state true facts

A block whose only predecessor ends in a test is entered only when the test comes
out one way, and the operands of the comparison keep their values up to there
(`decided`). The interval of a beta follows from the operator that then holds,
except in one arm: two operands of which neither is a constant are taken to be
strictly ordered whatever the operator is. `addBetaNobes_sound_iff` shows that a
beta of that arm is wrong exactly when an operand has the extreme value the
strict order excludes, and that no other beta is ever wrong.
-/

namespace SpiderMonkey.Ion

open SpiderMonkey.Lib List

/-- `r` reads `d`, through any number of betas. -/
inductive Ref.CopyOf (betas : List Beta) : Ref → DefId → Prop
  | definition (d) : CopyOf betas (.definition d) d
  | beta {k b d} : betas[k]? = some b → CopyOf betas b.val d → CopyOf betas (.beta k) d

namespace Ref.CopyOf

lemma append {betas : List Beta} {r : Ref} {d : DefId} (h : r.CopyOf betas d) (b : Beta) :
    r.CopyOf (betas ++ [b]) d := by
  induction h with
  | definition d => exact .definition d
  | beta hk _ ih => exact .beta (by rw [List.getElem?_append_left]; exact hk; grind) ih

lemma eq {betas : List Beta} {r : Ref} {d e : DefId} (h : r.CopyOf betas d)
    (h' : r.CopyOf betas e) : d = e := by
  induction h with
  | definition d =>
    cases h'
    rfl
  | beta hk _ ih =>
    cases h' with
    | beta hk' h' =>
      rw [hk, Option.some.injEq] at hk'
      subst hk'
      exact ih h'

end Ref.CopyOf

/-- The int32 the beta copies, if it is one, lies in the interval. -/
def Beta.Holds (betas : List Beta) (env : DefId → Value) (b : Beta) : Prop :=
  ∀ d, b.val.CopyOf betas d → ∀ n, env d = .int32 n → b.low ≤ n.toInt ∧ n.toInt ≤ b.high

namespace MIRGraph

variable {G : MIRGraph}

/-- The comparison that decides whether `b` is entered is of two int32 values. -/
def Int32Compared (G : MIRGraph) (b : BlockId) (env : DefId → Value) : Prop :=
  ∀ pred dir ins, G.immediateDominatorBranch b = some (pred, dir) →
    G.testOperand? pred = some ins → ∀ jsop spec, (G.definition ins).op = .compare jsop spec →
      ∀ o ∈ (G.definition ins).operands, ∃ n, env o = .int32 n

end MIRGraph

/-- The interval of the operand compared with a constant contains every int32 for
which the comparison holds. -/
lemma boundedRange_sound {jsop : CompareOp} {x bound : Int} (hx : IsInt32 x)
    (h : jsop.eval x bound = true) :
    (boundedRange jsop bound).1 ≤ x ∧ x ≤ (boundedRange jsop bound).2 := by
  unfold IsInt32 int32Min int32Max at hx
  cases jsop <;> simp only [CompareOp.eval, decide_eq_true_eq] at h <;>
    simp only [boundedRange, int32Min, int32Max]
  case lt | gt => split_ifs <;> simp only <;> omega
  all_goals omega

namespace MIRGraph

variable {G : MIRGraph}

/-! ## The state of the pass -/

/-- Every use reads the definition it read in the graph, or a copy of it. -/
structure ReadsCopies (G : MIRGraph) (s : BetaState) : Prop where
  operand : ∀ {d i r}, s.operand d i = some r →
    ∃ o, (G.definition d).getOperand? i = some o ∧ r.CopyOf s.betas o
  testOperand : ∀ {b r}, s.testOperand b = some r →
    ∃ ins, G.testOperand? b = some ins ∧ r.CopyOf s.betas ins

lemma readsCopies_initial : G.ReadsCopies G.initialBetaState where
  operand h := by
    obtain ⟨o, ho, rfl⟩ := Option.map_eq_some_iff.mp h
    exact ⟨o, ho, .definition o⟩
  testOperand h := by
    obtain ⟨o, ho, rfl⟩ := Option.map_eq_some_iff.mp h
    exact ⟨o, ho, .definition o⟩

variable {betas : List Beta}

/-- A use of what a new beta copies may as well read the beta. -/
lemma copyOf_newest {b : Beta} {d : DefId} (h : b.val.CopyOf betas d) :
    (Ref.beta betas.length).CopyOf (betas ++ [b]) d :=
  .beta (by simp) (h.append b)

variable {s : BetaState}

lemma readsCopies_insertBeta (hs : G.ReadsCopies s) (b : Beta) :
    G.ReadsCopies (G.insertBeta s b) where
  operand {d i r} h := by
    simp only [insertBeta, replaceDominatedUsesWith] at h ⊢
    split_ifs at h with huse
    · obtain ⟨o, ho, hcopy⟩ := hs.operand huse.1
      rw [Option.some.injEq] at h
      subst h
      exact ⟨o, ho, copyOf_newest hcopy⟩
    · obtain ⟨o, ho, hcopy⟩ := hs.operand h
      exact ⟨o, ho, hcopy.append b⟩
  testOperand {c r} h := by
    simp only [insertBeta, replaceDominatedUsesWith] at h ⊢
    split_ifs at h with huse
    · obtain ⟨o, ho, hcopy⟩ := hs.testOperand huse.1
      rw [Option.some.injEq] at h
      subst h
      exact ⟨o, ho, copyOf_newest hcopy⟩
    · obtain ⟨o, ho, hcopy⟩ := hs.testOperand h
      exact ⟨o, ho, hcopy.append b⟩

lemma readsCopies_addBetaNobesAt (hs : G.ReadsCopies s) (b : BlockId) :
    G.ReadsCopies (G.addBetaNobesAt s b) := by
  unfold addBetaNobesAt
  generalize G.newBetas s b = new
  induction new generalizing s with
  | nil => exact hs
  | cons beta new ih => exact ih (readsCopies_insertBeta hs beta)

/-- A run of the pass over any blocks keeps every use a copy of what it read. -/
lemma readsCopies_foldl (bs : List BlockId) (hs : G.ReadsCopies s) :
    G.ReadsCopies (bs.foldl G.addBetaNobesAt s) := by
  induction bs generalizing s with
  | nil => exact hs
  | cons b bs ih => exact ih (readsCopies_addBetaNobesAt hs b)

lemma betas_foldl_insertBeta (new : List Beta) (s : BetaState) :
    (new.foldl G.insertBeta s).betas = s.betas ++ new := by
  induction new generalizing s with
  | nil => simp
  | cons b new ih =>
    rw [foldl_cons, ih]
    simp [insertBeta, replaceDominatedUsesWith]

lemma betas_addBetaNobesAt (s : BetaState) (b : BlockId) :
    (G.addBetaNobesAt s b).betas = s.betas ++ G.newBetas s b :=
  betas_foldl_insertBeta _ _

/-- The comparison the pass sees is the one of the graph, with copies of its
operands. -/
lemma decidingCompare_eq_some (hs : G.ReadsCopies s) {b : BlockId} {jsop : CompareOp}
    {left right : Ref} (h : G.decidingCompare s b = some (jsop, left, right)) :
    ∃ pred dir ins jsop' spec l r, G.immediateDominatorBranch b = some (pred, dir) ∧
      G.testOperand? pred = some ins ∧ (G.definition ins).op = .compare jsop' spec ∧
      jsop = effectiveOp jsop' dir ∧ (G.definition ins).getOperand? 0 = some l ∧
      (G.definition ins).getOperand? 1 = some r ∧
      left.CopyOf s.betas l ∧ right.CopyOf s.betas r := by
  unfold decidingCompare at h
  split at h
  · simp at h
  · rename_i pred dir hbranch
    split at h
    · rename_i ins htest
      split at h
      · rename_i jsop' spec left' right' hop hleft hright
        simp only [Option.some.injEq, Prod.mk.injEq] at h
        obtain ⟨rfl, rfl, rfl⟩ := h
        obtain ⟨ins', htest', hcopy⟩ := hs.testOperand htest
        cases hcopy
        obtain ⟨l, hl, hcl⟩ := hs.operand hleft
        obtain ⟨r, hr, hcr⟩ := hs.operand hright
        exact ⟨pred, dir, ins, jsop', spec, l, r, hbranch, htest', hop, rfl, hl, hr, hcl, hcr⟩
      · simp at h
    · simp at h

/-! ## The betas of one block -/

/-- The arm for two variables is taken for an operator that is no strict order,
with the value of an operand that only a strict order excludes. -/
def Misjudged (G : MIRGraph) (s : BetaState) (b : BlockId) (env : DefId → Value) : Prop :=
  ∃ jsop left right, G.decidingCompare s b = some (jsop, left, right) ∧
    G.constantInt32? left = none ∧ G.constantInt32? right = none ∧ jsop ≠ .lt ∧ jsop ≠ .gt ∧
    ((∃ l, left.CopyOf s.betas l ∧ env l = .int32 Int32.minValue) ∨
      ∃ r, right.CopyOf s.betas r ∧ env r = .int32 Int32.maxValue)

variable {env : DefId → Value}

/-- A beta holds when the value it copies lies in its interval. -/
lemma holds_iff {b : Beta} {d : DefId} {n : Int32} (hcopy : b.val.CopyOf betas d)
    (hn : env d = .int32 n) :
    b.Holds betas env ↔ b.low ≤ n.toInt ∧ n.toInt ≤ b.high := by
  constructor
  · intro h
    exact h d hcopy n hn
  · intro h e he m hm
    obtain rfl := hcopy.eq he
    rw [hn, Value.int32.injEq] at hm
    rwa [← hm]

/-- The value of a constant, through what reads it. -/
lemma constantInt32_eq_some {ref : Ref} {d : DefId} {n : Int32}
    (h : G.constantInt32? ref = some n) (hcopy : ref.CopyOf betas d) :
    (G.definition d).op = .constant (.int32 n) := by
  cases hcopy with
  | beta => simp [constantInt32?] at h
  | definition =>
    simp only [constantInt32?, MDefinition.constantInt32?, MDefinition.constantValue?] at h
    split at h
    · rename_i value hop
      rw [hop]
      cases value <;> simp_all [Value.toInt32?]
    · simp at h

lemma eq_minValue_iff (x : Int32) : x = Int32.minValue ↔ x.toInt = int32Min := by
  rw [← Int32.toInt_inj]
  rfl

lemma eq_maxValue_iff (x : Int32) : x = Int32.maxValue ↔ x.toInt = int32Max := by
  rw [← Int32.toInt_inj]
  rfl

/-- The betas for two variables hold unless the operator is no strict order and an
operand has the value a strict order excludes. -/
lemma betasOfVariables_hold_iff {jsop : CompareOp} {left right : Ref} {l r : DefId} {x y : Int32}
    (b : BlockId) (hcl : left.CopyOf betas l) (hcr : right.CopyOf betas r) (hx : env l = .int32 x)
    (hy : env r = .int32 y) (heval : jsop.eval x.toInt y.toInt = true) :
    (∀ beta ∈ betasOfVariables jsop left right b, beta.Holds betas env) ↔
      ¬ (jsop ≠ .lt ∧ jsop ≠ .gt ∧ (x = Int32.minValue ∨ y = Int32.maxValue)) := by
  have hxint := isInt32_toInt x
  have hyint := isInt32_toInt y
  rw [eq_minValue_iff, eq_maxValue_iff]
  unfold IsInt32 int32Min int32Max at *
  by_cases hlt : jsop = .lt
  · subst hlt
    simp only [CompareOp.eval, decide_eq_true_eq] at heval
    simp only [betasOfVariables, if_true, forall_mem_cons, not_mem_nil,
      IsEmpty.forall_iff, implies_true, and_true, ne_eq, not_true, false_and, not_false_iff,
      iff_true, holds_iff (b := ⟨b, left, _, _⟩) hcl hx,
      holds_iff (b := ⟨b, right, _, _⟩) hcr hy, int32Min, int32Max]
    omega
  · simp only [betasOfVariables, hlt, if_false, forall_mem_cons, not_mem_nil,
      IsEmpty.forall_iff, implies_true, and_true, ne_eq, not_false_iff, true_and,
      holds_iff (b := ⟨b, left, _, _⟩) hcl hx, holds_iff (b := ⟨b, right, _, _⟩) hcr hy,
      int32Min, int32Max]
    by_cases hgt : jsop = .gt
    · subst hgt
      simp only [CompareOp.eval, decide_eq_true_eq] at heval
      simp only [not_true, false_and, not_false_iff, iff_true]
      omega
    · simp only [hgt, not_false_iff, true_and]
      omega

/-- On entry to `b`, the betas inserted in it hold unless the arm for two
variables misjudged the operator. -/
lemma newBetas_hold_iff (wf : G.WellFormed) (hs : G.ReadsCopies s) {b : BlockId}
    (harr : G.ssa.Arrives b env) (hint : G.Int32Compared b env) :
    (∀ beta ∈ G.newBetas s b, beta.Holds s.betas env) ↔ ¬ G.Misjudged s b env := by
  cases hcompare : G.decidingCompare s b with
  | none => simp [newBetas, hcompare, Misjudged]
  | some compared =>
    obtain ⟨jsop, left, right⟩ := compared
    obtain ⟨pred, dir, ins, jsop', spec, l, r, hbranch, htest, hop, rfl, hl, hr, hcl, hcr⟩ :=
      decidingCompare_eq_some hs hcompare
    obtain ⟨l', r', hops⟩ := wf.operands_eq_pair (d := ins) (by rw [hop]; rfl)
    simp only [MDefinition.getOperand?, hops, List.getElem?_cons_zero, List.getElem?_cons_succ,
      Option.some.injEq] at hl hr
    subst hl hr
    obtain ⟨x, hx⟩ := hint pred dir ins hbranch htest jsop' spec hop l' (by simp [hops])
    obtain ⟨y, hy⟩ := hint pred dir ins hbranch htest jsop' spec hop r' (by simp [hops])
    have heval := decided wf hbranch htest hop harr hops hx hy
    have hconst : ∀ o ∈ (G.definition ins).operands, ∀ value,
        (G.definition o).op = .constant value → env o = value :=
      fun o ho value hvalue => compared_constant wf hbranch htest hop ho hvalue harr
    have hxint := isInt32_toInt x
    have hyint := isInt32_toInt y
    have hmis : G.Misjudged s b env ↔ G.constantInt32? left = none ∧
        G.constantInt32? right = none ∧ effectiveOp jsop' dir ≠ .lt ∧
        effectiveOp jsop' dir ≠ .gt ∧ (x = Int32.minValue ∨ y = Int32.maxValue) := by
      have hxmin : (∃ l, left.CopyOf s.betas l ∧ env l = .int32 Int32.minValue) ↔
          x = Int32.minValue := by
        constructor
        · rintro ⟨d, hd, hval⟩
          obtain rfl := hcl.eq hd
          rwa [hx, Value.int32.injEq] at hval
        · rintro rfl
          exact ⟨l', hcl, hx⟩
      have hymax : (∃ r, right.CopyOf s.betas r ∧ env r = .int32 Int32.maxValue) ↔
          y = Int32.maxValue := by
        constructor
        · rintro ⟨d, hd, hval⟩
          obtain rfl := hcr.eq hd
          rwa [hy, Value.int32.injEq] at hval
        · rintro rfl
          exact ⟨r', hcr, hy⟩
      simp [Misjudged, hcompare, hxmin, hymax]
    rw [hmis]
    cases hcleft : G.constantInt32? left with
    | some bound =>
      have hbound : x = bound := by
        have := hconst l' (by simp [hops]) _ (constantInt32_eq_some hcleft hcl)
        rw [hx, Value.int32.injEq] at this
        exact this
      subst hbound
      have hreversed : (effectiveOp jsop' dir).reverse.eval y.toInt x.toInt = true := by
        rwa [CompareOp.eval_reverse]
      have hrange := boundedRange_sound hyint hreversed
      simpa [newBetas, hcompare, hcleft, holds_iff (b := ⟨b, right, _, _⟩) hcr hy] using hrange
    | none =>
      cases hcright : G.constantInt32? right with
      | some bound =>
        have hbound : y = bound := by
          have := hconst r' (by simp [hops]) _ (constantInt32_eq_some hcright hcr)
          rw [hy, Value.int32.injEq] at this
          exact this
        subst hbound
        have hrange := boundedRange_sound hxint heval
        simpa [newBetas, hcompare, hcleft, hcright, holds_iff (b := ⟨b, left, _, _⟩) hcl hx]
          using hrange
      | none =>
        simpa [newBetas, hcompare, hcleft, hcright] using
          betasOfVariables_hold_iff b hcl hcr hx hy heval

/-! ## The whole pass -/

lemma newBetas_block {b : BlockId} {beta : Beta} (h : beta ∈ G.newBetas s b) :
    beta.block = b := by
  unfold newBetas at h
  split at h
  · simp at h
  · split at h
    · simp_all
    · simp_all
    · simp only [betasOfVariables, mem_cons, not_mem_nil, or_false] at h
      rcases h with rfl | rfl <;> rfl

/-- What a new beta copies is a definition of the graph. -/
lemma newBetas_copies (hs : G.ReadsCopies s) {b : BlockId} {beta : Beta}
    (h : beta ∈ G.newBetas s b) : ∃ d, beta.val.CopyOf s.betas d := by
  unfold newBetas at h
  split at h
  · simp at h
  · rename_i jsop left right hcompare
    obtain ⟨_, _, _, _, _, l, r, _, _, _, _, _, _, hl, hr⟩ := decidingCompare_eq_some hs hcompare
    split at h
    · simp only [mem_singleton] at h
      exact ⟨r, by rw [h]; exact hr⟩
    · simp only [mem_singleton] at h
      exact ⟨l, by rw [h]; exact hl⟩
    · simp only [betasOfVariables, mem_cons, not_mem_nil, or_false] at h
      rcases h with rfl | rfl <;> simp only <;> split_ifs <;>
        first | exact ⟨l, hl⟩ | exact ⟨r, hr⟩

/-- Betas inserted later do not change what a beta copies. -/
lemma holds_append {betas more : List Beta} {beta : Beta} {d : DefId}
    (hcopy : beta.val.CopyOf betas d) :
    beta.Holds (betas ++ more) env ↔ beta.Holds betas env := by
  have hlater : beta.val.CopyOf (betas ++ more) d := by
    clear * - hcopy
    induction more generalizing betas with
    | nil => simpa using hcopy
    | cons b more ih => simpa using ih (hcopy.append b)
  constructor
  · intro h e he n hn
    obtain rfl := hcopy.eq he
    exact h d hlater n hn
  · intro h e he n hn
    obtain rfl := hlater.eq he
    exact h d hcopy n hn

/-- The betas a run inserts sit in the blocks it visits. -/
lemma betas_foldl (bs : List BlockId) (s : BetaState) :
    ∃ more, (bs.foldl G.addBetaNobesAt s).betas = s.betas ++ more ∧
      ∀ beta ∈ more, beta.block ∈ bs := by
  induction bs generalizing s with
  | nil => exact ⟨[], by simp⟩
  | cons b bs ih =>
    obtain ⟨more, hmore, hblocks⟩ := ih (G.addBetaNobesAt s b)
    refine ⟨G.newBetas s b ++ more, ?_, ?_⟩
    · rw [foldl_cons, hmore, betas_addBetaNobesAt, append_assoc]
    · intro beta hbeta
      rcases mem_append.mp hbeta with h | h
      · simp [newBetas_block h]
      · exact mem_cons_of_mem _ (hblocks beta h)

/-- On entry to a block, the betas the pass inserted in it hold, unless the pass
came to it in a state in which it misjudged the operator. -/
theorem addBetaNobes_sound_iff (wf : G.WellFormed) {visited later : List BlockId} {b : BlockId}
    (hblocks : G.blocks.reverse = visited ++ b :: later) {env : DefId → Value}
    (harr : G.ssa.Arrives b env) (hint : G.Int32Compared b env) :
    (∀ beta ∈ G.addBetaNobes.betas, beta.block = b → beta.Holds G.addBetaNobes.betas env) ↔
      ¬ G.Misjudged (visited.foldl G.addBetaNobesAt G.initialBetaState) b env := by
  have hnodup := nodup_reverse.mpr wf.nodup_blocks
  rw [hblocks] at hnodup
  obtain ⟨-, hlater, hdisjoint⟩ := nodup_append.mp hnodup
  have hs := readsCopies_foldl visited (readsCopies_initial (G := G))
  obtain ⟨before, hbefore, hbefore_blocks⟩ := betas_foldl (G := G) visited G.initialBetaState
  obtain ⟨after, hafter, hafter_blocks⟩ := betas_foldl (G := G) later
    (G.addBetaNobesAt (visited.foldl G.addBetaNobesAt G.initialBetaState) b)
  have hfinal : G.addBetaNobes.betas =
      (visited.foldl G.addBetaNobesAt G.initialBetaState).betas ++
        (G.newBetas (visited.foldl G.addBetaNobesAt G.initialBetaState) b ++ after) := by
    rw [addBetaNobes, hblocks, foldl_append, foldl_cons, hafter, betas_addBetaNobesAt,
      append_assoc]
  rw [← newBetas_hold_iff wf hs harr hint]
  generalize visited.foldl G.addBetaNobesAt G.initialBetaState = s at *
  constructor
  · intro h beta hbeta
    obtain ⟨d, hd⟩ := newBetas_copies hs hbeta
    have hin : beta ∈ G.addBetaNobes.betas := by
      rw [hfinal]
      simp [hbeta]
    have hholds := h beta hin (newBetas_block hbeta)
    rw [hfinal] at hholds
    exact (holds_append hd).mp hholds
  · intro h beta hbeta hblock
    rw [hfinal, mem_append, mem_append] at hbeta
    rcases hbeta with hbeta | hbeta | hbeta
    · rw [hbefore, mem_append] at hbeta
      rcases hbeta with hbeta | hbeta
      · simp [initialBetaState] at hbeta
      · exact absurd hblock (hdisjoint _ (hbefore_blocks beta hbeta) _ (by simp))
    · obtain ⟨d, hd⟩ := newBetas_copies hs hbeta
      rw [hfinal]
      exact (holds_append hd).mpr (h beta hbeta)
    · rw [nodup_cons] at hlater
      exact absurd (hblock ▸ hafter_blocks beta hbeta) hlater.1

/-! ## A test of two parameters -/

/-- `if (x >= y) { … } else { … }` over two int32 parameters. -/
def testGe : MIRGraph where
  blocks := [0, 1, 2]
  entryBlock := 0
  osrBlock := none
  block
    | 0 => ⟨.normal, [], [0, 1, 2], .test 2 1 2, [], 0, 0, 2⟩
    | 1 => ⟨.normal, [], [], .other [] false [], [0], 0, 1, 0⟩
    | 2 => ⟨.normal, [], [], .other [] false [], [0], 0, 2, 0⟩
    | _ => ⟨.normal, [], [], .other [] false [], [], 0, 3, 0⟩
  definition
    | 0 => ⟨.other false, [], 0, .int32⟩
    | 1 => ⟨.other false, [], 0, .int32⟩
    | 2 => ⟨.compare .ge .int32, [0, 1], 0, .boolean⟩
    | _ => ⟨.other false, [], 0, .value⟩

lemma testGe_phis (b : BlockId) : (testGe.block b).phis = [] := by
  unfold testGe
  simp only
  split <;> rfl

lemma testGe_wellFormed : testGe.WellFormed := by
  refine wellFormed_of_blockb [] rfl ?_ nofun (by decide) rfl ⟨rfl, rfl⟩ ?_
  · intro b hb
    unfold testGe at hb ⊢
    simp only at hb ⊢
    split <;> simp_all
  · intro d n h
    unfold testGe at h ⊢
    simp only at h ⊢
    split at h <;> simp_all [Opcode.numOperands?]

/-- The values of the parameters and of the comparison. -/
def testGeEnv (x y : Int32) : DefId → Value
  | 0 => .int32 x
  | 1 => .int32 y
  | _ => .boolean (CompareOp.ge.eval x.toInt y.toInt)

/-- The true branch is entered with any two values the comparison holds of. -/
lemma testGe_arrives {x y : Int32} (h : x.toInt ≥ y.toInt) :
    testGe.ssa.Arrives 1 (testGeEnv x y) := by
  have hrun : testGe.ssa.Run (testGe.ssa.body 0) (testGeEnv x y) (testGeEnv x y) := by
    refine .of_holds fun d hd => ?_
    simp only [ssa, testGe, mem_cons, not_mem_nil, or_false] at hd
    rcases hd with rfl | rfl | rfl
    · trivial
    · trivial
    · intro a b ha hb
      simp only [testGeEnv, Value.int32.injEq] at ha hb
      simp [testGeEnv, ha, hb]
  have htake : testGe.ssa.take 0 (testGeEnv x y) 1 := by
    simp [ssa, testGe, Branches, testGeEnv, CompareOp.eval, h]
  have hstep := Ssa.Arrives.step (.root (Or.inl rfl)) hrun htake
    (show testGe.ssa.sources 0 1 id from ⟨0, rfl, by simp [testGe]⟩)
  rwa [Ssa.enter_eq_self (testGe_phis 1)] at hstep

lemma testGe_int32Compared (x y : Int32) : testGe.Int32Compared 1 (testGeEnv x y) := by
  intro pred dir ins hbranch htest jsop spec _ o ho
  simp only [immediateDominatorBranch, testGe] at hbranch
  obtain ⟨rfl, -⟩ := by simpa using hbranch
  obtain rfl : 2 = ins := by simpa [testOperand?, testGe] using htest
  simp only [testGe, mem_cons, not_mem_nil, or_false] at ho
  rcases ho with rfl | rfl
  · exact ⟨x, rfl⟩
  · exact ⟨y, rfl⟩

theorem addBetaNobes_sound_iff_testGe :
    (∀ beta ∈ testGe.addBetaNobes.betas, beta.block = 1 →
        beta.Holds testGe.addBetaNobes.betas (testGeEnv 7 3)) ↔
      ¬ testGe.Misjudged ([2].foldl testGe.addBetaNobesAt testGe.initialBetaState) 1
        (testGeEnv 7 3) :=
  addBetaNobes_sound_iff testGe_wellFormed (show testGe.blocks.reverse = [2] ++ 1 :: [0] from rfl)
    (testGe_arrives (by decide)) (testGe_int32Compared 7 3)

/-- In the true branch of `x >= y` the pass states `y <= INT32_MAX - 1`, which is
false when both are `INT32_MAX`. -/
theorem addBetaNobes_fails_testGe :
    ¬ ∀ (G : MIRGraph) (b : BlockId) (env : DefId → Value), G.WellFormed → G.ssa.Arrives b env →
      G.Int32Compared b env → ∀ beta ∈ G.addBetaNobes.betas, beta.block = b →
        beta.Holds G.addBetaNobes.betas env := by
  intro h
  have hbeta : (⟨1, .definition 1, int32Min, int32Max - 1⟩ : Beta) ∈
      testGe.addBetaNobes.betas := by decide
  have hholds := h testGe 1 (testGeEnv Int32.maxValue Int32.maxValue) testGe_wellFormed
    (testGe_arrives le_rfl) (testGe_int32Compared _ _) _ hbeta rfl
  have := (hholds 1 (.definition 1) Int32.maxValue rfl).2
  exact absurd this (by decide)

end MIRGraph
end SpiderMonkey.Ion
