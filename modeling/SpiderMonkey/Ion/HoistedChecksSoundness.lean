import SpiderMonkey.Ion.FiniteGraph
import SpiderMonkey.Ion.HoistedChecks

/-! # The checks in front of a loop imply the one they replace

The definitions that `nonDecreasing` walks through never fall below the initial value: this
is an invariant of each of them over the region that the loop header dominates. What the two
checks and the test compare is defined above that region or above the branch, and so still
holds where the original check stood.
-/

namespace SpiderMonkey.Ion

open Lib List Option

/-- The inequality holds of exact sums. -/
def LinearInequality.Holds (ineq : LinearInequality) (env : DefId → Int32) : Prop :=
  if ineq.lessEqual then ineq.lhs.eval env ≤ (⟨ineq.rhs, 0⟩ : LinearSum).eval env
  else (⟨ineq.rhs, 0⟩ : LinearSum).eval env ≤ ineq.lhs.eval env

/-- The definitions two checks read. -/
def HoistedChecks.Reads (checks : HoistedChecks) (d : DefId) : Prop :=
  checks.upper = .definition d ∨ d = checks.length ∨ d = checks.lower

lemma HoistedChecks.pass_congr {checks : HoistedChecks} {env env' : DefId → Int32}
    (hsame : ∀ d, checks.Reads d → env' d = env d) (h : checks.Pass env) : checks.Pass env' := by
  unfold Pass at *
  rw [hsame checks.length (Or.inr (Or.inl rfl)), hsame checks.lower (Or.inr (Or.inr rfl))]
  cases hupper : checks.upper with
  | definition d =>
    rw [hupper] at h
    show InBounds _ _ (env' d) _ ∧ _
    rw [hsame d (Or.inl hupper)]
    exact h
  | constant n =>
    rw [hupper] at h
    exact h

/-- The terms of a sum are among those of the two sums it is made of. -/
lemma ArithOp.term_of_sum? {op : ArithOp} {lsum rsum sum : LinearSum}
    (h : op.sum? lsum rsum = some sum) : sum.term = lsum.term ∨ sum.term = rsum.term := by
  cases op with
  | add =>
    simp only [ArithOp.sum?, LinearSum.add?] at h
    split at h
    · cases h
    · rw [map_eq_some_iff] at h
      rcases h with ⟨c, _, rfl⟩
      cases lsum.term with
      | none => exact Or.inr rfl
      | some t => exact Or.inl rfl
  | sub =>
    simp only [ArithOp.sum?, LinearSum.sub?] at h
    split at h
    · cases h
    · split at h
      · rw [map_eq_some_iff] at h
        rcases h with ⟨c, _, rfl⟩
        exact Or.inl rfl
      · cases h
  | mul => cases h
  | div => cases h
  | mod => cases h

variable {before : List DefId}

/-- The term of a sum is available where the definition is. -/
lemma MIRGraph.HasSum.available_term {G : MIRGraph} {checked : DefId → Option (Int32 × Int32)}
    {P : Ssa BlockId DefId Int32} {b : BlockId} {env : DefId → Int32} (exec : G.Executes checked P)
    (h : P.WithinAfter b before env) {d t : DefId} {sum : LinearSum} (hsum : G.HasSum d sum)
    (hd : P.Available b before d) (ht : sum.term = some t) : P.Available b before t := by
  induction hsum with
  | term d =>
    rw [← Option.some.inj ht]
    exact hd
  | constant => cases ht
  | index hindex _ ih =>
    rcases hindex.2 with ⟨length, hops⟩
    exact ih (exec.available_operand h hd hindex.op_ne_phi (by simp [hops])) ht
  | arith harith _ _ hsum ihl ihr =>
    rcases ArithOp.term_of_sum? hsum with hterm | hterm
    · rw [hterm] at ht
      exact ihl (exec.available_operand h hd harith.op_ne_phi (by simp [harith.operands_eq])) ht
    · rw [hterm] at ht
      exact ihr (exec.available_operand h hd harith.op_ne_phi (by simp [harith.operands_eq])) ht

namespace LoopGraph

variable {G : LoopGraph} {header : BlockId} {toHoist : List DefId} {fuel : Nat}

/-! ## The inequality -/

lemma linearSum_hasSum {d : DefId} {sum : LinearSum} (h : G.linearSum fuel d = some sum) :
    G.HasSum d sum := by
  refine MIRGraph.extractLinearSum_hasSum ?_ ?_ h
  · rintro check index ⟨⟨minimum, maximum, hop⟩, _⟩
    exact G.boundsCheck_type check minimum maximum hop
  · intro d
    exact forall₂_same.mpr fun _ _ => .refl

/-- Normalizing a comparison keeps its outcome, for exact integers. -/
lemma normalizeCompare_spec {jsop : CompareOp} {constant c : Int32} {lessEqual : Bool}
    (h : normalizeCompare jsop constant = some (c, lessEqual)) {x y z : Int}
    (heval : jsop.eval x y = true) (hconstant : x - y = z + constant.toInt) :
    if lessEqual then z + c.toInt ≤ 0 else 0 ≤ z + c.toInt := by
  cases jsop with
  | le =>
    cases h
    have hle : x ≤ y := by simpa [CompareOp.eval] using heval
    simp only [if_true]
    omega
  | lt =>
    rw [normalizeCompare, map_eq_some_iff] at h
    rcases h with ⟨c', hc, heq⟩
    cases heq
    have hlt : x < y := by simpa [CompareOp.eval] using heval
    have hexact := toInt_of_safeAdd hc
    simp only [if_true]
    rw [hexact, show (1 : Int32).toInt = 1 from rfl]
    omega
  | ge =>
    cases h
    have hge : x ≥ y := by simpa [CompareOp.eval] using heval
    simp only [Bool.false_eq_true, if_false]
    omega
  | gt =>
    rw [normalizeCompare, map_eq_some_iff] at h
    rcases h with ⟨c', hc, heq⟩
    cases heq
    have hgt : x > y := by simpa [CompareOp.eval] using heval
    have hexact := toInt_of_safeSub hc
    simp only [Bool.false_eq_true, if_false]
    rw [hexact, show (1 : Int32).toInt = 1 from rfl]
    omega
  | eq => cases h
  | ne => cases h
  | stricteq => cases h
  | strictne => cases h

/-- What `ExtractLinearInequality` reads and gives. -/
lemma extractLinearInequality_spec {test : DefId} {direction : Bool} {ineq : LinearInequality}
    (h : G.extractLinearInequality fuel test direction = some ineq) :
    ∃ jsop l r lsum rsum, (G.definition test).op = .compare jsop .int32 ∧
      (G.definition test).operands = [l, r] ∧ G.HasSum l lsum ∧ G.HasSum r rsum ∧
      ineq.lhs.term = lsum.term ∧ ineq.rhs = rsum.term ∧
      ∀ env, (MIRGraph.effectiveOp jsop direction).eval (lsum.eval env) (rsum.eval env) = true →
        ineq.Holds env := by
  unfold extractLinearInequality at h
  split at h
  · rename_i jsop lhs rhs hop hops
    simp only [Option.bind_eq_bind, Option.bind_eq_some_iff, Option.pure_def,
      Option.some.injEq] at h
    rcases h with ⟨lsum, hl, rsum, hr, constant, hconstant, ⟨c, lessEqual⟩, hnormal, rfl⟩
    refine ⟨jsop, lhs, rhs, lsum, rsum, hop, hops, linearSum_hasSum hl, linearSum_hasSum hr, rfl,
      rfl, fun env heval => ?_⟩
    have hexact := toInt_of_safeSub hconstant
    have hspec := normalizeCompare_spec hnormal heval
      (z := lsum.eval env - lsum.constant.toInt - (rsum.eval env - rsum.constant.toInt))
      (by omega)
    have hzero : (0 : Int32).toInt = 0 := rfl
    unfold LinearInequality.Holds
    simp only [LinearSum.eval] at hspec ⊢
    cases lessEqual
    · simp only [Bool.false_eq_true, if_false] at hspec ⊢
      omega
    · simp only [if_true] at hspec ⊢
      omega
  · cases h

/-- Swapping the sides keeps the inequality, and then the right side is invariant. -/
lemma ensureInvariantRhs_spec {ineq ineq' : LinearInequality}
    (h : G.ensureInvariantRhs header ineq = some ineq') :
    (∀ env, ineq.Holds env → ineq'.Holds env) ∧
      (∀ rhs, ineq'.rhs = some rhs → G.isLoopInvariant header rhs = true) ∧
      ((ineq'.lhs.term = ineq.lhs.term ∧ ineq'.rhs = ineq.rhs) ∨
        (ineq'.lhs.term = ineq.rhs ∧ ineq'.rhs = ineq.lhs.term)) := by
  unfold ensureInvariantRhs at h
  split at h
  · rename_i hrhs
    cases h
    refine ⟨fun _ => id, ?_, Or.inl ⟨rfl, rfl⟩⟩
    intro rhs hsome
    rw [hrhs] at hsome
    cases hsome
  · rename_i rhs hrhs
    split at h
    · rename_i hinvariant
      cases h
      refine ⟨fun _ => id, ?_, Or.inl ⟨rfl, rfl⟩⟩
      intro rhs' hsome
      rw [hrhs] at hsome
      cases hsome
      exact hinvariant
    · split at h
      · cases h
      · rename_i hlhs
        simp only [Option.bind_eq_bind, Option.bind_eq_some_iff, Option.pure_def,
          Option.some.injEq] at h
        rcases h with ⟨c, hc, rfl⟩
        refine ⟨fun env hholds => ?_, ?_, Or.inr ⟨hrhs.symm, rfl⟩⟩
        · have hexact := toInt_of_safeSub hc
          have hzero : (0 : Int32).toInt = 0 := rfl
          unfold LinearInequality.Holds at hholds ⊢
          simp only [LinearSum.eval, hrhs] at hholds ⊢
          cases hless : ineq.lessEqual
          · simp only [hless, Bool.false_eq_true, if_false, Bool.not_false, if_true] at hholds ⊢
            omega
          · simp only [hless, if_true, Bool.not_true, Bool.false_eq_true, if_false] at hholds ⊢
            omega
        · intro t ht
          simp only at ht
          simpa [ht] using hlhs

/-! ## Definitions that do not fall below the initial value -/

/-- What `nonDecreasing` asks of a definition, where the others are in `member`. -/
structure Grows (G : LoopGraph) (header : BlockId) (initial : DefId) (member : DefId → Prop)
    (d : DefId) : Prop where
  type_eq : G.type d = .int32
  outside : G.isInLoop header d = false → d = initial
  inside : G.isInLoop header d = true →
    ((G.definition d).op = .phi ∧ ∀ o ∈ (G.definition d).operands, member o) ∨
    ∃ implicitTruncate lhs rhs n, (G.definition d).op = .arith .add .int32 implicitTruncate ∧
      (G.definition d).operands = [lhs, rhs] ∧ (G.definition rhs).op = .constant (.int32 n) ∧
      0 ≤ n.toInt ∧ member lhs

lemma Grows.mono {initial d : DefId} {member member' : DefId → Prop}
    (h : G.Grows header initial member d) (hsub : ∀ o, member o → member' o) :
    G.Grows header initial member' d where
  type_eq := h.type_eq
  outside := h.outside
  inside hin := by
    rcases h.inside hin with ⟨hop, hall⟩ | ⟨t, lhs, rhs, n, hop, hops, hrhs, hn, hlhs⟩
    · exact Or.inl ⟨hop, fun o ho => hsub o (hall o ho)⟩
    · exact Or.inr ⟨t, lhs, rhs, n, hop, hops, hrhs, hn, hsub lhs hlhs⟩

lemma op_of_constantInt32? {d : MDefinition} {n : Int32} (h : d.constantInt32? = some n) :
    d.op = .constant (.int32 n) := by
  unfold MDefinition.constantInt32? MDefinition.constantValue? at h
  split at h
  · rename_i value hop
    rw [bind_some] at h
    cases value <;> simp only [Value.toInt32?] at h <;> cases h
    exact hop
  · cases h

/-- A walk that succeeds ends with a set of definitions that is closed. -/
lemma nonDecreasing_closed {initial : DefId} {seen worklist : List DefId}
    (h : G.nonDecreasing header initial fuel seen worklist = some true)
    (hseen : ∀ d ∈ seen, G.Grows header initial (fun o => o ∈ seen ∨ o ∈ worklist) d) :
    ∃ member : DefId → Prop, (∀ d, d ∈ seen ∨ d ∈ worklist → member d) ∧
      ∀ d, member d → G.Grows header initial member d := by
  induction fuel generalizing seen worklist with
  | zero =>
    cases worklist with
    | nil =>
      refine ⟨fun d => d ∈ seen ∨ d ∈ [], fun _ => id, ?_⟩
      rintro d (hd | hd)
      · exact hseen d hd
      · exact absurd hd not_mem_nil
    | cons d worklist => cases h
  | succ fuel ih =>
    cases worklist with
    | nil =>
      refine ⟨fun d => d ∈ seen ∨ d ∈ [], fun _ => id, ?_⟩
      rintro d (hd | hd)
      · exact hseen d hd
      · exact absurd hd not_mem_nil
    | cons d worklist =>
      -- the walk goes on with `d` seen and `more` put on the worklist
      have hcontinue : ∀ more : List DefId,
          G.nonDecreasing header initial fuel (seen ++ [d]) (more ++ worklist) = some true →
          G.Grows header initial (fun o => o ∈ seen ++ [d] ∨ o ∈ more ++ worklist) d →
          ∃ member : DefId → Prop, (∀ x, x ∈ seen ∨ x ∈ d :: worklist → member x) ∧
            ∀ x, member x → G.Grows header initial member x := by
        intro more hrun hd
        have hstep : ∀ o, o ∈ seen ∨ o ∈ d :: worklist →
            o ∈ seen ++ [d] ∨ o ∈ more ++ worklist := by
          intro o ho
          simp only [mem_append, mem_cons, not_mem_nil, or_false] at ho ⊢
          tauto
        have hseen' : ∀ x ∈ seen ++ [d],
            G.Grows header initial (fun o => o ∈ seen ++ [d] ∨ o ∈ more ++ worklist) x := by
          intro x hx
          rcases mem_append.mp hx with hold | hnew
          · exact (hseen x hold).mono hstep
          · rw [mem_singleton.mp hnew]
            exact hd
        rcases ih hrun hseen' with ⟨member, hmember, hgrows⟩
        exact ⟨member, fun x hx => hmember x (hstep x hx), hgrows⟩
      unfold nonDecreasing at h
      split at h
      · rename_i hdup
        rw [contains_iff_mem] at hdup
        have hstep : ∀ o, o ∈ seen ∨ o ∈ d :: worklist → o ∈ seen ∨ o ∈ worklist := by
          intro o ho
          rcases ho with ho | ho
          · exact Or.inl ho
          · rcases mem_cons.mp ho with rfl | ho
            · exact Or.inl hdup
            · exact Or.inr ho
        rcases ih h (fun x hx => (hseen x hx).mono hstep) with ⟨member, hmember, hgrows⟩
        exact ⟨member, fun x hx => hmember x (hstep x hx), hgrows⟩
      · split at h
        · cases h
        · rename_i htype
          rw [ne_eq, not_not] at htype
          split at h
          · rename_i hout
            rw [Bool.not_eq_true'] at hout
            split at h
            · cases h
            · rename_i heq
              rw [ne_eq, not_not] at heq
              refine hcontinue [] h ⟨htype, fun _ => heq, fun hin => ?_⟩
              rw [hout] at hin
              cases hin
          · rename_i hin
            rw [Bool.not_eq_true', Bool.not_eq_false] at hin
            have hnotOut : G.isInLoop header d = false → d = initial := by
              intro hout
              rw [hin] at hout
              cases hout
            split at h
            · rename_i hop
              refine hcontinue _ h ⟨htype, hnotOut, fun _ => Or.inl ⟨hop, fun o ho => ?_⟩⟩
              exact Or.inr (mem_append_left _ (mem_reverse.mpr ho))
            · rename_i implicitTruncate lhs rhs hop hops
              split at h
              · rename_i n hconstant
                split at h
                · cases h
                · rename_i hsign
                  rw [Int32.lt_iff_toInt_lt, not_lt] at hsign
                  refine hcontinue [lhs] h ⟨htype, hnotOut, fun _ => Or.inr ⟨implicitTruncate, lhs,
                    rhs, n, hop, hops, op_of_constantInt32? hconstant, hsign, ?_⟩⟩
                  exact Or.inr mem_cons_self
              · cases h
            · cases h

/-! ## The two checks -/

/-- What `tryHoistBoundsCheck` has found out when it makes the two checks. -/
structure Hoists (G : LoopGraph) (header : BlockId) (fuel : Nat) (ins test : DefId)
    (direction : Bool) (minimum maximum : Int32) (indexIns length : DefId)
    (original ineq : LinearInequality) (index : LinearSum) (term initial : DefId)
    (adjustment lowerBound : Int32) : Prop where
  op_eq : (G.definition ins).op = .boundsCheck minimum maximum
  operands_eq : (G.definition ins).operands = [indexIns, length]
  length_invariant : G.isLoopInvariant header length = true
  extracted : G.extractLinearInequality fuel test direction = some original
  oriented : G.ensureInvariantRhs header original = some ineq
  lessEqual : ineq.lessEqual = true
  lhs_term : ineq.lhs.term = some term
  term_op : (G.definition term).op = .phi
  term_block : (G.definition term).block = header
  index_sum : G.HasSum indexIns index
  index_term : index.term = some term
  initial_eq : (G.definition term).operands[0]? = some initial
  grows : G.nonDecreasing header initial fuel [] [term] = some true
  adjustment_eq : adjustment.toInt =
    index.constant.toInt - ineq.lhs.constant.toInt + maximum.toInt
  lowerBound_eq : lowerBound.toInt = - index.constant.toInt - minimum.toInt

lemma tryHoistBoundsCheck_spec {ins test : DefId} {direction : Bool} {checks : HoistedChecks}
    (h : G.tryHoistBoundsCheck header fuel ins test direction = some checks) :
    ∃ minimum maximum indexIns length original ineq index term initial adjustment lowerBound,
      G.Hoists header fuel ins test direction minimum maximum indexIns length original ineq index
        term initial adjustment lowerBound ∧
      checks = upperCheck ineq.rhs length adjustment initial lowerBound := by
  unfold tryHoistBoundsCheck at h
  split at h
  · rename_i minimum maximum indexIns length hop hops
    simp only [Option.bind_eq_bind, Option.bind_eq_some_iff, Option.pure_def, Option.some.injEq,
      guard_eq_some', exists_const, MDefinition.getOperand?] at h
    rcases h with ⟨hlength, original, hextracted, ineq, horiented, term, hterm, ⟨htop, htblock⟩,
      index, hindex, hiterm, hless, a₁, ha₁, a₂, ha₂, initial, hinitial, grows, hgrows, rfl, l₁,
      hl₁, l₂, hl₂, hchecks⟩
    have e₁ := toInt_of_safeSub ha₁
    have e₂ := toInt_of_safeAdd ha₂
    have e₃ := toInt_of_safeSub hl₁
    have e₄ := toInt_of_safeSub hl₂
    have hzero : (0 : Int32).toInt = 0 := rfl
    refine ⟨minimum, maximum, indexIns, length, original, ineq, index, term, initial, a₂, l₂,
      ⟨hop, hops, hlength, hextracted, horiented, hless, hterm, htop, htblock,
        linearSum_hasSum hindex, hiterm, hinitial, hgrows, ?_, ?_⟩, hchecks.symm⟩
    · omega
    · omega
  · cases h

variable {ins test : DefId} {direction : Bool} {minimum maximum : Int32} {indexIns length : DefId}
  {original ineq : LinearInequality} {index : LinearSum} {term initial : DefId}
  {adjustment lowerBound : Int32} {env : DefId → Int32}

/-- The check that passes in front of the loop bounds the index below the branch. -/
lemma Hoists.inBounds
    (h : G.Hoists header fuel ins test direction minimum maximum indexIns length original ineq
      index term initial adjustment lowerBound)
    (hpass : (upperCheck ineq.rhs length adjustment initial lowerBound).Pass env)
    (hholds : ineq.Holds env) (hindex : (env indexIns).toInt = index.eval env)
    (hgrows : (env initial).toInt ≤ (env term).toInt) :
    InBounds minimum maximum (env indexIns) (env length) := by
  have hadjustment := h.adjustment_eq
  have hlower := h.lowerBound_eq
  have hzero : (0 : Int32).toInt = 0 := rfl
  unfold LinearInequality.Holds at hholds
  simp only [h.lessEqual, if_true, LinearSum.eval, h.lhs_term, map_some, getD_some]
    at hholds
  simp only [LinearSum.eval, h.index_term, map_some, getD_some] at hindex
  unfold InBounds
  cases hrhs : ineq.rhs with
  | none =>
    simp only [hrhs, upperCheck, HoistedChecks.Pass, InBounds] at hpass
    simp only [hrhs, map_none, getD_none] at hholds
    omega
  | some rhs =>
    simp only [hrhs, upperCheck, HoistedChecks.Pass, InBounds] at hpass
    simp only [hrhs, map_some, getD_some] at hholds
    omega

/-! ## The graph after the move -/

section Moved

variable (G) (header) (toHoist)

@[simp] lemma hoistInstructions_op (d : DefId) :
    ((G.hoistInstructions header toHoist).definition d).op = (G.definition d).op := by
  unfold hoistInstructions
  simp only
  split <;> rfl

@[simp] lemma hoistInstructions_operands (d : DefId) :
    ((G.hoistInstructions header toHoist).definition d).operands = (G.definition d).operands := by
  unfold hoistInstructions
  simp only
  split <;> rfl

@[simp] lemma hoistInstructions_type (d : DefId) :
    (G.hoistInstructions header toHoist).type d = G.type d := by
  unfold hoistInstructions MIRGraph.type
  simp only
  split <;> rfl

lemma hoistInstructions_block (d : DefId) :
    ((G.hoistInstructions header toHoist).definition d).block =
      if d ∈ toHoist then G.preLoop header else (G.definition d).block := by
  unfold hoistInstructions
  simp only
  split <;> rfl

end Moved

lemma computesInt32_of_hoisted {checked : DefId → Option (Int32 × Int32)} {d : DefId} {v : Int32}
    (h : (G.hoistInstructions header toHoist).ComputesInt32 checked d env v) :
    G.ComputesInt32 checked d env v := by
  unfold MIRGraph.ComputesInt32 at h ⊢
  simpa only [hoistInstructions_op, hoistInstructions_operands, hoistInstructions_type] using h

lemma leavesExact_of_hoisted {d : DefId} {v : Int32}
    (h : (G.hoistInstructions header toHoist).LeavesExact d env v) : G.LeavesExact d env v := by
  intro op l r n harith hn
  refine h op l r n ⟨?_, ?_, ?_, ?_, ?_⟩ hn
  · rw [hoistInstructions_op]
    exact harith.op_eq
  · rw [hoistInstructions_operands]
    exact harith.operands_eq
  · rw [hoistInstructions_type]
    exact harith.type_eq
  · rw [hoistInstructions_type]
    exact harith.type_left
  · rw [hoistInstructions_type]
    exact harith.type_right

variable {checks : HoistedChecks} {exactly : DefId → Prop}

lemma executes_hoisted (wf : (G.hoistInstructions header toHoist).WellFormed) :
    G.Executes (fun _ => none) (G.compiledSsa header toHoist checks exactly) where
  wf := wf.hoistedSsa _ _ _
  operands_eq d := hoistInstructions_operands G header toHoist d
  computes h := computesInt32_of_hoisted h.1
  phi_op hd := by
    have hop := wf.phi_op hd
    rwa [hoistInstructions_op] at hop

/-! ## What is above the loop -/

variable {a b : BlockId} {d : DefId}

lemma block_of_defines (wf : (G.hoistInstructions header toHoist).WellFormed)
    (hd : (G.hoistInstructions header toHoist).ssa.Defines a d) :
    (if d ∈ toHoist then G.preLoop header else (G.definition d).block) = a := by
  rw [← hoistInstructions_block]
  exact wf.definition_block hd

/-- A block with a smaller id that dominates a block of the loop is above the loop. -/
lemma IsLoop.strictlyDominates_of_lt (loop : G.IsLoop header toHoist) (hlt : a < header)
    (hab : G.ssa.Dominates a b) (hb : G.ssa.Dominates header b) (hreach : G.ssa.Reachable b) :
    G.ssa.StrictlyDominates a header := by
  have hne : a ≠ header := Nat.ne_of_lt hlt
  rcases hab.total hb hreach with h | h
  · exact ⟨h, hne⟩
  · have hgt := loop.lt_of_strictlyDominates (hab.reachable hreach) ⟨h, Ne.symm hne⟩
    exact absurd hlt (Nat.lt_asymm hgt)

lemma IsLoop.preLoop_lt (loop : G.IsLoop header toHoist) (hreach : G.ssa.Reachable header) :
    G.preLoop header < header :=
  loop.lt_of_strictlyDominates hreach loop.preLoop_above

/-- A loop-invariant definition that reaches a block of the loop is now above the loop. -/
lemma IsLoop.above_of_invariant (loop : G.IsLoop header toHoist)
    (wf : (G.hoistInstructions header toHoist).WellFormed)
    (hinvariant : G.isLoopInvariant header d = true)
    (hd : (G.compiledSsa header toHoist checks exactly).Defines a d)
    (hab : G.ssa.Dominates a b) (hb : G.ssa.Dominates header b) (hreach : G.ssa.Reachable b) :
    G.ssa.StrictlyDominates a header := by
  have hblock := block_of_defines wf hd
  by_cases hmoved : d ∈ toHoist
  · rw [if_pos hmoved] at hblock
    rw [← hblock]
    exact loop.preLoop_above
  · rw [if_neg hmoved] at hblock
    refine loop.strictlyDominates_of_lt ?_ hab hb hreach
    by_contra hge
    refine hmoved (loop.mem_toHoist d ?_ hinvariant)
    rw [← hblock, not_lt] at hge
    exact decide_eq_true hge

/-- An available definition is defined in a block that dominates. -/
lemma exists_defines_of_available
    (h : (G.compiledSsa header toHoist checks exactly).WithinAfter b before env)
    (hd : (G.compiledSsa header toHoist checks exactly).Available b before d) :
    ∃ a, (G.compiledSsa header toHoist checks exactly).Defines a d ∧ G.ssa.Dominates a b := by
  rcases h with ⟨start, after, _, hbody, _⟩
  rcases hd with hphi | hin | ⟨a, hdef, hdom⟩
  · exact ⟨b, Or.inl hphi, FlowGraph.dominates_refl b⟩
  · refine ⟨b, Or.inr ?_, FlowGraph.dominates_refl b⟩
    rw [hbody]
    exact mem_append_left _ hin
  · exact ⟨a, hdef, hdom.1⟩

/-- A phi of the graph is not moved. -/
lemma not_mem_toHoist_of_phi (wf : (G.hoistInstructions header toHoist).WellFormed)
    (hop : (G.definition d).op = .phi) : d ∉ toHoist := by
  intro hin
  have hinstruction : d ∈ ((G.hoistInstructions header toHoist).block
      (G.preLoop header)).instructions := by
    simp [hoistInstructions, hin]
  apply wf.instruction_op hinstruction
  rw [hoistInstructions_op]
  exact hop

variable {member : DefId → Prop}

/-- An instruction that `nonDecreasing` walks through does not fall below the initial value
if its operands do not, unless it wraps around. -/
lemma le_of_grows (wf : (G.hoistInstructions header toHoist).WellFormed)
    (h : (G.compiledSsa header toHoist checks G.LooksThrough).WithinAfter b before env)
    (hd : (G.compiledSsa header toHoist checks G.LooksThrough).Available b before d)
    (hop : (G.definition d).op ≠ .phi) (hgrows : ∀ d, member d → G.Grows header initial member d)
    (hmember : member d) (hoperands : ∀ o ∈ (G.definition d).operands, member o →
      (env initial).toInt ≤ (env o).toInt) :
    (env initial).toInt ≤ (env d).toInt := by
  have exec : G.Executes (fun _ => none) (G.compiledSsa header toHoist checks G.LooksThrough) :=
    executes_hoisted wf
  have hd' := hgrows d hmember
  cases hin : G.isInLoop header d with
  | false => rw [hd'.outside hin]
  | true =>
    rcases hd'.inside hin with ⟨hphi, _⟩ | ⟨truncate, lhs, rhs, n, hadd, hops, hrhs, hn, hlhs⟩
    · exact absurd hphi hop
    · have harith : G.IsInt32Arith .add d lhs rhs :=
        ⟨⟨_, _, hadd⟩, hops, hd'.type_eq, (hgrows lhs hlhs).type_eq, G.constant_type rhs n hrhs⟩
      have hthrough : G.LooksThrough d := by
        refine ⟨.add, lhs, rhs, ⟨some lhs, 0⟩, ⟨none, n⟩, ⟨some lhs, n⟩, harith, .term lhs,
          .constant hrhs, ?_⟩
        have hzero : safeAdd 0 n = some n := by
          unfold safeAdd
          simp
        simp [ArithOp.sum?, LinearSum.add?, hzero]
      have hconstant : env rhs = n := by
        have hrhsAvail := exec.available_operand h hd hop (o := rhs) (by simp [hops])
        have hholds := exec.computes (exec.holds h hrhsAvail (by rw [hrhs]; simp))
        simpa only [MIRGraph.ComputesInt32, hrhs] using hholds
      have hexact := leavesExact_of_hoisted ((exec.holds h hd hop).2 hthrough)
      have hsum := hexact .add lhs rhs _ harith rfl
      rw [hsum, hconstant]
      have hle := hoperands lhs (by simp [hops]) hlhs
      omega

/-! ## Invariants of the loop -/

/-- The predecessor of the header that the header does not dominate is the block in front of
the loop, at position 0. -/
lemma IsLoop.entry (loop : G.IsLoop header toHoist)
    {p : BlockId} {k : Nat} (hk : (G.block header).predecessors[k]? = some p)
    (hp : ¬ G.ssa.Dominates header p) : p = G.preLoop header ∧ k = 0 := by
  rcases loop.predecessors_eq with ⟨backedge, hpreds, hback⟩
  rw [hpreds] at hk
  match k, hk with
  | 0, hk => exact ⟨(Option.some.inj hk).symm, rfl⟩
  | 1, hk =>
    rw [← Option.some.inj hk] at hp
    exact absurd hback hp
  | k + 2, hk => cases hk

/-- The block of a definition above the block in front of the loop. -/
lemma IsLoop.eq_initial_of_above (loop : G.IsLoop header toHoist)
    (wf : (G.hoistInstructions header toHoist).WellFormed) (hreach : G.ssa.Reachable header)
    (hgrows : ∀ d, member d → G.Grows header initial member d) (hmember : member d)
    (havail : (G.compiledSsa header toHoist checks exactly).Available (G.preLoop header) [] d) :
    d = initial := by
  have hlt := loop.preLoop_lt hreach
  have hpre : G.ssa.Reachable (G.preLoop header) := loop.preLoop_above.1.reachable hreach
  rcases havail with hphi | hnil | ⟨a, hdef, hdom⟩
  · -- a phi of the block in front of the loop
    have hop : (G.definition d).op = .phi := by
      have hphiOp := wf.phi_op hphi
      rwa [hoistInstructions_op] at hphiOp
    have hblock := block_of_defines wf (Or.inl hphi)
    rw [if_neg (not_mem_toHoist_of_phi wf hop)] at hblock
    apply (hgrows d hmember).outside
    rw [isInLoop, hblock]
    exact decide_eq_false (Nat.not_le_of_lt hlt)
  · exact absurd hnil not_mem_nil
  · have hblock := block_of_defines wf hdef
    have halt := loop.lt_of_strictlyDominates hpre hdom
    split at hblock
    · exact absurd hblock.symm hdom.2
    · apply (hgrows d hmember).outside
      rw [isInLoop, hblock]
      exact decide_eq_false (Nat.not_le_of_lt (Nat.lt_trans halt hlt))

/-- A phi of the loop that `nonDecreasing` walks through only reads such definitions. -/
lemma source_mem (wf : (G.hoistInstructions header toHoist).WellFormed)
    (hgrows : ∀ d, member d → G.Grows header initial member d) (hmember : member d) {c : BlockId}
    {k : Nat} {o : DefId} (hphi : d ∈ ((G.hoistInstructions header toHoist).block c).phis)
    (hc : header ≤ c)
    (ho : ((G.hoistInstructions header toHoist).definition d).getOperand? k = some o) :
    member o := by
  have hop : (G.definition d).op = .phi := by
    have hphiOp := wf.phi_op hphi
    rwa [hoistInstructions_op] at hphiOp
  have hblock := block_of_defines wf (Or.inl hphi)
  rw [if_neg (not_mem_toHoist_of_phi wf hop)] at hblock
  have hin : G.isInLoop header d = true := by
    apply decide_eq_true
    rw [hblock]
    exact hc
  rcases (hgrows d hmember).inside hin with ⟨_, hall⟩ | ⟨_, _, _, _, hadd, _⟩
  · apply hall
    rw [MDefinition.getOperand?, hoistInstructions_operands] at ho
    exact mem_of_getElem? ho
  · rw [hop] at hadd
    cases hadd

/-- In the loop, nothing that `nonDecreasing` walks through is below the initial value. -/
lemma IsLoop.initial_le (loop : G.IsLoop header toHoist)
    (wf : (G.hoistInstructions header toHoist).WellFormed)
    (hgrows : ∀ d, member d → G.Grows header initial member d)
    (hinitial : ∃ a, (G.compiledSsa header toHoist checks G.LooksThrough).Defines a initial ∧
      G.ssa.StrictlyDominates a header)
    (h : (G.compiledSsa header toHoist checks G.LooksThrough).WithinAfter b before env)
    (hb : G.ssa.Dominates header b) (hmember : member d)
    (hd : (G.compiledSsa header toHoist checks G.LooksThrough).Available b before d) :
    (env initial).toInt ≤ (env d).toInt := by
  have hwf := wf.hoistedSsa (G.preLoop header) checks G.LooksThrough
  have hheader : G.ssa.Reachable header := by
    rcases h with ⟨start, after, harr, _⟩
    exact hb.reachable harr.reachable
  have hlt := loop.preLoop_lt hheader
  have hbodyOp : ∀ {c d}, d ∈ ((G.hoistInstructions header toHoist).block c).instructions →
      (G.definition d).op ≠ .phi := by
    intro c d hin
    have hop := wf.instruction_op hin
    rwa [hoistInstructions_op] at hop
  -- the initial value is not assigned by the phis of the loop
  have hkeep : ∀ {c src env'}, G.ssa.Dominates header c → G.ssa.Reachable c →
      (G.compiledSsa header toHoist checks G.LooksThrough).enter c src env' initial =
        env' initial := by
    intro c src env' hc hreach
    rcases hinitial with ⟨a, hdef, hdom⟩
    apply Ssa.enter_of_not_phi
    intro hin
    exact hdom.ne_of_dominates hc hreach (hwf.block_unique hdef (Or.inl hin))
  refine hwf.region_induction member (fun x => x = initial)
    (fun d env => (env initial).toInt ≤ (env d).toInt) ?_ ?_ ?_ ?_ ?_ ?_ h hb hmember hd
  · rintro x rfl
    exact hinitial
  · intro d env env' hsame hreads hle
    rw [hsame, hreads initial rfl]
    exact hle
  · intro hroot
    rcases loop.predecessors_eq with ⟨backedge, hpreds, _⟩
    have hnone := wf.root_predecessors hroot
    change (G.block header).predecessors = [] at hnone
    rw [hnone] at hpreds
    cases hpreds
  · -- the loop is entered from the block in front of it
    rintro p env src hleaves htake ⟨k, hk, hsrc⟩ hp d hmember havail
    obtain ⟨rfl, rfl⟩ := loop.entry hk hp
    have hend : ∀ o, member o → (G.compiledSsa header toHoist checks G.LooksThrough).Available
        (G.preLoop header) ((G.hoistInstructions header toHoist).block
          (G.preLoop header)).instructions o → (env initial).toInt ≤ (env o).toInt := by
      intro o ho hoavail
      rcases hleaves with ⟨start, harr, hrun⟩
      have hwithin : (G.compiledSsa header toHoist checks G.LooksThrough).WithinAfter
          (G.preLoop header) ((G.hoistInstructions header toHoist).block
            (G.preLoop header)).instructions env :=
        ⟨start, [], harr, (append_nil _).symm, hrun⟩
      refine hwf.body_induction (append_nil _).symm member
        (fun o => (env initial).toInt ≤ (env o).toInt) ?_ ?_ ho hoavail
      · intro x hx hxavail
        rw [loop.eq_initial_of_above wf hheader hgrows hx hxavail]
      · intro x hx hxavail hxmember hoperands
        refine le_of_grows wf hwithin hxavail (hbodyOp hx) hgrows hxmember fun o ho => ?_
        exact hoperands o (by rw [← hoistInstructions_operands G header toHoist] at ho; exact ho)
    rw [hkeep (FlowGraph.dominates_refl _) hheader]
    rcases havail with hphi | hnil | ⟨a, hdef, hdom⟩
    · rw [Ssa.enter_of_phi hphi]
      rcases wf.phi_operand_above hphi hk (hsrc d hphi) with ⟨a, hdef, hdom⟩
      exact hend _ (source_mem wf hgrows hmember hphi (Nat.le_refl header) (hsrc d hphi))
        (Ssa.available_at_end hdef hdom)
    · exact absurd hnil not_mem_nil
    · rw [Ssa.enter_of_not_phi fun hin => hdom.2 (hwf.block_unique hdef (Or.inl hin))]
      apply hend d hmember
      have hap : G.ssa.Dominates a (G.preLoop header) :=
        hdom.1.of_edge (MIRGraph.mem_successors_of_branchesInt32 htake.1) (Ne.symm hdom.2)
      exact Ssa.available_at_end hdef hap
  · -- the phis of the loop read definitions that are walked through
    rintro p c env src hleaves ⟨k, hk, hsrc⟩ hedge hp hc hend d hphi hmember
    have hreach : G.ssa.Reachable c := by
      rcases hleaves with ⟨start, harr, _⟩
      exact harr.reachable.step hedge
    rw [hkeep hc hreach, Ssa.enter_of_phi hphi]
    have hle : header ≤ c := by
      rcases Classical.em (header = c) with heq | hne
      · exact Nat.le_of_eq heq
      · exact Nat.le_of_lt (loop.lt_of_strictlyDominates hreach ⟨hc, hne⟩)
    rcases wf.phi_operand_above hphi hk (hsrc d hphi) with ⟨a, hdef, hdom⟩
    exact hend _ (source_mem wf hgrows hmember hphi hle (hsrc d hphi))
      (Ssa.available_at_end hdef hdom)
  · intro b before env hwithin _ x hx hxavail hxmember hoperands
    refine le_of_grows wf hwithin hxavail (hbodyOp hx) hgrows hxmember fun o ho => ?_
    exact hoperands o (by rw [← hoistInstructions_operands G header toHoist] at ho; exact ho)

/-- The two checks still pass in the loop: what they read is above it. -/
lemma IsLoop.pass_within (loop : G.IsLoop header toHoist)
    (wf : (G.hoistInstructions header toHoist).WellFormed) (hreads : ∀ d, checks.Reads d → ∃ a,
      (G.compiledSsa header toHoist checks exactly).Defines a d ∧
        G.ssa.StrictlyDominates a header)
    (h : (G.compiledSsa header toHoist checks exactly).WithinAfter b before env)
    (hb : G.ssa.Dominates header b) : checks.Pass env := by
  have hwf := wf.hoistedSsa (G.preLoop header) checks exactly
  have hcongr : ∀ {env env' : DefId → Int32}, (∀ x, checks.Reads x → env' x = env x) →
      checks.Pass env → checks.Pass env' :=
    fun hsame => HoistedChecks.pass_congr hsame
  have hinv : ∀ {env}, (G.compiledSsa header toHoist checks exactly).Arrives b env →
      checks.Pass env := by
    intro env harr
    refine hwf.persists checks.Reads checks.Pass (fun x hx => Or.inr (hreads x hx)) hcongr ?_ ?_
      harr hb
    · intro hroot
      rcases loop.predecessors_eq with ⟨backedge, hpreds, _⟩
      have hnone := wf.root_predecessors hroot
      change (G.block header).predecessors = [] at hnone
      rw [hnone] at hpreds
      cases hpreds
    · rintro p env src ⟨start, harr, hrun⟩ htake ⟨k, hk, _⟩ hback
      have hend : checks.Pass env := by
        by_cases hp : G.ssa.Dominates header p
        · exact hback hp
        · exact htake.2 (loop.entry hk hp).1
      refine hcongr (fun x hx => ?_) hend
      rcases hreads x hx with ⟨a, hdef, hdom⟩
      exact Ssa.enter_of_not_phi fun hin => hdom.2 (hwf.block_unique hdef (Or.inl hin))
  rcases h with ⟨start, after, harr, hbody, hrun⟩
  exact hwf.persists_within checks.Reads checks.Pass (fun x hx => Or.inr (hreads x hx)) hcongr hinv
    ⟨start, before, after, harr, hbody, hrun⟩ hb

/-- The comparison that decided a branch has its outcome wherever the branch dominates. -/
lemma compare_within (wf : (G.hoistInstructions header toHoist).WellFormed)
    {branch pred : BlockId} {l r : DefId} {jsop : CompareOp}
    (hbranch : G.immediateDominatorBranch branch = some (pred, direction))
    (htest : G.testOperand? pred = some test) (hop : (G.definition test).op = .compare jsop .int32)
    (hops : (G.definition test).operands = [l, r])
    (h : (G.compiledSsa header toHoist checks exactly).WithinAfter b before env)
    (hb : G.ssa.Dominates branch b) :
    (MIRGraph.effectiveOp jsop direction).eval (env l).toInt (env r).toInt = true ∧
      (G.compiledSsa header toHoist checks exactly).Available b before l ∧
      (G.compiledSsa header toHoist checks exactly).Available b before r := by
  have hwf := wf.hoistedSsa (G.preLoop header) checks exactly
  have hreachB : G.ssa.Reachable b := by
    rcases h with ⟨start, after, harr, _⟩
    exact harr.reachable
  have hreach : G.ssa.Reachable branch := hb.reachable hreachB
  have hstrict := MIRGraph.deciding_strictlyDominates wf hbranch hreach
  rcases MIRGraph.immediateDominatorBranch_eq_some hbranch with
    ⟨hpreds, test', ifTrue, ifFalse, hlast, hboth, hdir⟩
  have htest' : test' = test := by
    simpa [MIRGraph.testOperand?, hlast] using htest
  subst htest'
  have habove : ∀ o, o = l ∨ o = r → ∃ a,
      (G.compiledSsa header toHoist checks exactly).Defines a o ∧
        G.ssa.StrictlyDominates a branch := by
    intro o ho
    have hin : o ∈ ((G.hoistInstructions header toHoist).definition test').operands := by
      rw [hoistInstructions_operands, hops]
      simpa using ho
    rcases MIRGraph.compare_operand_above wf htest
      ((hoistInstructions_op G header toHoist test').trans hop) hin with ⟨a, hdef, hdom⟩
    exact ⟨a, hdef, hdom.trans_strict hstrict hreach⟩
  have havail : ∀ o, o = l ∨ o = r →
      (G.compiledSsa header toHoist checks exactly).Available b before o := by
    intro o ho
    rcases habove o ho with ⟨a, hdef, hdom⟩
    exact Or.inr (Or.inr ⟨a, hdef, hdom.1.trans hb, hdom.ne_of_dominates hb hreachB⟩)
  refine ⟨?_, havail l (Or.inl rfl), havail r (Or.inr rfl)⟩
  have hcongr : ∀ {env env' : DefId → Int32}, (∀ x, x = l ∨ x = r → env' x = env x) →
      (MIRGraph.effectiveOp jsop direction).eval (env l).toInt (env r).toInt = true →
      (MIRGraph.effectiveOp jsop direction).eval (env' l).toInt (env' r).toInt = true := by
    intro env env' hsame heval
    rw [hsame l (Or.inl rfl), hsame r (Or.inr rfl)]
    exact heval
  have hinv : ∀ {env}, (G.compiledSsa header toHoist checks exactly).Arrives b env →
      (MIRGraph.effectiveOp jsop direction).eval (env l).toInt (env r).toInt = true := by
    intro env harr
    refine hwf.persists (fun x => x = l ∨ x = r)
      (fun env => (MIRGraph.effectiveOp jsop direction).eval (env l).toInt (env r).toInt = true)
      (fun x hx => Or.inr (habove x hx)) hcongr ?_ ?_ harr hb
    · intro hroot
      have hnone := wf.root_predecessors hroot
      change (G.block branch).predecessors = [] at hnone
      rw [hnone] at hpreds
      cases hpreds
    · rintro p env src ⟨start, harr, hrun⟩ htake ⟨k, hk, _⟩ _
      have hp : p = pred := by
        have hin := mem_of_getElem? hk
        change p ∈ (G.block branch).predecessors at hin
        simpa [hpreds] using hin
      subst hp
      have hkeep : ∀ x, x = l ∨ x = r →
          (G.compiledSsa header toHoist checks exactly).enter branch src env x = env x := by
        intro x hx
        rcases habove x hx with ⟨a, hdef, hdom⟩
        exact Ssa.enter_of_not_phi fun hin => hdom.2 (hwf.block_unique hdef (Or.inl hin))
      have hend : (MIRGraph.effectiveOp jsop direction).eval (env l).toInt (env r).toInt = true := by
        -- at the end of the block of the test, the comparison holds its outcome
        have hwithin : (G.compiledSsa header toHoist checks exactly).WithinAfter p
            ((G.compiledSsa header toHoist checks exactly).body p) env :=
          ⟨start, [], harr, (append_nil _).symm, hrun⟩
        have htestAvail : (G.compiledSsa header toHoist checks exactly).Available p
            ((G.compiledSsa header toHoist checks exactly).body p) test' := by
          rcases wf.test_above (b := p) hlast with ⟨a, hdef, hdom⟩
          exact Ssa.available_at_end hdef hdom
        have exec : G.Executes (fun _ => none) (G.compiledSsa header toHoist checks exactly) :=
          executes_hoisted wf
        have hholds := exec.computes (exec.holds hwithin htestAvail (by rw [hop]; simp))
        simp only [MIRGraph.ComputesInt32, hop, hops] at hholds
        have htaken := htake.1
        change MIRGraph.BranchesInt32 _ (G.block p).lastIns env branch at htaken
        rw [hlast] at htaken
        simp only [MIRGraph.BranchesInt32, hoistInstructions_op, hop, hholds] at htaken
        cases heval : jsop.eval (env l).toInt (env r).toInt with
        | true =>
          have hT : branch = ifTrue := by simpa [heval] using htaken
          simp [MIRGraph.effectiveOp, hdir, hT, heval]
        | false =>
          have hF : branch = ifFalse := by simpa [heval] using htaken
          have hne : ifTrue ≠ branch := fun heq => hboth ⟨heq, hF.symm⟩
          simp [MIRGraph.effectiveOp, hdir, hne, heval]
      exact hcongr hkeep hend
  rcases h with ⟨start, after, harr, hbody, hrun⟩
  exact hwf.persists_within (fun x => x = l ∨ x = r)
    (fun env => (MIRGraph.effectiveOp jsop direction).eval (env l).toInt (env r).toInt = true)
    (fun x hx => Or.inr (habove x hx)) hcongr hinv ⟨start, before, after, harr, hbody, hrun⟩ hb

/-! ## The theorem -/

/-- `for (i = start; i < bound; i = (i + step) | 0) a[i]`. -/
def indexLoop (start step bound : Int32) : LoopGraph where
  blocks := [0, 1, 2, 3]
  entryBlock := 0
  osrBlock := none
  block
    | 0 => ⟨.normal, [], [0, 1, 2, 3], .goto 1, [], 0, 0, 3⟩
    | 1 => ⟨.loopHeader, [4], [5], .test 5 2 3, [0, 2], 0, 1, 2⟩
    | 2 => ⟨.normal, [], [6, 7], .goto 1, [1], 1, 2, 0⟩
    | 3 => ⟨.normal, [], [], .other [] false [], [1], 1, 3, 0⟩
    | _ => ⟨.normal, [], [], .other [] false [], [], 0, 4, 0⟩
  definition
    | 0 => ⟨.constant (.int32 start), [], 0, .int32⟩
    | 1 => ⟨.other false, [], 0, .int32⟩
    | 2 => ⟨.constant (.int32 step), [], 0, .int32⟩
    | 3 => ⟨.constant (.int32 bound), [], 0, .int32⟩
    | 4 => ⟨.phi, [0, 7], 1, .int32⟩
    | 5 => ⟨.compare .lt .int32, [4, 3], 1, .boolean⟩
    | 6 => ⟨.boundsCheck 0 0, [4, 1], 2, .int32⟩
    | 7 => ⟨.arith .add .int32 true, [4, 2], 2, .int32⟩
    | _ => ⟨.other false, [], 0, .value⟩
  isMovable _ := false
  dependency _ := none
  flaggedInvariant _ := false
  boundsCheck_type check minimum maximum h := by
    split at h
    all_goals first | rfl | cases h
  constant_type d n h := by
    split at h
    all_goals first | rfl | cases h

variable {start step bound : Int32}

lemma hoistInstructions_nil : G.hoistInstructions header [] = G.toMIRGraph := by
  simp [hoistInstructions]

/-- The entry dominates every block. -/
lemma indexLoop_entry_dominates (b : BlockId) :
    (indexLoop start step bound).ssa.Dominates 0 b := by
  refine FlowGraph.dominates_of_sole_root ?_ b
  rintro r (hr | hr)
  · exact hr
  · cases hr

lemma indexLoop_edge {b c : Nat} (h : (indexLoop start step bound).ssa.edge b c) :
    (b = 0 ∧ c = 1) ∨ (b = 1 ∧ (c = 2 ∨ c = 3)) ∨ (b = 2 ∧ c = 1) := by
  simp only [MIRGraph.ssa, indexLoop] at h
  split at h <;> simp_all [MControl.successors]

lemma indexLoop_reachable {b : Nat} (h : (indexLoop start step bound).ssa.Reachable b) :
    b = 0 ∨ b = 1 ∨ b = 2 ∨ b = 3 := by
  cases h with
  | root hroot =>
    rcases hroot with hroot | hroot
    · exact Or.inl hroot
    · cases hroot
  | step _ hedge =>
    rcases indexLoop_edge hedge with ⟨_, rfl⟩ | ⟨_, rfl | rfl⟩ | ⟨_, rfl⟩ <;> simp

lemma indexLoop_header_reachable : (indexLoop start step bound).ssa.Reachable 1 :=
  .step (.root (Or.inl rfl)) (show 1 ∈ [1] from mem_cons_self)

lemma indexLoop_header_dominates :
    (indexLoop start step bound).ssa.StrictlyDominates 1 2 := by
  apply FlowGraph.strictlyDominates_of_sole_predecessor
  · rintro (hroot | hroot)
    · cases hroot
    · cases hroot
  · intro x hx
    rcases indexLoop_edge hx with ⟨_, hc⟩ | ⟨rfl, _⟩ | ⟨_, hc⟩
    · cases hc
    · rfl
    · cases hc
  · exact indexLoop_header_reachable.step (show 2 ∈ [2, 3] from mem_cons_self)

/-- A block with a larger id does not dominate. -/
lemma indexLoop_avoids {a b : Nat} (hb : (indexLoop start step bound).ssa.Reachable b)
    (hlt : b < a) : (indexLoop start step bound).ssa.Avoids a b := by
  have hentry : 0 < a → (indexLoop start step bound).ssa.Avoids a 0 :=
    fun h => .root (Or.inl rfl) (Nat.ne_of_lt h)
  have hheader : 1 < a → (indexLoop start step bound).ssa.Avoids a 1 := by
    intro h
    exact .step (hentry (by omega)) (show 1 ∈ [1] from mem_cons_self) (Nat.ne_of_lt h)
  rcases indexLoop_reachable hb with rfl | rfl | rfl | rfl
  · exact hentry hlt
  · exact hheader hlt
  · exact .step (hheader (by omega)) (show 2 ∈ [2, 3] from mem_cons_self) (Nat.ne_of_lt hlt)
  · exact .step (hheader (by omega))
      (show 3 ∈ [2, 3] from mem_cons_of_mem _ mem_cons_self) (Nat.ne_of_lt hlt)

lemma indexLoop_isLoop : (indexLoop start step bound).IsLoop 1 [] where
  predecessors_eq := ⟨2, rfl, indexLoop_header_dominates.1⟩
  preLoop_above := ⟨indexLoop_entry_dominates 1, Nat.zero_ne_one⟩
  lt_of_strictlyDominates := by
    intro a b hb hab
    by_contra hge
    exact hab.1 (indexLoop_avoids hb (Nat.lt_of_le_of_ne (Nat.le_of_not_lt hge) (Ne.symm hab.2)))
  mem_toHoist := by
    intro d hin hinvariant
    have hmovable : (indexLoop start step bound).isMovable d = false := rfl
    simp [isLoopInvariant, isLoopInvariantInstruction, isHoistable, hin, hmovable] at hinvariant

lemma indexLoop_wellFormed : (indexLoop start step bound).WellFormed := by
  refine MIRGraph.wellFormed_of_blockb [(0, 1), (0, 2), (1, 2)] rfl ?_ ?_
    (show [0, 1, 2, 3].Nodup by decide) rfl ⟨rfl, rfl⟩ ?_
  · intro b hb
    unfold indexLoop at hb ⊢
    simp only at hb ⊢
    split <;> simp_all
  · simp only [forall_mem_cons]
    exact ⟨indexLoop_entry_dominates 1, indexLoop_entry_dominates 2, indexLoop_header_dominates.1,
      nofun⟩
  · intro d n h
    unfold indexLoop at h ⊢
    simp only at h ⊢
    split at h <;> simp_all [Opcode.numOperands?]

/-- The values in the loop, when the phi holds `i` and one iteration was made from `start`. -/
def indexLoopEnv (start step bound length i : Int32) : DefId → Int32
  | 0 => start
  | 1 => length
  | 2 => step
  | 3 => bound
  | 4 => i
  | 5 => 1
  | 6 => start
  | 7 => start + step
  | _ => 0

/-- The values on the first entry of the loop are those of any iteration, with the phi set
from the back edge. -/
lemma indexLoopEnv_enter {src : DefId → DefId} {length i : Int32} {o : DefId}
    {checks : HoistedChecks} {exactly : DefId → Prop} (hsrc : src 4 = o) :
    ((indexLoop start step bound).compiledSsa 1 [] checks exactly).enter 1 src
      (indexLoopEnv start step bound length i) =
    indexLoopEnv start step bound length (indexLoopEnv start step bound length i o) := by
  funext d
  by_cases hd : d = 4
  · subst hd
    rw [Ssa.enter_of_phi (show 4 ∈ [4] from mem_cons_self), hsrc]
    rfl
  · rw [Ssa.enter_of_not_phi (show d ∉ [4] by simpa using hd)]
    unfold indexLoopEnv
    split <;> first | rfl | exact absurd rfl hd

variable {length : Int32}

/-- Control arrives at the loop for the first time. -/
lemma indexLoop_enters
    (hpass : checks.Pass (indexLoopEnv start step bound length start)) :
    ((indexLoop start step bound).compiledSsa 1 [] checks exactly).Arrives 1
      (indexLoopEnv start step bound length start) := by
  have hrun : ((indexLoop start step bound).compiledSsa 1 [] checks exactly).Run
      (((indexLoop start step bound).compiledSsa 1 [] checks exactly).body 0)
      (indexLoopEnv start step bound length start)
      (indexLoopEnv start step bound length start) := by
    refine .of_holds fun d hd => ?_
    have hd' : d ∈ [0, 1, 2, 3] := hd
    simp only [mem_cons, not_mem_nil, or_false] at hd'
    rcases hd' with rfl | rfl | rfl | rfl
    all_goals
      refine ⟨?_, fun _ op l r n harith _ => ?_⟩
      · first | exact rfl | trivial
      · rcases harith.op_eq with ⟨_, _, hop⟩
        cases hop
  have hstep := Ssa.Arrives.step (.root (Or.inl rfl)) hrun
    (c := 1) ⟨mem_cons_self, fun _ => hpass⟩
    (show ((indexLoop start step bound).compiledSsa 1 [] checks exactly).sources 0 1
      (fun _ => 0) from ⟨0, rfl, by
        intro phi hphi
        rw [mem_singleton.mp (show phi ∈ [4] from hphi)]
        rfl⟩)
  rwa [indexLoopEnv_enter rfl] at hstep

/-- From the header, control arrives at the body if the comparison holds. -/
lemma indexLoop_body {i : Int32} (hlt : i.toInt < bound.toInt)
    (h : ((indexLoop start step bound).compiledSsa 1 [] checks exactly).Arrives 1
      (indexLoopEnv start step bound length i)) :
    ((indexLoop start step bound).compiledSsa 1 [] checks exactly).Arrives 2
      (indexLoopEnv start step bound length i) := by
  have hrun : ((indexLoop start step bound).compiledSsa 1 [] checks exactly).Run
      (((indexLoop start step bound).compiledSsa 1 [] checks exactly).body 1)
      (indexLoopEnv start step bound length i) (indexLoopEnv start step bound length i) := by
    refine .of_holds fun d hd => ?_
    have hd' : d ∈ [5] := hd
    rw [mem_singleton] at hd'
    subst hd'
    refine ⟨?_, fun _ op l r n harith _ => ?_⟩
    · show (1 : Int32) = if CompareOp.lt.eval i.toInt bound.toInt then 1 else 0
      simp [CompareOp.eval, hlt]
    · rcases harith.op_eq with ⟨_, _, hop⟩
      cases hop
  have hstep := Ssa.Arrives.step h hrun (c := 2)
    ⟨rfl, fun hpre => absurd (show (1 : Nat) = 0 from hpre) Nat.one_ne_zero⟩
    (show ((indexLoop start step bound).compiledSsa 1 [] checks exactly).sources 1 2 id from
      ⟨0, rfl, by
        intro phi hphi
        exact absurd (show phi ∈ [] from hphi) not_mem_nil⟩)
  rwa [Ssa.enter_eq_self rfl] at hstep

/-- The first iteration comes back to the header, unless it has to be exact. -/
lemma indexLoop_iterates
    (h : ((indexLoop start step bound).compiledSsa 1 [] checks fun _ => False).Arrives 2
      (indexLoopEnv start step bound length start)) :
    ((indexLoop start step bound).compiledSsa 1 [] checks fun _ => False).Arrives 1
      (indexLoopEnv start step bound length (start + step)) := by
  have hrun : ((indexLoop start step bound).compiledSsa 1 [] checks fun _ => False).Run
      (((indexLoop start step bound).compiledSsa 1 [] checks fun _ => False).body 2)
      (indexLoopEnv start step bound length start)
      (indexLoopEnv start step bound length start) := by
    refine .of_holds fun d hd => ?_
    have hd' : d ∈ [6, 7] := hd
    simp only [mem_cons, not_mem_nil, or_false] at hd'
    rcases hd' with rfl | rfl
    · exact ⟨⟨rfl, fun _ _ hnone => by cases hnone⟩, fun hfalse => hfalse.elim⟩
    · refine ⟨fun _ _ _ n hn => ?_, fun hfalse => hfalse.elim⟩
      rw [← Option.some.inj hn]
      exact toInt_add start step
  have hstep := Ssa.Arrives.step h hrun (c := 1)
    ⟨mem_cons_self, fun hpre => absurd (show (2 : Nat) = 0 from hpre) (Nat.succ_ne_zero 1)⟩
    (show ((indexLoop start step bound).compiledSsa 1 [] checks fun _ => False).sources 2 1
      (fun _ => 7) from ⟨1, rfl, by
        intro phi hphi
        rw [mem_singleton.mp (show phi ∈ [4] from hphi)]
        rfl⟩)
  rwa [indexLoopEnv_enter rfl] at hstep

end LoopGraph
end SpiderMonkey.Ion
