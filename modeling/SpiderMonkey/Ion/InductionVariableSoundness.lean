import SpiderMonkey.Ion.FiniteGraph
import SpiderMonkey.Ion.InductionVariable
import SpiderMonkey.Ion.Branch

/-! # The range of an induction variable

What a successful match establishes and what it takes for granted. The lower
bound rests on the variable never going down: its phi only merges the initial
constants with an int32 addition, not truncated, of a non-negative constant to
the phi itself. The upper bound rests on the test: in a `while` loop it holds
where the true branch of the header dominates, in a `do`-`while` loop it holds in
the whole loop once the initial value is below the bound and the back edge is
only taken when the test of the sum came out true. `WhileSound` and
`DoWhileSound` collect what the match does not check.
-/

namespace SpiderMonkey.Ion

open SpiderMonkey.Lib List

namespace MIRGraph

variable {G : MIRGraph}

/-! ## Conversions and constants -/

/-- `d` is `r` under any number of `ToInt32`, `Unbox` and `Box`. -/
inductive Converts (G : MIRGraph) (r : DefId) : DefId → Prop
  | refl : Converts G r r
  | step {d i} : (G.definition d).op = .toInt32 ∨ (G.definition d).op = .unbox ∨
      (G.definition d).op = .box → (G.definition d).operands = [i] → Converts G r i → Converts G r d

/-- What is merged and converted into `d` are int32 constants with the property. -/
inductive OnlyConstants (G : MIRGraph) (good : Int → Prop) : DefId → Prop
  | constant {d c} : (G.definition d).op = .constant (.int32 c) → good c.toInt →
      OnlyConstants G good d
  | convert {d i} : Converts G i d → OnlyConstants G good i → OnlyConstants G good d
  | phi {d} : (G.definition d).op = .phi → (∀ o ∈ (G.definition d).operands,
      OnlyConstants G good o) → OnlyConstants G good d

/-- The value of a definition is an int32 with the property. -/
def HasInt32 (good : Int → Prop) (d : DefId) (env : DefId → Value) : Prop :=
  ∃ n : Int32, env d = .int32 n ∧ good n.toInt

/-- What a conversion converts is defined above it. -/
lemma Converts.above (wf : G.WellFormed) {r d : DefId} (h : G.Converts r d) {a b : BlockId}
    (hd : G.ssa.Defines a d) (hab : G.ssa.Dominates a b) :
    ∃ c, G.ssa.Defines c r ∧ G.ssa.Dominates c b := by
  induction h generalizing a with
  | refl => exact ⟨a, hd, hab⟩
  | step hop hops _ ih =>
    have hmem := wf.mem_instructions hd (by rcases hop with h | h | h <;> simp [h])
    obtain ⟨c, hc, hcb⟩ := wf.operand_above hmem hab (by rw [hops]; exact mem_singleton_self _)
    exact ih hc hcb

variable {env : DefId → Value}

/-- Conversions keep an int32 value. -/
lemma Converts.value (wf : G.WellFormed) {r d : DefId} (h : G.Converts r d) {a b : BlockId}
    (hd : G.ssa.Defines a d) (hab : G.ssa.Dominates a b) (hend : G.ssa.Leaves b env) {n : Int32}
    (hr : env r = .int32 n) : env d = .int32 n := by
  induction h generalizing a with
  | refl => exact hr
  | step hop hops _ ih =>
    have hmem := wf.mem_instructions hd (by rcases hop with h | h | h <;> simp [h])
    obtain ⟨c, hc, hcb⟩ := wf.operand_above hmem hab (by rw [hops]; exact mem_singleton_self _)
    have hi := ih hc hcb
    have hholds := wf.ssa.holds_at_end hend hmem hab
    rcases hop with h | h | h <;> simp only [ssa, Computes, h, hops] at hholds
    · exact hholds n hi
    · rw [hholds, hi]
    · rw [hholds, hi]

/-- A constant keeps its value. -/
lemma constant_at_end (wf : G.WellFormed) {a b : BlockId} {d : DefId} {value : Value}
    (hop : (G.definition d).op = .constant value) (hd : G.ssa.Defines a d)
    (hab : G.ssa.Dominates a b) (hend : G.ssa.Leaves b env) :
    env d = value := by
  have hholds := wf.ssa.holds_at_end hend (wf.mem_instructions hd (by simp [hop])) hab
  simpa only [ssa, Computes, hop] using hholds

variable {b : BlockId}

/-- A property of the int32 value of a phi is an invariant where its block
dominates, if every operand brings it along. -/
lemma phi_invariant (wf : G.WellFormed) {s : BlockId} {phi : DefId} {good : Int → Prop}
    (hphi : phi ∈ (G.block s).phis)
    (hoperand : ∀ {k : Nat} {p o env}, (G.block s).predecessors[k]? = some p →
      (G.definition phi).operands[k]? = some o → G.ssa.Leaves p env →
      G.ssa.take p env s → (G.ssa.Dominates s p → HasInt32 good phi env) → HasInt32 good o env)
    (harr : G.ssa.Arrives b env) (hsb : G.ssa.Dominates s b) : HasInt32 good phi env := by
  refine wf.ssa.persists (· = phi) (HasInt32 good phi) ?_ ?_ ?_ ?_ harr hsb
  · rintro x rfl
    exact Or.inl hphi
  · rintro env env' hsame ⟨n, hn, hgood⟩
    exact ⟨n, by rw [hsame phi rfl, hn], hgood⟩
  · intro hroot
    simp [wf.root_phis hroot] at hphi
  · rintro p env src hend htake ⟨k, hk, hsrc⟩ hback
    obtain ⟨n, hn, hgood⟩ := hoperand hk (hsrc phi hphi) hend htake hback
    exact ⟨n, by rw [Ssa.enter_of_phi hphi, hn], hgood⟩

/-- The same at the end of a block. -/
lemma phi_invariant_at_end (wf : G.WellFormed) {s b : BlockId} {phi : DefId} {good : Int → Prop}
    (hphi : phi ∈ (G.block s).phis) (hinv : ∀ {env}, G.ssa.Arrives b env → HasInt32 good phi env)
    (hend : G.ssa.Leaves b env) (hsb : G.ssa.Dominates s b) : HasInt32 good phi env := by
  refine wf.ssa.persists_at_end (· = phi) (HasInt32 good phi) ?_ ?_ hinv hend hsb
  · rintro x rfl
    exact Or.inl hphi
  · rintro env env' hsame ⟨n, hn, hgood⟩
    exact ⟨n, by rw [hsame phi rfl, hn], hgood⟩

/-- Constants merged and converted leave int32 values with their property. -/
lemma OnlyConstants.value (wf : G.WellFormed) {good : Int → Prop} {d : DefId}
    (h : G.OnlyConstants good d) {a b : BlockId} (hd : G.ssa.Defines a d)
    (hab : G.ssa.Dominates a b) (hend : G.ssa.Leaves b env) :
    HasInt32 good d env := by
  induction h generalizing a b env with
  | constant hop hgood => exact ⟨_, constant_at_end wf hop hd hab hend, hgood⟩
  | convert hconv _ ih =>
    obtain ⟨c, hc, hcb⟩ := hconv.above wf hd hab
    obtain ⟨n, hn, hgood⟩ := ih hc hcb hend
    exact ⟨n, hconv.value wf hd hab hend hn, hgood⟩
  | phi hop _ ih =>
    have hphi := hd.resolve_right fun hin => wf.instruction_op hin hop
    refine phi_invariant_at_end wf hphi (fun harr => ?_) hend hab
    refine phi_invariant wf hphi ?_ harr hab
    intro k p o env hk ho hend _ _
    obtain ⟨c, hc, hcp⟩ := wf.phi_operand_above hphi hk ho
    exact ih o (mem_of_getElem? ho) hc hcp hend

/-! ## What a match establishes -/

lemma operand?_eq_some {d o : DefId} {i : Nat} (h : G.operand? d i = some o) :
    (G.definition d).operands[i]? = some o := h

/-- An instruction with one operand. -/
lemma operands_eq_singleton (wf : G.WellFormed) {d o : DefId}
    (hop : (G.definition d).op.numOperands? = some 1) (ho : G.operand? d 0 = some o) :
    (G.definition d).operands = [o] := by
  have hlen := wf.numOperands hop
  have ho' := operand?_eq_some ho
  match hops : (G.definition d).operands, hlen with
  | [i], _ =>
    rw [hops] at ho'
    simpa using ho'

/-- An instruction with two operands. -/
lemma operands_eq_pair_of (wf : G.WellFormed) {d l r : DefId}
    (hop : (G.definition d).op.numOperands? = some 2) (hl : G.operand? d 0 = some l)
    (hr : G.operand? d 1 = some r) : (G.definition d).operands = [l, r] := by
  obtain ⟨l', r', hops⟩ := wf.operands_eq_pair hop
  have hl' := operand?_eq_some hl
  have hr' := operand?_eq_some hr
  rw [hops] at hl' hr' ⊢
  simp_all

lemma int32Constant?_eq_some {d : DefId} {c : Int32} (h : G.int32Constant? d = some c) :
    (G.definition d).op = .constant (.int32 c) := by
  simp only [int32Constant?, MDefinition.constantInt32?, MDefinition.constantValue?] at h
  split at h
  · rename_i value hop
    rw [hop]
    cases value <;> simp_all [Value.toInt32?]
  · simp at h

/-- One conversion. -/
lemma Converts.single (wf : G.WellFormed) {d i : DefId}
    (hop : (G.definition d).op = .toInt32 ∨ (G.definition d).op = .unbox ∨
      (G.definition d).op = .box) (hi : G.operand? d 0 = some i) : G.Converts i d :=
  .step hop (operands_eq_singleton wf (by rcases hop with h | h | h <;> rw [h] <;> rfl) hi) .refl

lemma phiUnder?_eq_some (wf : G.WellFormed) {d phi : DefId} (h : G.phiUnder? d = some phi) :
    (G.definition phi).op = .phi ∧ G.Converts phi d := by
  unfold phiUnder? at h
  split_ifs at h with hphi hconv
  · rw [Option.some.injEq] at h
    subst h
    exact ⟨by simpa [isPhi] using hphi, .refl⟩
  · obtain ⟨hi, hphi⟩ := Option.filter_eq_some_iff.mp h
    refine ⟨by simpa [isPhi] using hphi, .single wf ?_ hi⟩
    simpa [isToInt32, isUnbox, isBox, or_assoc] using hconv

lemma testedCompare?_eq_some (wf : G.WellFormed) {jsop : CompareOp} {lhs rhs : DefId}
    (h : G.testedCompare? b = some (jsop, lhs, rhs)) :
    ∃ ins spec, G.testOperand? b = some ins ∧ (G.definition ins).op = .compare jsop spec ∧
      (G.definition ins).operands = [lhs, rhs] := by
  unfold testedCompare? at h
  split at h
  · rename_i ins _ _ hlast
    split at h
    · rename_i jsop' spec hop
      split_ifs at h
      simp only [Option.bind_eq_bind, Option.bind_eq_some_iff, Option.pure_def,
        Option.some.injEq, Prod.mk.injEq] at h
      obtain ⟨l, hl, r, hr, rfl, rfl, rfl⟩ := h
      exact ⟨ins, spec, by simp [testOperand?, hlast], hop,
        operands_eq_pair_of wf (by rw [hop]; rfl) hl hr⟩
    · simp at h
  · simp at h

/-- One operand of the phi is the add or a conversion of it, the other one may be
the lower bound. -/
lemma stepOf?_eq_some (wf : G.WellFormed) {o0 o1 add init : DefId}
    (h : G.stepOf? o0 o1 = some (add, init)) :
    (G.Converts add o0 ∧ init = o1) ∨ (G.Converts add o1 ∧ init = o0) := by
  have hunder : ∀ {d other : DefId}, (G.definition d).op = .toInt32 ∨
      (G.definition d).op = .unbox ∨ (G.definition d).op = .box →
      (G.addUnder? d).map (·, other) = some (add, init) → G.Converts add d ∧ init = other := by
    intro d other hop hmap
    obtain ⟨a, ha, heq⟩ := Option.map_eq_some_iff.mp hmap
    obtain ⟨hi, -⟩ := Option.filter_eq_some_iff.mp ha
    obtain ⟨rfl, rfl⟩ := Prod.mk.inj heq
    exact ⟨.single wf hop hi, rfl⟩
  unfold stepOf? at h
  split_ifs at h with h0 h1 h2 h3 h4 h5 h6 h7
  · obtain ⟨rfl, rfl⟩ := by simpa using h
    exact Or.inl ⟨.refl, rfl⟩
  · obtain ⟨rfl, rfl⟩ := by simpa using h
    exact Or.inr ⟨.refl, rfl⟩
  · exact Or.inl (hunder (Or.inl (by simpa [isToInt32] using h2)) h)
  · exact Or.inr (hunder (Or.inl (by simpa [isToInt32] using h3)) h)
  · exact Or.inl (hunder (Or.inr (Or.inl (by simpa [isUnbox] using h4))) h)
  · exact Or.inr (hunder (Or.inr (Or.inl (by simpa [isUnbox] using h5))) h)
  · exact Or.inl (hunder (Or.inr (Or.inr (by simpa [isBox] using h6))) h)
  · exact Or.inr (hunder (Or.inr (Or.inr (by simpa [isBox] using h7))) h)

lemma lowerValue?_eq_some {d : DefId} {c : Int32} (h : G.lowerValue? d = some c) :
    G.OnlyConstants (c.toInt ≤ ·) d := by
  unfold lowerValue? at h
  split_ifs at h with hconst hphi
  · exact .constant (int32Constant?_eq_some h) le_rfl
  · split at h
    · rename_i o0 o1 hops
      simp only [Option.bind_eq_bind, Option.bind_eq_some_iff, Option.pure_def,
        Option.some.injEq] at h
      obtain ⟨c0, h0, c1, h1, hmin⟩ := h
      refine .phi (by simpa [isPhi] using hphi) fun o ho => ?_
      rw [hops, mem_cons, mem_singleton] at ho
      rcases ho with rfl | rfl
      · refine .constant (int32Constant?_eq_some h0) ?_
        split_ifs at hmin <;> subst hmin <;> omega
      · refine .constant (int32Constant?_eq_some h1) ?_
        split_ifs at hmin <;> subst hmin <;> omega
    · simp at h

/-! ## The lower bound -/

/-- The add is an int32 addition that bails out on overflow, to the phi itself. -/
def AddsToPhi (G : MIRGraph) (phi add : DefId) : Prop :=
  (G.definition add).op = .arith .add .int32 false ∧
    ∃ x ∈ (G.definition add).operands, G.Converts phi x

/-- A conversion of a phi is not a constant. -/
lemma Converts.not_constant {phi x : DefId} (h : G.Converts phi x)
    (hphi : (G.definition phi).op = .phi) : G.isConstant x = false := by
  cases h with
  | refl => simp [isConstant, MDefinition.constantValue?, hphi]
  | step hop _ _ =>
    rcases hop with h | h | h <;> simp [isConstant, MDefinition.constantValue?, h]

/-- The recognised add, to the phi, of a non-negative constant. -/
lemma AddsToPhi.operands (wf : G.WellFormed) {phi add : DefId} {inc : Int32}
    (h : G.AddsToPhi phi add) (hphi : (G.definition phi).op = .phi)
    (hinc : G.increment? add = some inc) :
    ∃ x c, ((G.definition add).operands = [x, c] ∨ (G.definition add).operands = [c, x]) ∧
      G.Converts phi x ∧ (G.definition c).op = .constant (.int32 inc) ∧ 0 ≤ inc.toInt := by
  obtain ⟨hop, x, hx, hconv⟩ := h
  have hnot := hconv.not_constant hphi
  simp only [increment?, Option.bind_eq_bind, Option.bind_eq_some_iff] at hinc
  obtain ⟨l, hl, r, hr, hfilter⟩ := hinc
  obtain ⟨hc, hpos⟩ := Option.filter_eq_some_iff.mp hfilter
  have hnonneg : 0 ≤ inc.toInt := by simpa using hpos
  have hops := operands_eq_pair_of wf (by rw [hop]; rfl) hl hr
  rw [hops, mem_cons, mem_singleton] at hx
  split_ifs at hc with hlconst
  · have hxr : x = r := by
      rcases hx with rfl | rfl
      · rw [hnot] at hlconst
        simp at hlconst
      · rfl
    exact ⟨x, l, Or.inr (by rw [hops, hxr]), hconv, int32Constant?_eq_some hc, hnonneg⟩
  · have hrop := int32Constant?_eq_some hc
    have hxl : x = l := by
      rcases hx with rfl | rfl
      · rfl
      · simp [isConstant, MDefinition.constantValue?, hrop] at hnot
    exact ⟨x, r, Or.inl (by rw [hops, hxl]), hconv, hrop, hnonneg⟩

/-- The sum is an int32 not below the phi. -/
lemma AddsToPhi.value (wf : G.WellFormed) {phi add : DefId} {inc : Int32}
    (h : G.AddsToPhi phi add) (hphi : (G.definition phi).op = .phi)
    (hinc : G.increment? add = some inc) {a b : BlockId} (hd : G.ssa.Defines a add)
    (hab : G.ssa.Dominates a b) (hend : G.ssa.Leaves b env) {n : Int32} (hn : env phi = .int32 n) :
    HasInt32 (n.toInt ≤ ·) add env := by
  obtain ⟨x, c, hops, hconv, hc, hpos⟩ := h.operands wf hphi hinc
  have hmem := wf.mem_instructions hd (by simp [h.1])
  have habove : ∀ o ∈ (G.definition add).operands, ∃ e, G.ssa.Defines e o ∧ G.ssa.Dominates e b :=
    fun o ho => wf.operand_above hmem hab ho
  have hx : env x = .int32 n := by
    obtain ⟨e, he, heb⟩ := habove x (by rcases hops with h | h <;> simp [h])
    exact hconv.value wf he heb hend hn
  have hcv : env c = .int32 inc := by
    obtain ⟨e, he, heb⟩ := habove c (by rcases hops with h | h <;> simp [h])
    exact constant_at_end wf hc he heb hend
  have hsum := wf.ssa.holds_at_end hend hmem hab
  rcases hops with hops | hops <;> simp only [ssa, Computes, h.1, hops] at hsum
  · obtain ⟨m, hm, hadd⟩ := hsum n inc hx hcv
    exact ⟨m, hm, by omega⟩
  · obtain ⟨m, hm, hadd⟩ := hsum inc n hcv hx
    exact ⟨m, hm, by omega⟩

/-- The phi is defined above wherever the sum is. -/
lemma AddsToPhi.above (wf : G.WellFormed) {phi add : DefId} (h : G.AddsToPhi phi add)
    {a b : BlockId} (hd : G.ssa.Defines a add) (hab : G.ssa.Dominates a b) {s : BlockId}
    (hphi : phi ∈ (G.block s).phis) : G.ssa.Dominates s b := by
  obtain ⟨hop, x, hx, hconv⟩ := h
  obtain ⟨c, hc, hcb⟩ := wf.operand_above (wf.mem_instructions hd (by simp [hop])) hab hx
  obtain ⟨e, he, heb⟩ := hconv.above wf hc hcb
  obtain rfl := wf.ssa.block_unique he (Or.inl hphi)
  exact heb

/-- A phi that merges constants from `l` up with additions to itself stays an
int32 from `l` up. -/
lemma lower_invariant (wf : G.WellFormed) {s : BlockId} {phi : DefId} {l : Int}
    (hphi : phi ∈ (G.block s).phis)
    (hoperands : ∀ o ∈ (G.definition phi).operands, G.OnlyConstants (l ≤ ·) o ∨
      ∃ add inc, G.Converts add o ∧ G.AddsToPhi phi add ∧ G.increment? add = some inc)
    (harr : G.ssa.Arrives b env) (hsb : G.ssa.Dominates s b) : HasInt32 (l ≤ ·) phi env := by
  refine phi_invariant wf hphi ?_ harr hsb
  intro k p o env hk ho hend _ hback
  obtain ⟨c, hc, hcp⟩ := wf.phi_operand_above hphi hk ho
  rcases hoperands o (mem_of_getElem? ho) with hconst | ⟨add, inc, hconv, hadds, hinc⟩
  · exact hconst.value wf hc hcp hend
  · obtain ⟨e, he, hep⟩ := hconv.above wf hc hcp
    obtain ⟨n, hn, hle⟩ := hback (hadds.above wf he hep hphi)
    obtain ⟨m, hm, hnm⟩ := hadds.value wf (wf.phi_op hphi) hinc he hep hend hn
    exact ⟨m, hconv.value wf hc hcp hend hm, le_trans hle hnm⟩

/-! ## The upper bound -/

/-- Where the true branch of `lhs < u` is entered, `lhs` is below `u`. -/
lemma tested_lt (wf : G.WellFormed) {b pred : BlockId} {lhs rhs : DefId} {u : Int32}
    (hbranch : G.immediateDominatorBranch b = some (pred, true))
    (htested : G.testedCompare? pred = some (.lt, lhs, rhs)) (hrhs : G.int32Constant? rhs = some u)
    (harr : G.ssa.Arrives b env) {n : Int32} (hlhs : env lhs = .int32 n) : n.toInt < u.toInt := by
  obtain ⟨ins, spec, htest, hop, hops⟩ := testedCompare?_eq_some wf htested
  have hu : env rhs = .int32 u := compared_constant wf hbranch htest hop (by simp [hops])
    (int32Constant?_eq_some hrhs) harr
  have heval := decided wf hbranch htest hop harr hops hlhs hu
  simpa [effectiveOp, CompareOp.eval] using heval

/-- A conversion executed above the test still holds where the block it decides is
entered. -/
lemma Converts.on_entry (wf : G.WellFormed) {b pred a c : BlockId} {dir : Bool} {r d ins : DefId}
    (h : G.Converts r d) (hbranch : G.immediateDominatorBranch b = some (pred, dir))
    (htest : G.testOperand? pred = some ins) (hd : G.ssa.Defines a d)
    (hap : G.ssa.Dominates a pred) (hr : G.ssa.Defines c r) (hcp : G.ssa.Dominates c pred)
    (harr : G.ssa.Arrives b env) {n : Int32} (hn : env r = .int32 n) :
    env d = .int32 n := by
  have hstrict := deciding_strictlyDominates wf hbranch harr.reachable
  obtain ⟨src, end_, hend, rfl, -⟩ := arrives_cases wf hbranch htest harr
  rw [wf.ssa.enter_of_above hr hcp hstrict harr.reachable] at hn
  rw [wf.ssa.enter_of_above hd hap hstrict harr.reachable]
  exact h.value wf hd hap hend hn

/-- The variable stays below the bound where the true branch of the header's test
dominates. -/
lemma while_upper (wf : G.WellFormed) {s body : BlockId} {phi lhs rhs : DefId} {u : Int32}
    (hphi : phi ∈ (G.block s).phis) (hconv : G.Converts phi lhs)
    (hbranch : G.immediateDominatorBranch body = some (s, true))
    (htested : G.testedCompare? s = some (.lt, lhs, rhs)) (hrhs : G.int32Constant? rhs = some u)
    (harr : G.ssa.Arrives b env) (hbody : G.ssa.Dominates body b) {n : Int32}
    (hn : env phi = .int32 n) : n.toInt < u.toInt := by
  obtain ⟨ins, spec, htest, hop, hops⟩ := testedCompare?_eq_some wf htested
  refine wf.ssa.persists (· = phi)
    (fun env => ∀ n, env phi = .int32 n → n.toInt < u.toInt) ?_ ?_ ?_ ?_ harr hbody n hn
  · rintro x rfl
    exact Or.inr ⟨s, Or.inl hphi,
      deciding_strictlyDominates wf hbranch (hbody.reachable harr.reachable)⟩
  · intro env env' hsame hfact n hn
    exact hfact n (by rw [← hsame phi rfl, hn])
  · intro hroot
    have hpreds := (immediateDominatorBranch_eq_some hbranch).1
    simp [wf.root_predecessors hroot] at hpreds
  · rintro p env src ⟨start, hstart, hrun⟩ htake hsrc - n hn
    have hentry := Ssa.Arrives.step hstart hrun htake hsrc
    obtain ⟨a, ha, has⟩ := compare_operand_above wf htest hop (o := lhs) (by simp [hops])
    exact tested_lt wf hbranch htested hrhs hentry (hconv.on_entry wf hbranch htest ha has
      (Or.inl hphi) (FlowGraph.dominates_refl s) hentry hn)

/-- The variable of a `do`-`while` loop stays below the bound in the whole loop,
when it starts there and only comes back as the sum the test found below it. -/
lemma doWhile_upper (wf : G.WellFormed) {s entry backedge pred : BlockId}
    {phi o0 o1 add rhs : DefId} {u inc : Int32} (hphi : phi ∈ (G.block s).phis)
    (hpreds : (G.block s).predecessors = [entry, backedge])
    (hops : (G.definition phi).operands = [o0, o1]) (hinit : G.OnlyConstants (· < u.toInt) o0)
    (hconv : G.Converts add o1) (hadds : G.AddsToPhi phi add) (hinc : G.increment? add = some inc)
    (hbranch : G.immediateDominatorBranch backedge = some (pred, true))
    (htested : G.testedCompare? pred = some (.lt, add, rhs)) (hrhs : G.int32Constant? rhs = some u)
    (harr : G.ssa.Arrives b env) (hsb : G.ssa.Dominates s b) :
    HasInt32 (· < u.toInt) phi env := by
  refine phi_invariant wf hphi ?_ harr hsb
  intro k p o env hk ho hend _ hback
  obtain ⟨c, hc, hcp⟩ := wf.phi_operand_above hphi hk ho
  rw [hpreds] at hk
  rw [hops] at ho
  match k, hk, ho with
  | 0, hk, ho =>
    obtain rfl : o0 = o := by simpa using ho
    exact hinit.value wf hc hcp hend
  | 1, hk, ho =>
    obtain rfl : o1 = o := by simpa using ho
    obtain rfl : backedge = p := by simpa using hk
    obtain ⟨ins, spec, htest, hop, hcops⟩ := testedCompare?_eq_some wf htested
    obtain ⟨a, ha, hap⟩ := compare_operand_above wf htest hop (o := add) (by simp [hcops])
    obtain ⟨e, he, hep⟩ := hconv.above wf hc hcp
    obtain ⟨n, hn, -⟩ := hback (hadds.above wf he hep hphi)
    obtain ⟨m, hm, -⟩ := hadds.value wf (wf.phi_op hphi) hinc he hep hend hn
    -- the sum is the one the test compared: the back edge does not assign it again
    obtain ⟨start, hstart, hrun⟩ := hend
    have hreach := hstart.reachable
    have hstrict := hap.trans_strict (deciding_strictlyDominates wf hbranch hreach) hreach
    have hkept : env add = start add := hrun.frame
      (wf.ssa.not_assigned_below (Or.inr ⟨a, ha, hstrict⟩) (FlowGraph.dominates_refl _) hreach).1
    have hlt := tested_lt wf hbranch htested hrhs hstart (by rw [← hkept, hm])
    exact ⟨m, hconv.value wf hc hcp ⟨start, hstart, hrun⟩ hm, hlt⟩

/-! ## What the patterns take for granted -/

end MIRGraph

/-- The value of the variable lies within the bounds that were set. -/
def InductionVariable.InRange (iv : InductionVariable) (env : DefId → Value) : Prop :=
  ∀ n, env iv.variable_ = .int32 n → iv.Bounds n

namespace MIRGraph

variable {G : MIRGraph}

/-- What the `while` pattern does not check: for the lower bound, that the
recognised add adds to the phi; for the upper bound, that the operator is `<`, that
the phi is the header's own, and that the block is in the true branch. -/
structure WhileSound (G : MIRGraph) (header : BlockId) (iv : InductionVariable) (b : BlockId) :
    Prop where
  lower : iv.lowerBound.isSome → ∃ s, iv.variable_ ∈ (G.block s).phis ∧ G.ssa.Dominates s b ∧
    ∀ o0 o1 add init, (G.definition iv.variable_).operands = [o0, o1] →
      G.stepOf? o0 o1 = some (add, init) → G.AddsToPhi iv.variable_ add
  upper : iv.upperBound.isSome → iv.variable_ ∈ (G.block header).phis ∧
    ∃ lhs rhs body, G.testedCompare? header = some (.lt, lhs, rhs) ∧
      G.immediateDominatorBranch body = some (header, true) ∧ G.ssa.Dominates body b

/-- What the `do`-`while` pattern does not check: that the phi is the header's own
and the block is in the loop, that the sum the test compares is an int32 addition
that bails out and comes back to the phi, that an initial value which is itself a
phi only merges constants above the bound; and for the upper bound, that the
operator is `<`, that the test is true on the back edge and that the initial value
is below the bound. -/
structure DoWhileSound (G : MIRGraph) (header : BlockId) (iv : InductionVariable)
    (b : BlockId) : Prop where
  phi_mem : iv.variable_ ∈ (G.block header).phis
  dominates : G.ssa.Dominates header b
  step : ∀ backedge pred jsop add rhs o0 o1, G.backedge? header = some backedge →
    (G.block backedge).predecessors[0]? = some pred →
    G.testedCompare? pred = some (jsop, add, rhs) →
    (G.definition iv.variable_).operands = [o0, o1] →
    G.Converts add o1 ∧ (G.definition add).op = .arith .add .int32 false
  lower : ∀ l ∈ iv.lowerBound, ∀ o0 o1, (G.definition iv.variable_).operands = [o0, o1] →
    G.isPhi o0 = true → G.OnlyConstants (l.toInt ≤ ·) o0
  upper : ∀ u ∈ iv.upperBound, ∀ backedge pred jsop add rhs o0 o1,
    G.backedge? header = some backedge → (G.block backedge).predecessors[0]? = some pred →
    G.testedCompare? pred = some (jsop, add, rhs) →
    (G.definition iv.variable_).operands = [o0, o1] → jsop = .lt ∧
    (∃ entry, (G.block header).predecessors = [entry, backedge]) ∧
    G.immediateDominatorBranch backedge = some (pred, true) ∧ G.OnlyConstants (· < u.toInt) o0

/-- What the pattern that matches takes for granted. -/
def PatternSound (G : MIRGraph) (uninit : Bool) (header : BlockId) (iv : InductionVariable)
    (b : BlockId) : Prop :=
  if (G.extractUBCSPattern uninit header).isSome then G.WhileSound header iv b
  else G.DoWhileSound header iv b

variable {header : BlockId} {iv : InductionVariable}

lemma extractUBCSPattern_eq_some {uninit : Bool}
    (h : G.extractUBCSPattern uninit header = some iv) :
    ∃ jsop lhs rhs o0 o1 add init inc, G.testedCompare? header = some (jsop, lhs, rhs) ∧
      G.phiUnder? lhs = some iv.variable_ ∧ (G.definition iv.variable_).operands = [o0, o1] ∧
      G.stepOf? o0 o1 = some (add, init) ∧ G.increment? add = some inc ∧
      iv.lowerBound = lowerBoundOf (G.lowerValue? init) ∧
      iv.upperBound = upperBoundOf jsop (G.int32Constant? rhs) := by
  unfold extractUBCSPattern at h
  simp only [Option.bind_eq_bind, Option.bind_eq_some_iff, Option.pure_def] at h
  obtain ⟨_, -, ⟨jsop, lhs, rhs⟩, htested, phi, hphi, h⟩ := h
  split at h
  · rename_i o0 o1 hops
    simp only [Option.bind_eq_some_iff] at h
    obtain ⟨⟨add, init⟩, hstep, inc, hinc, h⟩ := h
    rw [Option.some.injEq] at h
    subst h
    exact ⟨jsop, lhs, rhs, o0, o1, add, init, inc, htested, hphi, hops, hstep, hinc, rfl, rfl⟩
  · simp at h

lemma extractUBCSPatternDoWhile_eq_some (h : G.extractUBCSPatternDoWhile header = some iv) :
    ∃ backedge pred jsop add rhs addLhs o0 o1 phiOper0 lower inc,
      G.backedge? header = some backedge ∧
      (G.block backedge).predecessors[0]? = some pred ∧
      G.testedCompare? pred = some (jsop, add, rhs) ∧ G.operand? add 0 = some addLhs ∧
      G.phiUnder? addLhs = some iv.variable_ ∧ (G.definition iv.variable_).operands = [o0, o1] ∧
      G.operand? (if G.isPhi o0 then o0 else iv.variable_) 0 = some phiOper0 ∧
      G.doWhileLower? phiOper0 = some lower ∧ G.increment? add = some inc ∧
      iv.lowerBound = lowerBoundOf (G.int32Constant? lower) ∧
      iv.upperBound = upperBoundOf jsop (G.int32Constant? rhs) := by
  unfold extractUBCSPatternDoWhile at h
  simp only [Option.bind_eq_bind, Option.bind_eq_some_iff, Option.pure_def] at h
  obtain ⟨_, -, backedge, hback, pred, hpred, ⟨jsop, add, rhs⟩, htested, _, -, _, -, addLhs,
    haddLhs, phi, hphi, h⟩ := h
  split at h
  · rename_i o0 o1 hops
    simp only [Option.bind_eq_some_iff] at h
    obtain ⟨phiOper0, hoper0, lower, hlower, inc, hinc, h⟩ := h
    rw [Option.some.injEq] at h
    subst h
    exact ⟨backedge, pred, jsop, add, rhs, addLhs, o0, o1, phiOper0, lower, inc, hback, hpred,
      htested, haddLhs, hphi, hops, hoper0, hlower, hinc, rfl, rfl⟩
  · simp at h

lemma lowerBoundOf_eq_some {value : Option Int32} {l : Int32} (h : l ∈ lowerBoundOf value) :
    value = some l :=
  (Option.filter_eq_some_iff.mp h).1

lemma upperBoundOf_lt_eq_some {value : Option Int32} {u : Int32}
    (h : u ∈ upperBoundOf .lt value) : value = some u := by
  obtain ⟨c, hc, rfl⟩ := Option.map_eq_some_iff.mp h
  simpa using (Option.filter_eq_some_iff.mp hc).1

lemma doWhileLower?_eq_some (wf : G.WellFormed) {d c : DefId} {l : Int32}
    (h : G.doWhileLower? d = some c) (hl : G.int32Constant? c = some l) :
    G.OnlyConstants (l.toInt ≤ ·) d := by
  have hc : G.OnlyConstants (l.toInt ≤ ·) c := .constant (int32Constant?_eq_some hl) le_rfl
  unfold doWhileLower? at h
  split_ifs at h with hbox hconst
  · obtain ⟨hi, -⟩ := Option.filter_eq_some_iff.mp h
    exact .convert (.single wf (Or.inr (Or.inr (by simpa [isBox] using hbox))) hi) hc
  · rw [Option.some.injEq] at h
    rwa [h]

/-- A `while` match is right where `WhileSound` holds. -/
lemma extractUBCSPattern_sound (wf : G.WellFormed) {uninit : Bool}
    (hiv : G.extractUBCSPattern uninit header = some iv) {b : BlockId} {env : DefId → Value}
    (harr : G.ssa.Arrives b env) (hs : G.WhileSound header iv b) :
    iv.InRange env := by
  obtain ⟨jsop, lhs, rhs, o0, o1, add, init, inc, htested, hunder, hops, hstep, hinc, hlower,
    hupper⟩ := extractUBCSPattern_eq_some hiv
  intro n hn
  constructor
  · intro l hl
    obtain ⟨s, hphi, hsb, hadds⟩ := hs.lower (by rw [hl]; rfl)
    have hadd := hadds o0 o1 add init hops hstep
    rw [hlower] at hl
    have hinit := lowerValue?_eq_some (lowerBoundOf_eq_some hl)
    have hinv := lower_invariant wf (l := l.toInt) hphi (fun o ho => ?_) harr hsb
    · obtain ⟨m, hm, hle⟩ := hinv
      rw [hn, Value.int32.injEq] at hm
      rwa [hm]
    · rw [hops, mem_cons, mem_singleton] at ho
      rcases stepOf?_eq_some wf hstep with ⟨hconv, rfl⟩ | ⟨hconv, rfl⟩
      · rcases ho with rfl | rfl
        · exact Or.inr ⟨add, inc, hconv, hadd, hinc⟩
        · exact Or.inl hinit
      · rcases ho with rfl | rfl
        · exact Or.inl hinit
        · exact Or.inr ⟨add, inc, hconv, hadd, hinc⟩
  · intro u hu
    obtain ⟨hphi, lhs', rhs', body, htested', hbranch, hbody⟩ := hs.upper (by rw [hu]; rfl)
    rw [htested] at htested'
    obtain ⟨rfl, rfl, rfl⟩ := by simpa using htested'
    rw [hupper] at hu
    exact while_upper wf hphi (phiUnder?_eq_some wf hunder).2 hbranch htested
      (upperBoundOf_lt_eq_some hu) harr hbody hn

/-- A `do`-`while` match is right where `DoWhileSound` holds. -/
lemma extractUBCSPatternDoWhile_sound (wf : G.WellFormed)
    (hiv : G.extractUBCSPatternDoWhile header = some iv) {b : BlockId} {env : DefId → Value}
    (harr : G.ssa.Arrives b env) (hs : G.DoWhileSound header iv b) :
    iv.InRange env := by
  obtain ⟨backedge, pred, jsop, add, rhs, addLhs, o0, o1, phiOper0, lower, inc, hback, hpred,
    htested, haddLhs, hunder, hops, hoper0, hlower?, hinc, hlower, hupper⟩ :=
    extractUBCSPatternDoWhile_eq_some hiv
  obtain ⟨hconv, hop⟩ := hs.step backedge pred jsop add rhs o0 o1 hback hpred htested hops
  have hadds : G.AddsToPhi iv.variable_ add :=
    ⟨hop, addLhs, mem_of_getElem? (operand?_eq_some haddLhs), (phiUnder?_eq_some wf hunder).2⟩
  intro n hn
  constructor
  · intro l hl
    have hinit : G.OnlyConstants (l.toInt ≤ ·) o0 := by
      cases hphi : G.isPhi o0 with
      | true => exact hs.lower l hl o0 o1 hops hphi
      | false =>
        rw [hphi, if_neg (by simp)] at hoper0
        obtain rfl : o0 = phiOper0 := by simpa [hops] using operand?_eq_some hoper0
        rw [hlower] at hl
        exact doWhileLower?_eq_some wf hlower? (lowerBoundOf_eq_some hl)
    obtain ⟨m, hm, hle⟩ := lower_invariant wf (l := l.toInt) hs.phi_mem (fun o ho => by
      rw [hops, mem_cons, mem_singleton] at ho
      rcases ho with rfl | rfl
      · exact Or.inl hinit
      · exact Or.inr ⟨add, inc, hconv, hadds, hinc⟩) harr hs.dominates
    rw [hn, Value.int32.injEq] at hm
    rwa [hm]
  · intro u hu
    obtain ⟨rfl, ⟨entry, hpreds⟩, hbranch, hinit⟩ :=
      hs.upper u hu backedge pred jsop add rhs o0 o1 hback hpred htested hops
    rw [hupper] at hu
    obtain ⟨m, hm, hlt⟩ := doWhile_upper wf hs.phi_mem hpreds hops hinit hconv hadds hinc hbranch
      htested (upperBoundOf_lt_eq_some hu) harr hs.dominates
    rw [hn, Value.int32.injEq] at hm
    rwa [hm]

/-- In every execution, the value of a recognised variable lies within the bounds
at every block where nothing the pattern takes for granted fails. -/
theorem extractPattern_sound (wf : G.WellFormed) {uninit : Bool} {header : BlockId}
    {iv : InductionVariable} (hiv : G.extractPattern uninit header = some iv) {b : BlockId}
    {env : DefId → Value} (harr : G.ssa.Arrives b env)
    (hs : G.PatternSound uninit header iv b) : iv.InRange env := by
  unfold extractPattern at hiv
  unfold PatternSound at hs
  cases hwhile : G.extractUBCSPattern uninit header with
  | some iv' =>
    rw [hwhile] at hiv hs
    obtain rfl : iv' = iv := by simpa using hiv
    exact extractUBCSPattern_sound wf hwhile harr (by simpa using hs)
  | none =>
    rw [hwhile] at hiv hs
    exact extractUBCSPatternDoWhile_sound wf (by simpa using hiv) harr (by simpa using hs)

/-! ## A counting loop -/

/-- `for (i = 0; i jsop bound; i++) { … }`. -/
def countingLoop (jsop : CompareOp) (bound : Int32) : MIRGraph where
  blocks := [0, 1, 2, 3]
  entryBlock := 0
  osrBlock := none
  block
    | 0 => ⟨.normal, [], [0, 1, 5], .goto 1, [], 0, 0, 3⟩
    | 1 => ⟨.loopHeader, [2], [3], .test 3 2 3, [0, 2], 0, 1, 2⟩
    | 2 => ⟨.normal, [], [4], .goto 1, [1], 1, 2, 0⟩
    | 3 => ⟨.normal, [], [], .other [] false [], [1], 1, 3, 0⟩
    | _ => ⟨.normal, [], [], .other [] false [], [], 0, 4, 0⟩
  definition
    | 0 => ⟨.constant (.int32 0), [], 0, .int32⟩
    | 1 => ⟨.constant (.int32 1), [], 0, .int32⟩
    | 2 => ⟨.phi, [0, 4], 1, .int32⟩
    | 3 => ⟨.compare jsop .int32, [2, 5], 1, .boolean⟩
    | 4 => ⟨.arith .add .int32 false, [2, 1], 2, .int32⟩
    | 5 => ⟨.constant (.int32 bound), [], 0, .int32⟩
    | _ => ⟨.other false, [], 0, .value⟩

section CountingLoop

variable (jsop : CompareOp) (bound : Int32)

lemma countingLoop_phis (b : BlockId) :
    ((countingLoop jsop bound).block b).phis = if b = 1 then [2] else [] := by
  unfold countingLoop
  simp only
  split <;> simp_all

lemma countingLoop_lastIns (b : BlockId) : ((countingLoop jsop bound).block b).lastIns =
    if b = 0 then .goto 1 else if b = 1 then .test 3 2 3 else if b = 2 then .goto 1
      else .other [] false [] := by
  unfold countingLoop
  simp only
  split <;> simp_all

lemma countingLoop_dominates (b : BlockId) : (countingLoop jsop bound).ssa.Dominates 0 b := by
  refine FlowGraph.dominates_of_sole_root ?_ b
  rintro r (rfl | h)
  · rfl
  · simp [countingLoop] at h

lemma countingLoop_reachable_header : (countingLoop jsop bound).ssa.Reachable 1 :=
  .step (.root (Or.inl rfl)) (by simp [ssa, countingLoop, MControl.successors])

lemma countingLoop_header_dominates :
    (countingLoop jsop bound).ssa.StrictlyDominates 1 2 := by
  refine FlowGraph.strictlyDominates_of_sole_predecessor ?_ ?_
    (.step (countingLoop_reachable_header jsop bound) (by simp [ssa, countingLoop,
      MControl.successors]))
  · rintro (h | h) <;> simp [countingLoop] at h
  · intro x hx
    simp only [ssa, countingLoop_lastIns] at hx
    split_ifs at hx <;> simp_all [MControl.successors]

lemma countingLoop_wellFormed : (countingLoop jsop bound).WellFormed := by
  refine wellFormed_of_blockb [(0, 1), (0, 2), (1, 2)] rfl ?_ ?_
    (show [0, 1, 2, 3].Nodup by decide) rfl ⟨rfl, rfl⟩ ?_
  · intro b hb
    unfold countingLoop at hb ⊢
    simp only at hb ⊢
    split <;> simp_all
  · simp only [forall_mem_cons]
    exact ⟨countingLoop_dominates jsop bound 1, countingLoop_dominates jsop bound 2,
      (countingLoop_header_dominates jsop bound).1, nofun⟩
  · intro d n h
    unfold countingLoop at h ⊢
    simp only at h ⊢
    split at h <;> simp_all [Opcode.numOperands?]

/-- The values in the first iteration. -/
def countingLoopEnv : DefId → Value
  | 0 => .int32 0
  | 1 => .int32 1
  | 2 => .int32 0
  | 3 => .boolean (jsop.eval 0 bound.toInt)
  | 4 => .int32 1
  | 5 => .int32 bound
  | _ => .undefined

/-- The body is entered with `i = 0` when the test of the first iteration holds. -/
lemma countingLoop_arrives (h : jsop.eval 0 bound.toInt = true) :
    (countingLoop jsop bound).ssa.Arrives 2 (countingLoopEnv jsop bound) := by
  have hentry : (countingLoop jsop bound).ssa.Arrives 1 (countingLoopEnv jsop bound) := by
    have hrun : (countingLoop jsop bound).ssa.Run ((countingLoop jsop bound).ssa.body 0)
        (countingLoopEnv jsop bound) (countingLoopEnv jsop bound) := by
      refine .of_holds fun d hd => ?_
      simp only [ssa, countingLoop, mem_cons, not_mem_nil, or_false] at hd
      rcases hd with rfl | rfl | rfl <;> rfl
    have hstep := Ssa.Arrives.step (.root (Or.inl rfl)) hrun rfl
      (show (countingLoop jsop bound).ssa.sources 0 1 (fun _ => 0) from
        ⟨0, rfl, by simp [countingLoop, MDefinition.getOperand?]⟩)
    have hsame : (countingLoop jsop bound).ssa.enter 1 (fun _ => 0) (countingLoopEnv jsop bound) =
        countingLoopEnv jsop bound := by
      funext d
      simp only [Ssa.enter, ssa, countingLoop_phis, if_true]
      split_ifs with hd
      · obtain rfl : d = 2 := by simpa using hd
        rfl
      · rfl
    rwa [hsame] at hstep
  have hrun : (countingLoop jsop bound).ssa.Run ((countingLoop jsop bound).ssa.body 1)
      (countingLoopEnv jsop bound) (countingLoopEnv jsop bound) := by
    refine .of_holds fun d hd => ?_
    simp only [ssa, countingLoop, mem_cons, not_mem_nil, or_false] at hd
    subst hd
    intro a b ha hb
    simp only [countingLoopEnv, Value.int32.injEq] at ha hb
    subst ha hb
    rfl
  have htake : (countingLoop jsop bound).ssa.take 1 (countingLoopEnv jsop bound) 2 := by
    simp [ssa, countingLoop, Branches, countingLoopEnv, h]
  have hstep := Ssa.Arrives.step hentry hrun htake
    (show (countingLoop jsop bound).ssa.sources 1 2 id from ⟨0, rfl, by simp [countingLoop]⟩)
  rwa [Ssa.enter_eq_self (by simp [ssa, countingLoop])] at hstep

end CountingLoop

/-- In the body of `for (i = 0; i < 10; i++)` the variable lies in `[0, 10)`. -/
theorem extractPattern_sound_countingLoop :
    ∃ iv, (countingLoop .lt 10).extractPattern false 1 = some iv ∧ iv.lowerBound = some 0 ∧
      iv.upperBound = some 10 ∧ iv.InRange (countingLoopEnv .lt 10) := by
  have hfields : ((countingLoop .lt 10).extractPattern false 1).map
      (fun iv => (iv.variable_, iv.lowerBound, iv.upperBound)) = some (2, some 0, some 10) := by
    decide
  obtain ⟨iv, hiv, hfields⟩ := Option.map_eq_some_iff.mp hfields
  obtain ⟨hvar, hlower, hupper⟩ : iv.variable_ = 2 ∧ iv.lowerBound = some 0 ∧
    iv.upperBound = some 10 := by simpa using hfields
  refine ⟨iv, hiv, hlower, hupper, extractPattern_sound (countingLoop_wellFormed .lt 10) hiv
    (countingLoop_arrives .lt 10 (by decide)) ?_⟩
  have hsome : ((countingLoop .lt 10).extractUBCSPattern false 1).isSome = true := by decide
  rw [PatternSound, if_pos hsome]
  constructor
  · intro _
    refine ⟨1, by simp [hvar, countingLoop], (countingLoop_header_dominates .lt 10).1, ?_⟩
    intro o0 o1 add init hops hstep
    rw [hvar] at hops ⊢
    obtain ⟨rfl, rfl⟩ : o0 = 0 ∧ o1 = 4 := by
      simpa [countingLoop, eq_comm] using hops
    obtain ⟨rfl, rfl⟩ : add = 4 ∧ init = 0 := by
      have hvalue : (countingLoop .lt 10).stepOf? 0 4 = some (4, 0) := by decide
      rw [hvalue] at hstep
      simpa [eq_comm] using hstep
    exact ⟨rfl, 2, by simp [countingLoop], .refl⟩
  · intro _
    rw [hvar]
    exact ⟨by simp [countingLoop], 2, 5, 2, by decide, by decide, FlowGraph.dominates_refl 2⟩

/-- In the body of `for (i = 0; i <= 0; i++)` the variable is `0`, and the upper
bound read off is `-1`. -/
theorem extractPattern_fails_countingLoop :
    ¬ ∀ (G : MIRGraph) (uninit : Bool) (header b : BlockId) (iv : InductionVariable)
      (env : DefId → Value), G.WellFormed → G.extractPattern uninit header = some iv →
      G.ssa.Arrives b env → G.rangeIsValid iv b = true → iv.InRange env := by
  intro h
  have hfields : ((countingLoop .le 0).extractPattern false 1).map
      (fun iv => (iv.variable_, iv.upperBound, (countingLoop .le 0).rangeIsValid iv 2)) =
        some (2, some (-1), true) := by decide
  obtain ⟨iv, hiv, hfields⟩ := Option.map_eq_some_iff.mp hfields
  obtain ⟨hvar, hupper, hvalid⟩ : iv.variable_ = 2 ∧ iv.upperBound = some (-1) ∧
    (countingLoop .le 0).rangeIsValid iv 2 = true := by simpa using hfields
  have hrange := h _ false 1 2 iv _ (countingLoop_wellFormed .le 0) hiv
    (countingLoop_arrives .le 0 (by decide)) hvalid
  have hlt := (hrange 0 (by rw [hvar]; rfl)).2 (-1) hupper
  exact absurd hlt (by decide)

end MIRGraph
end SpiderMonkey.Ion
