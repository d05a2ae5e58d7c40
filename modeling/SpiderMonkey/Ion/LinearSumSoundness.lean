import SpiderMonkey.Ion.LinearSum

/-! # Linear sums are congruent to their definitions

`HasSum d sum` collects the sums that `ExtractLinearSum` may give for `d`, before or after
uses of bounds checks are replaced by their index. Wherever `d` is available it differs from
the value of the sum by a multiple of `2 ^ 32`. It is equal to it as long as no addition
or subtraction that is looked through has wrapped around.
-/

namespace SpiderMonkey.Ion

open Lib Option

/-! ## The sums of a definition -/

/-- The sum of an addition or subtraction, given those of its operands. -/
def ArithOp.sum? : ArithOp → LinearSum → LinearSum → Option LinearSum
  | .add, lsum, rsum => lsum.add? rsum
  | .sub, lsum, rsum => lsum.sub? rsum
  | _, _, _ => none

namespace MIRGraph

variable (G : MIRGraph)

/-- A bounds check and its index. -/
def ReturnsIndex (check index : DefId) : Prop :=
  (∃ minimum maximum, (G.definition check).op = .boundsCheck minimum maximum) ∧
    ∃ length, (G.definition check).operands = [index, length]

/-- The second definition is the first one, or its index for a bounds check, or the index
of that for another one, and so on. -/
def ReadsThrough : DefId → DefId → Prop := Relation.ReflTransGen G.ReturnsIndex

/-- An arithmetic instruction on int32 operands that leaves an int32. -/
structure IsInt32Arith (op : ArithOp) (d l r : DefId) : Prop where
  op_eq : ∃ specialization implicitTruncate,
    (G.definition d).op = .arith op specialization implicitTruncate
  operands_eq : (G.definition d).operands = [l, r]
  type_eq : G.type d = .int32
  type_left : G.type l = .int32
  type_right : G.type r = .int32

inductive HasSum : DefId → LinearSum → Prop
  | term (d : DefId) : HasSum d ⟨some d, 0⟩
  | constant {d : DefId} {n : Int32} : (G.definition d).op = .constant (.int32 n) →
      HasSum d ⟨none, n⟩
  | index {d index : DefId} {sum : LinearSum} : G.ReturnsIndex d index → HasSum index sum →
      HasSum d sum
  | arith {op : ArithOp} {d l r : DefId} {lsum rsum sum : LinearSum} :
      G.IsInt32Arith op d l r → HasSum l lsum → HasSum r rsum →
      op.sum? lsum rsum = some sum → HasSum d sum

/-- A linear sum looks through the instruction. -/
def LooksThrough (d : DefId) : Prop :=
  ∃ op l r lsum rsum sum, G.IsInt32Arith op d l r ∧ G.HasSum l lsum ∧ G.HasSum r rsum ∧
    ArithOp.sum? op lsum rsum = some sum

/-- The int32 result of an addition or subtraction is not the exact one. -/
def Wraps (env : DefId → Int32) (d : DefId) : Prop :=
  ∃ op l r n, G.IsInt32Arith op d l r ∧
    op.exact? (env l).toInt (env r).toInt = some n ∧ (env d).toInt ≠ n

variable {G}

lemma HasSum.of_readsThrough {d d' : DefId} {sum : LinearSum} (h : G.ReadsThrough d d')
    (hsum : G.HasSum d' sum) : G.HasSum d sum := by
  induction h using Relation.ReflTransGen.head_induction_on with
  | refl => exact hsum
  | head hindex _ ih => exact .index hindex ih

/-- A definition read through bounds checks in place of an int32 has that type before. -/
lemma ReadsThrough.type_eq
    (hchecks : ∀ {check index}, G.ReturnsIndex check index → G.type check = .int32)
    {d d' : DefId} (h : G.ReadsThrough d d') (htype : G.type d' = .int32) :
    G.type d = .int32 := by
  rcases h.cases_head with rfl | ⟨index, hindex, _⟩
  · exact htype
  · exact hchecks hindex

lemma sum?_getD {op : ArithOp} {d l r : DefId} {lsum rsum : LinearSum}
    (harith : G.IsInt32Arith op d l r) (hl : G.HasSum l lsum) (hr : G.HasSum r rsum) :
    G.HasSum d ((op.sum? lsum rsum).getD ⟨some d, 0⟩) := by
  cases hsum : op.sum? lsum rsum with
  | none => exact .term d
  | some sum => exact .arith harith hl hr hsum

/-- What `ExtractLinearSum` gives once some bounds checks were replaced by their index. -/
lemma extractLinearSum_hasSum
    (hchecks : ∀ {check index}, G.ReturnsIndex check index → G.type check = .int32)
    {operands : DefId → List DefId}
    (hreads : ∀ d, List.Forall₂ G.ReadsThrough (G.definition d).operands (operands d))
    {fuel : Nat} {d : DefId} {sum : LinearSum}
    (h : G.extractLinearSum operands fuel d = some sum) : G.HasSum d sum := by
  induction fuel generalizing d sum with
  | zero => exact absurd h (by simp [extractLinearSum])
  | succ fuel ih =>
    -- the operands before the replacements lead to the operands read
    have hoperands : ∀ {lhs rhs}, operands d = [lhs, rhs] → G.type lhs = .int32 →
        G.type rhs = .int32 → ∃ l r, (G.definition d).operands = [l, r] ∧
          G.type l = .int32 ∧ G.type r = .int32 ∧ G.ReadsThrough l lhs ∧ G.ReadsThrough r rhs := by
      intro lhs rhs hops hlhs hrhs
      have hboth := hreads d
      rw [hops] at hboth
      rcases hdef : (G.definition d).operands with _ | ⟨l, _ | ⟨r, _ | ⟨x, rest⟩⟩⟩
      · simp [hdef] at hboth
      · simp [hdef] at hboth
      · simp only [hdef, List.forall₂_cons, List.forall₂_nil_left_iff, and_true] at hboth
        rcases hboth with ⟨hl, hr⟩
        exact ⟨l, r, rfl, hl.type_eq hchecks hlhs, hr.type_eq hchecks hrhs, hl, hr⟩
      · simp [hdef] at hboth
    unfold extractLinearSum at h
    split at h
    · rw [← Option.some.inj h]
      exact .term d
    · rename_i htype
      rw [ne_eq, not_not] at htype
      split at h
      · rename_i n _ hop
        rw [← Option.some.inj h]
        exact .constant hop
      · rename_i specialization implicitTruncate lhs rhs hop hops
        split at h
        · rename_i htypes
          rcases hoperands hops htypes.1 htypes.2 with ⟨l, r, hdef, hl, hr, hlhs, hrhs⟩
          simp only [bind_eq_bind, bind_eq_some_iff, pure_def,
            Option.some.injEq] at h
          rcases h with ⟨lsum, hlsum, rsum, hrsum, rfl⟩
          have harith : G.IsInt32Arith .add d l r := ⟨⟨_, _, hop⟩, hdef, htype, hl, hr⟩
          exact sum?_getD harith (.of_readsThrough hlhs (ih hlsum))
            (.of_readsThrough hrhs (ih hrsum))
        · rw [← Option.some.inj h]
          exact .term d
      · rename_i specialization implicitTruncate lhs rhs hop hops
        split at h
        · rename_i htypes
          rcases hoperands hops htypes.1 htypes.2 with ⟨l, r, hdef, hl, hr, hlhs, hrhs⟩
          simp only [bind_eq_bind, bind_eq_some_iff, pure_def,
            Option.some.injEq] at h
          rcases h with ⟨lsum, hlsum, rsum, hrsum, rfl⟩
          have harith : G.IsInt32Arith .sub d l r := ⟨⟨_, _, hop⟩, hdef, htype, hl, hr⟩
          exact sum?_getD harith (.of_readsThrough hlhs (ih hlsum))
            (.of_readsThrough hrhs (ih hrsum))
        · rw [← Option.some.inj h]
          exact .term d
      · rw [← Option.some.inj h]
        exact .term d

/-! ## What a sum says about the values -/

end MIRGraph

/-- Congruent operands have congruent results. -/
lemma ArithOp.exact?_modEq {op : ArithOp} {m x x' y y' n n' : Int} (hx : x ≡ x' [ZMOD m])
    (hy : y ≡ y' [ZMOD m]) (hn : op.exact? x y = some n) (hn' : op.exact? x' y' = some n') :
    n ≡ n' [ZMOD m] := by
  cases op with
  | add =>
    rw [← Option.some.inj hn, ← Option.some.inj hn']
    exact hx.add hy
  | sub =>
    rw [← Option.some.inj hn, ← Option.some.inj hn']
    exact hx.sub hy
  | mul => cases hn
  | div => cases hn
  | mod => cases hn

lemma LinearSum.eval_add? {lsum rsum sum : LinearSum} (h : lsum.add? rsum = some sum)
    (env : DefId → Int32) : sum.eval env = lsum.eval env + rsum.eval env := by
  rcases lsum with ⟨lterm, lconstant⟩
  rcases rsum with ⟨rterm, rconstant⟩
  unfold LinearSum.add? at h
  split at h
  · exact absurd h (by simp)
  · rename_i hterms
    rw [map_eq_some_iff] at h
    rcases h with ⟨c, hc, rfl⟩
    have hexact := toInt_of_safeAdd hc
    cases lterm with
    | none =>
      simp only [LinearSum.eval, none_or, map_none, getD_none] at hexact ⊢
      omega
    | some t =>
      obtain rfl : rterm = none := by simpa using hterms
      simp only [LinearSum.eval, some_or, map_none, getD_none] at hexact ⊢
      omega

lemma LinearSum.eval_sub? {lsum rsum sum : LinearSum} (h : lsum.sub? rsum = some sum)
    (env : DefId → Int32) : sum.eval env = lsum.eval env - rsum.eval env := by
  rcases lsum with ⟨lterm, lconstant⟩
  rcases rsum with ⟨rterm, rconstant⟩
  unfold LinearSum.sub? at h
  split at h
  · exact absurd h (by simp)
  · rename_i hterms
    split at h
    · rename_i hleft
      obtain rfl : rterm = none := by simpa [hleft] using hterms
      rw [map_eq_some_iff] at h
      rcases h with ⟨c, hc, rfl⟩
      have hexact := toInt_of_safeSub hc
      simp only [LinearSum.eval, map_none, getD_none] at hexact ⊢
      omega
    · exact absurd h (by simp)

/-- The value of the sum of two operands is the exact result for their sums. -/
lemma ArithOp.exact?_eval {op : ArithOp} {lsum rsum sum : LinearSum}
    (h : op.sum? lsum rsum = some sum) (env : DefId → Int32) :
    op.exact? (lsum.eval env) (rsum.eval env) = some (sum.eval env) := by
  cases op with
  | add => rw [LinearSum.eval_add? h env]; rfl
  | sub => rw [LinearSum.eval_sub? h env]; rfl
  | mul => cases h
  | div => cases h
  | mod => cases h

/-- An operation with a sum has an exact result for any operands. -/
lemma ArithOp.exact?_of_sum? {op : ArithOp} {lsum rsum sum : LinearSum}
    (h : op.sum? lsum rsum = some sum) (x y : Int) : ∃ n, op.exact? x y = some n := by
  cases op with
  | add => exact ⟨x + y, rfl⟩
  | sub => exact ⟨x - y, rfl⟩
  | mul => cases h
  | div => cases h
  | mod => cases h

namespace MIRGraph

/-- The program in SSA form executes the instructions of the graph, wherever they are. -/
structure Executes (G : MIRGraph) (checked : DefId → Option (Int32 × Int32))
    (P : Ssa BlockId DefId Int32) : Prop where
  wf : P.WellFormed
  operands_eq : ∀ d, P.operands d = (G.definition d).operands
  computes : ∀ {d env v}, P.computes d env v → G.ComputesInt32 checked d env v
  phi_op : ∀ {b d}, d ∈ P.phis b → (G.definition d).op = .phi

variable {G : MIRGraph} {checked : DefId → Option (Int32 × Int32)}

lemma WellFormed.executes (wf : G.WellFormed) (checked : DefId → Option (Int32 × Int32)) :
    G.Executes checked (G.int32Ssa checked) where
  wf := wf.int32Ssa checked
  operands_eq _ := rfl
  computes := id
  phi_op := wf.phi_op

lemma ReturnsIndex.op_ne_phi {check index : DefId} (h : G.ReturnsIndex check index) :
    (G.definition check).op ≠ .phi := by
  rcases h with ⟨⟨_, _, hop⟩, _⟩
  rw [hop]
  simp

lemma IsInt32Arith.op_ne_phi {op : ArithOp} {d l r : DefId} (h : G.IsInt32Arith op d l r) :
    (G.definition d).op ≠ .phi := by
  rcases h.op_eq with ⟨_, _, hop⟩
  rw [hop]
  simp

namespace Executes

variable {P : Ssa BlockId DefId Int32} (exec : G.Executes checked P) {b : BlockId}
  {before : List DefId} {env : DefId → Int32}
include exec

/-- An available definition that is not a phi is executed in the body of its block. -/
lemma mem_body_of_available (h : P.WithinAfter b before env) {d : DefId}
    (hd : P.Available b before d) (hop : (G.definition d).op ≠ .phi) : ∃ a, d ∈ P.body a := by
  rcases h with ⟨start, after, _, hbody, _⟩
  rcases hd with hphi | hin | ⟨a, hdef, _⟩
  · exact absurd (exec.phi_op hphi) hop
  · refine ⟨b, ?_⟩
    rw [hbody]
    exact List.mem_append_left _ hin
  · exact ⟨a, hdef.resolve_left fun hphi => hop (exec.phi_op hphi)⟩

/-- An available definition that is not a phi holds what its operands give. -/
lemma holds (h : P.WithinAfter b before env) {d : DefId} (hd : P.Available b before d)
    (hop : (G.definition d).op ≠ .phi) : P.computes d env (env d) := by
  rcases exec.mem_body_of_available h hd hop with ⟨a, ha⟩
  exact exec.wf.holds_available h hd ha

lemma available_operand (h : P.WithinAfter b before env) {d o : DefId}
    (hd : P.Available b before d) (hop : (G.definition d).op ≠ .phi)
    (ho : o ∈ (G.definition d).operands) : P.Available b before o := by
  rcases exec.mem_body_of_available h hd hop with ⟨a, ha⟩
  rcases h with ⟨start, after, harr, hbody, _⟩
  rw [← exec.operands_eq] at ho
  exact exec.wf.available_operand hbody harr.reachable hd ha ho

/-- A bounds check holds its index. -/
lemma eq_index (h : P.WithinAfter b before env) {check index : DefId}
    (hd : P.Available b before check) (hindex : G.ReturnsIndex check index) :
    env check = env index := by
  have hholds := exec.computes (exec.holds h hd hindex.op_ne_phi)
  rcases hindex with ⟨⟨_, _, hop⟩, length, hops⟩
  simp only [ComputesInt32, hop, hops] at hholds
  exact hholds.1

/-- Reading through bounds checks does not change what is read. -/
lemma eq_of_readsThrough (h : P.WithinAfter b before env) {d d' : DefId}
    (hd : P.Available b before d) (hreads : G.ReadsThrough d d') : env d = env d' := by
  induction hreads using Relation.ReflTransGen.head_induction_on with
  | refl => rfl
  | head hindex _ ih =>
    rw [exec.eq_index h hd hindex]
    rcases hindex.2 with ⟨length, hops⟩
    exact ih (exec.available_operand h hd hindex.op_ne_phi (by simp [hops]))

/-- The result of int32 arithmetic is the exact one up to a multiple of `2 ^ 32`. -/
lemma arith_modEq (h : P.WithinAfter b before env) {op : ArithOp} {d l r : DefId}
    (hd : P.Available b before d) (harith : G.IsInt32Arith op d l r) {n : Int}
    (hn : op.exact? (env l).toInt (env r).toInt = some n) :
    (env d).toInt ≡ n [ZMOD 4294967296] := by
  have hholds := exec.computes (exec.holds h hd harith.op_ne_phi)
  rcases harith.op_eq with ⟨specialization, implicitTruncate, hop⟩
  simp only [ComputesInt32, hop, harith.operands_eq] at hholds
  rw [hholds harith.type_eq harith.type_left harith.type_right n hn]
  split
  · exact wrap32_emod n
  · rfl

end Executes

section Sums

variable {P : Ssa BlockId DefId Int32} {b : BlockId} {before : List DefId} {env : DefId → Int32}

/-- A definition is congruent to each of its sums, for any modulus for which the results of
the instructions looked through are congruent to the exact ones. -/
lemma HasSum.modEq (exec : G.Executes checked P) (h : P.WithinAfter b before env) {m : Int}
    (harith : ∀ {op d l r n}, P.Available b before d → G.IsInt32Arith op d l r →
      G.LooksThrough d → op.exact? (env l).toInt (env r).toInt = some n →
      (env d).toInt ≡ n [ZMOD m])
    {d : DefId} {sum : LinearSum} (hsum : G.HasSum d sum) (hd : P.Available b before d) :
    (env d).toInt ≡ sum.eval env [ZMOD m] := by
  induction hsum with
  | term d => simp [LinearSum.eval, Int.ModEq.refl]
  | @constant d n hop =>
    have hholds := exec.computes (exec.holds h hd (by rw [hop]; simp))
    simp only [ComputesInt32, hop] at hholds
    simp [LinearSum.eval, hholds, Int.ModEq.refl]
  | index hindex _ ih =>
    rw [exec.eq_index h hd hindex]
    rcases hindex.2 with ⟨length, hops⟩
    exact ih (exec.available_operand h hd hindex.op_ne_phi (by simp [hops]))
  | @arith op d l r lsum rsum sum hint32 hlsum hrsum hcombine ihl ihr =>
    have hl := ihl (exec.available_operand h hd hint32.op_ne_phi (by simp [hint32.operands_eq]))
    have hr := ihr (exec.available_operand h hd hint32.op_ne_phi (by simp [hint32.operands_eq]))
    rcases ArithOp.exact?_of_sum? hcombine (env l).toInt (env r).toInt with ⟨n, hn⟩
    have hthrough : G.LooksThrough d := ⟨op, l, r, lsum, rsum, sum, hint32, hlsum, hrsum, hcombine⟩
    exact (harith hd hint32 hthrough hn).trans
      (ArithOp.exact?_modEq hl hr hn (ArithOp.exact?_eval hcombine env))

/-- A definition is congruent to its sum modulo `2 ^ 32`. -/
lemma HasSum.modEq_word (exec : G.Executes checked P) (h : P.WithinAfter b before env)
    {d : DefId} {sum : LinearSum} (hsum : G.HasSum d sum) (hd : P.Available b before d) :
    (env d).toInt ≡ sum.eval env [ZMOD 4294967296] :=
  hsum.modEq exec h (fun hd hint32 _ hn => exec.arith_modEq h hd hint32 hn) hd

/-- A definition is equal to its sum as long as nothing that was looked through wrapped. -/
lemma HasSum.eq (exec : G.Executes checked P) (h : P.WithinAfter b before env)
    (hwraps : ∀ d, P.Available b before d → G.LooksThrough d → ¬ G.Wraps env d)
    {d : DefId} {sum : LinearSum} (hsum : G.HasSum d sum) (hd : P.Available b before d) :
    (env d).toInt = sum.eval env := by
  rw [← Int.modEq_zero_iff]
  refine hsum.modEq exec h ?_ hd
  intro op d l r n hd hint32 hthrough hn
  rw [Int.modEq_zero_iff]
  by_contra hne
  exact hwraps d hd hthrough ⟨op, l, r, n, hint32, hn, hne⟩

end Sums

end MIRGraph

/-! ## Bounds checks at an offset -/

/-- A check that covers the range of another one, at an offset between the two indexes,
implies it: the offset is exact, or the other range contains 0 and so only needs it up to a
multiple of `2 ^ 32`. -/
lemma InBounds.of_offset {minimum maximum minimum' maximum' index index' length : Int32}
    {offset : Int} (h : InBounds minimum maximum index length)
    (hmin : minimum.toInt ≤ offset + minimum'.toInt)
    (hmax : offset + maximum'.toInt ≤ maximum.toInt)
    (hword : index'.toInt ≡ index.toInt + offset [ZMOD 4294967296])
    (hexact : (minimum'.toInt ≤ 0 ∧ 0 ≤ maximum'.toInt) ∨
      index'.toInt = index.toInt + offset) :
    InBounds minimum' maximum' index' length := by
  have hlength := isInt32_toInt length
  have hindex' := isInt32_toInt index'
  unfold InBounds at *
  unfold IsInt32 int32Min int32Max at hlength hindex'
  rcases hexact with hzero | heq
  · -- the offset index is below the length, so it is the int32 that is congruent to it
    have heq : index'.toInt = index.toInt + offset := by
      unfold Int.ModEq at hword
      omega
    omega
  · omega

end SpiderMonkey.Ion
