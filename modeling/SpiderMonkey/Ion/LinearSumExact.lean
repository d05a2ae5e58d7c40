import SpiderMonkey.Ion.RedundantChecksSoundness

/-! # When linear sums are exact

`ExtractLinearSum` asserts that one side of an addition or subtraction has a term, and its sums are
meant to hold without a modulus. Both fail: an addition of two constants has no term on either side,
and one that is truncated wraps around.
-/

namespace SpiderMonkey.Ion

open Lib Option

namespace MIRGraph

variable (G : MIRGraph)

/-- The operands of the instructions as they are. -/
abbrev operandsOf (d : DefId) : List DefId := (G.definition d).operands

/-- The recursion of `ExtractLinearSum` gets to `JS_ASSERT(lsum.term || rsum.term)` where neither
side has a term. -/
def reachesAssertion : Nat → DefId → Bool
  | 0, _ => false
  | fuel + 1, ins =>
    if G.type ins ≠ .int32 then false
    else
      match (G.definition ins).op, G.operandsOf ins with
      | .arith .add _ _, [lhs, rhs] | .arith .sub _ _, [lhs, rhs] =>
        if G.type lhs = .int32 ∧ G.type rhs = .int32 then
          reachesAssertion fuel lhs || reachesAssertion fuel rhs ||
            match G.extractLinearSum G.operandsOf fuel lhs,
              G.extractLinearSum G.operandsOf fuel rhs with
            | some lsum, some rsum => lsum.term.isNone && rsum.term.isNone
            | _, _ => false
        else false
      | _, _ => false

/-! ## The condition -/

/-- An addition or subtraction that a linear sum may look through. -/
def IsSum (op : ArithOp) (d l r : DefId) : Prop :=
  (op = .add ∨ op = .sub) ∧ G.IsInt32Arith op d l r

/-- `ExtractLinearSum` calls itself on the definition. -/
def Recurses (d o : DefId) : Prop := ∃ op l r, G.IsSum op d l r ∧ (o = l ∨ o = r)

/-- The calls of `ExtractLinearSum`, at any depth. -/
def Visits : DefId → DefId → Prop := Relation.ReflTransGen G.Recurses

def IsInt32Constant (d : DefId) (n : Int32) : Prop :=
  (G.definition d).op = .constant (.int32 n) ∧ G.type d = .int32

/-- A sum that was not folded, of two constants. -/
def AddsConstants (d : DefId) : Prop :=
  ∃ op l r m n, G.IsSum op d l r ∧ G.IsInt32Constant l m ∧ G.IsInt32Constant r n

/-- The instruction adds a constant to a definition that is none. -/
inductive AddsConstant : DefId → DefId → Int → Prop
  | addRight {d x r n} : G.IsSum .add d x r → (∀ m, ¬ G.IsInt32Constant x m) →
      G.IsInt32Constant r n → AddsConstant d x n.toInt
  | addLeft {d x l n} : G.IsSum .add d l x → (∀ m, ¬ G.IsInt32Constant x m) →
      G.IsInt32Constant l n → AddsConstant d x n.toInt
  | sub {d x r n} : G.IsSum .sub d x r → (∀ m, ¬ G.IsInt32Constant x m) →
      G.IsInt32Constant r n → AddsConstant d x (-n.toInt)

/-- The sum of the constants that were collected for a definition. Where they do not fit in an int32
any more, the definition itself is the term. -/
inductive Collected : DefId → Int → Prop
  | start {d} : (∀ x c, ¬ G.AddsConstant d x c) → Collected d 0
  | add {d x c k} : G.AddsConstant d x c → Collected x k → IsInt32 (k + c) → Collected d (k + c)
  | restart {d x c k} : G.AddsConstant d x c → Collected x k → ¬ IsInt32 (k + c) → Collected d 0

/-- A truncated addition of a constant wraps around, and the constants collected so far and this
one fit in an int32. -/
def WrapsCollected (env : DefId → Int32) (d : DefId) : Prop :=
  ∃ x c k specialization op, G.AddsConstant d x c ∧ G.Collected x k ∧ IsInt32 (k + c) ∧
    (G.definition d).op = .arith op specialization true ∧ ¬ IsInt32 ((env x).toInt + c)

variable {G}

lemma IsInt32Arith.unique {op op' : ArithOp} {d l l' r r' : DefId}
    (h : G.IsInt32Arith op d l r) (h' : G.IsInt32Arith op' d l' r') :
    op = op' ∧ l = l' ∧ r = r' := by
  obtain ⟨_, _, hop⟩ := h.op_eq
  obtain ⟨_, _, hop'⟩ := h'.op_eq
  have hops := h.operands_eq.symm.trans h'.operands_eq
  simp only [List.cons.injEq, and_true] at hops
  have hsame := hop.symm.trans hop'
  simp only [Opcode.arith.injEq] at hsame
  exact ⟨hsame.1, hops⟩

lemma IsInt32Constant.unique {d : DefId} {m n : Int32} (h : G.IsInt32Constant d m)
    (h' : G.IsInt32Constant d n) : m = n := by
  have hop := h.1.symm.trans h'.1
  simpa using hop

lemma IsSum.not_constant {op : ArithOp} {d l r : DefId} (h : G.IsSum op d l r) (n : Int32) :
    ¬ G.IsInt32Constant d n := by
  rintro ⟨hop, -⟩
  obtain ⟨_, _, hop'⟩ := h.2.op_eq
  rw [hop] at hop'
  cases hop'

lemma IsSum.recurses_left {op : ArithOp} {d l r : DefId} (h : G.IsSum op d l r) :
    G.Recurses d l := ⟨op, l, r, h, .inl rfl⟩

lemma IsSum.recurses_right {op : ArithOp} {d l r : DefId} (h : G.IsSum op d l r) :
    G.Recurses d r := ⟨op, l, r, h, .inr rfl⟩

namespace AddsConstant

variable {d x x' l r : DefId} {c c' : Int} {op : ArithOp}

lemma recurses (h : G.AddsConstant d x c) : G.Recurses d x := by
  cases h with
  | addRight hsum _ _ => exact hsum.recurses_left
  | addLeft hsum _ _ => exact hsum.recurses_right
  | sub hsum _ _ => exact hsum.recurses_left

lemma not_constant (h : G.AddsConstant d x c) (m : Int32) : ¬ G.IsInt32Constant x m := by
  cases h with
  | addRight _ hx _ => exact hx m
  | addLeft _ hx _ => exact hx m
  | sub _ hx _ => exact hx m

/-- What is added, for the operands of the instruction. -/
lemma of_isSum (h : G.AddsConstant d x c) (hsum : G.IsSum op d l r) :
    op = .add ∧ (x = l ∧ ∃ n, G.IsInt32Constant r n ∧ c = n.toInt) ∨
      op = .add ∧ (x = r ∧ ∃ n, G.IsInt32Constant l n ∧ c = n.toInt) ∨
      op = .sub ∧ x = l ∧ ∃ n, G.IsInt32Constant r n ∧ c = -n.toInt := by
  cases h with
  | addRight hsum' _ hn =>
    obtain ⟨rfl, rfl, rfl⟩ := hsum.2.unique hsum'.2
    exact .inl ⟨rfl, rfl, _, hn, rfl⟩
  | addLeft hsum' _ hn =>
    obtain ⟨rfl, rfl, rfl⟩ := hsum.2.unique hsum'.2
    exact .inr (.inl ⟨rfl, rfl, _, hn, rfl⟩)
  | sub hsum' _ hn =>
    obtain ⟨rfl, rfl, rfl⟩ := hsum.2.unique hsum'.2
    exact .inr (.inr ⟨rfl, rfl, _, hn, rfl⟩)

lemma unique (h : G.AddsConstant d x c) (h' : G.AddsConstant d x' c') : x = x' ∧ c = c' := by
  have hx := h.not_constant
  cases h' with
  | addRight hsum hx' hn =>
    rcases h.of_isSum hsum with ⟨-, rfl, n, hn', rfl⟩ | ⟨-, rfl, -⟩ | ⟨hop, -⟩
    · exact ⟨rfl, by rw [hn.unique hn']⟩
    · exact absurd hn (hx _)
    · cases hop
  | addLeft hsum hx' hn =>
    rcases h.of_isSum hsum with ⟨-, rfl, -⟩ | ⟨-, rfl, n, hn', rfl⟩ | ⟨hop, -⟩
    · exact absurd hn (hx _)
    · exact ⟨rfl, by rw [hn.unique hn']⟩
    · cases hop
  | sub hsum hx' hn =>
    rcases h.of_isSum hsum with ⟨hop, -⟩ | ⟨hop, -⟩ | ⟨-, rfl, n, hn', rfl⟩
    · cases hop
    · cases hop
    · exact ⟨rfl, by rw [hn.unique hn']⟩

end AddsConstant

lemma Collected.unique {d : DefId} {k k' : Int} (h : G.Collected d k) (h' : G.Collected d k') :
    k = k' := by
  induction h generalizing k' with
  | start hnone =>
    cases h' with
    | start _ => rfl
    | add hadds _ _ => exact absurd hadds (hnone _ _)
    | restart _ _ _ => rfl
  | add hadds _ hfits ih =>
    cases h' with
    | start hnone => exact absurd hadds (hnone _ _)
    | add hadds' hx' _ =>
      obtain ⟨rfl, rfl⟩ := hadds.unique hadds'
      rw [ih hx']
    | restart hadds' hx' hnot =>
      obtain ⟨rfl, rfl⟩ := hadds.unique hadds'
      rw [ih hx'] at hfits
      exact absurd hfits hnot
  | restart hadds _ hnot ih =>
    cases h' with
    | start _ => rfl
    | add hadds' hx' hfits =>
      obtain ⟨rfl, rfl⟩ := hadds.unique hadds'
      rw [ih hx'] at hnot
      exact absurd hfits hnot
    | restart _ _ _ => rfl

/-! ## The recursion -/

lemma extractLinearSum_isSum {op : ArithOp} {d l r : DefId} (h : G.IsSum op d l r) (fuel : Nat) :
    G.extractLinearSum G.operandsOf (fuel + 1) d =
      (G.extractLinearSum G.operandsOf fuel l).bind fun lsum =>
        (G.extractLinearSum G.operandsOf fuel r).bind fun rsum =>
          some ((op.sum? lsum rsum).getD ⟨some d, 0⟩) := by
  obtain ⟨_, _, hop⟩ := h.2.op_eq
  rw [extractLinearSum, if_neg (not_not.mpr h.2.type_eq)]
  rcases h.1 with rfl | rfl
  · simp only [hop, operandsOf, h.2.operands_eq, h.2.type_left, h.2.type_right, and_self, if_true]
    rfl
  · simp only [hop, operandsOf, h.2.operands_eq, h.2.type_left, h.2.type_right, and_self, if_true]
    rfl

lemma reachesAssertion_isSum {op : ArithOp} {d l r : DefId} (h : G.IsSum op d l r) (fuel : Nat) :
    G.reachesAssertion (fuel + 1) d =
      (G.reachesAssertion fuel l || G.reachesAssertion fuel r ||
        match G.extractLinearSum G.operandsOf fuel l, G.extractLinearSum G.operandsOf fuel r with
        | some lsum, some rsum => lsum.term.isNone && rsum.term.isNone
        | _, _ => false) := by
  obtain ⟨_, _, hop⟩ := h.2.op_eq
  rw [reachesAssertion, if_neg (not_not.mpr h.2.type_eq)]
  rcases h.1 with rfl | rfl
  · simp only [hop, operandsOf, h.2.operands_eq, h.2.type_left, h.2.type_right, and_self, if_true]
  · simp only [hop, operandsOf, h.2.operands_eq, h.2.type_left, h.2.type_right, and_self, if_true]

/-- What `ExtractLinearSum` does not look at is a term. -/
lemma visit_cases (G : MIRGraph) (d : DefId) :
    (∃ n, G.IsInt32Constant d n ∧
        ∀ fuel, G.extractLinearSum G.operandsOf (fuel + 1) d = some ⟨none, n⟩) ∨
      (∃ op l r, G.IsSum op d l r) ∨
      (∀ n, ¬ G.IsInt32Constant d n) ∧ (∀ op l r, ¬ G.IsSum op d l r) ∧
        ∀ fuel, G.extractLinearSum G.operandsOf (fuel + 1) d = some ⟨some d, 0⟩ := by
  by_cases hsum : ∃ op l r, G.IsSum op d l r
  · exact .inr (.inl hsum)
  · have hnot : ∀ op l r, ¬ G.IsSum op d l r := fun op l r h => hsum ⟨op, l, r, h⟩
    by_cases hconst : ∃ n, G.IsInt32Constant d n
    · obtain ⟨n, hop, htype⟩ := hconst
      refine .inl ⟨n, ⟨hop, htype⟩, fun fuel => ?_⟩
      simp only [extractLinearSum, htype, hop, ne_eq, not_true_eq_false, if_false]
    · refine .inr (.inr ⟨fun n h => hconst ⟨n, h⟩, hnot, fun fuel => ?_⟩)
      unfold extractLinearSum
      split_ifs with htype
      · rfl
      · rw [ne_eq, not_not] at htype
        split
        · rename_i n hop
          exact absurd ⟨n, hop, htype⟩ hconst
        · rename_i lhs rhs hop hops
          split_ifs with htypes
          · exact absurd ⟨.inl rfl, ⟨_, _, hop⟩, hops, htype, htypes.1, htypes.2⟩ (hnot .add _ _)
          · rfl
        · rename_i lhs rhs hop hops
          split_ifs with htypes
          · exact absurd ⟨.inr rfl, ⟨_, _, hop⟩, hops, htype, htypes.1, htypes.2⟩ (hnot .sub _ _)
          · rfl
        · rfl

lemma reachesAssertion_of_not_isSum {d : DefId} (h : ∀ op l r, ¬ G.IsSum op d l r) (fuel : Nat) :
    G.reachesAssertion fuel d = false := by
  cases fuel with
  | zero => rfl
  | succ fuel =>
    unfold reachesAssertion
    split_ifs with htype
    · rfl
    · rw [ne_eq, not_not] at htype
      split
      · rename_i lhs rhs hop hops
        split_ifs with htypes
        · exact absurd ⟨.inl rfl, ⟨_, _, hop⟩, hops, htype, htypes.1, htypes.2⟩ (h .add _ _)
        · rfl
      · rename_i lhs rhs hop hops
        split_ifs with htypes
        · exact absurd ⟨.inr rfl, ⟨_, _, hop⟩, hops, htype, htypes.1, htypes.2⟩ (h .sub _ _)
        · rfl
      · rfl

variable {fuel : Nat} {sum : LinearSum}

lemma extractLinearSum_succ {d : DefId} (h : G.extractLinearSum G.operandsOf fuel d = some sum) :
    G.extractLinearSum G.operandsOf (fuel + 1) d = some sum := by
  induction fuel generalizing d sum with
  | zero => cases h
  | succ fuel ih =>
    rcases G.visit_cases d with ⟨n, -, hrun⟩ | ⟨op, l, r, hsum⟩ | ⟨-, -, hrun⟩
    · rw [hrun] at h ⊢
      exact h
    · rw [extractLinearSum_isSum hsum] at h ⊢
      simp only [bind_eq_some_iff] at h ⊢
      obtain ⟨lsum, hl, rsum, hr, hres⟩ := h
      exact ⟨lsum, ih hl, rsum, ih hr, hres⟩
    · rw [hrun] at h ⊢
      exact h

lemma extractLinearSum_mono {fuel more : Nat} {d : DefId}
    (h : G.extractLinearSum G.operandsOf fuel d = some sum) (hle : fuel ≤ more) :
    G.extractLinearSum G.operandsOf more d = some sum := by
  induction hle with
  | refl => exact h
  | step _ ih => exact extractLinearSum_succ ih

/-- Along the calls the same number of turns is enough. -/
lemma extractLinearSum_visits {d o : DefId} (hvisits : G.Visits d o)
    (h : ∃ sum, G.extractLinearSum G.operandsOf fuel d = some sum) :
    ∃ sum, G.extractLinearSum G.operandsOf fuel o = some sum := by
  induction hvisits with
  | refl => exact h
  | @tail d o _ hrec ih =>
    obtain ⟨op, l, r, hsum, ho⟩ := hrec
    obtain ⟨sum, hd⟩ := ih
    cases fuel with
    | zero => cases hd
    | succ fuel =>
      rw [extractLinearSum_isSum hsum] at hd
      simp only [bind_eq_some_iff] at hd
      obtain ⟨lsum, hl, rsum, hr, -⟩ := hd
      rcases ho with rfl | rfl
      · exact ⟨lsum, extractLinearSum_succ hl⟩
      · exact ⟨rsum, extractLinearSum_succ hr⟩

/-- A sum is a constant just for a constant, unless two constants are added somewhere. -/
lemma term_extractLinearSum {d : DefId} (hno : ∀ o, G.Visits d o → ¬ G.AddsConstants o)
    (h : G.extractLinearSum G.operandsOf fuel d = some sum) :
    (∃ n, G.IsInt32Constant d n ∧ sum = ⟨none, n⟩) ∨
      (∀ n, ¬ G.IsInt32Constant d n) ∧ ∃ t, sum.term = some t := by
  induction fuel generalizing d sum with
  | zero => cases h
  | succ fuel ih =>
    rcases G.visit_cases d with ⟨n, hconst, hrun⟩ | ⟨op, l, r, hsum⟩ | ⟨hconst, -, hrun⟩
    · rw [hrun, some.injEq] at h
      exact .inl ⟨n, hconst, h.symm⟩
    · rw [extractLinearSum_isSum hsum] at h
      simp only [bind_eq_some_iff, some.injEq] at h
      obtain ⟨lsum, hl, rsum, hr, rfl⟩ := h
      have hleft := ih (fun o ho => hno o (.head hsum.recurses_left ho)) hl
      have hright := ih (fun o ho => hno o (.head hsum.recurses_right ho)) hr
      refine .inr ⟨hsum.not_constant, ?_⟩
      cases hres : op.sum? lsum rsum with
      | none => exact ⟨d, rfl⟩
      | some res =>
        rcases hsum.1 with rfl | rfl
        · simp only [ArithOp.sum?, LinearSum.add?] at hres
          split_ifs at hres
          obtain ⟨c, -, rfl⟩ := map_eq_some_iff.mp hres
          rcases hleft with ⟨m, hm, rfl⟩ | ⟨-, t, ht⟩
          · rcases hright with ⟨n, hn, rfl⟩ | ⟨-, t, ht⟩
            · exact absurd ⟨_, _, _, m, n, hsum, hm, hn⟩ (hno d .refl)
            · exact ⟨t, by simp [ht]⟩
          · exact ⟨t, by simp [ht]⟩
        · simp only [ArithOp.sum?, LinearSum.sub?] at hres
          split_ifs at hres with _ hsome
          obtain ⟨c, -, rfl⟩ := map_eq_some_iff.mp hres
          exact Option.isSome_iff_exists.mp hsome
    · rw [hrun, some.injEq] at h
      exact .inr ⟨hconst, d, by rw [← h]⟩

/-! ## Constants -/

/-- The constants fit, or the checked operation fails. -/
lemma safeAdd_cases (one two : Int32) :
    (∃ c, safeAdd one two = some c ∧ c.toInt = one.toInt + two.toInt ∧
        IsInt32 (one.toInt + two.toInt)) ∨
      safeAdd one two = none ∧ ¬ IsInt32 (one.toInt + two.toInt) := by
  rw [safeAdd]
  split_ifs with hexact
  · refine .inl ⟨_, rfl, hexact.symm, ?_⟩
    rw [hexact]
    exact isInt32_toInt _
  · refine .inr ⟨rfl, fun hfits => hexact ?_⟩
    rw [toInt_add, wrap32_of_isInt32 hfits]

lemma toInt_sub (a b : Int32) : (a - b).toInt = wrap32 (a.toInt - b.toInt) := by
  have ha := isInt32_toInt a
  have hb := isInt32_toInt b
  unfold IsInt32 int32Min int32Max at ha hb
  rw [Int32.toInt_sub, wrap32, Int.bmod_def]
  omega

lemma safeSub_cases (one two : Int32) :
    (∃ c, safeSub one two = some c ∧ c.toInt = one.toInt + -two.toInt ∧
        IsInt32 (one.toInt + -two.toInt)) ∨
      safeSub one two = none ∧ ¬ IsInt32 (one.toInt + -two.toInt) := by
  rw [safeSub, ← Int.sub_eq_add_neg]
  split_ifs with hexact
  · refine .inl ⟨_, rfl, hexact.symm, ?_⟩
    rw [hexact]
    exact isInt32_toInt _
  · refine .inr ⟨rfl, fun hfits => hexact ?_⟩
    rw [toInt_sub, wrap32_of_isInt32 hfits]

/-! ## One call -/

/-- The sum of a definition is that of the one it adds a constant to, as long as the constants
fit. -/
lemma extractLinearSum_cases {d : DefId} (hno : ∀ o, G.Visits d o → ¬ G.AddsConstants o)
    (h : G.extractLinearSum G.operandsOf (fuel + 1) d = some sum) :
    (∃ n, G.IsInt32Constant d n ∧ sum = ⟨none, n⟩) ∨
      sum = ⟨some d, 0⟩ ∧ (∀ x c, ¬ G.AddsConstant d x c) ∨
      ∃ x c xsum, G.AddsConstant d x c ∧ G.extractLinearSum G.operandsOf fuel x = some xsum ∧
        (IsInt32 (xsum.constant.toInt + c) ∧ sum.term = xsum.term ∧
            sum.constant.toInt = xsum.constant.toInt + c ∨
          ¬ IsInt32 (xsum.constant.toInt + c) ∧ sum = ⟨some d, 0⟩) := by
  rcases G.visit_cases d with ⟨n, hconst, hrun⟩ | ⟨op, l, r, hsum⟩ | ⟨-, hnot, hrun⟩
  · rw [hrun, some.injEq] at h
    exact .inl ⟨n, hconst, h.symm⟩
  · rw [extractLinearSum_isSum hsum] at h
    simp only [bind_eq_some_iff, some.injEq] at h
    obtain ⟨lsum, hl, rsum, hr, rfl⟩ := h
    have hleft := term_extractLinearSum (fun o ho => hno o (.head hsum.recurses_left ho)) hl
    have hright := term_extractLinearSum (fun o ho => hno o (.head hsum.recurses_right ho)) hr
    right
    rcases hleft with ⟨m, hm, rfl⟩ | ⟨hlconst, t, ht⟩
    · rcases hright with ⟨n, hn, rfl⟩ | ⟨hrconst, u, hu⟩
      · exact absurd ⟨op, l, r, m, n, hsum, hm, hn⟩ (hno d .refl)
      · rcases hsum.1 with rfl | rfl
        · refine .inr ⟨r, m.toInt, rsum, .addLeft hsum hrconst hm, hr, ?_⟩
          rcases safeAdd_cases m rsum.constant with ⟨c, hc, hval, hfits⟩ | ⟨hc, hfits⟩
          · refine .inl ⟨by rwa [Int.add_comm] at hfits, ?_, ?_⟩
            · simp [ArithOp.sum?, LinearSum.add?, hc]
            · simp [ArithOp.sum?, LinearSum.add?, hc, hval, Int.add_comm]
          · refine .inr ⟨by rwa [Int.add_comm] at hfits, ?_⟩
            simp [ArithOp.sum?, LinearSum.add?, hc]
        · refine .inl ⟨by simp [ArithOp.sum?, LinearSum.sub?], fun x c hadds => ?_⟩
          rcases hadds.of_isSum hsum with ⟨hop, -⟩ | ⟨hop, -⟩ | ⟨-, -, n, hn, -⟩
          · cases hop
          · cases hop
          · exact hrconst n hn
    · rcases hright with ⟨n, hn, rfl⟩ | ⟨hrconst, u, hu⟩
      · rcases hsum.1 with rfl | rfl
        · refine .inr ⟨l, n.toInt, lsum, .addRight hsum hlconst hn, hl, ?_⟩
          rcases safeAdd_cases lsum.constant n with ⟨c, hc, hval, hfits⟩ | ⟨hc, hfits⟩
          · refine .inl ⟨hfits, ?_, ?_⟩
            · simp [ArithOp.sum?, LinearSum.add?, hc]
            · simp [ArithOp.sum?, LinearSum.add?, hc, hval]
          · refine .inr ⟨hfits, ?_⟩
            simp [ArithOp.sum?, LinearSum.add?, hc]
        · refine .inr ⟨l, -n.toInt, lsum, .sub hsum hlconst hn, hl, ?_⟩
          rcases safeSub_cases lsum.constant n with ⟨c, hc, hval, hfits⟩ | ⟨hc, hfits⟩
          · refine .inl ⟨hfits, ?_, ?_⟩
            · simp [ArithOp.sum?, LinearSum.sub?, hc, ht]
            · simp [ArithOp.sum?, LinearSum.sub?, hc, hval, ht]
          · refine .inr ⟨hfits, ?_⟩
            simp [ArithOp.sum?, LinearSum.sub?, hc]
      · -- two terms
        refine .inl ⟨?_, fun x c hadds => ?_⟩
        · rcases hsum.1 with rfl | rfl
          · simp [ArithOp.sum?, LinearSum.add?, ht, hu]
          · simp [ArithOp.sum?, LinearSum.sub?, ht, hu]
        · rcases hadds.of_isSum hsum with ⟨-, -, n, hn, -⟩ | ⟨-, -, n, hn, -⟩ | ⟨-, -, n, hn, -⟩
          · exact hrconst n hn
          · exact hlconst n hn
          · exact hrconst n hn
  · rw [hrun, some.injEq] at h
    refine .inr (.inl ⟨h.symm, fun x c hadds => ?_⟩)
    cases hadds with
    | addRight hsum _ _ => exact hnot _ _ _ hsum
    | addLeft hsum _ _ => exact hnot _ _ _ hsum
    | sub hsum _ _ => exact hnot _ _ _ hsum

lemma collected_extractLinearSum {d : DefId} (hno : ∀ o, G.Visits d o → ¬ G.AddsConstants o)
    (hd : ∀ n, ¬ G.IsInt32Constant d n) (h : G.extractLinearSum G.operandsOf fuel d = some sum) :
    G.Collected d sum.constant.toInt := by
  induction fuel generalizing d sum with
  | zero => cases h
  | succ fuel ih =>
    rcases extractLinearSum_cases hno h with ⟨n, hn, -⟩ | ⟨rfl, hnone⟩ |
      ⟨x, c, xsum, hadds, hx, hcases⟩
    · exact absurd hn (hd n)
    · exact .start hnone
    · have hcollected := ih (fun o ho => hno o (.head hadds.recurses ho)) hadds.not_constant hx
      rcases hcases with ⟨hfits, -, hconstant⟩ | ⟨hfits, rfl⟩
      · rw [hconstant]
        exact .add hadds hcollected hfits
      · exact .restart hadds hcollected hfits

/-! ## The assertion -/

lemma not_reachesAssertion {d : DefId} (hno : ∀ o, G.Visits d o → ¬ G.AddsConstants o)
    (fuel : Nat) : G.reachesAssertion fuel d = false := by
  induction fuel generalizing d with
  | zero => rfl
  | succ fuel ih =>
    by_cases hsum : ∃ op l r, G.IsSum op d l r
    · obtain ⟨op, l, r, hsum⟩ := hsum
      have hnoLeft : ∀ o, G.Visits l o → ¬ G.AddsConstants o :=
        fun o ho => hno o (.head hsum.recurses_left ho)
      have hnoRight : ∀ o, G.Visits r o → ¬ G.AddsConstants o :=
        fun o ho => hno o (.head hsum.recurses_right ho)
      rw [reachesAssertion_isSum hsum, ih hnoLeft, ih hnoRight]
      cases hl : G.extractLinearSum G.operandsOf fuel l with
      | none => rfl
      | some lsum =>
        cases hr : G.extractLinearSum G.operandsOf fuel r with
        | none => rfl
        | some rsum =>
          rcases term_extractLinearSum hnoLeft hl with ⟨m, hm, rfl⟩ | ⟨-, t, ht⟩
          · rcases term_extractLinearSum hnoRight hr with ⟨n, hn, rfl⟩ | ⟨-, t, ht⟩
            · exact absurd ⟨op, l, r, m, n, hsum, hm, hn⟩ (hno d .refl)
            · simp [ht]
          · simp [ht]
    · exact reachesAssertion_of_not_isSum (fun op l r h => hsum ⟨op, l, r, h⟩) _

lemma extractLinearSum_constant {d : DefId} {n : Int32} (h : G.IsInt32Constant d n) (fuel : Nat) :
    G.extractLinearSum G.operandsOf (fuel + 1) d = some ⟨none, n⟩ := by
  simp only [extractLinearSum, h.2, h.1, ne_eq, not_true_eq_false, if_false]

/-- Two constants that are added anywhere are found. -/
lemma reachesAssertion_of_visits {d o : DefId} (hvisits : G.Visits d o) (ho : G.AddsConstants o) :
    ∃ n, ∀ fuel, n ≤ fuel → G.reachesAssertion fuel d = true := by
  induction hvisits using Relation.ReflTransGen.head_induction_on with
  | refl =>
    obtain ⟨op, l, r, m, n, hsum, hl, hr⟩ := ho
    refine ⟨2, fun fuel hfuel => ?_⟩
    obtain ⟨fuel, rfl⟩ := Nat.exists_eq_add_of_le' hfuel
    rw [reachesAssertion_isSum hsum, extractLinearSum_constant hl, extractLinearSum_constant hr]
    simp
  | head hrec _ ih =>
    obtain ⟨op, l, r, hsum, hchild⟩ := hrec
    obtain ⟨n, hn⟩ := ih
    refine ⟨n + 1, fun fuel hfuel => ?_⟩
    obtain ⟨fuel, rfl⟩ := Nat.exists_eq_add_of_le' (Nat.le_trans (Nat.succ_pos n) hfuel)
    have hreach := hn fuel (Nat.le_of_succ_le_succ hfuel)
    rw [reachesAssertion_isSum hsum]
    rcases hchild with rfl | rfl
    · simp [hreach]
    · simp [hreach]

/-! ## Values -/

section Values

variable {checked : DefId → Option (Int32 × Int32)} {P : Ssa BlockId DefId Int32} {b : BlockId}
  {before : List DefId} {env : DefId → Int32}

lemma IsInt32Constant.value (exec : G.Executes checked P) (h : P.WithinAfter b before env)
    {d : DefId} {n : Int32} (hn : G.IsInt32Constant d n) (hd : P.Available b before d) :
    env d = n := by
  have hholds := exec.computes (exec.holds h hd (by rw [hn.1]; simp))
  simpa only [ComputesInt32, hn.1] using hholds

/-- The value of an addition or subtraction, which wraps around where it is truncated. -/
lemma IsSum.value (exec : G.Executes checked P) (h : P.WithinAfter b before env)
    {op : ArithOp} {d l r : DefId} (hsum : G.IsSum op d l r) (hd : P.Available b before d) :
    ∃ specialization implicitTruncate,
      (G.definition d).op = .arith op specialization implicitTruncate ∧
      ∀ n, op.exact? (env l).toInt (env r).toInt = some n →
        (env d).toInt = if implicitTruncate then wrap32 n else n := by
  obtain ⟨specialization, implicitTruncate, hop⟩ := hsum.2.op_eq
  have hholds := exec.computes (exec.holds h hd hsum.2.op_ne_phi)
  simp only [ComputesInt32, hop, hsum.2.operands_eq] at hholds
  exact ⟨_, _, hop, hholds hsum.2.type_eq hsum.2.type_left hsum.2.type_right⟩

lemma AddsConstant.value (exec : G.Executes checked P) (h : P.WithinAfter b before env)
    {d x : DefId} {c : Int} (hadds : G.AddsConstant d x c) (hd : P.Available b before d) :
    ∃ op specialization implicitTruncate,
      (G.definition d).op = .arith op specialization implicitTruncate ∧
      (env d).toInt =
        if implicitTruncate then wrap32 ((env x).toInt + c) else (env x).toInt + c := by
  have hoperand : ∀ {op l r o}, G.IsSum op d l r → o = l ∨ o = r → P.Available b before o := by
    intro op l r o hsum ho
    refine exec.available_operand h hd hsum.2.op_ne_phi ?_
    rw [hsum.2.operands_eq]
    simpa using ho
  cases hadds with
  | addRight hsum _ hn =>
    obtain ⟨specialization, implicitTruncate, hop, hval⟩ := hsum.value exec h hd
    refine ⟨_, _, _, hop, hval _ ?_⟩
    rw [hn.value exec h (hoperand hsum (.inr rfl)), ArithOp.exact?]
  | addLeft hsum _ hn =>
    obtain ⟨specialization, implicitTruncate, hop, hval⟩ := hsum.value exec h hd
    refine ⟨_, _, _, hop, hval _ ?_⟩
    rw [hn.value exec h (hoperand hsum (.inl rfl)), ArithOp.exact?, Int.add_comm]
  | sub hsum _ hn =>
    obtain ⟨specialization, implicitTruncate, hop, hval⟩ := hsum.value exec h hd
    refine ⟨_, _, _, hop, hval _ ?_⟩
    rw [hn.value exec h (hoperand hsum (.inr rfl)), ArithOp.exact?, Int.sub_eq_add_neg]

lemma AddsConstant.available (exec : G.Executes checked P) (h : P.WithinAfter b before env)
    {d x : DefId} {c : Int} (hadds : G.AddsConstant d x c) (hd : P.Available b before d) :
    P.Available b before x := by
  obtain ⟨op, l, r, hsum, hx⟩ := hadds.recurses
  refine exec.available_operand h hd hsum.2.op_ne_phi ?_
  rw [hsum.2.operands_eq]
  simpa using hx

lemma LinearSum.eval_of_term_eq {sum sum' : LinearSum} {c : Int} (hterm : sum.term = sum'.term)
    (hconstant : sum.constant.toInt = sum'.constant.toInt + c) (env : DefId → Int32) :
    sum.eval env = sum'.eval env + c := by
  rw [LinearSum.eval, LinearSum.eval, hterm, hconstant, Int.add_assoc]

/-- A sum is exact where no addition that was looked through has wrapped around. -/
lemma eq_eval_of_not_wraps (exec : G.Executes checked P) (h : P.WithinAfter b before env)
    {d : DefId} (hno : ∀ o, G.Visits d o → ¬ G.AddsConstants o)
    (hwraps : ∀ o, G.Visits d o → ¬ G.WrapsCollected env o) (hd : P.Available b before d)
    (hrun : G.extractLinearSum G.operandsOf fuel d = some sum) :
    (env d).toInt = sum.eval env := by
  induction fuel generalizing d sum with
  | zero => cases hrun
  | succ fuel ih =>
    rcases extractLinearSum_cases hno hrun with ⟨n, hn, rfl⟩ | ⟨rfl, -⟩ |
      ⟨x, c, xsum, hadds, hx, hcases⟩
    · rw [hn.value exec h hd]
      simp [LinearSum.eval]
    · simp [LinearSum.eval]
    · rcases hcases with ⟨hfits, hterm, hconstant⟩ | ⟨-, rfl⟩
      · have hnox : ∀ o, G.Visits x o → ¬ G.AddsConstants o :=
          fun o ho => hno o (.head hadds.recurses ho)
        have hxval := ih hnox (fun o ho => hwraps o (.head hadds.recurses ho))
          (hadds.available exec h hd) hx
        have hcollected := collected_extractLinearSum hnox hadds.not_constant hx
        obtain ⟨op, specialization, implicitTruncate, hop, hval⟩ := hadds.value exec h hd
        rw [LinearSum.eval_of_term_eq hterm hconstant, ← hxval, hval]
        cases implicitTruncate with
        | false => rfl
        | true =>
          have hint32 : IsInt32 ((env x).toInt + c) := by
            by_contra hnot
            exact hwraps d .refl ⟨x, c, _, _, _, hadds, hcollected, hfits, hop, hnot⟩
          rw [if_pos rfl, wrap32_of_isInt32 hint32]
      · simp [LinearSum.eval]

/-- Enough turns for a definition in an execution. -/
lemma exists_fuel (exec : G.Executes checked P) (h : P.WithinAfter b before env) {d : DefId}
    (hd : P.Available b before d) :
    ∃ n, ∀ fuel, n ≤ fuel → ∃ sum, G.extractLinearSum G.operandsOf fuel d = some sum := by
  suffices hsome : ∃ fuel sum, G.extractLinearSum G.operandsOf fuel d = some sum by
    obtain ⟨n, sum, hrun⟩ := hsome
    exact ⟨n, fun fuel hfuel => ⟨sum, extractLinearSum_mono hrun hfuel⟩⟩
  obtain ⟨start, after, harr, hsplit, -⟩ := h
  refine exec.wf.available_depth harr.reachable
    (fun d => ∃ fuel sum, G.extractLinearSum G.operandsOf fuel d = some sum) ?_ ?_ hsplit hd
  · intro c d hphi
    refine ⟨1, ⟨some d, 0⟩, ?_⟩
    simp [extractLinearSum, exec.phi_op hphi]
  · intro c d _ hoperands
    rcases G.visit_cases d with ⟨n, -, hrun⟩ | ⟨op, l, r, hsum⟩ | ⟨-, -, hrun⟩
    · exact ⟨1, _, hrun 0⟩
    · have hof : ∀ o, o = l ∨ o = r → o ∈ P.operands d := by
        intro o ho
        rw [exec.operands_eq, hsum.2.operands_eq]
        simpa using ho
      obtain ⟨nl, lsum, hl⟩ := hoperands l (hof l (.inl rfl))
      obtain ⟨nr, rsum, hr⟩ := hoperands r (hof r (.inr rfl))
      refine ⟨max nl nr + 1, (op.sum? lsum rsum).getD ⟨some d, 0⟩, ?_⟩
      rw [extractLinearSum_isSum hsum, extractLinearSum_mono hl (Nat.le_max_left _ _),
        extractLinearSum_mono hr (Nat.le_max_right _ _)]
      rfl
    · exact ⟨1, _, hrun 0⟩

lemma Visits.available (exec : G.Executes checked P) (h : P.WithinAfter b before env)
    {d o : DefId} (hvisits : G.Visits d o) (hd : P.Available b before d) :
    P.Available b before o := by
  induction hvisits with
  | refl => exact hd
  | tail _ hrec ih =>
    obtain ⟨op, l, r, hsum, ho⟩ := hrec
    refine exec.available_operand h ih hsum.2.op_ne_phi ?_
    rw [hsum.2.operands_eq]
    simpa using ho

end Values

/-- The sums of a definition and of those below it that `ExtractLinearSum` looks at are exact in
an execution, and the assertion is not reached, just if no two constants are added below it and
none of the additions of a collected constant wraps around. -/
theorem extractLinearSum_exact_iff (wf : G.WellFormed)
    {checked : DefId → Option (Int32 × Int32)} {b : BlockId} {before : List DefId}
    {env : DefId → Int32} (h : (G.int32Ssa checked).WithinAfter b before env) {ins : DefId}
    (hins : (G.int32Ssa checked).Available b before ins) :
    (∃ n, ∀ fuel, n ≤ fuel → G.reachesAssertion fuel ins = false ∧
        ∀ d, G.Visits ins d → ∃ sum, G.extractLinearSum G.operandsOf fuel d = some sum ∧
          (env d).toInt = sum.eval env) ↔
      ∀ d, G.Visits ins d → ¬ G.AddsConstants d ∧ ¬ G.WrapsCollected env d := by
  have exec := wf.executes checked
  constructor
  · rintro ⟨n, hn⟩
    have hno : ∀ d, G.Visits ins d → ¬ G.AddsConstants d := by
      intro d hd hadds
      obtain ⟨m, hm⟩ := reachesAssertion_of_visits hd hadds
      have hreach := hm (max n m) (Nat.le_max_right _ _)
      rw [(hn (max n m) (Nat.le_max_left _ _)).1] at hreach
      cases hreach
    refine fun d hd => ⟨hno d hd, ?_⟩
    rintro ⟨x, c, k, specialization, op, hadds, hcollected, hfits, hop, hwraps⟩
    have hvisitsx : G.Visits ins x := hd.tail hadds.recurses
    have hnod : ∀ o, G.Visits d o → ¬ G.AddsConstants o := fun o ho => hno o (hd.trans ho)
    obtain ⟨sum, hrun, hexact⟩ := (hn (n + 1) (Nat.le_succ n)).2 d hd
    obtain ⟨ysum, hrunx, hexactx⟩ := (hn n (Nat.le_refl n)).2 x hvisitsx
    rcases extractLinearSum_cases hnod hrun with ⟨m, hm, -⟩ | ⟨-, hnone⟩ |
      ⟨x', c', xsum, hadds', hx, hcases⟩
    · obtain ⟨op', l, r, hsum, -⟩ := hadds.recurses
      exact hsum.not_constant m hm
    · exact hnone x c hadds
    · obtain ⟨rfl, rfl⟩ := hadds.unique hadds'
      obtain rfl : ysum = xsum := some.inj (hrunx.symm.trans hx)
      have hsame := hcollected.unique
        (collected_extractLinearSum (fun o ho => hno o (hvisitsx.trans ho)) hadds.not_constant hx)
      subst hsame
      rcases hcases with ⟨-, hterm, hconstant⟩ | ⟨hnot, -⟩
      · -- the wrapped value is an int32, the exact one is not
        rw [LinearSum.eval_of_term_eq hterm hconstant, ← hexactx] at hexact
        rw [← hexact] at hwraps
        exact hwraps (isInt32_toInt _)
      · exact hnot hfits
  · intro hcond
    obtain ⟨n, hn⟩ := exists_fuel exec h hins
    refine ⟨n, fun fuel hfuel => ⟨not_reachesAssertion (fun d hd => (hcond d hd).1) fuel,
      fun d hd => ?_⟩⟩
    obtain ⟨sum, hrun⟩ := extractLinearSum_visits hd (hn fuel hfuel)
    exact ⟨sum, hrun, eq_eval_of_not_wraps exec h (fun o ho => (hcond o (hd.trans ho)).1)
      (fun o ho => (hcond o (hd.trans ho)).2) (hd.available exec h hins) hrun⟩

section TwoChecks

open BoundsCheckGraph

/-- The point behind the addition and the first check, with nothing checked. -/
lemma twoChecks_within (offset range t length : Int32) :
    ((twoChecks offset range).int32Ssa fun _ => none).WithinAfter 0 [0, 1, 2, 3, 4]
      (twoChecksEnv offset t length) :=
  twoChecks_reaches fun _ _ h => by cases h

lemma twoChecks_recurses {offset range : Int32} {d o : DefId}
    (h : (twoChecks offset range).Recurses d o) : d = 3 ∧ (o = 0 ∨ o = 2) := by
  obtain ⟨op, l, r, hsum, ho⟩ := h
  obtain ⟨_, _, hop⟩ := hsum.2.op_eq
  have hops := hsum.2.operands_eq
  simp only [twoChecks] at hop hops
  split at hop <;> simp_all

/-- `(t + 1) | 0` for a `t` that can be incremented. -/
theorem extractLinearSum_exact_iff_twoChecks :
    ∃ n, ∀ fuel, n ≤ fuel → (twoChecks 1 0).reachesAssertion fuel 3 = false ∧
      ∀ d, (twoChecks 1 0).Visits 3 d →
        ∃ sum, (twoChecks 1 0).extractLinearSum (twoChecks 1 0).operandsOf fuel d = some sum ∧
          (twoChecksEnv 1 6 10 d).toInt = sum.eval (twoChecksEnv 1 6 10) := by
  refine (extractLinearSum_exact_iff (twoChecks_wellFormed 1 0) (twoChecks_within 1 0 6 10)
    (.inr (.inl (by decide)))).mpr fun d hd => ⟨?_, ?_⟩
  · rintro ⟨op, l, r, m, n, hsum, hm, hn⟩
    have hl := (twoChecks_recurses hsum.recurses_left).1
    subst hl
    obtain ⟨rfl, -⟩ : 0 = l ∧ 2 = r := by simpa [twoChecks] using hsum.2.operands_eq
    cases hm.1
  · rintro ⟨x, c, k, specialization, op, hadds, -, -, -, hwraps⟩
    obtain ⟨rfl, hx⟩ := twoChecks_recurses hadds.recurses
    rcases hx with rfl | rfl
    · have hadds' : (twoChecks 1 0).AddsConstant 3 0 (Int32.toInt 1) :=
        .addRight ⟨.inl rfl, ⟨_, _, rfl⟩, rfl, rfl, rfl, rfl⟩ (fun m hm => by cases hm.1)
          ⟨rfl, rfl⟩
      rw [(hadds.unique hadds').2] at hwraps
      exact hwraps (by decide)
    · exact hadds.not_constant 1 ⟨rfl, rfl⟩

/-- `(t + 1) | 0` is no linear sum of the largest `t`. -/
theorem extractLinearSum_not_exact_twoChecks :
    ¬ ∀ (G : MIRGraph) (checked : DefId → Option (Int32 × Int32)) (b : BlockId)
      (before : List DefId) (env : DefId → Int32) (ins : DefId), G.WellFormed →
      (G.int32Ssa checked).WithinAfter b before env →
      (G.int32Ssa checked).Available b before ins →
      ∃ n, ∀ fuel, n ≤ fuel → G.reachesAssertion fuel ins = false ∧
        ∃ sum, G.extractLinearSum G.operandsOf fuel ins = some sum ∧
          (env ins).toInt = sum.eval env := by
  intro h
  obtain ⟨n, hn⟩ := h (twoChecks 1 0).toMIRGraph _ 0 _ _ 3 (twoChecks_wellFormed 1 0)
    (twoChecks_within 1 0 Int32.maxValue 10) (.inr (.inl (by decide)))
  obtain ⟨-, sum, hrun, hexact⟩ := hn (max n 2) (Nat.le_max_left _ _)
  have hsum : (twoChecks 1 0).extractLinearSum (twoChecks 1 0).operandsOf 2 3 =
      some ⟨some 0, 1⟩ := by rfl
  obtain rfl : sum = ⟨some 0, 1⟩ :=
    some.inj (hrun.symm.trans (extractLinearSum_mono hsum (Nat.le_max_right _ _)))
  exact absurd hexact (by decide)

end TwoChecks

end MIRGraph

end SpiderMonkey.Ion
