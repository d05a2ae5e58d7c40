import SpiderMonkey.Ion.EdgeCases

/-! # Dropping negative zero checks is unobservable

An unchecked instruction may leave the int32 zero for the negative zero. The definitions
whose value differs then are the unchecked ones and the bounds checks of them, which pass
their index on. None of them is read by an instruction that tells the two zeros apart by
itself, and no addition has two of them as its operands. So the values of all other
definitions agree, and the two programs go through the same blocks.
-/

namespace SpiderMonkey.Ion

open Lib Function List

namespace EdgeNode

/-- The operands an instruction reads with the sign of a zero. The sum of an int32
addition only depends on it where both operands are the negative zero. -/
def reads : EdgeNode → List Nat
  | constant _ => []
  | phi inputs => inputs
  | add specialization _ lhs rhs => if specialization = .int32 then [] else [lhs, rhs]
  | sub specialization _ lhs rhs => if specialization = .int32 then [lhs] else [lhs, rhs]
  | mod specialization lhs rhs => if specialization = .int32 then [lhs] else [lhs, rhs]
  | mul _ _ lhs rhs => [lhs, rhs]
  | div _ _ lhs rhs => [lhs, rhs]
  | toInt32 input => [input]
  | boundsCheck _ length _ _ => [length]
  | access _ operands => operands.eraseIdx 1
  | neutral _ _ => []
  | indexed operands index => operands.eraseIdx index
  | other operands => operands

/-- The specialization and the operands of an arithmetic instruction. -/
def arith? : EdgeNode → Option (MIRType × Nat × Nat)
  | add specialization _ lhs rhs => some (specialization, lhs, rhs)
  | sub specialization _ lhs rhs => some (specialization, lhs, rhs)
  | mod specialization lhs rhs => some (specialization, lhs, rhs)
  | mul specialization _ lhs rhs => some (specialization, lhs, rhs)
  | div specialization _ lhs rhs => some (specialization, lhs, rhs)
  | _ => none

lemma mem_operands_of_reads {n : EdgeNode} {d : Nat} (h : d ∈ n.reads) : d ∈ n.operands := by
  cases n with
  | constant => exact h
  | phi => exact h
  | add specialization _ lhs rhs =>
    simp only [reads] at h
    split at h
    · exact absurd h not_mem_nil
    · exact h
  | sub specialization _ lhs rhs =>
    simp only [reads] at h
    split at h
    · exact mem_cons.mpr (Or.inl (mem_singleton.mp h))
    · exact h
  | mod specialization lhs rhs =>
    simp only [reads] at h
    split at h
    · exact mem_cons.mpr (Or.inl (mem_singleton.mp h))
    · exact h
  | mul => exact h
  | div => exact h
  | toInt32 => exact h
  | boundsCheck index length =>
    exact mem_cons_of_mem _ h
  | access op operands => exact mem_of_mem_eraseIdx h
  | neutral => exact absurd h not_mem_nil
  | indexed operands index => exact mem_of_mem_eraseIdx h
  | other => exact h

end EdgeNode

namespace EdgeGraph

variable (g : EdgeGraph)

/-- The types the graph has once the type policies are applied: int32 arithmetic is about
int32 operands, other arithmetic reads its operands through conversions. -/
structure WellTyped : Prop where
  checked : ∀ d, (g.node d).isChecked = true → g.type d = .int32
  boundsCheck : ∀ d index length minimum maximum,
    g.node d = .boundsCheck index length minimum maximum →
    g.type d = .int32 ∧ g.type index = .int32
  arith : ∀ d specialization lhs rhs, (g.node d).arith? = some (specialization, lhs, rhs) →
    if specialization = .int32 then g.type lhs = .int32 ∧ g.type rhs = .int32
    else g.type lhs ≠ .int32 ∧ g.type rhs ≠ .int32
  phi : ∀ d inputs, g.node d = .phi inputs → g.type d = .int32 →
    ∀ input ∈ inputs, g.type input = .int32
  constant : ∀ d, g.node d = .constant none → g.type d ≠ .int32
  control : ∀ b, g.type (g.control b) ≠ .int32

/-- A resume point captures the definition, or an instruction reads it with the sign of a
zero. -/
def Observed (d : Nat) : Prop := g.captured d = true ∨ ∃ user, d ∈ (g.node user).reads

/-- The backward sweep cleared the flag. -/
structure Cleared (d : Nat) : Prop where
  isChecked : (g.node d).isChecked = true
  forward : g.analyzeEdgeCasesForward d = true
  late : g.analyzeLate d = false

/-- The definitions that may leave another zero. -/
inductive Zeroed : Nat → Prop
  | cleared {d : Nat} : g.Cleared d → Zeroed d
  | boundsCheck {d index length : Nat} {minimum maximum : Int} :
      g.node d = .boundsCheck index length minimum maximum → Zeroed index → Zeroed d

/-- A bounds check of an unchecked instruction is used as an index only, as the bounds
checks that `addBoundsCheck` makes are. -/
def BoundsChecksAreIndexes : Prop :=
  ∀ d index length minimum maximum, g.node d = .boundsCheck index length minimum maximum →
    g.Zeroed d → ¬ g.Observed d ∧
      ∀ user specialization implicitTruncate lhs rhs,
        g.node user = .add specialization implicitTruncate lhs rhs → d ≠ lhs ∧ d ≠ rhs

variable {g}

/-! ## The sweeps -/

lemma mem_nodes {u : Nat} (h : g.node u ≠ .other []) : g.node u ∈ g.nodes := by
  unfold node at h ⊢
  rw [getD_eq_getElem?_getD] at h ⊢
  cases hu : g.nodes[u]? with
  | none =>
    rw [hu] at h
    exact absurd rfl h
  | some n => exact mem_of_getElem? hu

lemma mem_nodes_of_operand {u d : Nat} (h : d ∈ (g.node u).operands) :
    g.node u ∈ g.nodes := by
  apply mem_nodes
  intro hu
  rw [hu] at h
  exact absurd h not_mem_nil

variable {flags : Nat → Bool}

lemma backward_of_ne {d e : Nat} (h : e ≠ d) :
    g.analyzeEdgeCasesBackward flags d e = flags e := by
  unfold analyzeEdgeCasesBackward
  cases g.node d with
  | mul => exact update_of_ne h _ _
  | div => exact update_of_ne h _ _
  | toInt32 => exact update_of_ne h _ _
  | _ => rfl

variable {d : Nat}

/-- A visit clears a flag only where no check is needed. -/
lemma backward_self (hchecked : (g.node d).isChecked = true) (hflag : flags d = true) :
    g.analyzeEdgeCasesBackward flags d d = g.needNegativeZeroCheck flags d := by
  unfold analyzeEdgeCasesBackward
  cases hnode : g.node d with
  | mul =>
    show update flags d (flags d && _) d = _
    rw [update_self, hflag, Bool.true_and]
  | div =>
    show update flags d (flags d && _) d = _
    rw [update_self, hflag, Bool.true_and]
  | toInt32 => exact update_self ..
  | _ =>
    rw [hnode] at hchecked
    exact absurd hchecked Bool.false_ne_true

/-- When a definition is visited, those after it have their last flag and those before it
the flag they began with. -/
lemma foldl_backward (k : Nat) (flags : Nat → Bool) (hd : d < k) :
    ∃ flags', (∀ e ≤ d, flags' e = flags e) ∧
      (∀ e, d < e → flags' e =
        (List.range k).reverse.foldl g.analyzeEdgeCasesBackward flags e) ∧
      (List.range k).reverse.foldl g.analyzeEdgeCasesBackward flags d =
        g.analyzeEdgeCasesBackward flags' d d := by
  have hlater : ∀ k flags e, k ≤ e →
      (List.range k).reverse.foldl g.analyzeEdgeCasesBackward flags e = flags e := by
    intro k
    induction k with
    | zero =>
      intro flags e _
      rfl
    | succ k ih =>
      intro flags e hle
      rw [range_succ, reverse_append, reverse_singleton, foldl_append]
      exact (ih _ e (Nat.le_of_succ_le hle)).trans (backward_of_ne (by omega))
  induction k generalizing flags with
  | zero => exact absurd hd (Nat.not_lt_zero d)
  | succ k ih =>
    rw [range_succ, reverse_append, reverse_singleton, foldl_append]
    show ∃ flags' : Nat → Bool, _ ∧ (∀ e, d < e → flags' e =
      (List.range k).reverse.foldl g.analyzeEdgeCasesBackward
        (g.analyzeEdgeCasesBackward flags k) e) ∧
      (List.range k).reverse.foldl g.analyzeEdgeCasesBackward
        (g.analyzeEdgeCasesBackward flags k) d = _
    rcases Nat.lt_succ_iff_lt_or_eq.mp hd with hlt | rfl
    · rcases ih (g.analyzeEdgeCasesBackward flags k) hlt with ⟨flags', hbefore, hafter, hvisit⟩
      refine ⟨flags', ?_, hafter, hvisit⟩
      intro e he
      exact (hbefore e he).trans (backward_of_ne (by omega))
    · refine ⟨flags, fun _ _ => rfl, ?_, hlater d _ d (Nat.le_refl d)⟩
      intro e he
      exact ((hlater d _ e he.le).trans (backward_of_ne (by omega))).symm

/-- What `NeedNegativeZeroCheck` saw for a cleared flag. -/
lemma Cleared.exists_flags (h : g.Cleared d) :
    ∃ flags, (∀ e ≤ d, flags e = g.analyzeEdgeCasesForward e) ∧
      (∀ e, d < e → flags e = g.analyzeLate e) ∧
      g.needNegativeZeroCheck flags d = false := by
  have hd : d < g.nodes.length := by
    by_contra hle
    have hnode : g.node d = .other [] := by
      unfold node
      rw [getD_eq_getElem?_getD, List.getElem?_eq_none (Nat.le_of_not_lt hle)]
      rfl
    have := h.isChecked
    rw [hnode] at this
    exact Bool.false_ne_true this
  rcases foldl_backward g.nodes.length g.analyzeEdgeCasesForward hd with
    ⟨flags, hbefore, hafter, hvisit⟩
  refine ⟨flags, hbefore, hafter, ?_⟩
  have hflag : flags d = true := (hbefore d (Nat.le_refl d)).trans h.forward
  rw [← backward_self h.isChecked hflag]
  exact hvisit.symm.trans h.late

lemma Cleared.type_eq (hg : g.WellTyped) (h : g.Cleared d) : g.type d = .int32 :=
  hg.checked d h.isChecked

/-- No instruction that tells the two zeros apart by itself reads a cleared definition. -/
lemma Cleared.not_observed (hg : g.WellTyped) (h : g.Cleared d) :
    ¬ g.Observed d := by
  rcases h.exists_flags with ⟨flags, _, _, hneed⟩
  unfold needNegativeZeroCheck at hneed
  rw [Bool.or_eq_false_iff] at hneed
  intro hobs
  rcases hobs with hcap | ⟨user, hread⟩
  · exact Bool.false_ne_true (hneed.1.symm.trans hcap)
  · have hop := EdgeNode.mem_operands_of_reads hread
    have huse := any_eq_false.mp hneed.2 _ (mem_nodes_of_operand hop)
    rw [Bool.and_eq_true, not_and] at huse
    have hno := huse (contains_iff_mem.mpr hop)
    have htype := h.type_eq hg
    have harith := hg.arith user
    unfold useNeedsCheck at hno
    unfold EdgeNode.reads at hread
    cases hnode : g.node user with
    | constant => simp [hnode] at hread
    | phi => simp [hnode] at hno
    | add specialization _ lhs rhs =>
      have := harith specialization lhs rhs (by rw [hnode]; rfl)
      simp only [hnode] at hread
      split at hread
      · exact absurd hread not_mem_nil
      · rename_i hspec
        rw [if_neg hspec] at this
        simp only [mem_cons, not_mem_nil, or_false] at hread
        rcases hread with rfl | rfl
        · exact this.1 htype
        · exact this.2 htype
    | sub specialization _ lhs rhs =>
      have := harith specialization lhs rhs (by rw [hnode]; rfl)
      simp only [hnode] at hread hno
      split at hread
      · rw [mem_singleton] at hread
        exact hno (by simp [hread])
      · rename_i hspec
        rw [if_neg hspec] at this
        simp only [mem_cons, not_mem_nil, or_false] at hread
        rcases hread with rfl | rfl
        · exact this.1 htype
        · exact this.2 htype
    | mod specialization lhs rhs =>
      have := harith specialization lhs rhs (by rw [hnode]; rfl)
      simp only [hnode] at hread hno
      split at hread
      · rw [mem_singleton] at hread
        exact hno (by simp [hread])
      · rename_i hspec
        rw [if_neg hspec] at this
        simp only [mem_cons, not_mem_nil, or_false] at hread
        rcases hread with rfl | rfl
        · exact this.1 htype
        · exact this.2 htype
    | mul => simp [hnode] at hno
    | div => simp [hnode] at hno
    | toInt32 => simp [hnode] at hno
    | boundsCheck index length minimum maximum =>
      simp only [hnode, mem_singleton] at hread hno
      exact hno (by simp [hread])
    | access op operands =>
      simp only [hnode] at hread hno
      rcases operands with _ | ⟨first, _ | ⟨second, rest⟩⟩
      · exact absurd hread not_mem_nil
      · have hfirst : d = first := mem_singleton.mp hread
        exact hno (by simp [hfirst])
      · have hread : d ∈ first :: rest := hread
        rcases mem_cons.mp hread with hfirst | hrest
        · exact hno (by simp [hfirst])
        · exact hno (by simp [hrest])
    | neutral => simp [hnode] at hread
    | indexed => simp [hnode] at hno
    | other => simp [hnode] at hno

variable {implicitTruncate : Bool}

/-- An addition does not have two cleared operands: the check of the one that is visited
last was kept because the other one had lost its check. -/
lemma not_cleared_both {user lhs rhs : Nat} {specialization : MIRType}
    (huser : g.node user = .add specialization implicitTruncate lhs rhs) (hl : g.Cleared lhs)
    (hr : g.Cleared rhs) : False := by
  have hmem : g.node user ∈ g.nodes :=
    mem_nodes_of_operand (d := lhs) (by rw [huser]; exact mem_cons_self)
  -- for each of the two operands: the other one had its flag
  have hother : ∀ d o, (d = lhs ∧ o = rhs) ∨ (d = rhs ∧ o = lhs) → g.Cleared d → g.Cleared o →
      d ≠ o ∧ ¬ d < o := by
    intro d o hdo hd ho
    rcases hd.exists_flags with ⟨flags, _, hafter, hneed⟩
    unfold needNegativeZeroCheck at hneed
    rw [Bool.or_eq_false_iff] at hneed
    have huse := any_eq_false.mp hneed.2 _ hmem
    rw [Bool.and_eq_true, not_and] at huse
    have hop : d ∈ (g.node user).operands := by
      rw [huser]
      show d ∈ [lhs, rhs]
      rcases hdo with ⟨h, _⟩ | ⟨h, _⟩
      · exact h ▸ mem_cons_self
      · exact h ▸ mem_cons_of_mem _ mem_cons_self
    have hno := huse (contains_iff_mem.mpr hop)
    rw [huser] at hno
    simp only [useNeedsCheck] at hno
    have hne : d ≠ o := by
      rintro rfl
      have : lhs = d ∧ rhs = d := by
        rcases hdo with ⟨h, h'⟩ | ⟨h, h'⟩ <;> exact ⟨by omega, by omega⟩
      exact hno (if_pos this)
    have hnot : ¬ (lhs = d ∧ rhs = d) := by
      rcases hdo with ⟨h, h'⟩ | ⟨h, h'⟩ <;> omega
    rw [if_neg hnot] at hno
    have hoperand : (if lhs = d then rhs else lhs) = o := by
      rcases hdo with ⟨h, h'⟩ | ⟨h, h'⟩
      · rw [if_pos h.symm, h']
      · rw [if_neg (by omega), h']
    rw [hoperand] at hno
    refine ⟨hne, ?_⟩
    intro hlt
    have hflag : flags o = false := (hafter o hlt).trans ho.late
    have hchecked := ho.isChecked
    unfold canBeNegativeZero at hno
    cases hnode : g.node o <;> simp_all [EdgeNode.isChecked]
  have h₁ := hother lhs rhs (Or.inl ⟨rfl, rfl⟩) hl hr
  have h₂ := hother rhs lhs (Or.inr ⟨rfl, rfl⟩) hr hl
  omega

lemma Zeroed.type_eq (hg : g.WellTyped) (h : g.Zeroed d) : g.type d = .int32 := by
  cases h with
  | cleared h => exact h.type_eq hg
  | boundsCheck hnode _ => exact (hg.boundsCheck _ _ _ _ _ hnode).1

lemma Zeroed.not_observed (hg : g.WellTyped) (hbc : g.BoundsChecksAreIndexes) (h : g.Zeroed d) :
    ¬ g.Observed d := by
  cases h with
  | cleared h => exact h.not_observed hg
  | boundsCheck hnode hindex => exact (hbc _ _ _ _ _ hnode (.boundsCheck hnode hindex)).1

/-- At most one operand of an addition is zeroed. -/
lemma Zeroed.not_both (hbc : g.BoundsChecksAreIndexes) {user lhs rhs : Nat}
    {specialization : MIRType} (huser : g.node user = .add specialization implicitTruncate lhs rhs)
    (hl : g.Zeroed lhs) (hr : g.Zeroed rhs) : False := by
  cases hl with
  | boundsCheck hnode hindex =>
    exact ((hbc _ _ _ _ _ hnode (.boundsCheck hnode hindex)).2 _ _ _ _ _ huser).1 rfl
  | cleared hl =>
    cases hr with
    | boundsCheck hnode hindex =>
      exact ((hbc _ _ _ _ _ hnode (.boundsCheck hnode hindex)).2 _ _ _ _ _ huser).2 rfl
    | cleared hr => exact not_cleared_both huser hl hr

/-! ## Values -/

variable {ν : Type} {c : EdgeContext ν}

variable (g) in
open Classical in
/-- A value as the compiled code has it. -/
noncomputable def eraseAt (d : Nat) (v : EdgeValue ν) : EdgeValue ν :=
  if g.Zeroed d then v.positive else v

variable (g) in
noncomputable def erase (env : Nat → EdgeValue ν) : Nat → EdgeValue ν := fun d =>
  g.eraseAt d (env d)

variable (g) in
/-- The definitions of type int32 hold integers, except where a check was dropped. -/
structure Typed (env : Nat → EdgeValue ν) : Prop where
  int32 : ∀ d, g.type d = .int32 → ¬ g.Zeroed d → (env d).IsInt32
  constant : ∀ d n, g.node d = .constant (some n) → env d = .num (.int n)

lemma eraseAt_of_zeroed (h : g.Zeroed d) (v : EdgeValue ν) :
    g.eraseAt d v = v.positive := if_pos h

lemma eraseAt_of_not (h : ¬ g.Zeroed d) (v : EdgeValue ν) :
    g.eraseAt d v = v := if_neg h

lemma positive_eraseAt (d : Nat) (v : EdgeValue ν) :
    (g.eraseAt d v).positive = v.positive := by
  unfold eraseAt
  split
  · exact EdgeValue.positive_positive v
  · rfl

variable {env : Nat → EdgeValue ν}

lemma erase_of_not (h : ¬ g.Zeroed d) :
    g.erase env d = env d := eraseAt_of_not h _

lemma erase_update (env : Nat → EdgeValue ν) (d : Nat) (v : EdgeValue ν) :
    g.erase (update env d v) = update (g.erase env) d (g.eraseAt d v) := by
  funext e
  by_cases he : e = d
  · subst he
    simp [erase]
  · simp [erase, update_of_ne he]

/-- An int32 instruction reads the same numbers in both programs where it tells the two
zeros apart. -/
lemma erase_of_reads (hg : g.WellTyped) (hbc : g.BoundsChecksAreIndexes) (user : Nat) {o : Nat}
    (h : o ∈ (g.node user).reads) (env : Nat → EdgeValue ν) : g.erase env o = env o :=
  erase_of_not fun hz => hz.not_observed hg hbc (Or.inr ⟨user, h⟩)

/-- A definition of type int32 holds an integer in the compiled code. -/
lemma erase_eq_num_iff (henv : g.Typed env) (hd : g.type d = .int32) {x : ZInt} :
    g.erase env d = .num x ↔ ∃ y, env d = .num y ∧ x = y.positive := by
  by_cases h : g.Zeroed d
  · rw [erase, eraseAt_of_zeroed h]
    cases env d with
    | num y =>
      constructor
      · intro hx
        exact ⟨y, rfl, (EdgeValue.num.inj hx).symm⟩
      · intro ⟨z, hz, hx⟩
        rw [hz, hx]
        rfl
    | other w =>
      constructor
      · intro hx
        have hx : EdgeValue.other w = .num x := hx
        cases hx
      · intro ⟨z, hz, _⟩
        cases hz
  · rw [erase_of_not h]
    rcases henv.int32 d hd h with ⟨n, hn⟩
    rw [hn]
    constructor
    · intro hx
      have hx : ZInt.int n = x := EdgeValue.num.inj hx
      exact ⟨.int n, rfl, hx.symm⟩
    · intro ⟨z, hz, hx⟩
      have hz : ZInt.int n = z := EdgeValue.num.inj hz
      rw [hx, ← hz]
      rfl

/-- An int32 operation has the same results in both programs when it does not depend on
the signs of the zeros. -/
lemma exists_operands_iff (henv : g.Typed env) {lhs rhs : Nat} (hl : g.type lhs = .int32)
    (hr : g.type rhs = .int32) {R : ZInt → ZInt → Prop}
    (hR : ∀ a b, env lhs = .num a → env rhs = .num b → (R a.positive b.positive ↔ R a b)) :
    (∃ a b, g.erase env lhs = .num a ∧ g.erase env rhs = .num b ∧ R a b) ↔
      ∃ a b, env lhs = .num a ∧ env rhs = .num b ∧ R a b := by
  constructor
  · intro ⟨a, b, ha, hb, hab⟩
    rcases (erase_eq_num_iff henv hl).mp ha with ⟨a', ha', rfl⟩
    rcases (erase_eq_num_iff henv hr).mp hb with ⟨b', hb', rfl⟩
    exact ⟨a', b', ha', hb', (hR a' b' ha' hb').mp hab⟩
  · intro ⟨a, b, ha, hb, hab⟩
    exact ⟨a.positive, b.positive, (erase_eq_num_iff henv hl).mpr ⟨a, ha, rfl⟩,
      (erase_eq_num_iff henv hr).mpr ⟨b, hb, rfl⟩, (hR a b ha hb).mpr hab⟩

/-- The negative zero is the value of a definition whose check was dropped. -/
lemma Typed.zeroed (henv : g.Typed env) (hd : g.type d = .int32) (h : env d = .num .negZero) :
    g.Zeroed d := by
  by_contra hz
  rcases henv.int32 d hd hz with ⟨n, hn⟩
  rw [h] at hn
  exact ZInt.noConfusion (EdgeValue.num.inj hn)

lemma Typed.ne_negZero_of_reads (hg : g.WellTyped) (hbc : g.BoundsChecksAreIndexes)
    (henv : g.Typed env) {user o : Nat} (ho : o ∈ (g.node user).reads) (htype : g.type o = .int32)
    {x : ZInt} (hx : env o = .num x) : x ≠ .negZero := by
  rintro rfl
  exact (henv.zeroed htype hx).not_observed hg hbc (Or.inr ⟨user, ho⟩)

/-- A list of values in which one is read as an index. -/
lemma modify_positive_congr {f f' : Nat → EdgeValue ν} {operands : List Nat} {i : Nat}
    (hsame : ∀ o ∈ operands.eraseIdx i, f o = f' o)
    (hindex : ∀ o, (f o).positive = (f' o).positive) :
    (operands.map f).modify i EdgeValue.positive =
      (operands.map f').modify i EdgeValue.positive := by
  induction operands generalizing i with
  | nil => rfl
  | cons o operands ih =>
    cases i with
    | zero =>
      have hrest : operands.map f = operands.map f' := map_congr_left hsame
      simp only [map_cons, modify_zero_cons, hindex o, hrest]
    | succ i =>
      have ho : f o = f' o := hsame o mem_cons_self
      have hrest := ih fun o ho => hsame o (mem_cons_of_mem _ ho)
      simp only [map_cons, modify_succ_cons, ho, hrest]

variable {v : EdgeValue ν}

lemma computes_iff_of_operands {env env' : Nat → EdgeValue ν}
    (h : ∀ o ∈ (g.node d).operands, env o = env' o) :
    g.Computes c flags d env v ↔ g.Computes c flags d env' v :=
  ⟨g.computes_congr c h, g.computes_congr c fun o ho => (h o ho).symm⟩

/-- The step lemma for instructions other than bounds checks: what they compute does not
depend on the checks that were dropped. -/
lemma computes_erase_iff (hg : g.WellTyped) (hbc : g.BoundsChecksAreIndexes) (henv : g.Typed env)
    (hnot : ∀ index length minimum maximum,
      g.node d ≠ .boundsCheck index length minimum maximum) :
    g.Computes c flags d (g.erase env) v ↔ g.Computes c flags d env v := by
  have hreads := fun {o : Nat} (ho : o ∈ (g.node d).reads) =>
    erase_of_reads hg hbc d ho env
  have harith := hg.arith d
  cases hnode : g.node d with
  | constant int32 =>
    exact computes_iff_of_operands fun o ho => absurd (hnode ▸ ho) not_mem_nil
  | phi inputs => exact computes_iff_of_operands fun o ho => hreads (by rw [hnode] at ho ⊢; exact ho)
  | mul => exact computes_iff_of_operands fun o ho => hreads (by rw [hnode] at ho ⊢; exact ho)
  | div => exact computes_iff_of_operands fun o ho => hreads (by rw [hnode] at ho ⊢; exact ho)
  | toInt32 => exact computes_iff_of_operands fun o ho => hreads (by rw [hnode] at ho ⊢; exact ho)
  | other => exact computes_iff_of_operands fun o ho => hreads (by rw [hnode] at ho ⊢; exact ho)
  | boundsCheck index length minimum maximum => exact absurd hnode (hnot _ _ _ _)
  | add specialization implicitTruncate lhs rhs =>
    have htypes := harith specialization lhs rhs (by rw [hnode]; rfl)
    by_cases hspec : specialization = .int32
    · rw [if_pos hspec] at htypes
      simp only [Computes, hnode, if_pos hspec]
      apply exists_operands_iff henv htypes.1 htypes.2
      intro a b ha hb
      -- the two terms are not both the negative zero
      have hnot : ¬ (a = .negZero ∧ b = .negZero) := by
        rintro ⟨rfl, rfl⟩
        exact Zeroed.not_both hbc hnode (henv.zeroed htypes.1 ha) (henv.zeroed htypes.2 hb)
      rw [ZInt.toInt_positive, ZInt.toInt_positive, ZInt.add_eq_int hnot]
      exact Iff.rfl
    · refine computes_iff_of_operands fun o ho => hreads ?_
      rw [hnode] at ho ⊢
      rwa [EdgeNode.reads, if_neg hspec]
  | sub specialization implicitTruncate lhs rhs =>
    have htypes := harith specialization lhs rhs (by rw [hnode]; rfl)
    by_cases hspec : specialization = .int32
    · rw [if_pos hspec] at htypes
      have hread : lhs ∈ (g.node d).reads := by
        rw [hnode, EdgeNode.reads, if_pos hspec]
        exact mem_cons_self
      simp only [Computes, hnode, if_pos hspec]
      apply exists_operands_iff henv htypes.1 htypes.2
      intro a b ha hb
      have hne := henv.ne_negZero_of_reads hg hbc hread htypes.1 ha
      rw [ZInt.toInt_positive, ZInt.toInt_positive, ZInt.positive_of_ne hne,
        ZInt.sub_positive hne]
    · refine computes_iff_of_operands fun o ho => hreads ?_
      rw [hnode] at ho ⊢
      rwa [EdgeNode.reads, if_neg hspec]
  | mod specialization lhs rhs =>
    have htypes := harith specialization lhs rhs (by rw [hnode]; rfl)
    by_cases hspec : specialization = .int32
    · rw [if_pos hspec] at htypes
      have hread : lhs ∈ (g.node d).reads := by
        rw [hnode, EdgeNode.reads, if_pos hspec]
        exact mem_cons_self
      have hiff := exists_operands_iff henv htypes.1 htypes.2
        (R := fun a b => ∃ x, a.mod b = some x ∧ x ≠ .negZero ∧ Yields x v) (by
          intro a b ha hb
          have hne := henv.ne_negZero_of_reads hg hbc hread htypes.1 ha
          rw [ZInt.positive_of_ne hne, ZInt.mod_positive])
      simp only [Computes, hnode, if_pos hspec]
      simpa only [exists_and_left] using hiff
    · refine computes_iff_of_operands fun o ho => hreads ?_
      rw [hnode] at ho ⊢
      rwa [EdgeNode.reads, if_neg hspec]
  | access op operands =>
    simp only [Computes, hnode]
    rw [modify_positive_congr (fun o ho => hreads (by rw [hnode]; exact ho))
      (fun o => positive_eraseAt o (env o))]
  | indexed operands index =>
    simp only [Computes, hnode]
    rw [modify_positive_congr (fun o ho => hreads (by rw [hnode]; exact ho))
      (fun o => positive_eraseAt o (env o))]
  | neutral op operands =>
    have hsame : operands.map (fun o => (g.erase env o).positive) =
        operands.map fun o => (env o).positive :=
      map_congr_left fun o _ => positive_eraseAt o (env o)
    simp only [Computes, hnode, hsame]

lemma Yields.isInt32 {x : ZInt} (h : Yields x v) (hx : x ≠ .negZero) :
    v.IsInt32 := by
  rcases ZInt.exists_int hx with ⟨n, rfl⟩
  exact ⟨n, h.2⟩

lemma int32Constant?_eq {n : Int} (h : g.int32Constant? d = some n) :
    g.node d = .constant (some n) := by
  unfold int32Constant? at h
  split at h
  · rename_i hnode
    rw [hnode, h]
  · exact absurd h.symm (Option.some_ne_none n)

lemma any_eq_true {o : Option Int} {p : Int → Bool} (h : o.any p = true) :
    ∃ n, o = some n ∧ p n = true := by
  cases o with
  | none => exact absurd h Bool.false_ne_true
  | some n => exact ⟨n, rfl, h⟩

/-- Where the forward sweep cleared the flag of a multiplication, a factor is positive. -/
lemma mul_ne_of_forward (henv : g.Typed env) {d lhs rhs : Nat} {nonnegativeRange : Bool}
    (hnode : g.node d = .mul .int32 nonnegativeRange lhs rhs)
    (hforward : g.analyzeEdgeCasesForward d = false) {a b : ZInt} (ha : env lhs = .num a)
    (hb : env rhs = .num b) (hane : a ≠ .negZero) (hbne : b ≠ .negZero) :
    a.mul b ≠ .negZero := by
  unfold analyzeEdgeCasesForward at hforward
  simp only [hnode, bne_self_eq_false, Bool.false_or, Bool.not_eq_false', Bool.or_eq_true]
    at hforward
  rcases hforward with h | h
  · rcases any_eq_true h with ⟨n, hn, hpos⟩
    rw [henv.constant _ _ (int32Constant?_eq hn)] at ha
    rw [← EdgeValue.num.inj ha, ZInt.mul_comm]
    exact ZInt.mul_ne_negZero hbne (of_decide_eq_true hpos)
  · rcases any_eq_true h with ⟨n, hn, hpos⟩
    rw [henv.constant _ _ (int32Constant?_eq hn)] at hb
    rw [← EdgeValue.num.inj hb]
    exact ZInt.mul_ne_negZero hane (of_decide_eq_true hpos)

/-- Where the forward sweep cleared the flag of a division, the dividend is a constant
other than zero or the divisor a constant that is not negative. -/
lemma div_ne_of_forward (hg : g.WellTyped) (henv : g.Typed env) {d lhs rhs : Nat}
    (hnode : g.node d = .div .int32 implicitTruncate lhs rhs) (hlhs : g.type lhs = .int32)
    (hforward : g.analyzeEdgeCasesForward d = false) {a b : ZInt} (ha : env lhs = .num a)
    (hb : env rhs = .num b) (hane : a ≠ .negZero) :
    a.div implicitTruncate b ≠ some .negZero := by
  unfold analyzeEdgeCasesForward at hforward
  simp only [hnode, bne_self_eq_false, Bool.false_or, Bool.not_eq_false', Bool.or_eq_true,
    Bool.and_eq_true, bne_iff_ne] at hforward
  rcases hforward with ⟨hconst, hzero⟩ | h
  · unfold isConstant at hconst
    split at hconst
    · rename_i int32 hlhsnode
      cases int32 with
      | none => exact absurd hlhs (hg.constant _ hlhsnode)
      | some n =>
        have hn : n ≠ 0 := by
          rintro rfl
          exact hzero (by rw [int32Constant?, hlhsnode])
        rw [henv.constant _ _ hlhsnode] at ha
        rw [← EdgeValue.num.inj ha]
        exact ZInt.div_ne_negZero_of_lhs hn b
    · exact absurd hconst Bool.false_ne_true
  · rcases any_eq_true h with ⟨n, hn, hpos⟩
    rw [henv.constant _ _ (int32Constant?_eq hn)] at hb
    rw [← EdgeValue.num.inj hb]
    exact ZInt.div_ne_negZero_of_rhs hane (of_decide_eq_true hpos)

/-- A flag that is not set although the backward sweep did not clear it was cleared by the
forward sweep. -/
lemma forward_of_not_zeroed (hchecked : (g.node d).isChecked = true) (hz : ¬ g.Zeroed d)
    (hlate : g.analyzeLate d ≠ true) :
    g.analyzeEdgeCasesForward d = false := by
  by_contra hforward
  exact hz (.cleared ⟨hchecked, Bool.eq_true_of_not_eq_false hforward,
    Bool.eq_false_of_not_eq_true hlate⟩)

/-- The step lemma for the types: an instruction of type int32 computes an integer, unless
its check was dropped. -/
lemma computes_isInt32 (hg : g.WellTyped) (hbc : g.BoundsChecksAreIndexes) (henv : g.Typed env)
    (h : g.Computes c g.analyzeLate d env v) (htype : g.type d = .int32) (hz : ¬ g.Zeroed d) :
    v.IsInt32 := by
  have harith := hg.arith d
  have hchecked := forward_of_not_zeroed (g := g) (d := d)
  unfold Computes at h
  cases hnode : g.node d with
  | constant int32 =>
    cases int32 with
    | none =>
      simp only [hnode] at h
      exact h.2 htype
    | some n =>
      simp only [hnode] at h
      exact ⟨n, h⟩
  | phi => simp [hnode] at h
  | add specialization implicitTruncate lhs rhs =>
    have htypes := harith specialization lhs rhs (by rw [hnode]; rfl)
    simp only [hnode] at h
    split at h
    · rename_i hspec
      rw [if_pos hspec] at htypes
      rcases h with ⟨a, b, ha, hb, h⟩
      split at h
      · exact ⟨_, h⟩
      · apply h.isInt32
        intro hneg
        rcases ZInt.add_eq_negZero hneg with ⟨rfl, rfl⟩
        exact Zeroed.not_both hbc hnode (henv.zeroed htypes.1 ha) (henv.zeroed htypes.2 hb)
    · exact h.2 htype
  | sub specialization implicitTruncate lhs rhs =>
    have htypes := harith specialization lhs rhs (by rw [hnode]; rfl)
    simp only [hnode] at h
    split at h
    · rename_i hspec
      rw [if_pos hspec] at htypes
      have hread : lhs ∈ (g.node d).reads := by
        rw [hnode, EdgeNode.reads, if_pos hspec]
        exact mem_cons_self
      rcases h with ⟨a, b, ha, hb, h⟩
      split at h
      · exact ⟨_, h⟩
      · apply h.isInt32
        intro hneg
        exact henv.ne_negZero_of_reads hg hbc hread htypes.1 ha (ZInt.sub_eq_negZero hneg)
    · exact h.2 htype
  | mod specialization lhs rhs =>
    simp only [hnode] at h
    split at h
    · rcases h with ⟨a, b, x, _, _, _, hne, h⟩
      exact h.isInt32 hne
    · exact h.2 htype
  | mul specialization nonnegativeRange lhs rhs =>
    have htypes := harith specialization lhs rhs (by rw [hnode]; rfl)
    simp only [hnode] at h
    split at h
    · rename_i hspec
      subst hspec
      rw [if_pos rfl] at htypes
      have hl : lhs ∈ (g.node d).reads := by
        rw [hnode]
        exact mem_cons_self
      have hr : rhs ∈ (g.node d).reads := by
        rw [hnode]
        exact mem_cons_of_mem _ mem_cons_self
      rcases h with ⟨a, b, ha, hb, hflag, h⟩
      apply h.isInt32
      by_cases hlate : g.analyzeLate d = true
      · exact hflag hlate
      · exact mul_ne_of_forward henv hnode (hchecked (by rw [hnode]; rfl) hz hlate) ha hb
          (henv.ne_negZero_of_reads hg hbc hl htypes.1 ha)
          (henv.ne_negZero_of_reads hg hbc hr htypes.2 hb)
    · exact h.2 htype
  | div specialization implicitTruncate lhs rhs =>
    have htypes := harith specialization lhs rhs (by rw [hnode]; rfl)
    simp only [hnode] at h
    split at h
    · rename_i hspec
      subst hspec
      rw [if_pos rfl] at htypes
      have hl : lhs ∈ (g.node d).reads := by
        rw [hnode]
        exact mem_cons_self
      rcases h with ⟨a, b, x, ha, hb, hx, hflag, h⟩
      apply h.isInt32
      by_cases hlate : g.analyzeLate d = true
      · exact hflag hlate
      · rintro rfl
        exact div_ne_of_forward hg henv hnode htypes.1 (hchecked (by rw [hnode]; rfl) hz hlate)
          ha hb (henv.ne_negZero_of_reads hg hbc hl htypes.1 ha) hx
    · exact h.2 htype
  | toInt32 input =>
    have hlate : g.analyzeLate d = true := by
      by_contra hlate
      have hforward := hchecked (by rw [hnode]; rfl) hz hlate
      rw [analyzeEdgeCasesForward, hnode] at hforward
      exact Bool.false_ne_true hforward.symm
    simp only [hnode] at h
    split at h
    · exact h.2.isInt32 (h.1 hlate)
    · rcases h with ⟨n, _, h⟩
      exact h.isInt32 ZInt.noConfusion
  | boundsCheck index length minimum maximum =>
    have hindex : ¬ g.Zeroed index := fun hi => hz (.boundsCheck hnode hi)
    simp only [hnode] at h
    rcases h with ⟨a, b, ha, _, _, _, rfl⟩
    rw [← ha]
    exact henv.int32 index (hg.boundsCheck _ _ _ _ _ hnode).2 hindex
  | access =>
    simp only [hnode] at h
    exact h.2 htype
  | neutral =>
    simp only [hnode] at h
    exact h.2 htype
  | indexed =>
    simp only [hnode] at h
    exact h.2 htype
  | other =>
    simp only [hnode] at h
    exact h.2 htype

/-- A bounds check passes the index on. -/
lemma computes_erase_boundsCheck (hg : g.WellTyped) (hbc : g.BoundsChecksAreIndexes)
    (henv : g.Typed env) {index length : Nat} {minimum maximum : Int}
    (hnode : g.node d = .boundsCheck index length minimum maximum) :
    g.Computes c flags d (g.erase env) v ↔
      ∃ w, g.Computes c flags d env w ∧ v = g.eraseAt d w := by
  have hlength : g.erase env length = env length := by
    refine erase_of_reads hg hbc d ?_ env
    rw [hnode]
    exact mem_cons_self
  have hindex := (hg.boundsCheck _ _ _ _ _ hnode).2
  have hzero : g.Zeroed d ↔ g.Zeroed index := by
    constructor
    · intro hz
      cases hz with
      | cleared hz =>
        have := hz.isChecked
        rw [hnode] at this
        exact absurd this Bool.false_ne_true
      | boundsCheck hnode' hz =>
        rw [hnode] at hnode'
        cases hnode'
        exact hz
    · exact .boundsCheck hnode
  have hsame : ∀ w : EdgeValue ν, g.eraseAt d w = g.eraseAt index w := by
    intro w
    by_cases hz : g.Zeroed index
    · rw [eraseAt_of_zeroed hz, eraseAt_of_zeroed (hzero.mpr hz)]
    · rw [eraseAt_of_not hz, eraseAt_of_not fun h => hz (hzero.mp h)]
  simp only [Computes, hnode, hlength]
  constructor
  · intro ⟨a, b, ha, hb, hlow, hhigh, hv⟩
    rcases (erase_eq_num_iff henv hindex).mp ha with ⟨y, hy, rfl⟩
    refine ⟨.num y, ⟨y, b, hy, hb, hlow, hhigh, rfl⟩, ?_⟩
    rw [hsame, ← hy, hv, ← ha]
    rfl
  · intro ⟨w, ⟨a, b, ha, hb, hlow, hhigh, hw⟩, hv⟩
    refine ⟨a.positive, b, (erase_eq_num_iff henv hindex).mpr ⟨a, ha, rfl⟩, hb, hlow, hhigh, ?_⟩
    rw [hv, hsame, hw, ← ha]
    exact (erase_eq_num_iff henv hindex).mpr ⟨a, ha, rfl⟩

variable (g c) in
/-- The program, in which unchecked instructions leave the negative zero. -/
abbrev source : Ssa Nat Nat (EdgeValue ν) := g.program c false

variable (g c) in
/-- The compiled code, in which they leave the int32 zero. -/
abbrev compiled : Ssa Nat Nat (EdgeValue ν) := g.program c true

lemma source_computes :
    (g.source c).computes d env v ↔ g.Computes c g.analyzeLate d env v := by
  constructor
  · intro ⟨w, hw, hv⟩
    have hv : v = w := hv
    exact hv ▸ hw
  · intro h
    exact ⟨v, h, rfl⟩

/-- The step lemma of the simulation, in both directions. -/
lemma compiled_computes_iff (hg : g.WellTyped) (hbc : g.BoundsChecksAreIndexes)
    (henv : g.Typed env) :
    (g.compiled c).computes d (g.erase env) v ↔
      ∃ w, (g.source c).computes d env w ∧ v = g.eraseAt d w := by
  simp only [source_computes]
  show (∃ w, g.Computes c g.analyzeLate d (g.erase env) w ∧
    v = if true && g.unchecked g.analyzeLate d then w.positive else w) ↔ _
  rw [Bool.true_and]
  by_cases hcheck : ∃ index length minimum maximum,
      g.node d = .boundsCheck index length minimum maximum
  · rcases hcheck with ⟨index, length, minimum, maximum, hnode⟩
    have hunchecked : g.unchecked g.analyzeLate d = false := by
      rw [unchecked, hnode]
      rfl
    simp only [hunchecked, Bool.false_eq_true, if_false]
    rw [← computes_erase_boundsCheck hg hbc henv hnode]
    constructor
    · intro ⟨w, hw, hv⟩
      exact hv ▸ hw
    · intro h
      exact ⟨v, h, rfl⟩
  · have hnot : ∀ index length minimum maximum,
        g.node d ≠ .boundsCheck index length minimum maximum :=
      fun index length minimum maximum h => hcheck ⟨index, length, minimum, maximum, h⟩
    have hiff : ∀ w, g.Computes c g.analyzeLate d (g.erase env) w ↔
        g.Computes c g.analyzeLate d env w := fun w => computes_erase_iff hg hbc henv hnot
    simp only [hiff]
    -- the two programs change the same results
    have hsame : ∀ w, g.Computes c g.analyzeLate d env w →
        (if g.unchecked g.analyzeLate d then w.positive else w) = g.eraseAt d w := by
      intro w hw
      by_cases hz : g.Zeroed d
      · have hunchecked : g.unchecked g.analyzeLate d = true := by
          cases hz with
          | cleared h => simp [unchecked, h.isChecked, h.late]
          | boundsCheck hnode _ => exact absurd hnode (hnot _ _ _ _)
        rw [eraseAt_of_zeroed hz, if_pos hunchecked]
      · rw [eraseAt_of_not hz]
        split
        · rename_i hunchecked
          have hchecked := ((Bool.and_eq_true _ _).mp hunchecked).1
          exact (computes_isInt32 hg hbc henv hw (hg.checked d hchecked) hz).positive_eq
        · rfl
    constructor
    · intro ⟨w, hw, hv⟩
      exact ⟨w, hw, hv.trans (hsame w hw)⟩
    · intro ⟨w, hw, hv⟩
      exact ⟨w, hw, hv.trans (hsame w hw).symm⟩

/-! ## Executions -/

variable (g) in
/-- The values before control enters: any of the right type. -/
structure Initial (start : Nat → EdgeValue ν) : Prop where
  int32 : ∀ d, g.type d = .int32 → (start d).IsInt32
  constant : ∀ d n, g.node d = .constant (some n) → start d = .num (.int n)

variable {start : Nat → EdgeValue ν}

lemma Initial.typed (h : g.Initial start) : g.Typed start where
  int32 d hd _ := h.int32 d hd
  constant := h.constant

lemma Initial.erase_eq (hg : g.WellTyped) (h : g.Initial start) :
    g.erase start = start := by
  funext d
  by_cases hz : g.Zeroed d
  · exact (eraseAt_of_zeroed hz _).trans (h.int32 d (hz.type_eq hg)).positive_eq
  · exact erase_of_not hz

lemma Typed.update (hg : g.WellTyped) (hbc : g.BoundsChecksAreIndexes) (henv : g.Typed env)
    (h : (g.source c).computes d env v) : g.Typed (update env d v) := by
  have h := source_computes.mp h
  constructor
  · intro e he hz
    by_cases hed : e = d
    · subst hed
      rw [update_self]
      exact computes_isInt32 hg hbc henv h he hz
    · rw [update_of_ne hed]
      exact henv.int32 e he hz
  · intro e n hnode
    by_cases hed : e = d
    · subst hed
      rw [update_self]
      simpa only [Computes, hnode] using h
    · rw [update_of_ne hed]
      exact henv.constant e n hnode

/-- Blocks run alike in both programs. -/
lemma compiled_run_iff (hg : g.WellTyped) (hbc : g.BoundsChecksAreIndexes) {ds : List Nat}
    (henv : g.Typed env) {env' : Nat → EdgeValue ν} :
    (g.compiled c).Run ds (g.erase env) env' ↔
      ∃ env₁, (g.source c).Run ds env env₁ ∧ g.Typed env₁ ∧ env' = g.erase env₁ := by
  induction ds generalizing env with
  | nil =>
    constructor
    · intro h
      cases h
      exact ⟨env, .nil env, henv, rfl⟩
    · intro ⟨env₁, h, _, heq⟩
      cases h
      rw [heq]
      exact .nil _
  | cons d ds ih =>
    constructor
    · intro h
      cases h with
      | cons hv hrest =>
        rcases (compiled_computes_iff hg hbc henv).mp hv with ⟨w, hw, rfl⟩
        rw [← erase_update] at hrest
        rcases (ih (henv.update hg hbc hw)).mp hrest with ⟨env₁, hrun, htyped, heq⟩
        exact ⟨env₁, .cons hw hrun, htyped, heq⟩
    · intro ⟨env₁, h, htyped, heq⟩
      cases h with
      | @cons _ _ _ w _ hw hrest =>
        have hv := (compiled_computes_iff hg hbc henv).mpr ⟨w, hw, rfl⟩
        refine .cons hv ?_
        rw [← erase_update]
        exact (ih (henv.update hg hbc hw)).mpr ⟨env₁, hrest, htyped, heq⟩

/-- Phis read no zeroed definitions. -/
lemma enter_erase (hg : g.WellTyped) (hbc : g.BoundsChecksAreIndexes) (henv : g.Typed env)
    {b target : Nat} {src : Nat → Nat} (hsrc : (g.source c).sources b target src) :
    (g.compiled c).enter target src (g.erase env) =
        g.erase ((g.source c).enter target src env) ∧
      g.Typed ((g.source c).enter target src env) := by
  rcases hsrc with ⟨i, _, hphis⟩
  have hphi : ∀ d ∈ g.phis target, ∃ inputs, g.node d = .phi inputs ∧ src d ∈ inputs := by
    intro d hd
    rcases hphis d hd with ⟨inputs, hnode, hinput⟩
    exact ⟨inputs, hnode, mem_of_getElem? hinput⟩
  have hread : ∀ d ∈ g.phis target, ¬ g.Zeroed (src d) := by
    intro d hd hz
    rcases hphi d hd with ⟨inputs, hnode, hinput⟩
    refine hz.not_observed hg hbc (Or.inr ⟨d, ?_⟩)
    rw [hnode]
    exact hinput
  constructor
  · funext d
    by_cases hd : d ∈ g.phis target
    · have hz : ¬ g.Zeroed d := by
        rcases hphi d hd with ⟨inputs, hnode, _⟩
        intro hz
        cases hz with
        | cleared h =>
          have := h.isChecked
          rw [hnode] at this
          exact Bool.false_ne_true this
        | boundsCheck hnode' _ =>
          rw [hnode] at hnode'
          cases hnode'
      rw [erase_of_not hz, Ssa.enter_of_phi hd, Ssa.enter_of_phi hd, erase_of_not (hread d hd)]
    · rw [Ssa.enter_of_not_phi hd, erase, erase, Ssa.enter_of_not_phi hd]
  · constructor
    · intro d htype hz
      by_cases hd : d ∈ g.phis target
      · rw [Ssa.enter_of_phi hd]
        rcases hphi d hd with ⟨inputs, hnode, hinput⟩
        exact henv.int32 _ (hg.phi d inputs hnode htype _ hinput) (hread d hd)
      · rw [Ssa.enter_of_not_phi hd]
        exact henv.int32 d htype hz
    · intro d n hnode
      rw [Ssa.enter_of_not_phi]
      · exact henv.constant d n hnode
      · intro hd
        rcases hphi d hd with ⟨inputs, hnode', _⟩
        rw [hnode] at hnode'
        cases hnode'

/-- Source runs keep the types. -/
lemma Typed.run (hg : g.WellTyped) (hbc : g.BoundsChecksAreIndexes) {ds : List Nat}
    {env env₁ : Nat → EdgeValue ν} (henv : g.Typed env) (h : (g.source c).Run ds env env₁) :
    g.Typed env₁ := by
  induction h with
  | nil => exact henv
  | cons hv _ ih => exact ih (henv.update hg hbc hv)

lemma erase_control (hg : g.WellTyped) (b : Nat) (env : Nat → EdgeValue ν) :
    g.erase env (g.control b) = env (g.control b) :=
  erase_of_not fun hz => hg.control b (hz.type_eq hg)

/-- The run lemma: the compiled code follows the program through the same blocks. -/
lemma compiled_follows (hg : g.WellTyped) (hbc : g.BoundsChecksAreIndexes)
    (hstart : g.Initial start) {path : List Nat} {b : Nat}
    (h : (g.source c).Follows start path b env) :
    g.Typed env ∧ (g.compiled c).Follows start path b (g.erase env) := by
  induction h with
  | root hroot =>
    refine ⟨hstart.typed, ?_⟩
    rw [hstart.erase_eq hg]
    exact .root hroot
  | @step path b target env env₁ src _ hrun htake hsrc ih =>
    rcases ih with ⟨henv, hfollows⟩
    have htyped := henv.run hg hbc hrun
    have hrun' := (compiled_run_iff hg hbc henv).mpr ⟨env₁, hrun, htyped, rfl⟩
    have htake' : (g.compiled c).take b (g.erase env₁) target :=
      ⟨htake.1, (erase_control hg b env₁).symm ▸ htake.2⟩
    rcases enter_erase (c := c) hg hbc htyped hsrc with ⟨henter, htyped'⟩
    refine ⟨htyped', ?_⟩
    rw [← henter]
    exact .step hfollows hrun' htake' hsrc

/-- The program follows the compiled code. -/
lemma source_follows (hg : g.WellTyped) (hbc : g.BoundsChecksAreIndexes)
    (hstart : g.Initial start) {path : List Nat} {b : Nat} {env' : Nat → EdgeValue ν}
    (h : (g.compiled c).Follows start path b env') :
    ∃ env, (g.source c).Follows start path b env ∧ g.Typed env ∧ env' = g.erase env := by
  induction h with
  | root hroot => exact ⟨start, .root hroot, hstart.typed, (hstart.erase_eq hg).symm⟩
  | @step path b target env' env₁' src _ hrun' htake' hsrc ih =>
    rcases ih with ⟨env, hfollows, henv, rfl⟩
    rcases (compiled_run_iff hg hbc henv).mp hrun' with ⟨env₁, hrun, htyped, rfl⟩
    have htake : (g.source c).take b env₁ target :=
      ⟨htake'.1, (erase_control hg b env₁) ▸ htake'.2⟩
    rcases enter_erase (c := c) hg hbc htyped hsrc with ⟨henter, htyped'⟩
    exact ⟨_, .step hfollows hrun htake hsrc, htyped', henter⟩

variable (g c) in
/-- Each program has the executions of the other, and what is observed has the same value
in both. -/
def SameObservations (start : Nat → EdgeValue ν) : Prop :=
  ∀ path b before,
    (∀ env, (g.source c).FollowsWithin start path b before env →
      ∃ env', (g.compiled c).FollowsWithin start path b before env' ∧
        ∀ d, g.Observed d → env' d = env d) ∧
    (∀ env', (g.compiled c).FollowsWithin start path b before env' →
      ∃ env, (g.source c).FollowsWithin start path b before env ∧
        ∀ d, g.Observed d → env' d = env d)

/-- One block: the product of two parameters, a bounds check of it, and either an element
load with the checked index or a return of it. -/
def indexOfProduct (returned : Bool) : EdgeGraph where
  nodes := [.other [], .other [], .other [], .other [2], .mul .int32 false 0 1,
    .boundsCheck 4 3 0 0, if returned then .other [5] else .access .loadElement [2, 5],
    .other [6]]
  type d := [MIRType.int32, .int32, .elements, .int32, .int32, .int32].getD d .value
  captured _ := false
  osrBlock := none
  phis _ := []
  body b := if b = 0 then [0, 1, 2, 3, 4, 5, 6, 7] else []
  control _ := 7
  predecessors _ := []
  successors _ := []

/-- The product of `0` and `-1`, and a length of one. -/
def zeroTimesMinusOne : EdgeContext Unit where
  outcome d _ v := v = [EdgeValue.num (.int 0), .num (.int (-1)), .other (), .num (.int 1)].getD
    d (.other ())
  convert _ := none
  branch _ _ _ := False

/-- The values before the block. -/
def zeros (d : Nat) : EdgeValue Unit :=
  if (indexOfProduct true).type d = .int32 then .num (.int 0) else .other ()

/-- The definitions are the product, its bounds check, and instructions of no interest. -/
lemma indexOfProduct_node (returned : Bool) (d : Nat) :
    ((indexOfProduct returned).node d = .mul .int32 false 0 1 ∧ d = 4) ∨
    ((indexOfProduct returned).node d = .boundsCheck 4 3 0 0 ∧ d = 5) ∨
    (∃ operands, (indexOfProduct returned).node d = .other operands) ∨
    (indexOfProduct returned).node d = .access .loadElement [2, 5] := by
  rcases d with _ | _ | _ | _ | _ | _ | _ | _ | d
  case zero => exact Or.inr (Or.inr (Or.inl ⟨_, rfl⟩))
  case succ.zero => exact Or.inr (Or.inr (Or.inl ⟨_, rfl⟩))
  case succ.succ.zero => exact Or.inr (Or.inr (Or.inl ⟨_, rfl⟩))
  case succ.succ.succ.zero => exact Or.inr (Or.inr (Or.inl ⟨_, rfl⟩))
  case succ.succ.succ.succ.zero => exact Or.inl ⟨rfl, rfl⟩
  case succ.succ.succ.succ.succ.zero => exact Or.inr (Or.inl ⟨rfl, rfl⟩)
  case succ.succ.succ.succ.succ.succ.zero =>
    cases returned with
    | true => exact Or.inr (Or.inr (Or.inl ⟨_, rfl⟩))
    | false => exact Or.inr (Or.inr (Or.inr rfl))
  case succ.succ.succ.succ.succ.succ.succ.zero => exact Or.inr (Or.inr (Or.inl ⟨_, rfl⟩))
  case succ.succ.succ.succ.succ.succ.succ.succ => exact Or.inr (Or.inr (Or.inl ⟨_, rfl⟩))

lemma indexOfProduct_wellTyped (returned : Bool) : (indexOfProduct returned).WellTyped := by
  constructor
  · intro d h
    rcases indexOfProduct_node returned d with ⟨_, rfl⟩ | ⟨hd, _⟩ | ⟨operands, hd⟩ | hd
    · rfl
    all_goals
      rw [hd] at h
      exact absurd h Bool.false_ne_true
  · intro d index length minimum maximum h
    rcases indexOfProduct_node returned d with ⟨hd, _⟩ | ⟨hd, rfl⟩ | ⟨operands, hd⟩ | hd
    · rw [hd] at h
      cases h
    · rw [hd] at h
      cases h
      exact ⟨rfl, rfl⟩
    all_goals
      rw [hd] at h
      cases h
  · intro d specialization lhs rhs h
    rcases indexOfProduct_node returned d with ⟨hd, _⟩ | ⟨hd, _⟩ | ⟨operands, hd⟩ | hd
    · rw [hd] at h
      cases h
      exact ⟨rfl, rfl⟩
    all_goals
      rw [hd] at h
      cases h
  · intro d inputs h
    rcases indexOfProduct_node returned d with ⟨hd, _⟩ | ⟨hd, _⟩ | ⟨operands, hd⟩ | hd
    all_goals
      rw [hd] at h
      cases h
  · intro d h
    rcases indexOfProduct_node returned d with ⟨hd, _⟩ | ⟨hd, _⟩ | ⟨operands, hd⟩ | hd
    all_goals
      rw [hd] at h
      cases h
  · intro b
    exact MIRType.noConfusion

lemma zeros_initial (returned : Bool) : (indexOfProduct returned).Initial zeros where
  int32 d hd := ⟨0, if_pos hd⟩
  constant d n h := by
    rcases indexOfProduct_node returned d with ⟨hd, _⟩ | ⟨hd, _⟩ | ⟨operands, hd⟩ | hd
    all_goals
      rw [hd] at h
      cases h

/-- A bounds check whose result is only used by an element load. -/
lemma indexOfProduct_boundsChecksAreIndexes :
    (indexOfProduct false).BoundsChecksAreIndexes := by
  intro d index length minimum maximum hnode _
  have hd : d = 5 := by
    rcases indexOfProduct_node false d with ⟨hd, _⟩ | ⟨_, hd⟩ | ⟨operands, hd⟩ | hd
    · rw [hd] at hnode
      cases hnode
    · exact hd
    all_goals
      rw [hd] at hnode
      cases hnode
  subst hd
  constructor
  · intro hobs
    rcases hobs with hcap | ⟨user, hread⟩
    · exact Bool.false_ne_true hcap
    · rcases user with _ | _ | _ | _ | _ | _ | _ | _ | user
      case succ.succ.succ.succ.succ.succ.succ.succ => exact absurd hread not_mem_nil
      all_goals exact absurd hread (by decide)
  · intro user specialization implicitTruncate lhs rhs huser
    rcases indexOfProduct_node false user with ⟨hd, _⟩ | ⟨hd, _⟩ | ⟨operands, hd⟩ | hd
    all_goals
      rw [hd] at huser
      cases huser

/-- The values of the program after the bounds check. -/
def afterBoundsCheck : Nat → EdgeValue Unit :=
  update (update (update (update (update
    (update zeros 0 (.num (.int 0))) 1 (.num (.int (-1)))) 2 (.other ()))
    3 (.num (.int 1))) 4 (.num .negZero)) 5 (.num .negZero)

end EdgeGraph
end SpiderMonkey.Ion
