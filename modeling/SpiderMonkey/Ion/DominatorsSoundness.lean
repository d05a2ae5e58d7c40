import SpiderMonkey.Ion.Dominators
import SpiderMonkey.Lib.ParentChain

/-! # Immediate dominators are computed

What a table says about a block is the chain of its dominators. Each round keeps two
bounds on it. From below, every strict dominator of a block is at most the recorded one,
so the chain contains all dominators. From above, every common element of the
predecessors' chains is at most the recorded one, so a round only ever moves a dominator
towards the entry, and the loop ends. Where a round changes nothing, what is on a chain
is a dominator.
-/

namespace SpiderMonkey.Ion

open Lib Function List Option

/-! ## Intersections -/

/-- The result of an intersection: the last element of a set, in the order of the chains,
or none where the set is empty. -/
def IsMeet (idom : IdomTable) (S : Nat → Prop) : Option Nat → Prop
  | some d => S d ∧ ∀ z, S z → OnChain idom d z
  | none => ∀ z, ¬ S z

lemma IsMeet.congr {idom : IdomTable} {S T : Nat → Prop} {r : Option Nat}
    (h : IsMeet idom S r) (hST : ∀ z, S z ↔ T z) : IsMeet idom T r := by
  cases r with
  | some d => exact ⟨(hST d).mp h.1, fun z hz => h.2 z ((hST z).mpr hz)⟩
  | none => exact fun z hz => h z ((hST z).mpr hz)

/-- A table in which each recorded dominator is recorded itself, and is not after its
block. -/
structure Closed (idom : IdomTable) : Prop where
  decreasing : Decreasing idom
  recorded : ∀ b a, idom b = some a → (idom a).isSome = true

/-- What is recorded stays recorded on the way up. -/
lemma Closed.isSome_of_onChain {idom : IdomTable} (hclosed : Closed idom) {b x : Nat}
    (h : OnChain idom b x) (hb : (idom b).isSome = true) : (idom x).isSome = true := by
  induction h with
  | self => exact hb
  | up hparent _ _ ih => exact ih (hclosed.recorded _ _ hparent)

/-- Moving a finger up loses nothing that is above both fingers. -/
lemma onChain_move {idom : IdomTable} (hdec : Decreasing idom) {f d other z : Nat}
    (hparent : idom f = some d) (hne : d ≠ f) (hlt : other < f) (hother : OnChain idom other z) :
    OnChain idom f z ↔ OnChain idom d z := by
  constructor
  · intro hf
    have hz : z ≠ f := by
      have := hother.le hdec
      omega
    rcases hf.of_ne hz with ⟨a, ha, _, haz⟩
    rwa [some.inj (hparent.symm.trans ha)]
  · intro hd
    exact .up hparent hne hd

/-- A finger that ends its chain has nothing in common with an earlier one. -/
lemma not_onChain_of_end {idom : IdomTable} (hdec : Decreasing idom) {f other z : Nat}
    (hparent : idom f = some f) (hlt : other < f) (hother : OnChain idom other z) :
    ¬ OnChain idom f z := by
  intro hf
  have := hf.eq_of_parent_self hparent
  have := hother.le hdec
  omega

/-- `IntersectDominators` ends and finds the first common dominator. -/
lemma intersectDominators_spec {idom : IdomTable} (hclosed : Closed idom) :
    ∀ (fuel finger1 finger2 : Nat), (idom finger1).isSome = true →
      (idom finger2).isSome = true → finger1 + finger2 < fuel →
      ∃ r, intersectDominators idom fuel finger1 finger2 = some r ∧
        IsMeet idom (fun z => OnChain idom finger1 z ∧ OnChain idom finger2 z) r := by
  intro fuel
  induction fuel with
  | zero =>
    intro finger1 finger2 _ _ hfuel
    exact absurd hfuel (Nat.not_lt_zero _)
  | succ fuel ih =>
    intro finger1 finger2 h1 h2 hfuel
    unfold intersectDominators
    by_cases heq : finger1 = finger2
    · rw [if_pos heq]
      subst heq
      exact ⟨_, rfl, ⟨.self _, .self _⟩, fun z hz => hz.1⟩
    rw [if_neg heq]
    by_cases hgt : finger1 > finger2
    · rw [if_pos hgt]
      rcases Option.isSome_iff_exists.mp h1 with ⟨d, hd⟩
      rw [hd]
      show ∃ r, (if d = finger1 then some none else intersectDominators idom fuel d finger2) =
        some r ∧ _
      by_cases hself : d = finger1
      · rw [if_pos hself]
        subst hself
        refine ⟨none, rfl, ?_⟩
        intro z hz
        exact not_onChain_of_end hclosed.decreasing hd hgt hz.2 hz.1
      · rw [if_neg hself]
        have hle := hclosed.decreasing _ _ hd
        rcases ih d finger2 (hclosed.recorded _ _ hd) h2 (by omega) with ⟨r, hr, hmeet⟩
        refine ⟨r, hr, hmeet.congr fun z => ?_⟩
        rw [and_congr_left_iff]
        intro hz
        exact (onChain_move hclosed.decreasing hd hself hgt hz).symm
    · rw [if_neg hgt]
      have hlt : finger1 < finger2 := by omega
      rcases Option.isSome_iff_exists.mp h2 with ⟨d, hd⟩
      rw [hd]
      show ∃ r, (if d = finger2 then some none else intersectDominators idom fuel finger1 d) =
        some r ∧ _
      by_cases hself : d = finger2
      · rw [if_pos hself]
        subst hself
        refine ⟨none, rfl, ?_⟩
        intro z hz
        exact not_onChain_of_end hclosed.decreasing hd hlt hz.1 hz.2
      · rw [if_neg hself]
        have hle := hclosed.decreasing _ _ hd
        rcases ih finger1 d h1 (hclosed.recorded _ _ hd) (by omega) with ⟨r, hr, hmeet⟩
        refine ⟨r, hr, hmeet.congr fun z => ?_⟩
        rw [and_congr_right_iff]
        intro hz
        exact (onChain_move hclosed.decreasing hd hself hlt hz).symm

/-- The elements common to the chains of `newIdom` and of the visited predecessors. -/
def Common (idom : IdomTable) (newIdom : Nat) (preds : List Nat) (z : Nat) : Prop :=
  OnChain idom newIdom z ∧ ∀ p ∈ preds, (idom p).isSome = true → OnChain idom p z

/-- The loop over the predecessors finds their first common dominator. -/
lemma findCommonDominator_spec {idom : IdomTable} (hclosed : Closed idom) {n fuel : Nat}
    (hfuel : 2 * n < fuel) :
    ∀ (preds : List Nat) (newIdom : Nat), newIdom < n → (idom newIdom).isSome = true →
      (∀ p ∈ preds, p < n) →
      ∃ r, findCommonDominator idom fuel newIdom preds = some r ∧
        IsMeet idom (Common idom newIdom preds) r := by
  intro preds
  induction preds with
  | nil =>
    intro newIdom _ _ _
    exact ⟨some newIdom, rfl, ⟨.self _, by simp⟩, fun z hz => hz.1⟩
  | cons pred preds ih =>
    intro newIdom hnew hvisited hpreds
    have hrest : ∀ p ∈ preds, p < n := fun p hp => hpreds p (mem_cons_of_mem _ hp)
    unfold findCommonDominator
    by_cases hpred : (idom pred).isSome = true
    · rw [if_pos hpred]
      have hlt := hpreds pred mem_cons_self
      rcases intersectDominators_spec hclosed fuel pred newIdom hpred hvisited (by omega)
        with ⟨r, hr, hmeet⟩
      rw [hr]
      cases r with
      | none =>
        refine ⟨none, rfl, ?_⟩
        intro z hz
        exact hmeet z ⟨hz.2 pred mem_cons_self hpred, hz.1⟩
      | some d =>
        have hd : d < n := lt_of_le_of_lt (hmeet.1.2.le hclosed.decreasing) hnew
        rcases ih d hd (hclosed.isSome_of_onChain hmeet.1.2 hvisited) hrest with ⟨r, hr, hrest⟩
        refine ⟨r, hr, hrest.congr fun z => ?_⟩
        constructor
        · intro hz
          refine ⟨hmeet.1.2.trans hz.1, ?_⟩
          intro p hp hpsome
          rcases mem_cons.mp hp with rfl | hp
          · exact hmeet.1.1.trans hz.1
          · exact hz.2 p hp hpsome
        · intro hz
          refine ⟨hmeet.2 z ⟨hz.2 pred mem_cons_self hpred, hz.1⟩, ?_⟩
          intro p hp hpsome
          exact hz.2 p (mem_cons_of_mem _ hp) hpsome
    · rw [if_neg hpred]
      rcases ih newIdom hnew hvisited hrest with ⟨r, hr, hmeet⟩
      refine ⟨r, hr, hmeet.congr fun z => ?_⟩
      unfold Common
      rw [forall_mem_cons]
      simp [hpred]

/-! ## The invariant of a round -/

section Round

variable (g : DomGraph)

/-- The first predecessor of a block that is no root. -/
def DomGraph.predecessorZero (b : Nat) : Option Nat :=
  if b < g.numBlocks ∧ ¬ g.IsRoot b then (g.predecessors b).head? else none

/-- What holds in a round after the blocks below `k` were visited. -/
structure RoundInv (idom : IdomTable) (k : Nat) : Prop where
  closed : Closed idom
  root : ∀ b, g.IsRoot b → idom b = some b
  predecessorZero : ∀ b a, idom b = some a → OnChain g.predecessorZero b a
  strict_le : ∀ b < g.numBlocks, ∀ a, idom b = some a →
    ∀ x, g.toFlowGraph.StrictlyDominates x b → x ≤ a ∧ a ≠ b
  common_le : ∀ b a, idom b = some a → a ≠ b →
    ∀ z, (∀ p ∈ g.predecessors b, (idom p).isSome = true → OnChain idom p z) → z ≤ a
  visited : ∀ b < k, (idom b).isSome = true
  onFirst : ∀ b < k, ∀ a, idom b = some a → a ≠ b →
    ∀ p, g.predecessorZero b = some p → OnChain idom p a

/-- A visited block that a further visit leaves as it is. -/
def Settled (idom : IdomTable) (b : Nat) : Prop :=
  idom b = some b ∨ ∃ a p ps, idom b = some a ∧ g.predecessors b = p :: ps ∧
    Common idom p ps a

variable {g} {idom : IdomTable} {k : Nat}

lemma predecessorZero_eq {p : Nat} {ps : List Nat} {b : Nat} (hb : b < g.numBlocks)
    (hroot : ¬ g.IsRoot b) (hpreds : g.predecessors b = p :: ps) :
    g.predecessorZero b = some p := by
  unfold DomGraph.predecessorZero
  rw [if_pos ⟨hb, hroot⟩, hpreds]
  rfl

/-- The edge from the first predecessor. -/
lemma predecessorZero_spec (hg : g.WellNumbered) {b p : Nat}
    (hp : g.predecessorZero b = some p) : g.toFlowGraph.edge p b ∧ p < b := by
  unfold DomGraph.predecessorZero at hp
  by_cases hb : b < g.numBlocks ∧ ¬ g.IsRoot b
  · rw [if_pos hb] at hp
    rcases hg.predecessor_zero b hb.1 hb.2 with ⟨q, qs, hpreds, hlt⟩
    rw [hpreds] at hp
    have hq : q = p := some.inj hp
    subst hq
    refine ⟨⟨hb.1, ?_⟩, hlt⟩
    rw [hpreds]
    exact mem_cons_self
  · rw [if_neg hb] at hp
    exact absurd hp (by simp)

lemma decreasing_predecessorZero (hg : g.WellNumbered) : Decreasing g.predecessorZero := by
  intro b p hp
  exact (predecessorZero_spec hg hp).2.le

/-- A dominator of `b` is either passed on the way along the first predecessors from `b`
to `a`, or dominates `a`. -/
lemma dominates_of_predecessorZero (hg : g.WellNumbered) {a b x : Nat}
    (h : OnChain g.predecessorZero b a) (hdom : g.toFlowGraph.Dominates x b) (hle : x ≤ a) :
    g.toFlowGraph.Dominates x a := by
  induction h with
  | self => exact hdom
  | @up b p a hparent _ hchain ih =>
    rcases predecessorZero_spec hg hparent with ⟨hedge, hlt⟩
    have hap := hchain.le (decreasing_predecessorZero hg)
    refine ih (hdom.of_edge hedge ?_) hle
    omega

/-- The chain of a block contains all its dominators. -/
lemma RoundInv.onChain_of_dominates (hg : g.WellNumbered) (h : RoundInv g idom k) {b x : Nat}
    (hb : b < g.numBlocks) (hsome : (idom b).isSome = true)
    (hdom : g.toFlowGraph.Dominates x b) : OnChain idom b x := by
  induction b using Nat.strong_induction_on with
  | _ b ih =>
    by_cases hxb : x = b
    · rw [hxb]
      exact .self b
    rcases Option.isSome_iff_exists.mp hsome with ⟨a, ha⟩
    rcases h.strict_le b hb a ha x ⟨hdom, hxb⟩ with ⟨hle, hne⟩
    have hab := h.closed.decreasing _ _ ha
    refine .up ha hne (ih a (by omega) (by omega) (h.closed.recorded _ _ ha) ?_)
    exact dominates_of_predecessorZero hg (h.predecessorZero b a ha) hdom hle

/-- Chains of recorded dominators run along first predecessors. -/
lemma RoundInv.onChain_predecessorZero (h : RoundInv g idom k) {b x : Nat}
    (hx : OnChain idom b x) : OnChain g.predecessorZero b x := by
  induction hx with
  | self => exact .self _
  | up hparent _ _ ih => exact (h.predecessorZero _ _ hparent).trans ih

/-- What is on the chain of `q` is on the chain of each earlier first predecessor of `q`
it does not pass, once the blocks from there to `q` were visited in this round. -/
lemma RoundInv.onChain_of_predecessorZero (hg : g.WellNumbered) (h : RoundInv g idom k)
    {q a d : Nat} (hq : q < k) (ha : OnChain g.predecessorZero q a) (hd : OnChain idom q d)
    (hle : d ≤ a) : OnChain idom a d := by
  induction ha with
  | self => exact hd
  | @up q p a hparent _ hchain ih =>
    have hlt := (predecessorZero_spec hg hparent).2
    have hap := hchain.le (decreasing_predecessorZero hg)
    rcases hd.of_ne (by omega) with ⟨e, he, heq, hed⟩
    exact ih (by omega) ((h.onFirst q hq e he heq p hparent).trans hed) hle

/-! ### Recording a dominator -/

/-- Recording `d` for the next block keeps the invariant when `d` is bounded from both
sides and is not after what was recorded before. -/
lemma RoundInv.setImmediateDominator (hg : g.WellNumbered) (h : RoundInv g idom k)
    {p d : Nat} (hp : g.predecessorZero k = some p) (hd : d = k ∨ OnChain idom p d)
    (hstrict : ∀ x, g.toFlowGraph.StrictlyDominates x k → x ≤ d ∧ d ≠ k)
    (hcommon : d ≠ k → ∀ z,
      (∀ q ∈ g.predecessors k, (idom q).isSome = true → OnChain idom q z) → z ≤ d)
    (hold : idom k = none ∨ OnChain idom k d) :
    RoundInv g (update idom k (some d)) (k + 1) := by
  have hpk : p < k := (predecessorZero_spec hg hp).2
  have hroot : ¬ g.IsRoot k := by
    intro hroot
    simp [DomGraph.predecessorZero, hroot] at hp
  have hdk : d ≤ k := by
    rcases hd with rfl | hd
    · exact Nat.le_refl _
    · have := hd.le h.closed.decreasing
      omega
  have hvisited : ∀ b, (idom b).isSome = true →
      (update idom k (some d) b).isSome = true := by
    intro b hb
    by_cases hbk : b = k
    · rw [hbk, update_self]
      rfl
    · rwa [update_of_ne hbk]
  -- no chain of a visited block gains an element
  have hshrink : ∀ q, (idom q).isSome = true → ∀ z,
      OnChain (update idom k (some d)) q z → OnChain idom q z := by
    intro q hq z hz
    rcases hold with hnone | hchain
    · exact hz.of_update_none hnone h.closed.recorded hq
    · exact OnChain.of_update hchain hz
  have hbefore : ∀ q < k, ∀ z, OnChain idom q z →
      OnChain (update idom k (some d)) q z := by
    intro q hq z hz
    refine hz.congr h.closed.decreasing fun n hn => ?_
    exact update_of_ne (by omega) _ _
  constructor
  · constructor
    · intro b a hab
      by_cases hbk : b = k
      · subst hbk
        rw [update_self] at hab
        rwa [← some.inj hab]
      · rw [update_of_ne hbk] at hab
        exact h.closed.decreasing _ _ hab
    · intro b a hab
      by_cases hbk : b = k
      · subst hbk
        rw [update_self] at hab
        rw [← some.inj hab]
        rcases hd with rfl | hd
        · rw [update_self]
          rfl
        · exact hvisited _ (h.closed.isSome_of_onChain hd (h.visited p hpk))
      · rw [update_of_ne hbk] at hab
        exact hvisited _ (h.closed.recorded _ _ hab)
  · intro b hb
    have hbk : b ≠ k := by
      rintro rfl
      exact hroot hb
    rw [update_of_ne hbk]
    exact h.root b hb
  · intro b a hab
    by_cases hbk : b = k
    · subst hbk
      rw [update_self] at hab
      rw [← some.inj hab]
      rcases hd with rfl | hd
      · exact .self _
      · exact .up hp (by omega) (h.onChain_predecessorZero hd)
    · rw [update_of_ne hbk] at hab
      exact h.predecessorZero _ _ hab
  · intro b hb a hab x hx
    by_cases hbk : b = k
    · subst hbk
      rw [update_self] at hab
      rw [← some.inj hab]
      exact hstrict x hx
    · rw [update_of_ne hbk] at hab
      exact h.strict_le b hb a hab x hx
  · intro b a hab hne z hz
    have hz' : ∀ q ∈ g.predecessors b, (idom q).isSome = true → OnChain idom q z :=
      fun q hq hsome => hshrink q hsome z (hz q hq (hvisited q hsome))
    by_cases hbk : b = k
    · subst hbk
      rw [update_self] at hab
      rw [← some.inj hab] at hne ⊢
      exact hcommon hne z hz'
    · rw [update_of_ne hbk] at hab
      exact h.common_le b a hab hne z hz'
  · intro b hb
    by_cases hbk : b = k
    · rw [hbk, update_self]
      rfl
    · exact hvisited b (h.visited b (by omega))
  · intro b hb a hab hne q hq
    by_cases hbk : b = k
    · subst hbk
      rw [update_self] at hab
      rw [← some.inj hab] at hne ⊢
      rw [← some.inj (hp.symm.trans hq)]
      exact hbefore p hpk d (hd.resolve_left hne)
    · rw [update_of_ne hbk] at hab
      have hqb := (predecessorZero_spec hg hq).2
      exact hbefore q (by omega) a (h.onFirst b (by omega) a hab hne q hq)

/-- A block whose entry stays is visited. -/
lemma RoundInv.keep (h : RoundInv g idom k) (hsome : (idom k).isSome = true)
    (hfirst : ∀ a, idom k = some a → a ≠ k →
      ∀ p, g.predecessorZero k = some p → OnChain idom p a) :
    RoundInv g idom (k + 1) := by
  refine { h with visited := ?_, onFirst := ?_ }
  · intro b hb
    rcases Nat.lt_succ_iff_lt_or_eq.mp hb with hb | rfl
    · exact h.visited b hb
    · exact hsome
  · intro b hb a ha hne p hp
    rcases Nat.lt_succ_iff_lt_or_eq.mp hb with hb | rfl
    · exact h.onFirst b hb a ha hne p hp
    · exact hfirst a ha hne p hp

/-! ### One block -/

/-- What is left to do for a block, the larger the later its recorded dominator. -/
def pending (idom : IdomTable) (bound b : Nat) : Nat :=
  match idom b with
  | none => bound + 1
  | some a => if a = b then 0 else a + 1

def totalPending (idom : IdomTable) (bound : Nat) : Nat :=
  ∑ b ∈ Finset.range bound, pending idom bound b

lemma totalPending_lt {d bound : Nat} (hk : k < bound) (hlt : d < k ∨ d = k)
    (hold : idom k = none ∨ ∃ a, idom k = some a ∧ a ≠ k ∧ (d < a ∨ d = k)) :
    totalPending (update idom k (some d)) bound < totalPending idom bound := by
  have hsame : ∀ b, b ≠ k → pending (update idom k (some d)) bound b =
      pending idom bound b := by
    intro b hb
    unfold pending
    rw [update_of_ne hb]
  apply Finset.sum_lt_sum
  · intro b _
    by_cases hb : b = k
    · subst hb
      unfold pending
      rw [update_self]
      rcases hold with hnone | ⟨a, ha, hak, hda⟩
      · rw [hnone]
        simp only
        split <;> omega
      · rw [ha]
        simp only
        rw [if_neg hak]
        split <;> omega
    · exact (hsame b hb).le
  · refine ⟨k, Finset.mem_range.mpr hk, ?_⟩
    unfold pending
    rw [update_self]
    rcases hold with hnone | ⟨a, ha, hak, hda⟩
    · rw [hnone]
      simp only
      split <;> omega
    · rw [ha]
      simp only
      rw [if_neg hak]
      split <;> omega

/-- A visit keeps the invariant. It either changes nothing, or lowers what is pending. -/
lemma visitBlock_spec (hg : g.WellNumbered) {fuel : Nat} (hfuel : 2 * g.numBlocks < fuel)
    {s : DomState} (h : RoundInv g s.idom k) (hk : k < g.numBlocks) :
    ∃ s', visitBlock g fuel s k = some s' ∧ RoundInv g s'.idom (k + 1) ∧
      (s' = s ∧ Settled g s.idom k ∨ s'.changed = true ∧
        totalPending s'.idom g.numBlocks < totalPending s.idom g.numBlocks) := by
  unfold visitBlock
  by_cases hself : s.idom k = some k
  · rw [if_pos hself]
    refine ⟨s, rfl, h.keep (by rw [hself]; rfl) ?_, Or.inl ⟨rfl, Or.inl hself⟩⟩
    intro a ha hne
    exact absurd (some.inj (ha.symm.trans hself)) hne
  rw [if_neg hself]
  have hroot : ¬ g.IsRoot k := fun hroot => hself (h.root k hroot)
  rcases hg.predecessor_zero k hk hroot with ⟨p, ps, hpreds, hpk⟩
  have hzero := predecessorZero_eq hk hroot hpreds
  have hsomep := h.visited p hpk
  rw [hpreds]
  simp only
  have hpslt : ∀ q ∈ ps, q < g.numBlocks := by
    intro q hq
    apply hg.predecessor_lt k hk
    rw [hpreds]
    exact mem_cons_of_mem _ hq
  rcases findCommonDominator_spec h.closed hfuel ps p (by omega) hsomep hpslt with ⟨r, hr, hmeet⟩
  rw [hr]
  -- the strict dominators of the block are common to its predecessors
  have hdominators : ∀ x, g.toFlowGraph.StrictlyDominates x k → Common s.idom p ps x := by
    intro x hx
    have hedge : ∀ q ∈ p :: ps, (s.idom q).isSome = true → OnChain s.idom q x := by
      intro q hq hsome
      rw [← hpreds] at hq
      exact h.onChain_of_dominates hg (hg.predecessor_lt k hk q hq) hsome
        (hx.1.of_edge ⟨hk, hq⟩ (Ne.symm hx.2))
    exact ⟨hedge p mem_cons_self hsomep,
      fun q hq hsome => hedge q (mem_cons_of_mem _ hq) hsome⟩
  have hofCommon : ∀ z, (∀ q ∈ g.predecessors k, (s.idom q).isSome = true →
      OnChain s.idom q z) → Common s.idom p ps z := by
    intro z hz
    rw [hpreds] at hz
    exact ⟨hz p mem_cons_self hsomep, fun q hq => hz q (mem_cons_of_mem _ hq)⟩
  cases r with
  | none =>
    refine ⟨_, rfl, ?_, Or.inr ⟨rfl, ?_⟩⟩
    · apply h.setImmediateDominator hg hzero (Or.inl rfl)
      · intro x hx
        exact absurd (hdominators x hx) (hmeet x)
      · intro hne
        exact absurd rfl hne
      · exact Or.inr (.self k)
    · apply totalPending_lt hk (Or.inr rfl)
      cases hidom : s.idom k with
      | none => exact Or.inl rfl
      | some a =>
        refine Or.inr ⟨a, rfl, ?_, Or.inr rfl⟩
        rintro rfl
        exact hself hidom
  | some d =>
    have hdk : d < k := by
      have := hmeet.1.1.le h.closed.decreasing
      omega
    simp only
    by_cases hsame : s.idom k = some d
    · rw [if_pos hsame]
      refine ⟨s, rfl, h.keep (by rw [hsame]; rfl) ?_,
        Or.inl ⟨rfl, Or.inr ⟨d, p, ps, hsame, hpreds, hmeet.1⟩⟩⟩
      intro a ha _ q hq
      rw [← some.inj (hsame.symm.trans ha), ← some.inj (hzero.symm.trans hq)]
      exact hmeet.1.1
    · rw [if_neg hsame]
      -- the new dominator is above the old one
      have hold : s.idom k = none ∨ ∃ a, s.idom k = some a ∧ a ≠ k ∧ d < a := by
        cases hidom : s.idom k with
        | none => exact Or.inl rfl
        | some a =>
          have hak : a ≠ k := by
            rintro rfl
            exact hself hidom
          refine Or.inr ⟨a, rfl, hak, ?_⟩
          have hle : d ≤ a := by
            apply h.common_le k a hidom hak
            intro q hq hsome
            rw [hpreds] at hq
            rcases mem_cons.mp hq with rfl | hq
            · exact hmeet.1.1
            · exact hmeet.1.2 q hq hsome
          have hne : d ≠ a := by
            rintro rfl
            exact hsame hidom
          omega
      refine ⟨_, rfl, ?_, Or.inr ⟨rfl, ?_⟩⟩
      · apply h.setImmediateDominator hg hzero (Or.inr hmeet.1.1)
        · intro x hx
          exact ⟨(hmeet.2 x (hdominators x hx)).le h.closed.decreasing, by omega⟩
        · intro _ z hz
          exact (hmeet.2 z (hofCommon z hz)).le h.closed.decreasing
        · rcases hold with hnone | ⟨a, ha, hak, hda⟩
          · exact Or.inl hnone
          · refine Or.inr (.up ha hak ?_)
            rcases (h.predecessorZero k a ha).of_ne hak with ⟨q, hq, _, hqa⟩
            rw [some.inj (hq.symm.trans hzero)] at hqa
            exact h.onChain_of_predecessorZero hg hpk hqa hmeet.1.1 hda.le
      · apply totalPending_lt hk (Or.inl hdk)
        rcases hold with hnone | ⟨a, ha, hak, hda⟩
        · exact Or.inl hnone
        · exact Or.inr ⟨a, ha, hak, Or.inl hda⟩

/-! ### Rounds -/

/-- Between rounds nothing counts as visited. -/
lemma RoundInv.restart (h : RoundInv g idom k) : RoundInv g idom 0 :=
  { h with
    visited := fun _ hb => absurd hb (Nat.not_lt_zero _)
    onFirst := fun _ hb => absurd hb (Nat.not_lt_zero _) }

/-- The blocks below `n` are visited in turn. As long as nothing changed, every visited
block is settled in the table the round began with. -/
lemma visitBlocks_spec (hg : g.WellNumbered) {fuel : Nat} (hfuel : 2 * g.numBlocks < fuel)
    (h : RoundInv g idom 0) :
    ∀ n ≤ g.numBlocks, ∃ s, visitBlocks g fuel { idom := idom, changed := false } n = some s ∧
      RoundInv g s.idom n ∧
      (s = { idom := idom, changed := false } ∧ (∀ b < n, Settled g idom b) ∨
        s.changed = true ∧ totalPending s.idom g.numBlocks < totalPending idom g.numBlocks) := by
  intro n
  induction n with
  | zero =>
    intro _
    exact ⟨_, rfl, h, Or.inl ⟨rfl, fun _ hb => absurd hb (Nat.not_lt_zero _)⟩⟩
  | succ n ih =>
    intro hn
    rcases ih (by omega) with ⟨s, hs, hinv, hprogress⟩
    rcases visitBlock_spec hg hfuel hinv (by omega) with ⟨s', hs', hinv', hstep⟩
    refine ⟨s', ?_, hinv', ?_⟩
    · unfold visitBlocks
      rw [hs]
      exact hs'
    · rcases hprogress with ⟨rfl, hsettled⟩ | ⟨hchanged, hlt⟩
      · rcases hstep with ⟨rfl, hlast⟩ | hstep
        · refine Or.inl ⟨rfl, ?_⟩
          intro b hb
          rcases Nat.lt_succ_iff_lt_or_eq.mp hb with hb | rfl
          · exact hsettled b hb
          · exact hlast
        · exact Or.inr hstep
      · rcases hstep with ⟨rfl, _⟩ | ⟨hchanged', hlt'⟩
        · exact Or.inr ⟨hchanged, hlt⟩
        · exact Or.inr ⟨hchanged', by omega⟩

/-- The invariant holds of the table with only the roots. -/
lemma roundInv_initialIdom : RoundInv g (initialIdom g) 0 := by
  have hinitial : ∀ b a, initialIdom g b = some a → g.IsRoot b ∧ a = b := by
    intro b a hab
    unfold initialIdom at hab
    by_cases hb : g.IsRoot b
    · rw [if_pos hb] at hab
      exact ⟨hb, (some.inj hab).symm⟩
    · rw [if_neg hb] at hab
      exact absurd hab (by simp)
  refine {
    closed := ⟨?_, ?_⟩
    root := fun b hb => if_pos hb
    predecessorZero := ?_
    strict_le := ?_
    common_le := ?_
    visited := fun _ hb => absurd hb (Nat.not_lt_zero _)
    onFirst := fun _ hb => absurd hb (Nat.not_lt_zero _) }
  · intro b a hab
    exact (hinitial b a hab).2.le
  · intro b a hab
    rw [(hinitial b a hab).2, hab]
    rfl
  · intro b a hab
    rw [(hinitial b a hab).2]
    exact .self b
  · intro b _ a hab x hx
    exact absurd (hx.1.eq_of_root (hinitial b a hab).1) hx.2
  · intro b a hab hne
    exact absurd (hinitial b a hab).2 hne

/-- Where every block is settled, what is on the chain of a block dominates it. -/
lemma dominates_of_settled (h : RoundInv g idom 0)
    (hvisited : ∀ b < g.numBlocks, (idom b).isSome = true)
    (hpred : ∀ b < g.numBlocks, ∀ p ∈ g.predecessors b, p < g.numBlocks)
    (hsettled : ∀ b < g.numBlocks, Settled g idom b) {b x : Nat} (hx : OnChain idom b x) :
    g.toFlowGraph.Dominates x b := by
  intro havoid
  induction havoid with
  | root hroot hne => exact hne (hx.eq_of_parent_self (h.root _ hroot)).symm
  | @step p b _ hedge hne ih =>
    apply ih
    rcases hx.of_ne (Ne.symm hne) with ⟨a, ha, hab, hax⟩
    rcases hsettled b hedge.1 with hself | ⟨d, q, qs, hd, hpreds, hcommon⟩
    · exact absurd (some.inj (ha.symm.trans hself)) hab
    · rw [some.inj (ha.symm.trans hd)] at hax
      have hmem := hedge.2
      rw [hpreds] at hmem
      rcases mem_cons.mp hmem with rfl | hmem
      · exact hcommon.1.trans hax
      · have hp := hpred b hedge.1 p hedge.2
        exact (hcommon.2 p hmem (hvisited p hp)).trans hax

end Round

/-! ## The result -/

/-- The strict dominator that every other strict dominator dominates. -/
def IsImmediateDominator (g : DomGraph) (a b : Nat) : Prop :=
  g.toFlowGraph.StrictlyDominates a b ∧
    ∀ x, g.toFlowGraph.StrictlyDominates x b → g.toFlowGraph.Dominates x a

/-- There is one immediate dominator at most. -/
lemma IsImmediateDominator.unique {g : DomGraph} {a a' b : Nat}
    (ha : IsImmediateDominator g a b) (ha' : IsImmediateDominator g a' b)
    (hb : g.toFlowGraph.Reachable b) : a' = a :=
  (ha.2 a' ha'.1).antisymm (ha'.2 a ha.1) (ha.1.1.reachable hb)

/-- What the table says about a block: its only immediate dominator if it has a strict
dominator, itself otherwise. -/
def RecordsDominator (g : DomGraph) (idom : IdomTable) (b : Nat) : Prop :=
  ((∃ x, g.toFlowGraph.StrictlyDominates x b) →
    ∃ a, idom b = some a ∧ IsImmediateDominator g a b ∧
      ∀ a', IsImmediateDominator g a' b → a' = a) ∧
  ((¬ ∃ x, g.toFlowGraph.StrictlyDominates x b) → idom b = some b)

/-- `ComputeImmediateDominators` ends and records the immediate dominators, with respect
to all paths from the entry and from the OSR entry. -/
theorem computeImmediateDominators_spec (g : DomGraph) (hg : g.WellNumbered) :
    ∃ bound, ∀ fuel > bound, ∃ idom, computeImmediateDominators g fuel = some idom ∧
      ∀ b < g.numBlocks, RecordsDominator g idom b := by
  refine ⟨2 * g.numBlocks + totalPending (initialIdom g) g.numBlocks, ?_⟩
  intro fuel hfuel
  have hintersect : 2 * g.numBlocks < fuel := by omega
  have hround : ∀ idom, RoundInv g idom 0 → ∃ idom' changed,
      sweep g fuel idom = some (idom', changed) ∧ (changed = true → RoundInv g idom' 0 ∧
        totalPending idom' g.numBlocks < totalPending idom g.numBlocks) := by
    intro idom h
    rcases visitBlocks_spec hg hintersect h g.numBlocks (Nat.le_refl _) with
      ⟨s, hs, hinv, hprogress⟩
    refine ⟨s.idom, s.changed, by rw [sweep, hs]; rfl, fun hchanged => ⟨hinv.restart, ?_⟩⟩
    rcases hprogress with ⟨rfl, _⟩ | ⟨_, hlt⟩
    · exact absurd hchanged Bool.false_ne_true
    · exact hlt
  have hrounds : totalPending (initialIdom g) g.numBlocks < fuel := by omega
  rcases exists_untilStableFallible (fun idom => RoundInv g idom 0)
    (fun idom => totalPending idom g.numBlocks) hround roundInv_initialIdom hrounds with ⟨last, idom, hinv, hlast, hresult⟩
  refine ⟨idom, hresult, ?_⟩
  -- the last round changes nothing, so its table is settled
  rcases visitBlocks_spec hg hintersect hinv g.numBlocks (Nat.le_refl _) with
    ⟨s, hs, hfinal, hprogress⟩
  have hs' : (s.idom, s.changed) = (idom, false) := by
    rw [sweep, hs] at hlast
    exact some.inj hlast
  have hsettled : s.idom = idom ∧ ∀ b < g.numBlocks, Settled g idom b := by
    rcases hprogress with ⟨rfl, hsettled⟩ | ⟨hchanged, _⟩
    · have hsame : last = idom := congrArg Prod.fst hs'
      exact ⟨hsame, hsame ▸ hsettled⟩
    · have hunchanged : s.changed = false := congrArg Prod.snd hs'
      exact absurd (hchanged.symm.trans hunchanged) (by decide)
  rw [hsettled.1] at hfinal
  intro b hb
  rcases Option.isSome_iff_exists.mp (hfinal.visited b hb) with ⟨a, ha⟩
  have hdominates : ∀ {c x}, OnChain idom c x → g.toFlowGraph.Dominates x c :=
    fun hx => dominates_of_settled hfinal.restart hfinal.visited hg.predecessor_lt hsettled.2 hx
  constructor
  · rintro ⟨x, hx⟩
    have hab := (hfinal.strict_le b hb a ha x hx).2
    refine ⟨a, ha, ?_⟩
    have himmediate : IsImmediateDominator g a b := by
      refine ⟨⟨hdominates (.up ha hab (.self a)), hab⟩, ?_⟩
      intro y hy
      have hchain := hfinal.onChain_of_dominates hg hb (hfinal.visited b hb) hy.1
      rcases hchain.of_ne hy.2 with ⟨a', ha', _, hay⟩
      rw [some.inj (ha.symm.trans ha')]
      exact hdominates hay
    exact ⟨himmediate, fun a' ha' => himmediate.unique ha' (hg.reachable b hb)⟩
  · intro hnone
    by_cases hab : a = b
    · rw [ha, hab]
    · exact absurd ⟨a, hdominates (.up ha hab (.self a)), hab⟩ hnone

/-! ### A loop that is entered in two ways -/

/-- The entry (0) goes to the preheader (1). The loop header (3) is reached from there,
from the OSR entry (2) and from the loop body (4). -/
def osrLoop : DomGraph where
  numBlocks := 5
  predecessors
    | 1 => [0]
    | 3 => [1, 2, 4]
    | 4 => [3]
    | _ => []
  osrBlock := some 2

lemma osrLoop_wellNumbered : osrLoop.WellNumbered where
  root_lt := by
    rintro b (rfl | hb)
    · decide
    · rw [← some.inj hb]
      decide
  predecessor_lt := by decide
  predecessor_zero := by
    intro b hb hroot
    match b, hb, hroot with
    | 0, _, hroot => exact absurd (Or.inl rfl) hroot
    | 1, _, _ => exact ⟨0, [], rfl, by decide⟩
    | 2, _, hroot => exact absurd (Or.inr rfl) hroot
    | 3, _, _ => exact ⟨1, [2, 4], rfl, by decide⟩
    | 4, _, _ => exact ⟨3, [], rfl, by decide⟩
  reachable := by
    have h0 : osrLoop.toFlowGraph.Reachable 0 := .root (Or.inl rfl)
    have h1 : osrLoop.toFlowGraph.Reachable 1 := h0.step ⟨by decide, by decide⟩
    have h2 : osrLoop.toFlowGraph.Reachable 2 := .root (Or.inr rfl)
    have h3 : osrLoop.toFlowGraph.Reachable 3 := h2.step ⟨by decide, by decide⟩
    have h4 : osrLoop.toFlowGraph.Reachable 4 := h3.step ⟨by decide, by decide⟩
    intro b hb
    match b, hb with
    | 0, _ => exact h0
    | 1, _ => exact h1
    | 2, _ => exact h2
    | 3, _ => exact h3
    | 4, _ => exact h4

/-- The header dominates itself only, the body is dominated by the header. -/
example : (computeImmediateDominators osrLoop 20).map (fun idom => (List.range 5).map idom) =
    some [some 0, some 0, some 2, some 3, some 3] := by decide

theorem computeImmediateDominators_osrLoop :
    ∃ bound, ∀ fuel > bound, ∃ idom, computeImmediateDominators osrLoop fuel = some idom ∧
      ∀ b < osrLoop.numBlocks, RecordsDominator osrLoop idom b :=
  computeImmediateDominators_spec osrLoop osrLoop_wellNumbered

end SpiderMonkey.Ion
