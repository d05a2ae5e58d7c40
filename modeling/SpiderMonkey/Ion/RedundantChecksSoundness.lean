import SpiderMonkey.Ion.FiniteGraph
import SpiderMonkey.Lib.Fallible
import SpiderMonkey.Ion.LinearSumSoundness
import SpiderMonkey.Ion.RedundantChecks

/-! # A dominating check implies the ones it replaced

At any time a check is in the table only if it was kept, and every discarded check is
covered by a kept one above it: their lengths are the same definition and their indexes are
the same term up to an offset by which the range of the kept check contains the other. The
ranges of kept checks only grow, so this stays true to the end of the pass.
-/

namespace SpiderMonkey.Ion

open Lib Function List

/-- A bounds check of an index against a length. -/
structure MIRGraph.IsCheck (G : MIRGraph) (check index length : DefId) : Prop where
  op_eq : ∃ minimum maximum, (G.definition check).op = .boundsCheck minimum maximum
  operands_eq : (G.definition check).operands = [index, length]

variable {check index length : DefId}

lemma MIRGraph.IsCheck.returnsIndex {G : MIRGraph} (h : G.IsCheck check index length) :
    G.ReturnsIndex check index :=
  ⟨h.op_eq, length, h.operands_eq⟩

lemma toInt_min (a b : Int32) : (min a b).toInt = min a.toInt b.toInt := by
  show (if a ≤ b then a else b).toInt = _
  split <;> rename_i hle <;> rw [Int32.le_iff_toInt_le] at hle <;> omega

lemma toInt_max (a b : Int32) : (max a b).toInt = max a.toInt b.toInt := by
  show (if a ≤ b then b else a).toInt = _
  split <;> rename_i hle <;> rw [Int32.le_iff_toInt_le] at hle <;> omega

/-- The new range contains the old one, and the other one at its offset. -/
lemma coverBoth_spec {constantA constantB minA maxA minB maxB newMin newMax : Int32}
    (h : coverBoth constantA constantB minA maxA minB maxB = some (newMin, newMax)) :
    (newMin.toInt ≤ minA.toInt ∧ maxA.toInt ≤ newMax.toInt) ∧
      newMin.toInt ≤ constantB.toInt - constantA.toInt + minB.toInt ∧
      constantB.toInt - constantA.toInt + maxB.toInt ≤ newMax.toInt := by
  unfold coverBoth at h
  simp only [Option.bind_eq_bind, Option.bind_eq_some_iff, Option.pure_def, Option.some.injEq,
    Prod.mk.injEq] at h
  rcases h with ⟨minimumA, hminA, maximumA, hmaxA, minimumB, hminB, maximumB, hmaxB, newMinimum,
    hnewMin, newMaximum, hnewMax, rfl, rfl⟩
  have h₁ := toInt_of_safeAdd hminA
  have h₂ := toInt_of_safeAdd hmaxA
  have h₃ := toInt_of_safeAdd hminB
  have h₄ := toInt_of_safeAdd hmaxB
  have h₅ := toInt_of_safeSub hnewMin
  have h₆ := toInt_of_safeSub hnewMax
  rw [toInt_min] at h₅
  rw [toInt_max] at h₆
  omega

namespace BoundsCheckGraph

variable (G : BoundsCheckGraph)

/-! ## The invariant of the pass -/

/-- The index of `B` is `offset` above that of `A`, and their lengths are the same. -/
inductive AtOffset (A B : DefId) : Int → Prop
  | mk {indexA lengthA indexB lengthB length : DefId} {sumA sumB : LinearSum} :
      G.IsCheck A indexA lengthA → G.IsCheck B indexB lengthB →
      G.ReadsThrough lengthA length → G.ReadsThrough lengthB length →
      G.HasSum indexA sumA → G.HasSum indexB sumB → sumA.term = sumB.term →
      AtOffset A B (sumB.constant.toInt - sumA.constant.toInt)

/-- Wherever control reaches the instruction `B`, it has executed `A`. -/
def Precedes (A B : DefId) : Prop :=
  ∃ b before after, (G.block b).instructions = before ++ B :: after ∧
    G.ssa.Available b before A

/-- The kept check `A` checks all that `B` did. -/
structure Covers (s : BoundsCheckState) (A B : DefId) : Prop where
  kept : s.discarded A = false
  precedes : G.Precedes A B
  range : ∃ offset, G.AtOffset A B offset ∧
    (s.minimum A).toInt ≤ offset + (G.definition B).minimum.toInt ∧
    offset + (G.definition B).maximum.toInt ≤ (s.maximum A).toInt

/-- An entry of the table, for the blocks entered so far and the instructions seen. -/
structure Recorded (visited : List BlockId) (seen : DefId → Prop) (s : BoundsCheckState)
    (info : BoundsCheckInfo) : Prop where
  seen : seen info.check
  isCheck : ∃ index length, G.IsCheck info.check index length
  kept : s.discarded info.check = false
  validUntil : ∃ (j : Nat) (a : BlockId), visited[j]? = some a ∧
    info.check ∈ (G.block a).instructions ∧ info.validUntil = j + (G.block a).numDominated

structure Inv (visited : List BlockId) (seen : DefId → Prop) (s : BoundsCheckState) :
    Prop where
  reads : ∀ d, List.Forall₂ G.ReadsThrough (G.definition d).operands (s.operands d)
  range_eq : ∀ d, ¬ seen d → s.minimum d = (G.definition d).minimum ∧
    s.maximum d = (G.definition d).maximum
  recorded : ∀ hash info, s.checks hash = some info → G.Recorded visited seen s info
  covered : ∀ d, s.discarded d = true → seen d ∧ ∃ A, seen A ∧ G.Covers s A d

variable {G} {fuel : Nat} {visited : List BlockId} {seen : DefId → Prop}
  {s s' : BoundsCheckState}

lemma inv_initialState : G.Inv [] (fun _ => False) G.initialState where
  reads d := forall₂_same.mpr fun _ _ => .refl
  range_eq _ _ := ⟨rfl, rfl⟩
  recorded hash info h := by cases h
  covered d h := by cases h

/-- More blocks and more instructions keep the invariant. -/
lemma Inv.mono (h : G.Inv visited seen s) {more : List BlockId} {seen' : DefId → Prop}
    (hseen : ∀ d, seen d → seen' d) : G.Inv (visited ++ more) seen' s where
  reads := h.reads
  range_eq d hd := h.range_eq d fun hold => hd (hseen d hold)
  recorded hash info hinfo := by
    have hrec := h.recorded hash info hinfo
    rcases hrec.validUntil with ⟨j, a, hj, hin, hvalid⟩
    refine ⟨hseen _ hrec.seen, hrec.isCheck, hrec.kept, j, a, ?_, hin, hvalid⟩
    rw [List.getElem?_append_left (List.getElem?_eq_some_iff.mp hj).1]
    exact hj
  covered d hd := by
    rcases h.covered d hd with ⟨hdseen, A, hA, hcovers⟩
    exact ⟨hseen d hdseen, A, hseen A hA, hcovers⟩

lemma Inv.see (h : G.Inv visited seen s) {seen' : DefId → Prop}
    (hseen : ∀ d, seen d → seen' d) : G.Inv visited seen' s := by
  have hmono : G.Inv (visited ++ []) seen' s := h.mono hseen
  rwa [append_nil] at hmono

/-- The operands of a check by now. -/
lemma Inv.operands_eq (h : G.Inv visited seen s) (hcheck : G.IsCheck check index length) :
    G.ReadsThrough index (s.index check) ∧ G.ReadsThrough length (s.length check) := by
  have hreads := h.reads check
  rw [hcheck.operands_eq] at hreads
  unfold BoundsCheckState.index BoundsCheckState.length
  rcases hops : s.operands check with _ | ⟨i, _ | ⟨l, _ | ⟨x, rest⟩⟩⟩
  · simp [hops] at hreads
  · simp [hops] at hreads
  · simp only [hops, forall₂_cons, forall₂_nil_left_iff, and_true] at hreads
    exact hreads
  · simp [hops] at hreads

lemma Inv.replaceAllUsesWith (h : G.Inv visited seen s) (hcheck : G.IsCheck check index length) :
    G.Inv visited seen (s.replaceAllUsesWith check (s.index check)) where
  reads d := by
    have hreplace : ∀ o o', G.ReadsThrough o o' →
        G.ReadsThrough o (if o' = check then s.index check else o') := by
      intro o o' ho
      split
      · rename_i heq
        rw [heq] at ho
        exact (ho.tail hcheck.returnsIndex).trans (h.operands_eq hcheck).1
      · exact ho
    show List.Forall₂ G.ReadsThrough _ ((s.operands d).map _)
    rw [forall₂_map_right_iff]
    exact (h.reads d).imp hreplace
  range_eq := h.range_eq
  recorded hash info hinfo :=
    let hrec := h.recorded hash info hinfo
    ⟨hrec.seen, hrec.isCheck, hrec.kept, hrec.validUntil⟩
  covered d hd := by
    rcases h.covered d hd with ⟨hdseen, A, hA, hcovers⟩
    exact ⟨hdseen, A, hA, hcovers.kept, hcovers.precedes, hcovers.range⟩

/-- A check not seen so far is not discarded. -/
lemma Inv.not_discarded (h : G.Inv visited seen s) {d : DefId} (hd : ¬ seen d) :
    s.discarded d = false := by
  rw [Bool.eq_false_iff]
  intro hdisc
  exact hd (h.covered d hdisc).1

/-- Recording the check of the block visited last. -/
lemma Inv.put {b : BlockId} (h : G.Inv (visited ++ [b]) seen s) (hseen : seen check)
    (hcheck : G.IsCheck check index length) (hkept : s.discarded check = false)
    (hin : check ∈ (G.block b).instructions) (hash : UInt32) :
    G.Inv (visited ++ [b]) seen
      (s.put hash ⟨check, visited.length + (G.block b).numDominated⟩) where
  reads := h.reads
  range_eq := h.range_eq
  recorded hash' info hinfo := by
    by_cases hhash : hash' = hash
    · subst hhash
      simp only [BoundsCheckState.put, update_self, Option.some.injEq] at hinfo
      subst hinfo
      exact ⟨hseen, ⟨index, length, hcheck⟩, hkept, visited.length, b,
        List.getElem?_concat_length, hin, rfl⟩
    · simp only [BoundsCheckState.put, update_of_ne hhash] at hinfo
      have hrec := h.recorded hash' info hinfo
      exact ⟨hrec.seen, hrec.isCheck, hrec.kept, hrec.validUntil⟩
  covered d hd := by
    rcases h.covered d hd with ⟨hdseen, A, hA, hcovers⟩
    exact ⟨hdseen, A, hA, hcovers.kept, hcovers.precedes, hcovers.range⟩

/-- Discarding a check that one in the table precedes, whose new range covers both. -/
lemma Inv.eliminate (h : G.Inv visited seen s) {dominating check : DefId}
    {newMin newMax : Int32} {offset : Int} (hdom : seen dominating)
    (hkept : s.discarded dominating = false) (hcheck : ¬ seen check)
    (hprecedes : G.Precedes dominating check) (hoffset : G.AtOffset dominating check offset)
    (hold : newMin.toInt ≤ (s.minimum dominating).toInt ∧
      (s.maximum dominating).toInt ≤ newMax.toInt)
    (hnew : newMin.toInt ≤ offset + (s.minimum check).toInt ∧
      offset + (s.maximum check).toInt ≤ newMax.toInt) :
    G.Inv visited (fun d => seen d ∨ d = check)
      ((s.setRange dominating newMin newMax).discardDef check) where
  reads := h.reads
  range_eq d hd := by
    rw [not_or] at hd
    have hne : d ≠ dominating := by
      rintro rfl
      exact hd.1 hdom
    simp only [BoundsCheckState.discardDef, BoundsCheckState.setRange, update_of_ne hne]
    exact h.range_eq d hd.1
  recorded hash info hinfo := by
    have hrec := h.recorded hash info hinfo
    have hne : info.check ≠ check := by
      intro heq
      exact hcheck (heq ▸ hrec.seen)
    refine ⟨Or.inl hrec.seen, hrec.isCheck, ?_, hrec.validUntil⟩
    simp only [BoundsCheckState.discardDef, BoundsCheckState.setRange, update_of_ne hne]
    exact hrec.kept
  covered d hd := by
    by_cases heq : d = check
    · -- the check discarded now
      subst heq
      have hne : dominating ≠ d := by
        rintro rfl
        exact hcheck hdom
      refine ⟨Or.inr rfl, dominating, Or.inl hdom, ?_, hprecedes, offset, hoffset, ?_⟩
      · simp only [BoundsCheckState.discardDef, BoundsCheckState.setRange,
          update_of_ne hne]
        exact hkept
      · rcases h.range_eq d hcheck with ⟨hmin, hmax⟩
        simp only [BoundsCheckState.discardDef, BoundsCheckState.setRange, update_self]
        rw [← hmin, ← hmax]
        exact hnew
    · -- one discarded before, by a check whose range only grew
      simp only [BoundsCheckState.discardDef, BoundsCheckState.setRange,
        update_of_ne heq] at hd
      rcases h.covered d hd with ⟨hdseen, A, hA, hcovers⟩
      have hne : A ≠ check := by
        rintro rfl
        exact hcheck hA
      rcases hcovers.range with ⟨offset', hoffset', hmin, hmax⟩
      refine ⟨Or.inl hdseen, A, Or.inl hA, ?_, hcovers.precedes, offset', hoffset', ?_⟩
      · simp only [BoundsCheckState.discardDef, BoundsCheckState.setRange,
          update_of_ne hne]
        exact hcovers.kept
      · simp only [BoundsCheckState.discardDef, BoundsCheckState.setRange]
        by_cases hAdom : A = dominating
        · subst hAdom
          simp only [update_self]
          omega
        · simp only [update_of_ne hAdom]
          exact ⟨hmin, hmax⟩

/-! ## Visiting a check -/

lemma linearSum_eq {d : DefId} {sum : LinearSum} (h : G.linearSum fuel s d = .ok sum) :
    G.extractLinearSum s.operands fuel d = some sum := by
  unfold linearSum at h
  split at h
  · rename_i hsum
    cases h
    exact hsum
  · cases h

/-- What the visit of a check may do once its uses are replaced: nothing, record the check,
or widen the range of a recorded one and discard it. -/
inductive Visit (G : BoundsCheckGraph) (fuel index : Nat) (s : BoundsCheckState)
    (check : DefId) : BoundsCheckState → Prop
  | keep : Visit G fuel index s check s
  | record (hash : UInt32) : Visit G fuel index s check (s.put hash
      ⟨check, index + (G.block (G.definition check).block).numDominated⟩)
  | eliminate {hash : UInt32} {info : BoundsCheckInfo} {sumA sumB : LinearSum}
      {newMin newMax : Int32} :
      s.checks hash = some info → index ≤ info.validUntil →
      s.length info.check = s.length check →
      G.extractLinearSum s.operands fuel (s.index info.check) = some sumA →
      G.extractLinearSum s.operands fuel (s.index check) = some sumB →
      sumA.term = sumB.term →
      coverBoth sumA.constant sumB.constant (s.minimum info.check) (s.maximum info.check)
        (s.minimum check) (s.maximum check) = some (newMin, newMax) →
      Visit G fuel index s check ((s.setRange info.check newMin newMax).discardDef check)

lemma tryEliminateBoundsCheck_cases {dominating dominated : DefId} {eliminated : Bool}
    (h : G.tryEliminateBoundsCheck fuel s dominating dominated = .ok (s', eliminated)) :
    (s' = s ∧ eliminated = false) ∨
    ∃ sumA sumB newMin newMax, s.length dominating = s.length dominated ∧
      G.extractLinearSum s.operands fuel (s.index dominating) = some sumA ∧
      G.extractLinearSum s.operands fuel (s.index dominated) = some sumB ∧
      sumA.term = sumB.term ∧
      coverBoth sumA.constant sumB.constant (s.minimum dominating) (s.maximum dominating)
        (s.minimum dominated) (s.maximum dominated) = some (newMin, newMax) ∧
      s' = s.setRange dominating newMin newMax ∧ eliminated = true := by
  unfold tryEliminateBoundsCheck at h
  split at h
  · rw [pure_eq_ok_iff, Prod.mk.injEq] at h
    exact Or.inl ⟨h.1.symm, h.2.symm⟩
  · rename_i hlength
    rw [ne_eq, not_not] at hlength
    rw [bind_eq_ok_iff] at h
    rcases h with ⟨sumA, hA, h⟩
    rw [bind_eq_ok_iff] at h
    rcases h with ⟨sumB, hB, h⟩
    split at h
    · rw [pure_eq_ok_iff, Prod.mk.injEq] at h
      exact Or.inl ⟨h.1.symm, h.2.symm⟩
    · rename_i hterm
      rw [ne_eq, not_not] at hterm
      split at h
      · cases h
      · rename_i newMin newMax hcover
        rw [pure_eq_ok_iff, Prod.mk.injEq] at h
        exact Or.inr ⟨sumA, sumB, newMin, newMax, hlength, linearSum_eq hA, linearSum_eq hB, hterm,
          hcover, h.1.symm, h.2.symm⟩

lemma visitBoundsCheck_cases {index : Nat} {check : DefId}
    (h : G.visitBoundsCheck fuel index s check = .ok s') :
    Visit G fuel index (s.replaceAllUsesWith check (s.index check)) check s' := by
  unfold visitBoundsCheck at h
  simp only at h
  generalize s.replaceAllUsesWith check (s.index check) = r at h ⊢
  split at h
  · rw [bind_eq_ok_iff] at h
    rcases h with ⟨⟨t, dominating⟩, hfind, h⟩
    unfold findDominatingBoundsCheck at hfind
    rw [bind_eq_ok_iff] at hfind
    rcases hfind with ⟨hash, _, hfind⟩
    split at hfind
    · -- a check in the table
      rename_i info hinfo
      rw [pure_eq_ok_iff, Prod.mk.injEq] at hfind
      rcases hfind with ⟨rfl, rfl⟩
      simp only [Option.filter_eq_some_iff, decide_eq_true_eq] at hinfo
      split at h
      · rw [pure_eq_ok_iff] at h
        exact h ▸ .keep
      · rw [bind_eq_ok_iff] at h
        rcases h with ⟨⟨u, eliminated⟩, htry, h⟩
        rw [pure_eq_ok_iff] at h
        rcases tryEliminateBoundsCheck_cases htry with ⟨rfl, rfl⟩ |
          ⟨sumA, sumB, newMin, newMax, hlength, hA, hB, hterm, hcover, rfl, rfl⟩
        · rw [← h]
          exact .keep
        · rw [← h]
          exact .eliminate hinfo.1 hinfo.2 hlength hA hB hterm hcover
    · rw [pure_eq_ok_iff, Prod.mk.injEq] at hfind
      rcases hfind with ⟨rfl, rfl⟩
      rw [if_pos rfl, pure_eq_ok_iff] at h
      exact h ▸ .record hash
  · rw [pure_eq_ok_iff] at h
    exact h ▸ .keep

/-- The index and the length of a check are compared as they are by now. -/
lemma Inv.atOffset (h : G.Inv visited seen s) {A B indexA lengthA indexB lengthB : DefId}
    {sumA sumB : LinearSum} (hA : G.IsCheck A indexA lengthA) (hB : G.IsCheck B indexB lengthB)
    (hlength : s.length A = s.length B)
    (hsumA : G.extractLinearSum s.operands fuel (s.index A) = some sumA)
    (hsumB : G.extractLinearSum s.operands fuel (s.index B) = some sumB)
    (hterm : sumA.term = sumB.term) :
    G.AtOffset A B (sumB.constant.toInt - sumA.constant.toInt) := by
  have hchecks : ∀ {check index}, G.ReturnsIndex check index → G.type check = .int32 := by
    rintro check index ⟨⟨minimum, maximum, hop⟩, _⟩
    exact G.boundsCheck_type check minimum maximum hop
  have hreadsA := h.operands_eq hA
  have hreadsB := h.operands_eq hB
  rw [hlength] at hreadsA
  exact .mk hA hB hreadsA.2 hreadsB.2
    (.of_readsThrough hreadsA.1 (MIRGraph.extractLinearSum_hasSum hchecks h.reads hsumA))
    (.of_readsThrough hreadsB.1 (MIRGraph.extractLinearSum_hasSum hchecks h.reads hsumB)) hterm

/-- Visiting a check that was not seen so far keeps the invariant, if the checks found in the
table precede it. -/
lemma Visit.inv {b : BlockId} (h : Visit G fuel visited.length s check s')
    (hinv : G.Inv (visited ++ [b]) seen s) (hcheck : G.IsCheck check index length)
    (hin : check ∈ (G.block b).instructions) (hblock : (G.definition check).block = b)
    (hnew : ¬ seen check) (hprecedes : ∀ info, G.Recorded (visited ++ [b]) seen s info →
      visited.length ≤ info.validUntil → G.Precedes info.check check) :
    G.Inv (visited ++ [b]) (fun d => seen d ∨ d = check) s' := by
  have hsee : G.Inv (visited ++ [b]) (fun d => seen d ∨ d = check) s :=
    hinv.see fun _ => Or.inl
  cases h with
  | keep => exact hsee
  | record hash =>
    rw [hblock]
    exact hsee.put (Or.inr rfl) hcheck (hinv.not_discarded hnew) hin hash
  | @eliminate hash info sumA sumB newMin newMax hinfo hvalid hlength hsumA hsumB hterm hcover =>
    have hrec := hinv.recorded hash info hinfo
    rcases hrec.isCheck with ⟨indexA, lengthA, hA⟩
    rcases coverBoth_spec hcover with ⟨hold, hnewRange⟩
    exact hinv.eliminate hrec.seen hrec.kept hnew (hprecedes info hrec hvalid)
      (hinv.atOffset hA hcheck hlength hsumA hsumB hterm) hold hnewRange

/-! ## The walk over the dominator tree -/

/-- A correct dominator tree is a forest. -/
lemma HasDominatorTree.forest (tree : G.HasDominatorTree) : G.dominatorForest.WellFormed where
  numBelow_eq := tree.numDominated_eq
  nodup_children := tree.nodup_immediatelyDominated
  parent_unique ha hb :=
    (tree.mem_immediatelyDominated.mp ha).2.1.symm.trans (tree.mem_immediatelyDominated.mp hb).2.1

/-- A block dominates the blocks below it in the tree. -/
lemma HasDominatorTree.dominates (tree : G.HasDominatorTree) {a b : BlockId}
    (h : G.dominatorForest.Below a b) : G.ssa.Dominates a b := by
  induction h with
  | refl => exact FlowGraph.dominates_refl a
  | tail _ hchild ih =>
    rcases tree.mem_immediatelyDominated.mp hchild with ⟨hin, rfl, hne⟩
    exact ih.trans (tree.strictlyDominates hin (Ne.symm hne)).1

lemma HasDominatorTree.start (tree : G.HasDominatorTree) (wf : G.WellFormed) :
    G.dominatorForest.Traversal [] G.selfDominating := by
  apply Forest.Traversal.start
  · exact nodup_reverse.mpr (wf.nodup_blocks.filter _)
  · intro r hr a ha
    unfold selfDominating at hr
    rw [mem_reverse, mem_filter, decide_eq_true_eq] at hr
    rcases tree.mem_immediatelyDominated.mp ha with ⟨_, rfl, hne⟩
    exact hne hr.2.symm

/-- The instructions of the blocks visited. -/
def SeenIn (G : BoundsCheckGraph) (visited : List BlockId) (d : DefId) : Prop :=
  ∃ b ∈ visited, d ∈ (G.block b).instructions

variable {stack : List BlockId}

/-- A check in the table whose window contains the block visited now precedes the next check
of that block. -/
lemma Recorded.precedes (wf : G.WellFormed) (tree : G.HasDominatorTree) {b : BlockId}
    (walk : G.dominatorForest.Traversal visited (b :: stack)) {before after : List DefId}
    {check : DefId} (hbody : (G.block b).instructions = before ++ check :: after)
    {info : BoundsCheckInfo}
    (h : G.Recorded (visited ++ [b]) (fun d => G.SeenIn visited d ∨ d ∈ before) s info)
    (hvalid : visited.length ≤ info.validUntil) : G.Precedes info.check check := by
  refine ⟨b, before, after, hbody, ?_⟩
  rcases h.validUntil with ⟨j, a, hj, hin, huntil⟩
  have hfresh : b ∉ visited := by
    intro hb
    exact (nodup_append.mp walk.nodup).2.2 b hb b mem_cons_self rfl
  rcases Classical.em (a = b) with rfl | hne
  · -- the check is in this block, so it was visited before
    rcases h.seen with ⟨a', ha', hin'⟩ | hbefore
    · obtain rfl := wf.ssa.block_unique (Or.inr hin) (Or.inr hin')
      exact absurd ha' hfresh
    · exact Or.inr (Or.inl hbefore)
  · replace hj := (getElem?_concat_eq_some hj).resolve_right fun hnew => hne hnew.2
    have hbelow := walk.below hj (huntil ▸ hvalid)
    exact Or.inr (Or.inr ⟨a, Or.inr hin, tree.dominates hbelow, hne⟩)

/-- The invariant within a block, once the instructions `before` are visited. -/
def BlockInv (G : BoundsCheckGraph) (visited : List BlockId) (b : BlockId)
    (before : List DefId) (s : BoundsCheckState) : Prop :=
  G.Inv (visited ++ [b]) (fun d => G.SeenIn visited d ∨ d ∈ before) s

lemma visitDefinition_inv (wf : G.WellFormed) (tree : G.HasDominatorTree) {b : BlockId}
    (walk : G.dominatorForest.Traversal visited (b :: stack)) {before after : List DefId}
    {d : DefId} (hbody : (G.block b).instructions = before ++ d :: after)
    (hinv : G.BlockInv visited b before s) (h : G.visitDefinition fuel visited.length s d = .ok s') :
    G.BlockInv visited b (before ++ [d]) s' := by
  have hin : d ∈ (G.block b).instructions := by
    rw [hbody]
    exact mem_append_right _ mem_cons_self
  unfold visitDefinition at h
  split at h
  · rename_i minimum maximum hop
    rcases wf.operands_eq_pair (d := d) (by rw [hop]; rfl) with ⟨index, length, hops⟩
    have hcheck : G.IsCheck d index length := ⟨⟨minimum, maximum, hop⟩, hops⟩
    have hnew : ¬ (G.SeenIn visited d ∨ d ∈ before) := by
      rintro (⟨a, ha, hda⟩ | hbefore)
      · obtain rfl := wf.ssa.block_unique (Or.inr hda) (Or.inr hin)
        exact (nodup_append.mp walk.nodup).2.2 a ha a mem_cons_self rfl
      · have hnodup : (before ++ d :: after).Nodup := hbody ▸ wf.ssa.nodup_body b
        exact (nodup_append.mp hnodup).2.2 d hbefore d mem_cons_self rfl
    have hafter := (visitBoundsCheck_cases h).inv (hinv.replaceAllUsesWith hcheck) hcheck hin
      (wf.definition_block (Or.inr hin)) hnew fun info hrec hvalid =>
        hrec.precedes wf tree walk hbody hvalid
    simpa only [BlockInv, mem_append, mem_singleton, or_assoc] using hafter
  · rw [pure_eq_ok_iff] at h
    subst h
    exact Inv.see hinv fun e he => he.imp_right (mem_append_left _)

/-- The phis of a block are passed over. -/
lemma visitDefinitions_eq (wf : G.WellFormed) (index : Nat) (s : BoundsCheckState)
    (b : BlockId) : G.visitDefinitions fuel index s b =
      (G.block b).instructions.foldlM (G.visitDefinition fuel index) s := by
  unfold visitDefinitions
  rw [foldlM_append, foldlM_eq_of_skips]
  · rfl
  · intro phi hphi
    unfold visitDefinition
    rw [wf.phi_op hphi]
    rfl

/-- The loop over the definitions of a block. -/
lemma visitDefinitions_inv (wf : G.WellFormed) (tree : G.HasDominatorTree) {b : BlockId}
    (walk : G.dominatorForest.Traversal visited (b :: stack))
    (hinv : G.Inv visited (G.SeenIn visited) s)
    (h : G.visitDefinitions fuel visited.length s b = .ok s') :
    G.Inv (visited ++ [b]) (G.SeenIn (visited ++ [b])) s' := by
  rw [visitDefinitions_eq wf] at h
  have hloop : G.BlockInv visited b (G.block b).instructions s' := by
    refine foldlM_inv (G.BlockInv visited b) ?_ (hinv.mono fun e he => Or.inl he) h
    intro before d after t t' hbody hinv' hvisit
    exact visitDefinition_inv wf tree walk hbody hinv' hvisit
  have hsame : (fun d => G.SeenIn visited d ∨ d ∈ (G.block b).instructions) =
      G.SeenIn (visited ++ [b]) := by
    funext d
    simp [SeenIn, or_and_right, exists_or]
  rw [← hsame]
  exact hloop

/-- The whole walk, from any point of it. -/
lemma visitWorklist_inv (wf : G.WellFormed) (tree : G.HasDominatorTree) {rounds : Nat}
    (walk : G.dominatorForest.Traversal visited stack) (hinv : G.Inv visited (G.SeenIn visited) s)
    (h : G.visitWorklist fuel rounds visited.length stack s = .ok s') :
    ∃ all, G.Inv all (G.SeenIn all) s' := by
  induction rounds generalizing visited stack s with
  | zero =>
    cases stack with
    | nil =>
      rw [visitWorklist, pure_eq_ok_iff] at h
      exact ⟨visited, h ▸ hinv⟩
    | cons b stack => cases h
  | succ rounds ih =>
    cases stack with
    | nil =>
      rw [visitWorklist, pure_eq_ok_iff] at h
      exact ⟨visited, h ▸ hinv⟩
    | cons b stack =>
      rw [visitWorklist, bind_eq_ok_iff] at h
      rcases h with ⟨t, ht, h⟩
      have hwalk : G.dominatorForest.Traversal (visited ++ [b])
          ((G.immediatelyDominated b).reverse ++ stack) :=
        walk.visit tree.forest (reverse_perm _)
      refine ih hwalk (visitDefinitions_inv wf tree walk hinv ht) ?_
      rw [length_append, length_singleton]
      exact h

lemma inv_start : G.Inv [] (G.SeenIn []) G.initialState := by
  have hnone : (fun _ => False) = G.SeenIn [] := by
    funext d
    simp [SeenIn]
  rw [← hnone]
  exact inv_initialState

lemma eliminateRedundantBoundsChecks_inv (wf : G.WellFormed) (tree : G.HasDominatorTree)
    (h : G.eliminateRedundantBoundsChecks fuel = .ok s) :
    ∃ visited, G.Inv visited (G.SeenIn visited) s :=
  visitWorklist_inv wf tree (tree.start wf) inv_start h

/-! ## Enough fuel -/

/-! ## Executions of the compiled graph

The uses of a check are replaced by its index, which holds the same value, and a discarded
check stands for nothing. So the executions are those of the graph with the ranges that are
left to check. -/

variable {b : BlockId} {before after : List DefId} {env : DefId → Int32}

/-- A check that was eliminated would pass where control reaches it, if its range contains 0
or no addition that a linear sum looks through has wrapped around by then. -/
theorem eliminated_check_passes (wf : G.WellFormed) (tree : G.HasDominatorTree)
    (h : G.eliminateRedundantBoundsChecks fuel = .ok s)
    (hreach : (G.int32Ssa s.checkedRange).WithinAfter b before env)
    {check index length : DefId} {minimum maximum : Int32}
    (hbody : (G.block b).instructions = before ++ check :: after)
    (hop : (G.definition check).op = .boundsCheck minimum maximum)
    (hops : (G.definition check).operands = [index, length])
    (heliminated : s.discarded check = true)
    (hcond : (minimum.toInt ≤ 0 ∧ 0 ≤ maximum.toInt) ∨
      ∀ d, (G.int32Ssa s.checkedRange).Available b before d → G.LooksThrough d →
        ¬ G.Wraps env d) :
    InBounds minimum maximum (env index) (env length) := by
  rcases eliminateRedundantBoundsChecks_inv wf tree h with ⟨visited, hinv⟩
  rcases hinv.covered check heliminated with ⟨_, A, _, hcovers⟩
  -- the check `A` was executed and has passed
  have hA : (G.int32Ssa s.checkedRange).Available b before A := by
    rcases hcovers.precedes with ⟨b', before', after', hbody', havail⟩
    obtain rfl : b' = b := by
      apply wf.ssa.block_unique (d := check) <;> right
      · show check ∈ (G.block b').instructions
        rw [hbody']
        exact mem_append_right _ mem_cons_self
      · show check ∈ (G.block b).instructions
        rw [hbody]
        exact mem_append_right _ mem_cons_self
    have hnodup : (before ++ check :: after).Nodup := hbody ▸ wf.ssa.nodup_body b'
    have hnodup' : (before' ++ check :: after').Nodup := hbody' ▸ wf.ssa.nodup_body b'
    have hsplit := hbody'.symm.trans hbody
    rw [append_cons_inj_of_notMem] at hsplit
    · rw [← hsplit.1]
      exact havail
    · intro hin
      exact (nodup_append.mp hnodup').2.2 check hin check mem_cons_self rfl
    · exact (nodup_cons.mp (nodup_append.mp hnodup').2.1).1
  have exec := wf.executes s.checkedRange
  rcases hcovers.range with ⟨offset, hoffset, hmin, hmax⟩
  rcases hoffset with ⟨hcheckA, hcheckB, hlengthA, hlengthB, hsumA, hsumB, hterm⟩
  rename_i indexA lengthA indexB lengthB length' sumA sumB
  obtain ⟨rfl, rfl⟩ : indexB = index ∧ lengthB = length := by
    have hsame := hcheckB.operands_eq.symm.trans hops
    simpa using hsame
  have hpass : InBounds (s.minimum A) (s.maximum A) (env indexA) (env lengthA) := by
    have hholds := exec.holds hreach hA hcheckA.returnsIndex.op_ne_phi
    rcases hcheckA.op_eq with ⟨minA, maxA, hopA⟩
    simp only [MIRGraph.int32Ssa, MIRGraph.ComputesInt32, hopA, hcheckA.operands_eq] at hholds
    apply hholds.2
    simp [BoundsCheckState.checkedRange, hcovers.kept]
  have hindexA : (G.int32Ssa s.checkedRange).Available b before indexA :=
    exec.available_operand hreach hA hcheckA.returnsIndex.op_ne_phi (by simp [hcheckA.operands_eq])
  have hindexB : (G.int32Ssa s.checkedRange).Available b before indexB :=
    (wf.int32Ssa s.checkedRange).operand_above (d := check) hbody
      (show indexB ∈ (G.definition check).operands by simp [hops])
  -- both lengths are read through checks from the same definition
  have hlength : env lengthA = env lengthB := by
    rw [exec.eq_of_readsThrough hreach _ hlengthA, exec.eq_of_readsThrough hreach _ hlengthB]
    · exact (wf.int32Ssa s.checkedRange).operand_above (d := check) hbody
        (show lengthB ∈ (G.definition check).operands by simp [hops])
    · exact exec.available_operand hreach hA hcheckA.returnsIndex.op_ne_phi
        (by simp [hcheckA.operands_eq])
  have hevals : sumB.eval env =
      sumA.eval env + (sumB.constant.toInt - sumA.constant.toInt) := by
    unfold LinearSum.eval
    rw [hterm]
    omega
  rw [hlength] at hpass
  rw [MDefinition.minimum, hop] at hmin
  rw [MDefinition.maximum, hop] at hmax
  refine hpass.of_offset hmin hmax ?_ (hcond.imp_right fun hwraps => ?_)
  · have hwordA := hsumA.modEq_word exec hreach hindexA
    have hwordB := hsumB.modEq_word exec hreach hindexB
    rw [hevals] at hwordB
    exact hwordB.trans (hwordA.symm.add_right _)
  · rw [hsumA.eq exec hreach hwraps hindexA, hsumB.eq exec hreach hwraps hindexB]
    exact hevals

/-! ## Two checks of one term -/

/-- `a[(t + offset) | 0]`, and then a check of `t` itself with another range. -/
def twoChecks (offset range : Int32) : BoundsCheckGraph where
  blocks := [0]
  entryBlock := 0
  osrBlock := none
  block b :=
    ⟨.normal, [], if b = 0 then [0, 1, 2, 3, 4, 5] else [], .other [] false [], [], b, 0, 0⟩
  definition
    | 0 => ⟨.other false, [], 0, .int32⟩
    | 1 => ⟨.other false, [], 0, .int32⟩
    | 2 => ⟨.constant (.int32 offset), [], 0, .int32⟩
    | 3 => ⟨.arith .add .int32 true, [0, 2], 0, .int32⟩
    | 4 => ⟨.boundsCheck 0 0, [3, 1], 0, .int32⟩
    | 5 => ⟨.boundsCheck range range, [0, 1], 0, .int32⟩
    | _ => ⟨.other false, [], 0, .value⟩
  immediatelyDominated _ := []
  isMovable _ := true
  address d := UInt64.ofNat (8 * d)
  boundsCheck_type check minimum maximum h := by
    split at h
    all_goals first | rfl | cases h

variable {offset range : Int32}

lemma twoChecks_wellFormed (offset range : Int32) : (twoChecks offset range).WellFormed := by
  refine MIRGraph.wellFormed_of_blockb [] rfl ?_ nofun (nodup_singleton 0) rfl ⟨rfl, rfl⟩ ?_
  · intro b hb
    unfold twoChecks at hb ⊢
    simp only at hb ⊢
    split <;> simp_all
  · intro d n h
    unfold twoChecks at h ⊢
    simp only at h ⊢
    split at h <;> simp_all [Opcode.numOperands?]

lemma twoChecks_hasDominatorTree (offset range : Int32) :
    (twoChecks offset range).HasDominatorTree where
  mem_immediatelyDominated := by
    intro a b
    constructor
    · intro h
      exact absurd h not_mem_nil
    · rintro ⟨_, rfl, hne⟩
      exact absurd rfl hne
  nodup_immediatelyDominated _ := nodup_nil
  numDominated_eq _ := rfl
  strictlyDominates := by
    intro b _ hne
    exact absurd rfl hne

/-- The values for the term `t` and a length. -/
def twoChecksEnv (offset t length : Int32) : DefId → Int32
  | 0 => t
  | 1 => length
  | 2 => offset
  | 3 => t + offset
  | 4 => t + offset
  | 5 => t
  | _ => 0

/-- Control reaches the second check where the first one passes. -/
lemma twoChecks_reaches {checked : DefId → Option (Int32 × Int32)} {t length : Int32}
    (hpass : ∀ minimum maximum, checked 4 = some (minimum, maximum) →
      InBounds minimum maximum (t + offset) length) :
    ((twoChecks offset range).int32Ssa checked).WithinAfter 0 [0, 1, 2, 3, 4]
      (twoChecksEnv offset t length) := by
  refine ⟨_, [5], .root (Or.inl rfl), rfl, .of_holds fun d hd => ?_⟩
  simp only [mem_cons, not_mem_nil, or_false] at hd
  rcases hd with rfl | rfl | rfl | rfl | rfl
  · trivial
  · trivial
  · exact rfl
  · intro _ _ _ n hn
    rw [← Option.some.inj hn]
    exact toInt_add t offset
  · exact ⟨rfl, hpass⟩

/-- `a[i + 1]` and then `a[i]`. -/
theorem eliminated_check_passes_twoChecks :
    ∃ s, (twoChecks 1 0).eliminateRedundantBoundsChecks 4 = .ok s ∧ s.discarded 5 = true ∧
      InBounds 0 0 (twoChecksEnv 1 6 10 0) (twoChecksEnv 1 6 10 1) := by
  refine ⟨_, rfl, by decide, ?_⟩
  have hbody : ((twoChecks 1 0).block 0).instructions = [0, 1, 2, 3, 4] ++ 5 :: [] := rfl
  refine eliminated_check_passes (twoChecks_wellFormed 1 0) (twoChecks_hasDominatorTree 1 0)
    (show (twoChecks 1 0).eliminateRedundantBoundsChecks 4 = .ok _ from rfl) ?_ hbody rfl rfl
    (by decide) (Or.inl (by decide))
  apply twoChecks_reaches
  intro minimum maximum hrange
  cases hrange.symm.trans (show _ = some (-1, 0) from rfl)
  decide

/-- With `t = INT32_MIN` the first index wraps around to 5, and its check passes unchanged.
The second check fails. -/
theorem eliminated_check_fails_twoChecks :
    ¬ ∀ (G : BoundsCheckGraph) (fuel : Nat) (s : BoundsCheckState), G.WellFormed →
      G.HasDominatorTree → G.eliminateRedundantBoundsChecks fuel = .ok s →
      ∀ b before after env check index length minimum maximum,
        (G.int32Ssa s.checkedRange).WithinAfter b before env →
        (G.block b).instructions = before ++ check :: after →
        (G.definition check).op = .boundsCheck minimum maximum →
        (G.definition check).operands = [index, length] → s.discarded check = true →
        InBounds minimum maximum (env index) (env length) := by
  intro h
  have hfails := h (twoChecks (-2147483643) (-2147483643)) 4 _ (twoChecks_wellFormed _ _)
    (twoChecks_hasDominatorTree _ _) rfl 0 [0, 1, 2, 3, 4] []
    (twoChecksEnv (-2147483643) Int32.minValue 10) 5 0 1 _ _
    (twoChecks_reaches fun minimum maximum hrange => ?_) rfl rfl rfl (by decide)
  · exact absurd hfails (by decide)
  · cases hrange.symm.trans (show _ = some (0, 0) from rfl)
    decide

end BoundsCheckGraph
end SpiderMonkey.Ion
