import SpiderMonkey.Ion.ConstantPropagation

/-! # Soundness of the phi cycle solver

`ReallyConstant` is the meaning of a phi left in state `Constant`: no chain of
operands from it reaches a non-constant definition or another constant. The
sweep that ends the loop changes no item, so every phi it analyses has an item
that absorbs the items of its operands, and constancy follows along a chain as
long as each phi on it was analysed. A phi inserted behind the iterator is the
one exception, and `solvePhiCycles_sound_iff` shows that it is the only one.
-/

namespace SpiderMonkey.Ion.CP

open SpiderMonkey.Lib List

variable {φ V : Type*}

namespace PhiGraph

variable (G : PhiGraph φ V)

/-! ## What a constant phi means -/

/-- `q` is found by following phi operands from `p`. -/
abbrev Leads : φ → φ → Prop :=
  Relation.ReflTransGen fun p q => PhiOperand.phi q ∈ G.operands p

/-- The operands of `r` that are not phis are the constant `c`. -/
def OnlyConstant (c : V) (r : φ) : Prop :=
  PhiOperand.other ∉ G.operands r ∧ ∀ d, PhiOperand.constant d ∈ G.operands r → d = c

/-- No chain of phi operands from `p` reaches anything but the constant `c`. -/
def ReallyConstant (p : φ) (c : V) : Prop := ∀ r, G.Leads p r → G.OnlyConstant c r

variable {G}

/-- Every phi left in state `Constant` is that constant. -/
def Sound (G : PhiGraph φ V) (m : PhiMap φ V) : Prop :=
  ∀ p c, m p = some (.constant c) → G.ReallyConstant p c

end PhiGraph

/-! ## One operand -/

section Sweep

variable [DecidableEq φ] [DecidableEq V]

/-- The level of an item in the lattice. -/
def PhiItem.height : PhiItem V → Nat
  | .bottom => 0
  | .constant _ => 1
  | .top => 2

omit [DecidableEq V] in
lemma PhiItem.height_le (i : PhiItem V) : i.height ≤ 2 := by
  cases i <;> simp [height]

/-- A merge that reports no change changes nothing. -/
lemma propagate_stable {dst src : PhiItem V} (h : (propagate dst src).2 = false) :
    (propagate dst src).1 = dst := by
  cases dst with
  | bottom => cases src <;> simp_all [propagate]
  | constant c =>
    cases src with
    | bottom => rfl
    | top => simp [propagate] at h
    | constant d => by_cases hd : d = c <;> simp_all [propagate]
  | top => rfl

/-- A merge that reports a change goes up. -/
lemma propagate_changed {dst src : PhiItem V} (h : (propagate dst src).2 = true) :
    dst.height < (propagate dst src).1.height := by
  cases dst with
  | bottom => cases src <;> simp_all [propagate, PhiItem.height]
  | constant c =>
    cases src with
    | bottom => simp [propagate] at h
    | top => simp [propagate, PhiItem.height]
    | constant d => by_cases hd : d = c <;> simp_all [propagate, PhiItem.height]
  | top => simp [propagate] at h

/-- A constant item absorbs only itself and `Bottom`. -/
lemma absorbed_by_constant {c : V} {src : PhiItem V}
    (h : (propagate (.constant c) src).2 = false) : src = .bottom ∨ src = .constant c := by
  cases src with
  | bottom => exact Or.inl rfl
  | top => simp [propagate] at h
  | constant d =>
    by_cases hd : d = c
    · exact Or.inr (by rw [hd])
    · simp [propagate, hd] at h

lemma absorbed_by_bottom {src : PhiItem V}
    (h : (propagate .bottom src).2 = false) : src = .bottom := by
  by_contra hne
  simp [propagate, hne] at h

lemma analyzeOperand_snd (p : φ) (s : PhiMap φ V × Bool) (o : PhiOperand φ V) :
    (analyzeOperand p s o).2 = ((propagate (s.1.item p) (s.1.operandItem o)).2 || s.2) := by
  cases o <;> simp [analyzeOperand, PhiMap.operandItem]

lemma item_analyzeOperand (p q : φ) (s : PhiMap φ V × Bool) (o : PhiOperand φ V) :
    (analyzeOperand p s o).1.item q =
      if q = p then (propagate (s.1.item p) (s.1.operandItem o)).1 else s.1.item q := by
  cases o <;> simp [analyzeOperand, PhiMap.operandItem, PhiMap.item_set]

lemma isSome_analyzeOperand (p q : φ) (s : PhiMap φ V × Bool) (o : PhiOperand φ V) :
    ((analyzeOperand p s o).1 q).isSome = true ↔
      q = p ∨ o = .phi q ∨ (s.1 q).isSome = true := by
  cases o <;> simp [analyzeOperand, @eq_comm _ q]

/-! ## One phi -/

/-- The keys after the operands of `p` were merged into its item. -/
lemma isSome_foldl_analyzeOperand (p q : φ) (os : List (PhiOperand φ V))
    (s : PhiMap φ V × Bool) (hp : (s.1 p).isSome = true) :
    ((os.foldl (analyzeOperand p) s).1 q).isSome = true ↔
      .phi q ∈ os ∨ (s.1 q).isSome = true := by
  induction os generalizing s with
  | nil => simp
  | cons o os ih =>
    have hp' : ((analyzeOperand p s o).1 p).isSome = true := by
      rw [isSome_analyzeOperand]
      exact Or.inl rfl
    rw [foldl_cons, ih _ hp', isSome_analyzeOperand, mem_cons]
    constructor
    · rintro (h | rfl | h | h)
      · exact Or.inl (Or.inr h)
      · exact Or.inr hp
      · exact Or.inl (Or.inl h.symm)
      · exact Or.inr h
    · rintro ((h | h) | h)
      · exact Or.inr (Or.inr (Or.inl h.symm))
      · exact Or.inl h
      · exact Or.inr (Or.inr (Or.inr h))

/-- No change reported: no item changed, and the item of `p` absorbs each operand. -/
lemma foldl_analyzeOperand_stable (p : φ) (os : List (PhiOperand φ V))
    (s : PhiMap φ V × Bool) (h : (os.foldl (analyzeOperand p) s).2 = false) :
    s.2 = false ∧ (∀ q, (os.foldl (analyzeOperand p) s).1.item q = s.1.item q) ∧
      ∀ o ∈ os, (propagate (s.1.item p) (s.1.operandItem o)).2 = false := by
  induction os generalizing s with
  | nil => simpa using h
  | cons o os ih =>
    rw [foldl_cons] at h ⊢
    obtain ⟨hflag, hitems, habsorb⟩ := ih _ h
    rw [analyzeOperand_snd, Bool.or_eq_false_iff] at hflag
    have hsame : ∀ q, (analyzeOperand p s o).1.item q = s.1.item q := by
      intro q
      rw [item_analyzeOperand, propagate_stable hflag.1]
      split_ifs with hq
      · rw [hq]
      · rfl
    refine ⟨hflag.2, fun q => (hitems q).trans (hsame q), ?_⟩
    intro o' ho'
    rcases mem_cons.mp ho' with rfl | ho'
    · exact hflag.1
    · have hop : (analyzeOperand p s o).1.operandItem o' = s.1.operandItem o' := by
        cases o' <;> simp [PhiMap.operandItem, hsame]
      simpa [hsame, hop] using habsorb o' ho'

/-- Merging only moves the item of `p`, and only up; a reported change moves it. -/
lemma height_foldl_analyzeOperand (p : φ) (os : List (PhiOperand φ V))
    (s : PhiMap φ V × Bool) :
    (∀ q, (s.1.item q).height ≤ ((os.foldl (analyzeOperand p) s).1.item q).height) ∧
      ((os.foldl (analyzeOperand p) s).2 = true → s.2 = true ∨
        (s.1.item p).height < ((os.foldl (analyzeOperand p) s).1.item p).height) := by
  induction os generalizing s with
  | nil => exact ⟨fun _ => le_rfl, Or.inl⟩
  | cons o os ih =>
    rw [foldl_cons]
    obtain ⟨hup, hmoved⟩ := ih (analyzeOperand p s o)
    have hstep : ∀ q, (s.1.item q).height ≤ ((analyzeOperand p s o).1.item q).height := by
      intro q
      rw [item_analyzeOperand]
      split_ifs with hq
      · subst hq
        cases hu : (propagate (s.1.item q) (s.1.operandItem o)).2 with
        | false => rw [propagate_stable hu]
        | true => exact (propagate_changed hu).le
      · exact le_rfl
    refine ⟨fun q => (hstep q).trans (hup q), fun h => ?_⟩
    rcases hmoved h with hflag | hlt
    · rw [analyzeOperand_snd, Bool.or_eq_true] at hflag
      rcases hflag with hu | hs
      · refine Or.inr (lt_of_lt_of_le ?_ (hup p))
        rw [item_analyzeOperand, if_pos rfl]
        exact propagate_changed hu
      · exact Or.inl hs
    · exact Or.inr ((hstep p).trans_lt hlt)

namespace PhiGraph

variable {G : PhiGraph φ V}

/-! ## One sweep -/

/-- The phis a sweep analyses from the map `m` on, when those in the list are
still ahead of the iterator. -/
def visitedFrom (G : PhiGraph φ V) : List φ → PhiMap φ V → List φ
  | [], _ => []
  | p :: ps, m =>
      if (m p).isSome then p :: visitedFrom G ps (G.analyzePhi p m).1 else visitedFrom G ps m

/-- A phi the sweep from `m` puts into the map but has already gone past. -/
def InsertedBehind (G : PhiGraph φ V) (m : PhiMap φ V) (r : φ) : Prop :=
  ((G.sweep m).1 r).isSome = true ∧ r ∉ G.visitedFrom G.order m

/-- A sweep that reports no change leaves every item, and what it analysed
absorbs its operands. -/
lemma foldl_visit_stable (ps : List φ) (s : PhiMap φ V × Bool)
    (h : (ps.foldl G.visit s).2 = false) :
    s.2 = false ∧ (∀ q, (ps.foldl G.visit s).1.item q = s.1.item q) ∧
      ∀ p ∈ G.visitedFrom ps s.1, ∀ o ∈ G.operands p,
        (propagate (s.1.item p) (s.1.operandItem o)).2 = false := by
  induction ps generalizing s with
  | nil => simpa [visitedFrom] using h
  | cons p ps ih =>
    rw [foldl_cons] at h ⊢
    obtain ⟨hflag, hitems, habsorb⟩ := ih _ h
    by_cases hp : (s.1 p).isSome = true
    · simp only [visit, hp, if_true, Bool.or_eq_false_iff, visitedFrom] at hflag hitems habsorb h ⊢
      obtain ⟨-, hsame, hp'⟩ := foldl_analyzeOperand_stable p (G.operands p) (s.1, false) hflag.2
      refine ⟨hflag.1, fun q => (hitems q).trans (hsame q), ?_⟩
      intro q hq o ho
      rcases mem_cons.mp hq with rfl | hq
      · exact hp' o ho
      · have hop : (G.analyzePhi p s.1).1.operandItem o = s.1.operandItem o := by
          cases o <;> simp [PhiMap.operandItem, analyzePhi, hsame]
        have hself : (G.analyzePhi p s.1).1.item q = s.1.item q := hsame q
        simpa [hself, hop] using habsorb q hq o ho
    · simp only [visit, hp, visitedFrom] at hflag hitems habsorb ⊢
      exact ⟨hflag, hitems, habsorb⟩

/-- The keys after a sweep are those before and the operands of what it analysed. -/
lemma isSome_foldl_visit (ps : List φ) (s : PhiMap φ V × Bool) (q : φ) :
    ((ps.foldl G.visit s).1 q).isSome = true ↔
      (∃ p ∈ G.visitedFrom ps s.1, .phi q ∈ G.operands p) ∨ (s.1 q).isSome = true := by
  induction ps generalizing s with
  | nil => simp [visitedFrom]
  | cons p ps ih =>
    rw [foldl_cons, ih]
    by_cases hp : (s.1 p).isSome = true
    · have hkeys := isSome_foldl_analyzeOperand p q (G.operands p) (s.1, false) hp
      simp only [visit, hp, if_true, visitedFrom, analyzePhi, mem_cons,
        exists_eq_or_imp] at hkeys ⊢
      rw [hkeys, or_left_comm, or_assoc]
    · simp [visit, hp, visitedFrom]

/-- A key ahead of the iterator is analysed. -/
lemma mem_visitedFrom {ps : List φ} {s : PhiMap φ V × Bool} {p : φ} (hp : p ∈ ps)
    (hs : (s.1 p).isSome = true) : p ∈ G.visitedFrom ps s.1 := by
  induction ps generalizing s with
  | nil => simp at hp
  | cons q ps ih =>
    unfold visitedFrom
    split
    · rename_i hq
      rcases mem_cons.mp hp with rfl | hp
      · exact mem_cons_self
      · refine mem_cons_of_mem _ (ih (s := G.analyzePhi q s.1) hp ?_)
        exact (isSome_foldl_analyzeOperand q p (G.operands q) (s.1, false) hq).mpr (Or.inr hs)
    · rename_i hq
      rcases mem_cons.mp hp with rfl | hp
      · exact absurd hs hq
      · exact ih hp hs

lemma mem_of_mem_visitedFrom {ps : List φ} {m : PhiMap φ V} {p : φ}
    (h : p ∈ G.visitedFrom ps m) : p ∈ ps := by
  induction ps generalizing m with
  | nil => simp [visitedFrom] at h
  | cons q ps ih =>
    unfold visitedFrom at h
    split at h
    · rcases mem_cons.mp h with rfl | h
      · exact mem_cons_self
      · exact mem_cons_of_mem _ (ih h)
    · exact mem_cons_of_mem _ (ih h)

/-! ## The number of sweeps -/

/-- The sum of the levels of all items. -/
def rank (G : PhiGraph φ V) (m : PhiMap φ V) : Nat :=
  (G.order.map fun p => (m.item p).height).sum

lemma height_visit (s : PhiMap φ V × Bool) (p : φ) :
    (∀ q, (s.1.item q).height ≤ ((G.visit s p).1.item q).height) ∧
      ((G.visit s p).2 = true → s.2 = true ∨
        (s.1.item p).height < ((G.visit s p).1.item p).height) := by
  obtain ⟨hup, hmoved⟩ := height_foldl_analyzeOperand p (G.operands p) (s.1, false)
  unfold visit
  split
  · refine ⟨hup, fun h => ?_⟩
    rcases Bool.or_eq_true _ _ ▸ h with h | h
    · exact Or.inl h
    · exact Or.inr ((hmoved h).resolve_left (by simp))
  · exact ⟨fun _ => le_rfl, Or.inl⟩

lemma height_foldl_visit (ps : List φ) (s : PhiMap φ V × Bool) :
    (∀ q, (s.1.item q).height ≤ ((ps.foldl G.visit s).1.item q).height) ∧
      ((ps.foldl G.visit s).2 = true → s.2 = true ∨
        ∃ p ∈ ps, (s.1.item p).height < ((ps.foldl G.visit s).1.item p).height) := by
  induction ps generalizing s with
  | nil => exact ⟨fun _ => le_rfl, Or.inl⟩
  | cons p ps ih =>
    rw [foldl_cons]
    obtain ⟨hup, hmoved⟩ := ih (G.visit s p)
    obtain ⟨hupₚ, hmovedₚ⟩ := height_visit (G := G) s p
    refine ⟨fun q => (hupₚ q).trans (hup q), fun h => ?_⟩
    rcases hmoved h with hflag | ⟨q, hq, hlt⟩
    · rcases hmovedₚ hflag with hs | hlt
      · exact Or.inl hs
      · exact Or.inr ⟨p, mem_cons_self, hlt.trans_le (hup p)⟩
    · exact Or.inr ⟨q, mem_cons_of_mem _ hq, (hupₚ q).trans_lt hlt⟩

omit [DecidableEq φ] [DecidableEq V] in
lemma rank_le (m : PhiMap φ V) : G.rank m ≤ 2 * G.order.length := by
  have h := sum_le_card_nsmul (G.order.map fun p => (m.item p).height) 2
    (by simp [PhiItem.height_le])
  simpa [rank, mul_comm] using h

lemma rank_lt_of_changed {m : PhiMap φ V} (h : (G.sweep m).2 = true) :
    G.rank m < G.rank (G.sweep m).1 := by
  obtain ⟨hup, hmoved⟩ := height_foldl_visit (G := G) G.order (m, false)
  obtain ⟨p, hp, hlt⟩ := (hmoved h).resolve_left (by simp)
  exact sum_lt_sum _ _ (fun q _ => hup q) ⟨p, hp, hlt⟩

/-- The loop stops, whatever phis it starts from. -/
lemma solvePhiCycles_isSome (G : PhiGraph φ V) (keys : List φ) :
    (G.solvePhiCycles keys).isSome = true :=
  untilStable_isSome G.rank (fun _ => rank_lt_of_changed) rank_le (by omega)

/-! ## The state the loop stops in -/

/-- Only phis of the graph are ever in the map. -/
def KeysInGraph (G : PhiGraph φ V) (m : PhiMap φ V) : Prop :=
  ∀ p, (m p).isSome = true → p ∈ G.order

lemma keysInGraph_sweep {m : PhiMap φ V} (hm : G.KeysInGraph m) :
    G.KeysInGraph (G.sweep m).1 := by
  intro q hq
  rcases (isSome_foldl_visit G.order (m, false) q).mp hq with ⟨p, hp, hop⟩ | hq
  · exact G.closed p (mem_of_mem_visitedFrom hp) q hop
  · exact hm q hq

omit [DecidableEq V] in
lemma keysInGraph_initialMap {keys : List φ} (h : ∀ p ∈ keys, p ∈ G.order) :
    G.KeysInGraph (initialMap keys) := by
  intro p hp
  by_cases hmem : p ∈ keys
  · exact h p hmem
  · simp [initialMap, hmem] at hp

/-- In the sweep that ends the loop, an analysed phi whose item is `c` or still
`Bottom` has only `c` among its constants, and operand phis whose item is `c` or
still `Bottom`. -/
lemma step_of_last_sweep {last final : PhiMap φ V} (hlast : G.sweep last = (final, false))
    {c : V} {q : φ} (hq : q ∈ G.visitedFrom G.order last)
    (hitem : last.item q = .bottom ∨ last.item q = .constant c) :
    G.OnlyConstant c q ∧ ∀ r, .phi r ∈ G.operands q →
      (final r).isSome = true ∧ (last.item r = .bottom ∨ last.item r = .constant c) := by
  have hstable := foldl_visit_stable (G := G) G.order (last, false) (congrArg Prod.snd hlast)
  have habsorb := hstable.2.2 q hq
  have hsrc : ∀ o ∈ G.operands q,
      last.operandItem o = .bottom ∨ last.operandItem o = .constant c := by
    intro o ho
    have h := habsorb o ho
    rcases hitem with hi | hi <;> simp only [hi] at h
    · exact Or.inl (absorbed_by_bottom h)
    · exact absorbed_by_constant h
  refine ⟨⟨fun ho => ?_, fun d hd => ?_⟩, fun r hr => ⟨?_, hsrc _ hr⟩⟩
  · simpa [PhiMap.operandItem] using hsrc _ ho
  · simpa [PhiMap.operandItem] using hsrc _ hd
  · have hkey := (isSome_foldl_visit G.order (last, false) r).mpr (Or.inl ⟨q, hq, hr⟩)
    rwa [show G.order.foldl G.visit (last, false) = (final, false) from hlast] at hkey

/-- Constancy follows a chain from a constant phi up to the first phi that was
inserted behind the iterator. -/
lemma leads_from_constant {last final : PhiMap φ V} (hlast : G.sweep last = (final, false))
    (hkeys : G.KeysInGraph last) {p : φ} {c : V} (hp : last.item p = .constant c) {r : φ}
    (hr : G.Leads p r) :
    (∃ q, G.Leads p q ∧ G.InsertedBehind last q ∧ G.Leads q r) ∨
      r ∈ G.visitedFrom G.order last ∧ (last.item r = .bottom ∨ last.item r = .constant c) := by
  induction hr with
  | refl =>
    have hsome := PhiMap.isSome_of_item_ne_bottom (m := last) (p := p) (by simp [hp])
    exact Or.inr ⟨mem_visitedFrom (s := (last, false)) (hkeys p hsome) hsome, Or.inr hp⟩
  | @tail q r hpq hqr ih =>
    rcases ih with ⟨b, hpb, hb, hbq⟩ | ⟨hvisited, hitem⟩
    · exact Or.inl ⟨b, hpb, hb, hbq.tail hqr⟩
    · obtain ⟨hsome, hir⟩ := (step_of_last_sweep hlast hvisited hitem).2 r hqr
      by_cases hrv : r ∈ G.visitedFrom G.order last
      · exact Or.inr ⟨hrv, hir⟩
      · refine Or.inl ⟨r, hpq.tail hqr, ⟨?_, hrv⟩, .refl⟩
        rw [hlast]
        exact hsome

/-- No phi the last sweep inserts behind its iterator leads from a phi in state
`Constant` to anything but that constant. -/
def NothingMissed (G : PhiGraph φ V) (last : PhiMap φ V) : Prop :=
  ∀ p c, last p = some (.constant c) →
    ∀ q, G.Leads p q → G.InsertedBehind last q → G.ReallyConstant q c

lemma sound_iff_nothingMissed {last final : PhiMap φ V}
    (hlast : G.sweep last = (final, false)) (hkeys : G.KeysInGraph last) :
    G.Sound final ↔ G.NothingMissed last := by
  have hstable := foldl_visit_stable (G := G) G.order (last, false) (congrArg Prod.snd hlast)
  have hitems : ∀ q, final.item q = last.item q := by
    intro q
    rw [← hstable.2.1 q]
    exact congrArg (fun s => PhiMap.item s.1 q) hlast.symm
  have hconst : ∀ p c, final p = some (.constant c) ↔ last p = some (.constant c) := by
    intro p c
    have h := hitems p
    unfold PhiMap.item at h
    cases hf : final p <;> cases hl : last p <;> grind
  constructor
  · intro hsound p c hp q hpq _ r hqr
    exact hsound p c ((hconst p c).mpr hp) r (hpq.trans hqr)
  · intro hmissed p c hp r hpr
    have hp' := (hconst p c).mp hp
    have hpi : last.item p = .constant c := by simp [PhiMap.item, hp']
    rcases leads_from_constant hlast hkeys hpi hpr with ⟨q, hpq, hq, hqr⟩ | ⟨hvisited, hitem⟩
    · exact hmissed p c hp' q hpq hq r hqr
    · exact (step_of_last_sweep hlast hvisited hitem).1

/-- The phis of `c₁ ? 1 : (c₂ ? (c₃ ? x : y) : (c₄ ? z : w))`, allocated from the
innermost out. -/
def nestedConditional : PhiGraph Nat Int where
  order := [0, 1, 2, 3]
  nodup := by decide
  operands
    | 0 => [.other, .other]
    | 1 => [.other, .other]
    | 2 => [.phi 0, .phi 1]
    | 3 => [.constant 1, .phi 2]
    | _ => []
  closed := by
    intro p hp q
    simp only [mem_cons, not_mem_nil, or_false] at hp
    rcases hp with rfl | rfl | rfl | rfl <;> simp <;> omega

end PhiGraph
end Sweep
end SpiderMonkey.Ion.CP
