import SpiderMonkey.Ion.PhiTypes
import SpiderMonkey.Lib.Fallible

/-! # The types of the phis are consistent

A phi moves from no type to that of an operand, from there to `double` and to `value`, and never
back. The invariant says of each operand of a phi that was tried that its type fits, or that it is a
phi that has not been propagated yet.
-/

namespace SpiderMonkey.Ion

open Function List

/-! ## Types -/

namespace MIRType

/-- The type of an operand fits that of a phi. -/
def FitsPhi (operand phi : MIRType) : Prop :=
  operand = none ∨ phi = value ∨ phi = double ∧ isNumberType operand = true ∨ operand = phi

/-- How far a phi has come. -/
def rank : MIRType → Nat
  | none => 0
  | double => 2
  | value => 3
  | _ => 1

/-- The type of a phi, once it knows of an operand. -/
def join (phi operand : MIRType) : MIRType :=
  if phi = none then operand
  else if phi ≠ operand then
    if isNumberType phi && isNumberType operand then double else value
  else phi

variable {phi operand t : MIRType}

/-- The ways a type changes. -/
lemma join_cases (phi operand : MIRType) :
    phi = none ∧ phi.join operand = operand ∨ phi.join operand = phi ∧ operand = phi ∨
      phi = double ∧ phi.join operand = double ∧ isNumberType operand = true ∨
      phi = int32 ∧ phi.join operand = double ∧ isNumberType operand = true ∨
      phi ≠ none ∧ phi.join operand = value := by
  unfold join
  split_ifs with hnone hdiff hnumber
  · exact .inl ⟨hnone, rfl⟩
  · simp only [Bool.and_eq_true] at hnumber
    obtain ⟨hphi, hoperand⟩ := hnumber
    simp only [isNumberType, Bool.or_eq_true, decide_eq_true_eq] at hphi
    rcases hphi with rfl | rfl
    · exact .inr (.inr (.inr (.inl ⟨rfl, rfl, hoperand⟩)))
    · exact .inr (.inr (.inl ⟨rfl, rfl, hoperand⟩))
  · exact .inr (.inr (.inr (.inr ⟨hnone, rfl⟩)))
  · exact .inr (.inl ⟨rfl, (not_not.mp hdiff).symm⟩)

lemma fitsPhi_join (phi operand : MIRType) : operand.FitsPhi (phi.join operand) := by
  rcases join_cases phi operand with ⟨-, h⟩ | ⟨h, hsame⟩ | ⟨-, h, hnum⟩ | ⟨-, h, hnum⟩ | ⟨-, h⟩ <;>
    rw [h]
  · exact .inr (.inr (.inr rfl))
  · exact .inr (.inr (.inr hsame))
  · exact .inr (.inr (.inl ⟨rfl, hnum⟩))
  · exact .inr (.inr (.inl ⟨rfl, hnum⟩))
  · exact .inr (.inl rfl)

/-- What fits goes on fitting. -/
lemma FitsPhi.join (h : t.FitsPhi phi) (operand : MIRType) : t.FitsPhi (phi.join operand) := by
  rcases join_cases phi operand with ⟨rfl, -⟩ | ⟨hj, -⟩ | ⟨rfl, hj, -⟩ | ⟨rfl, hj, -⟩ | ⟨-, hj⟩
  · rcases h with hnone | hvalue | ⟨hdouble, -⟩ | hnone
    · exact .inl hnone
    · cases hvalue
    · cases hdouble
    · exact .inl hnone
  · rw [hj]
    exact h
  · rw [hj]
    exact h
  · rw [hj]
    rcases h with hnone | hvalue | ⟨hdouble, -⟩ | rfl
    · exact .inl hnone
    · cases hvalue
    · cases hdouble
    · exact .inr (.inr (.inl ⟨rfl, rfl⟩))
  · rw [hj]
    exact .inr (.inl rfl)

lemma FitsPhi.isNumberType (h : t.FitsPhi phi) (hdouble : phi = double) (hne : t ≠ none) :
    isNumberType t = true := by
  subst hdouble
  rcases h with hnone | hvalue | ⟨-, hnumber⟩ | rfl
  · exact absurd hnone hne
  · cases hvalue
  · exact hnumber
  · rfl

lemma join_ne_none (h : operand ≠ none) (phi : MIRType) : phi.join operand ≠ none := by
  rcases join_cases phi operand with ⟨-, hj⟩ | ⟨hj, rfl⟩ | ⟨-, hj, -⟩ | ⟨-, hj, -⟩ | ⟨-, hj⟩ <;>
    rw [hj]
  · exact h
  · exact h
  · decide
  · decide
  · decide

lemma join_self (h : t ≠ none) : t.join t = t := by
  rw [join, if_neg h, if_neg (not_not.mpr rfl)]

lemma rank_lt_join (h : operand ≠ none) (hne : phi ≠ phi.join operand) :
    phi.rank < (phi.join operand).rank := by
  rcases join_cases phi operand with ⟨rfl, hj⟩ | ⟨hj, -⟩ | ⟨rfl, hj, -⟩ | ⟨rfl, hj, -⟩ | ⟨hn, hj⟩
  · rw [hj]
    cases operand <;> simp_all [rank]
  · exact absurd hj.symm hne
  · exact absurd hj.symm hne
  · rw [hj]
    decide
  · rw [hj] at hne ⊢
    cases phi <;> simp_all [rank]

lemma rank_le (t : MIRType) : t.rank ≤ 3 := by
  cases t <;> simp [rank]

end MIRType

namespace TypeAnalyzer

open MIRType

variable {n : Nat} (s : TypeAnalyzer n)

lemma propagateTo_eq {phi use : Fin n} (htried : s.triedToSpecialize use = true) :
    s.propagateTo phi use = s.respecialize use ((s.type use).join (s.type phi)) := by
  have hself : s.respecialize use (s.type use) = s := by rw [respecialize, if_pos rfl]
  unfold propagateTo join
  rw [htried]
  simp only [Bool.not_true, Bool.false_eq_true, if_false]
  split_ifs
  · rfl
  · rfl
  · rfl
  · exact hself.symm

/-! ## Guesses -/

/-- A guess fits the operands that were taken into account. -/
lemma guessLoop_fits (inputs : List (PhiOperand n)) (type : MIRType) :
    (∀ t : MIRType, t.FitsPhi type → t.FitsPhi (s.guessLoop type inputs)) ∧
      ∀ input ∈ inputs, s.skips input = false →
        (s.typeOf input).FitsPhi (s.guessLoop type inputs) := by
  induction inputs generalizing type with
  | nil => exact ⟨fun _ h => h, nofun⟩
  | cons input inputs ih =>
    rw [guessLoop]
    by_cases hskip : s.skips input = true
    · rw [if_pos hskip]
      refine ⟨(ih type).1, fun input' hmem hnot => ?_⟩
      rcases mem_cons.mp hmem with rfl | hmem
      · rw [hskip] at hnot
        cases hnot
      · exact (ih type).2 input' hmem hnot
    · rw [if_neg hskip]
      -- the operand is taken into account at once, or the guess is `value`
      have hstep : s.guessLoop (type.join (s.typeOf input)) inputs =
          (if type = .none then s.guessLoop (s.typeOf input) inputs
          else if type ≠ s.typeOf input then
            if isNumberType type && isNumberType (s.typeOf input) then s.guessLoop .double inputs
            else .value
          else s.guessLoop type inputs) ∨
          (if type = .none then s.guessLoop (s.typeOf input) inputs
          else if type ≠ s.typeOf input then
            if isNumberType type && isNumberType (s.typeOf input) then s.guessLoop .double inputs
            else .value
          else s.guessLoop type inputs) = .value := by
        unfold join
        split_ifs
        · exact .inl rfl
        · exact .inl rfl
        · exact .inr rfl
        · exact .inl rfl
      rcases hstep with hstep | hvalue
      · rw [← hstep]
        obtain ⟨hkeep, hrest⟩ := ih (type.join (s.typeOf input))
        refine ⟨fun t ht => hkeep t (ht.join _), fun input' hmem hnot => ?_⟩
        rcases mem_cons.mp hmem with rfl | hmem
        · exact hkeep _ (fitsPhi_join _ _)
        · exact hrest input' hmem hnot
      · rw [hvalue]
        exact ⟨fun _ _ => .inr (.inl rfl), fun _ _ _ => .inr (.inl rfl)⟩

/-! ## The measure -/

/-- How far the phis can still go. -/
def weight : Nat := ∑ p, (3 - (s.type p).rank)

lemma weight_le : s.weight ≤ 3 * n := by
  have hle : ∑ p : Fin n, (3 - (s.type p).rank) ≤ ∑ _p : Fin n, 3 :=
    Finset.sum_le_sum fun p _ => Nat.sub_le _ _
  have hconst : ∑ _p : Fin n, 3 = 3 * n := by simp [Nat.mul_comm]
  rw [weight]
  omega

lemma weight_specialize_lt {phi : Fin n} {type : MIRType}
    (h : (s.type phi).rank < type.rank) : (s.specialize phi type).weight < s.weight := by
  have hle := type.rank_le
  refine Finset.sum_lt_sum (fun p _ => ?_) ⟨phi, Finset.mem_univ phi, ?_⟩
  · by_cases hp : p = phi
    · subst hp
      simp only [specialize, update_self]
      omega
    · simp only [specialize, update_of_ne hp]
      exact le_rfl
  · simp only [specialize, update_self]
    omega

@[simp] lemma addPhiToWorklist_type (phi : Fin n) : (s.addPhiToWorklist phi).type = s.type := by
  rw [addPhiToWorklist]
  split_ifs <;> rfl

@[simp] lemma addPhiToWorklist_tried (phi : Fin n) :
    (s.addPhiToWorklist phi).triedToSpecialize = s.triedToSpecialize := by
  rw [addPhiToWorklist]
  split_ifs <;> rfl

lemma mem_addPhiToWorklist {phi p : Fin n} :
    p ∈ (s.addPhiToWorklist phi).phiWorklist ↔ p = phi ∨ p ∈ s.phiWorklist := by
  rw [addPhiToWorklist]
  split_ifs with hmem
  · constructor
    · exact .inr
    · rintro (rfl | hp)
      · exact hmem
      · exact hp
  · exact mem_cons

lemma nodup_addPhiToWorklist {phi : Fin n} (h : s.phiWorklist.Nodup) :
    (s.addPhiToWorklist phi).phiWorklist.Nodup := by
  rw [addPhiToWorklist]
  split_ifs with hmem
  · exact h
  · exact nodup_cons.mpr ⟨hmem, h⟩

lemma type_respecialize (phi : Fin n) (type : MIRType) :
    (s.respecialize phi type).type = update s.type phi type := by
  rw [respecialize]
  split_ifs with hsame
  · rw [← hsame, update_eq_self]
  · rw [addPhiToWorklist_type, specialize]

lemma tried_respecialize {phi : Fin n} {type : MIRType}
    (h : s.triedToSpecialize phi = true) :
    (s.respecialize phi type).triedToSpecialize = s.triedToSpecialize := by
  rw [respecialize]
  split_ifs
  · rfl
  · rw [addPhiToWorklist_tried, specialize]
    simp only
    rw [← h, update_eq_self]

/-- What is bounded by the work that is left. -/
def work : Nat := 2 * s.weight + s.phiWorklist.length

lemma work_respecialize_le {phi : Fin n} {type : MIRType}
    (h : s.type phi ≠ type → (s.type phi).rank < type.rank) :
    (s.respecialize phi type).work ≤ s.work := by
  rw [respecialize]
  split_ifs with hsame
  · exact Nat.le_refl _
  · have hlt := s.weight_specialize_lt (h hsame)
    have hlen : ((s.specialize phi type).addPhiToWorklist phi).phiWorklist.length ≤
        s.phiWorklist.length + 1 := by
      rw [addPhiToWorklist]
      split_ifs
      · exact Nat.le_succ _
      · exact Nat.le_refl _
    have hweight : ((s.specialize phi type).addPhiToWorklist phi).weight =
        (s.specialize phi type).weight := by
      rw [weight, addPhiToWorklist_type, weight]
    rw [work, work, hweight]
    omega

/-! ## The invariant -/

/-- Every phi that was tried agrees with its operands, but for those in the worklist, and for the
exempt ones, whose propagation is under way. -/
structure Inv (g : PhiTypeGraph) (s : TypeAnalyzer g.numPhis)
    (exempt : Fin g.numPhis → Fin g.numPhis → Prop) : Prop where
  other {p type isUnbox} : .other type isUnbox ∈ g.operands p → s.triedToSpecialize p = true →
    type.FitsPhi (s.type p)
  phi {p q} : .phi q ∈ g.operands p → s.triedToSpecialize p = true →
    s.triedToSpecialize q = true →
    (s.type q).FitsPhi (s.type p) ∨ q ∈ s.phiWorklist ∨ exempt q p
  worklist {p} : p ∈ s.phiWorklist → s.triedToSpecialize p = true ∧ s.type p ≠ .none
  nodup : s.phiWorklist.Nodup

namespace Inv

variable {g : PhiTypeGraph} {s : TypeAnalyzer g.numPhis}
  {exempt exempt' : Fin g.numPhis → Fin g.numPhis → Prop}

lemma mono (h : Inv g s exempt)
    (himp : ∀ q p, .phi q ∈ g.operands p → exempt q p → exempt' q p) : Inv g s exempt' where
  other := h.other
  phi hop hp hq := (h.phi hop hp hq).imp_right (Or.imp_right (himp _ _ hop))
  worklist := h.worklist
  nodup := h.nodup

/-- A phi gets a type that all its operands known so far fit, and its uses are to be told. -/
lemma respecialize (h : Inv g s exempt) {use : Fin g.numPhis} {operand : MIRType}
    (htried : s.triedToSpecialize use = true) (hne : operand ≠ .none) :
    Inv g (s.respecialize use ((s.type use).join operand)) exempt := by
  rw [TypeAnalyzer.respecialize]
  split_ifs with hsame
  · exact h
  · set type := (s.type use).join operand with htype
    have htried' : ∀ p, (s.specialize use type).triedToSpecialize p = true ↔
        s.triedToSpecialize p = true := by
      intro p
      by_cases hp : p = use
      · subst hp
        simp [specialize, htried]
      · simp [specialize, hp]
    have hself : (s.specialize use type).type use = type := by simp [specialize]
    have hother : ∀ p, p ≠ use → (s.specialize use type).type p = s.type p := by
      intro p hp
      simp [specialize, hp]
    -- what fitted the old type of a phi fits the new one
    have hkeep : ∀ p (t : MIRType), t.FitsPhi (s.type p) →
        t.FitsPhi ((s.specialize use type).type p) := by
      intro p t ht
      by_cases hp : p = use
      · subst hp
        rw [hself, htype]
        exact ht.join _
      · rw [hother p hp]
        exact ht
    constructor
    · intro p t isUnbox hop hp
      rw [addPhiToWorklist_tried, htried'] at hp
      rw [addPhiToWorklist_type]
      exact hkeep p t (h.other hop hp)
    · intro p q hop hp hq
      rw [addPhiToWorklist_tried, htried'] at hp hq
      rw [addPhiToWorklist_type, mem_addPhiToWorklist]
      by_cases hquse : q = use
      · exact .inr (.inl (.inl hquse))
      · rw [hother q hquse]
        rcases h.phi hop hp hq with hfits | hmem | hexempt
        · exact .inl (hkeep p _ hfits)
        · exact .inr (.inl (.inr hmem))
        · exact .inr (.inr hexempt)
    · intro p hp
      rw [addPhiToWorklist_tried, htried', addPhiToWorklist_type]
      by_cases hpuse : p = use
      · subst hpuse
        rw [hself]
        exact ⟨htried, MIRType.join_ne_none hne _⟩
      · rw [hother p hpuse]
        exact h.worklist ((mem_addPhiToWorklist _ |>.mp hp).resolve_left hpuse)
    · exact nodup_addPhiToWorklist _ h.nodup

/-- A phi and one of its uses agree once the use was told. -/
lemma propagateTo (h : Inv g s exempt) {phi : Fin g.numPhis}
    (hne : s.type phi ≠ .none) (use : Fin g.numPhis) :
    Inv g (s.propagateTo phi use) (fun q p => exempt q p ∧ ¬ (q = phi ∧ p = use)) ∧
      (s.propagateTo phi use).type phi = s.type phi ∧
      (s.propagateTo phi use).triedToSpecialize = s.triedToSpecialize ∧
      (s.propagateTo phi use).work ≤ s.work := by
  by_cases htried : s.triedToSpecialize use = true
  · rw [propagateTo_eq s htried]
    have hinv := h.respecialize htried hne
    have htype := type_respecialize s use ((s.type use).join (s.type phi))
    have hfits := MIRType.fitsPhi_join (s.type use) (s.type phi)
    have hphi : (s.respecialize use ((s.type use).join (s.type phi))).type phi = s.type phi := by
      rw [htype]
      by_cases hp : phi = use
      · subst hp
        rw [update_self, MIRType.join_self hne]
      · rw [update_of_ne hp]
    refine ⟨⟨hinv.other, fun {p q} hop hp hq => ?_, hinv.worklist, hinv.nodup⟩, hphi,
      tried_respecialize s htried,
      work_respecialize_le s fun hdiff => MIRType.rank_lt_join hne hdiff⟩
    by_cases hedge : q = phi ∧ p = use
    · rw [hedge.1, hedge.2, hphi, htype, update_self]
      exact .inl hfits
    · exact (hinv.phi hop hp hq).imp_right (Or.imp_right fun hexempt => ⟨hexempt, hedge⟩)
  · have hsame : s.propagateTo phi use = s := by
      rw [TypeAnalyzer.propagateTo, if_pos (by simpa using htried)]
    rw [hsame]
    refine ⟨⟨h.other, fun {p q} hop hp hq => ?_, h.worklist, h.nodup⟩, rfl, rfl, Nat.le_refl _⟩
    refine (h.phi hop hp hq).imp_right (Or.imp_right fun hexempt => ⟨hexempt, ?_⟩)
    rintro ⟨-, rfl⟩
    exact htried hp

/-- A phi is propagated to all its uses. -/
lemma foldl_propagateTo (uses : List (Fin g.numPhis)) {s : TypeAnalyzer g.numPhis}
    {exempt : Fin g.numPhis → Fin g.numPhis → Prop} (h : Inv g s exempt) {phi : Fin g.numPhis}
    (hne : s.type phi ≠ .none) :
    Inv g (uses.foldl (fun s use => s.propagateTo phi use) s)
        (fun q p => exempt q p ∧ ¬ (q = phi ∧ p ∈ uses)) ∧
      (uses.foldl (fun s use => s.propagateTo phi use) s).triedToSpecialize = s.triedToSpecialize ∧
      (uses.foldl (fun s use => s.propagateTo phi use) s).work ≤ s.work := by
  induction uses generalizing s exempt with
  | nil => exact ⟨h.mono fun q p _ hexempt => ⟨hexempt, fun hin => by cases hin.2⟩, rfl, Nat.le_refl _⟩
  | cons use uses ih =>
    obtain ⟨hinv, htype, htried, hwork⟩ := h.propagateTo hne use
    obtain ⟨hinv', htried', hwork'⟩ := ih hinv (by rwa [htype])
    refine ⟨hinv'.mono fun q p _ hexempt => ⟨hexempt.1.1, ?_⟩, htried'.trans htried,
      hwork'.trans hwork⟩
    rintro ⟨hq, hp⟩
    rcases mem_cons.mp hp with hp | hp
    · exact hexempt.1.2 ⟨hq, hp⟩
    · exact hexempt.2 ⟨hq, hp⟩

/-- The edges from a phi are exempt only until it has been propagated. -/
lemma propagateSpecialization {phi : Fin g.numPhis} (h : Inv g s fun q _ => q = phi)
    (hne : s.type phi ≠ .none) :
    ∃ s', g.propagateSpecialization s phi = some s' ∧ Inv g s' (fun _ _ => False) ∧
      s'.triedToSpecialize = s.triedToSpecialize ∧ s'.work ≤ s.work := by
  obtain ⟨hinv, htried, hwork⟩ := h.foldl_propagateTo (g.uses phi) hne
  refine ⟨_, if_neg hne, hinv.mono fun q p hop hexempt => ?_, htried, hwork⟩
  obtain ⟨rfl, hnot⟩ := hexempt
  exact hnot ⟨rfl, (g.mem_uses_iff q p).mpr hop⟩

/-- There is nothing to propagate as long as a phi has no type. -/
lemma of_none {phi : Fin g.numPhis} (h : Inv g s fun q _ => q = phi)
    (hnone : s.type phi = .none) : Inv g s fun _ _ => False where
  other := h.other
  phi hop hp hq := by
    rcases h.phi hop hp hq with hfits | hmem | rfl
    · exact .inl hfits
    · exact .inr (.inl hmem)
    · exact .inl (.inl hnone)
  worklist := h.worklist
  nodup := h.nodup

/-- A phi is given the type guessed for it. -/
lemma specialize (h : Inv g s fun _ _ => False) {phi : Fin g.numPhis}
    (hnew : s.triedToSpecialize phi = false) :
    Inv g (s.specialize phi (g.guessPhiType s phi)) fun q _ => q = phi := by
  have hguess := (s.guessLoop_fits (g.operands phi) .none).2
  have hwl : ∀ p ∈ s.phiWorklist, p ≠ phi := by
    rintro p hp rfl
    have htried := (h.worklist hp).1
    rw [hnew] at htried
    cases htried
  refine ⟨fun {p t isUnbox} hop hp => ?_, fun {p q} hop hp hq => ?_, fun {p} hp => ?_, h.nodup⟩
  · by_cases hpphi : p = phi
    · subst hpphi
      simp only [TypeAnalyzer.specialize, update_self]
      exact hguess _ hop rfl
    · simp only [TypeAnalyzer.specialize, update_of_ne hpphi] at hp ⊢
      exact h.other hop hp
  · by_cases hqphi : q = phi
    · exact .inr (.inr hqphi)
    · simp only [TypeAnalyzer.specialize, update_of_ne hqphi] at hq ⊢
      by_cases hpphi : p = phi
      · subst hpphi
        rw [update_self]
        by_cases hnone : s.type q = .none
        · exact .inl (.inl hnone)
        · exact .inl (hguess _ hop (by simp [skips, hq, hnone]))
      · simp only [TypeAnalyzer.specialize, update_of_ne hpphi] at hp ⊢
        rcases h.phi hop hp hq with hfits | hmem | hfalse
        · exact .inl hfits
        · exact .inr (.inl hmem)
        · exact hfalse.elim
  · have hpphi := hwl p hp
    simp only [TypeAnalyzer.specialize, update_of_ne hpphi]
    exact h.worklist hp

end Inv

end TypeAnalyzer

namespace PhiTypeGraph

open TypeAnalyzer

variable (g : PhiTypeGraph)

lemma inv_initial : Inv g (.initial g.numPhis) fun _ _ => False where
  other _ hp := by cases hp
  phi _ hp := by cases hp
  worklist hp := by cases hp
  nodup := nodup_nil

/-! ## The loops -/

/-- The first loop tries every phi. -/
lemma specializeLoop_spec (phis : List (Fin g.numPhis)) (s : TypeAnalyzer g.numPhis)
    (h : Inv g s fun _ _ => False) (hnodup : phis.Nodup)
    (hnew : ∀ p ∈ phis, s.triedToSpecialize p = false) :
    ∃ s', g.specializeLoop phis s = some s' ∧ Inv g s' (fun _ _ => False) ∧
      ∀ p, p ∈ phis ∨ s.triedToSpecialize p = true → s'.triedToSpecialize p = true := by
  induction phis generalizing s with
  | nil => exact ⟨s, rfl, h, fun p hp => hp.resolve_left not_mem_nil⟩
  | cons phi phis ih =>
    obtain ⟨hphi, hnodup⟩ := nodup_cons.mp hnodup
    have hinv := h.specialize (hnew phi (mem_cons_self ..))
    set s₁ := s.specialize phi (g.guessPhiType s phi) with hs₁
    have htype : s₁.type phi = g.guessPhiType s phi := by simp [hs₁, specialize]
    have hself : s₁.triedToSpecialize phi = true := by simp [hs₁, specialize]
    have hrest : ∀ p, p ≠ phi → s₁.triedToSpecialize p = s.triedToSpecialize p := by
      intro p hp
      simp [hs₁, specialize, hp]
    -- whether or not the guess is propagated, the loop goes on with the same phis tried
    have hgo : ∀ s₂, Inv g s₂ (fun _ _ => False) → s₂.triedToSpecialize = s₁.triedToSpecialize →
        ∃ s', g.specializeLoop phis s₂ = some s' ∧ Inv g s' (fun _ _ => False) ∧
          ∀ p, p ∈ phi :: phis ∨ s.triedToSpecialize p = true →
            s'.triedToSpecialize p = true := by
      intro s₂ hinv₂ htried₂
      obtain ⟨s', hrun, hinv', htried'⟩ := ih s₂ hinv₂ hnodup fun p hp => by
        have hne : p ≠ phi := fun heq => hphi (heq ▸ hp)
        rw [htried₂, hrest p hne]
        exact hnew p (mem_cons_of_mem _ hp)
      refine ⟨s', hrun, hinv', fun p hp => htried' p ?_⟩
      by_cases hne : p = phi
      · rw [hne, htried₂]
        exact .inr hself
      · rw [htried₂, hrest p hne]
        exact hp.imp_left fun hmem => (mem_cons.mp hmem).resolve_left hne
    rw [specializeLoop]
    by_cases hnone : g.guessPhiType s phi = .none
    · rw [if_pos hnone]
      exact hgo s₁ (hinv.of_none (htype.trans hnone)) rfl
    · rw [if_neg hnone]
      obtain ⟨s₂, hprop, hinv₂, htried₂, -⟩ := hinv.propagateSpecialization (by rwa [htype])
      rw [hprop]
      exact hgo s₂ hinv₂ htried₂

/-- The second loop runs until the worklist is empty. -/
lemma worklistLoop_spec (fuel : Nat) (s : TypeAnalyzer g.numPhis)
    (h : Inv g s fun _ _ => False) (hfuel : s.work < fuel) :
    ∃ s', g.worklistLoop fuel s = some s' ∧ Inv g s' (fun _ _ => False) ∧
      s'.phiWorklist = [] ∧ s'.triedToSpecialize = s.triedToSpecialize := by
  induction fuel generalizing s with
  | zero => cases hfuel
  | succ fuel ih =>
    rw [worklistLoop]
    cases hwl : s.phiWorklist with
    | nil => exact ⟨s, rfl, h, hwl, rfl⟩
    | cons phi rest =>
      have hmem : phi ∈ s.phiWorklist := hwl ▸ mem_cons_self ..
      have hnodup := h.nodup
      rw [hwl] at hnodup
      have hpop : Inv g { s with phiWorklist := rest } fun q _ => q = phi := by
        refine ⟨h.other, fun {p q} hop hp hq => ?_, fun {p} hp => h.worklist ?_,
          (nodup_cons.mp hnodup).2⟩
        · rcases h.phi hop hp hq with hfits | hin | hfalse
          · exact .inl hfits
          · rw [hwl] at hin
            rcases mem_cons.mp hin with rfl | hin
            · exact .inr (.inr rfl)
            · exact .inr (.inl hin)
          · exact hfalse.elim
        · rw [hwl]
          exact mem_cons_of_mem _ hp
      obtain ⟨s₂, hprop, hinv₂, htried₂, hwork₂⟩ :=
        hpop.propagateSpecialization (h.worklist hmem).2
      have hwork : s.work = ({ s with phiWorklist := rest } : TypeAnalyzer g.numPhis).work + 1 := by
        simp only [work, weight, hwl, length_cons]
        omega
      obtain ⟨s', hrun, hinv', hnil, htried'⟩ := ih s₂ hinv₂ (by omega)
      refine ⟨s', ?_, hinv', hnil, htried'.trans htried₂⟩
      simp only [hprop, Option.bind_some]
      exact hrun

lemma worklistLoop_mono {fuel : Nat} {s s' : TypeAnalyzer g.numPhis}
    (h : g.worklistLoop fuel s = some s') {more : Nat} (hle : fuel ≤ more) :
    g.worklistLoop more s = some s' := by
  induction fuel generalizing s more with
  | zero => cases h
  | succ fuel ih =>
    obtain ⟨more, rfl⟩ := Nat.exists_eq_add_of_le' (Nat.lt_of_lt_of_le (Nat.succ_pos _) hle)
    rw [worklistLoop] at h ⊢
    cases hwl : s.phiWorklist with
    | nil =>
      rw [hwl] at h
      exact h
    | cons phi rest =>
      rw [hwl] at h
      simp only [Option.bind_eq_some_iff] at h ⊢
      obtain ⟨s₁, hprop, hrun⟩ := h
      exact ⟨s₁, hprop, ih hrun (Nat.le_of_succ_le_succ hle)⟩

/-- All phis are tried, and the invariant holds with nothing left to propagate. -/
lemma specializePhis_spec :
    ∃ s, (∀ fuel, 7 * g.numPhis < fuel → g.specializePhis fuel = some s) ∧
      (∀ p, s.triedToSpecialize p = true) ∧ s.phiWorklist = [] ∧
      Inv g s fun _ _ => False := by
  obtain ⟨s₁, hrun₁, hinv₁, htried₁⟩ := g.specializeLoop_spec (List.finRange g.numPhis) _
    g.inv_initial (nodup_finRange _) fun _ _ => rfl
  have hwork : s₁.work < 7 * g.numPhis + 1 := by
    have hweight := s₁.weight_le
    have hlen := hinv₁.nodup.length_le_card
    rw [Fintype.card_fin] at hlen
    rw [work]
    omega
  obtain ⟨s₂, hrun₂, hinv₂, hnil, htried₂⟩ := g.worklistLoop_spec _ s₁ hinv₁ hwork
  refine ⟨s₂, fun fuel hfuel => ?_, fun p => ?_, hnil, hinv₂⟩
  · rw [specializePhis, hrun₁]
    exact g.worklistLoop_mono hrun₂ hfuel
  · rw [htried₂]
    exact htried₁ p (.inl (mem_finRange p))

/-- The assertion fails for an operand of a `double` phi that is no number. -/
lemma adjustPhiInputs_isSome_iff (s : TypeAnalyzer g.numPhis) (phi : Fin g.numPhis) :
    (g.adjustPhiInputs s phi).isSome ↔
      (s.type phi = .double → ∀ input ∈ g.operands phi, isNumberType (s.typeOf input) = true) := by
  rw [adjustPhiInputs]
  by_cases hdouble : s.type phi = .double
  · rw [if_pos hdouble, Lib.isSome_mapM_iff]
    simp only [hdouble, forall_const]
    refine forall₂_congr fun input _ => ?_
    split_ifs with hint hnumber
    · simp [hint, isNumberType]
    · simp [hnumber, isNumberType]
    · simp [hint, hnumber, isNumberType]
  · rw [if_neg hdouble]
    constructor
    · exact fun _ h => absurd h hdouble
    · intro _
      split_ifs <;> rfl

/-- The typing is consistent but for the operands without a type, and there are none under a phi
that has a type unless they never get one. -/
theorem specializePhis_consistent :
    ∃ s, (∀ fuel, 7 * g.numPhis < fuel → g.specializePhis fuel = some s) ∧
      (∀ p, ∀ input ∈ g.operands p, s.typeOf input ≠ .none →
        (s.type p = .double → s.typeOf input = .int32 ∨ s.typeOf input = .double) ∧
        (s.type p ≠ .value → s.type p ≠ .none → s.type p ≠ .double →
          s.typeOf input = s.type p)) ∧
      (∀ p, (g.adjustPhiInputs s p).isSome ↔
        (s.type p = .double → ∀ input ∈ g.operands p, s.typeOf input ≠ .none)) ∧
      ∀ p, s.type p = .none → ∀ input ∈ g.operands p, s.typeOf input = .none := by
  obtain ⟨s, hrun, htried, hnil, hinv⟩ := g.specializePhis_spec
  have hfits : ∀ p, ∀ input ∈ g.operands p, (s.typeOf input).FitsPhi (s.type p) := by
    intro p input hop
    cases input with
    | other type isUnbox => exact hinv.other hop (htried p)
    | phi q =>
      rcases hinv.phi hop (htried p) (htried q) with hfits | hmem | hfalse
      · exact hfits
      · rw [hnil] at hmem
        cases hmem
      · exact hfalse.elim
  refine ⟨s, hrun, fun p input hop hne => ⟨fun hdouble => ?_, fun hvalue hnone hdouble => ?_⟩,
    fun p => ?_, fun p hnone input hop => ?_⟩
  · have hnumber := (hfits p input hop).isNumberType hdouble hne
    simpa [isNumberType] using hnumber
  · rcases hfits p input hop with h | h | ⟨h, -⟩ | h
    · exact absurd h hne
    · exact absurd h hvalue
    · exact absurd h hdouble
    · exact h
  · rw [adjustPhiInputs_isSome_iff]
    refine forall_congr' fun hdouble => forall₂_congr fun input hop => ⟨fun hnumber hnone => ?_,
      (hfits p input hop).isNumberType hdouble⟩
    rw [hnone] at hnumber
    cases hnumber
  · rcases hfits p input hop with h | h | ⟨h, -⟩ | h
    · exact h
    · exact absurd (hnone.symm.trans h) (by decide)
    · exact absurd (hnone.symm.trans h) (by decide)
    · exact h.trans hnone

/-- A phi of a number and of a phi that only has itself as an operand. -/
def loopGraph : PhiTypeGraph where
  numPhis := 2
  operands p :=
    if p.val = 0 then [.other .double false, .phi (Fin.last 1)] else [.phi (Fin.last 1)]
  uses p := if p.val = 0 then [] else List.finRange 2
  mem_uses_iff := by decide

theorem adjustPhiInputs_none_operand :
    ∃ s, loopGraph.specializePhis 15 = some s ∧ s.type (0 : Fin 2) = .double ∧
      s.type (1 : Fin 2) = .none ∧ loopGraph.adjustPhiInputs s (0 : Fin 2) = none :=
  ⟨_, rfl, by decide, by decide, by decide⟩

end PhiTypeGraph

end SpiderMonkey.Ion
