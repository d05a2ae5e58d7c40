import Mathlib

/-! # Transition systems

A system is a set of initial states and a guarded step function: an event that is
not enabled has no successor. A run is given by the events it takes, and a
property of the steps is said of every step of a run.
-/

namespace SpiderMonkey.Lib

/-- A transition system. -/
structure Transition (σ ε : Type*) where
  initial : σ → Prop
  step : σ → ε → Option σ

namespace Transition

variable {σ ε : Type*} (T : Transition σ ε) {P Q : σ → ε → Prop}

/-- Every step of the run that takes the events from `s` on has the property. The
run ends at an event that is not enabled. -/
def AllSteps (P : σ → ε → Prop) : σ → List ε → Prop
  | _, [] => True
  | s, e :: events =>
      match T.step s e with
      | some s' => P s e ∧ AllSteps P s' events
      | none => True

instance AllSteps.decidable [∀ s e, Decidable (P s e)] :
    (s : σ) → (events : List ε) → Decidable (T.AllSteps P s events)
  | _, [] => inferInstanceAs (Decidable True)
  | s, e :: events =>
      match h : T.step s e with
      | some s' =>
          have := AllSteps.decidable s' events
          decidable_of_iff (P s e ∧ T.AllSteps P s' events) (by simp [AllSteps, h])
      | none => isTrue (by simp [AllSteps, h])

variable {T}

/-- Two properties of steps that agree where an invariant holds agree on runs, if
the steps with the second property keep the invariant. -/
lemma allSteps_iff (inv : σ → Prop) (hiff : ∀ {s e}, inv s → (P s e ↔ Q s e))
    (hstep : ∀ {s e s'}, inv s → Q s e → T.step s e = some s' → inv s') {s : σ} (hinv : inv s)
    (events : List ε) : T.AllSteps P s events ↔ T.AllSteps Q s events := by
  induction events generalizing s with
  | nil => exact Iff.rfl
  | cons e events ih =>
    unfold AllSteps
    cases hs' : T.step s e with
    | none => exact Iff.rfl
    | some s' =>
      constructor
      · rintro ⟨hp, hrest⟩
        have hq := (hiff hinv).mp hp
        exact ⟨hq, (ih (hstep hinv hq hs')).mp hrest⟩
      · rintro ⟨hq, hrest⟩
        exact ⟨(hiff hinv).mpr hq, (ih (hstep hinv hq hs')).mpr hrest⟩

/-- An invariant that the steps with one property keep, and that gives each of these
steps another property. -/
lemma allSteps_of_invariant (inv : σ → Prop)
    (hstep : ∀ {s e s'}, inv s → Q s e → T.step s e = some s' → P s e ∧ inv s') {s : σ}
    (hinv : inv s) {events : List ε} (h : T.AllSteps Q s events) : T.AllSteps P s events := by
  induction events generalizing s with
  | nil => trivial
  | cons e events ih =>
    unfold AllSteps at h ⊢
    cases hs' : T.step s e with
    | none => trivial
    | some s' =>
      rw [hs'] at h
      rcases hstep hinv h.1 hs' with ⟨hp, hinv'⟩
      exact ⟨hp, ih hinv' h.2⟩

end Transition
end SpiderMonkey.Lib
