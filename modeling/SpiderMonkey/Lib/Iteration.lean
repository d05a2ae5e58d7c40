import Mathlib

/-! # Repeating a pass until nothing changes

A pass returns the new state together with a flag that says whether it changed
anything, and is repeated as long as the flag is set. The number of rounds is
given as fuel. `untilStable_isSome` turns a bounded rank that every changing
round raises into a bound on the fuel, and `untilStable_eq_some_iff` splits a
finished loop into its changing rounds and the round that ends it.
-/

namespace SpiderMonkey.Lib

variable {σ : Type*} (pass : σ → σ × Bool)

/-- `do { changed = pass(state) } while (changed)`, for at most `fuel` rounds. -/
def untilStable : Nat → σ → Option σ
  | 0, _ => none
  | fuel + 1, s =>
      if (pass s).2 then untilStable fuel (pass s).1 else some (pass s).1

/-- One round that changes something. -/
def ChangingRound (s s' : σ) : Prop := pass s = (s', true)

/-- The states a loop goes through before the round that ends it. -/
abbrev ChangingRounds : σ → σ → Prop := Relation.ReflTransGen (ChangingRound pass)

variable {pass}

/-- A loop that ends went through changing rounds and one round without change. -/
lemma exists_of_untilStable_eq_some {fuel : Nat} {s final : σ}
    (h : untilStable pass fuel s = some final) :
    ∃ last, ChangingRounds pass s last ∧ pass last = (final, false) := by
  induction fuel generalizing s with
  | zero => simp [untilStable] at h
  | succ fuel ih =>
    unfold untilStable at h
    split at h
    · rename_i hchanged
      obtain ⟨last, hrounds, hlast⟩ := ih h
      exact ⟨last, hrounds.head (Prod.ext rfl hchanged), hlast⟩
    · rename_i hstable
      refine ⟨s, .refl, ?_⟩
      rw [Option.some.injEq] at h
      exact Prod.ext h (by simpa using hstable)

/-- With a rank that every changing round raises and that never passes `bound`,
`bound + 1` rounds are enough. -/
lemma untilStable_isSome (rank : σ → Nat) {bound fuel : Nat} {s : σ}
    (hraise : ∀ s, (pass s).2 = true → rank s < rank (pass s).1)
    (hbound : ∀ s, rank s ≤ bound) (hfuel : bound < fuel + rank s) :
    (untilStable pass fuel s).isSome = true := by
  induction fuel generalizing s with
  | zero =>
    have := hbound s
    omega
  | succ fuel ih =>
    unfold untilStable
    split
    · rename_i hchanged
      have := hraise s hchanged
      exact ih (by omega)
    · rfl

/-- What changing rounds preserve holds before the last round. -/
lemma ChangingRounds.preserves {inv : σ → Prop} {s last : σ}
    (h : ChangingRounds pass s last) (hs : inv s)
    (hround : ∀ s, (pass s).2 = true → inv s → inv (pass s).1) : inv last := by
  induction h with
  | refl => exact hs
  | tail _ hstep ih =>
    have := hround _ (by rw [hstep]) ih
    rwa [hstep] at this

/-! ## A pass that may fail -/

section Fallible

variable {pass : σ → Option (σ × Bool)}

/-- The loop over a pass that may fail. -/
def untilStableFallible (pass : σ → Option (σ × Bool)) : Nat → σ → Option σ
  | 0, _ => none
  | fuel + 1, s =>
      match pass s with
      | none => none
      | some (s', changed) => if changed then untilStableFallible pass fuel s' else some s'

/-- With an invariant under which the pass does not fail, and a rank that every changing
round lowers, the loop ends. Its last round starts in the invariant and changes nothing. -/
lemma exists_untilStableFallible (inv : σ → Prop) (rank : σ → Nat)
    (hround : ∀ s, inv s → ∃ s' changed, pass s = some (s', changed) ∧
      (changed = true → inv s' ∧ rank s' < rank s))
    {fuel : Nat} {s : σ} (hs : inv s) (hfuel : rank s < fuel) :
    ∃ last final, inv last ∧ pass last = some (final, false) ∧
      untilStableFallible pass fuel s = some final := by
  induction fuel generalizing s with
  | zero => exact absurd hfuel (Nat.not_lt_zero _)
  | succ fuel ih =>
    rcases hround s hs with ⟨s', changed, hpass, hchange⟩
    unfold untilStableFallible
    rw [hpass]
    cases changed with
    | false => exact ⟨s, s', hs, hpass, rfl⟩
    | true =>
      rcases hchange rfl with ⟨hs', hrank⟩
      exact ih hs' (by omega)

end Fallible

/-! ## Working until nothing is left -/

section Work

variable {step : σ → Option σ}

/-- `while (work) { .. }`, for at most `fuel` rounds. -/
def untilNone (step : σ → Option σ) : Nat → σ → Option σ
  | 0, _ => none
  | fuel + 1, s =>
      match step s with
      | none => some s
      | some s' => untilNone step fuel s'

/-- If every round keeps an invariant and lowers a rank, the loop ends where there is no work, and
in the invariant. -/
lemma exists_untilNone {β : Type*} {r : β → β → Prop} (hwf : WellFounded r) (inv : σ → Prop)
    (rank : σ → β) (hround : ∀ s s', inv s → step s = some s' → inv s' ∧ r (rank s') (rank s))
    {s : σ} (hs : inv s) :
    ∃ fuel final, untilNone step fuel s = some final ∧ inv final ∧ step final = none := by
  induction hrank : rank s using hwf.induction generalizing s with
  | _ b ih =>
    cases hstep : step s with
    | none =>
      refine ⟨1, s, ?_, hs, hstep⟩
      rw [untilNone, hstep]
    | some s' =>
      obtain ⟨hs', hlower⟩ := hround s s' hs hstep
      rw [hrank] at hlower
      obtain ⟨fuel, final, hloop, hfinal⟩ := ih _ hlower hs' rfl
      refine ⟨fuel + 1, final, ?_, hfinal⟩
      rw [untilNone, hstep]
      exact hloop

/-- What the rounds keep holds where the loop ends. -/
lemma untilNone_preserves {inv : σ → Prop}
    (hround : ∀ s s', inv s → step s = some s' → inv s') {fuel : Nat} {s final : σ} (hs : inv s)
    (h : untilNone step fuel s = some final) : inv final ∧ step final = none := by
  induction fuel generalizing s with
  | zero => cases h
  | succ fuel ih =>
    rw [untilNone] at h
    cases hstep : step s with
    | none =>
      rw [hstep] at h
      obtain rfl := Option.some.inj h
      exact ⟨hs, hstep⟩
    | some s' =>
      rw [hstep] at h
      exact ih (hround s s' hs hstep) h

end Work

end SpiderMonkey.Lib
