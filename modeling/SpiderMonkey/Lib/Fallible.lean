import Mathlib

/-! # Steps that may fail

Rules for a step in the `Except` monad that succeeded, and for a loop of such steps over a
list: an invariant that speaks about the part of the list done so far.
-/

namespace SpiderMonkey.Lib

universe u v
variable {ε : Type u} {α β σ : Type v}

lemma bind_eq_ok_iff {x : Except ε α} {f : α → Except ε β} {b : β} :
    (x >>= f) = .ok b ↔ ∃ a, x = .ok a ∧ f a = .ok b := by
  cases x with
  | error e =>
    constructor
    · intro h
      cases h
    · rintro ⟨a, ha, _⟩
      cases ha
  | ok a =>
    constructor
    · intro h
      exact ⟨a, rfl, h⟩
    · rintro ⟨a', ha, h⟩
      cases ha
      exact h

@[simp] lemma pure_eq_ok_iff {a b : α} : (pure a : Except ε α) = .ok b ↔ a = b := by
  constructor
  · intro h
    cases h
    rfl
  · rintro rfl
    rfl

/-- A check that throws, and what follows it. -/
lemma check_eq_ok_iff {p : Prop} [Decidable p] {e : ε} {f : α → Except ε β} {x : Except ε β}
    {b : β} : (if p then throw e >>= f else x) = .ok b ↔ ¬ p ∧ x = .ok b := by
  by_cases hp : p
  · rw [if_pos hp]
    exact iff_of_false nofun fun h => h.1 hp
  · rw [if_neg hp]
    exact ⟨fun h => ⟨hp, h⟩, fun h => h.2⟩

/-- The rule for a loop over a list: `inv done s` holds before the first step, and a step
that succeeds adds its element to the part done. -/
lemma foldlM_inv {f : σ → α → Except ε σ} (inv : List α → σ → Prop) {l : List α}
    (hstep : ∀ before x after s s', l = before ++ x :: after → inv before s → f s x = .ok s' →
      inv (before ++ [x]) s')
    {s s' : σ} (hinit : inv [] s) (h : l.foldlM f s = .ok s') : inv l s' := by
  have hrest : ∀ after before s, l = before ++ after → inv before s → after.foldlM f s = .ok s' →
      inv l s' := by
    intro after
    induction after with
    | nil =>
      intro before s hl hinv hrun
      rw [List.foldlM_nil, pure_eq_ok_iff] at hrun
      rw [hl, List.append_nil, ← hrun]
      exact hinv
    | cons x after ih =>
      intro before s hl hinv hrun
      rw [List.foldlM_cons, bind_eq_ok_iff] at hrun
      rcases hrun with ⟨t, ht, hrun⟩
      exact ih (before ++ [x]) t (by rw [hl, List.append_assoc, List.singleton_append])
        (hstep before x after s t hl hinv ht) hrun
  exact hrest l [] s rfl hinit h

/-- A loop of steps that leave the state alone leaves it alone. -/
lemma foldlM_eq_of_skips {f : σ → α → Except ε σ} {l : List α} {s : σ}
    (hskip : ∀ x ∈ l, f s x = .ok s) : l.foldlM f s = .ok s := by
  induction l with
  | nil => rfl
  | cons x l ih =>
    rw [List.foldlM_cons, bind_eq_ok_iff]
    exact ⟨s, hskip x List.mem_cons_self, ih fun y hy => hskip y (List.mem_cons_of_mem x hy)⟩

/-! ## Errors that do not occur -/

lemma bind_ne_error {x : Except ε α} {f : α → Except ε β} {e : ε} (hx : x ≠ .error e)
    (hf : ∀ a, x = .ok a → f a ≠ .error e) : (x >>= f) ≠ .error e := by
  cases x with
  | error e' =>
    intro h
    cases h
    exact hx rfl
  | ok a => exact hf a rfl

lemma check_ne_error {p : Prop} [Decidable p] {e e' : ε} {f : α → Except ε β} {x : Except ε β}
    (he : e' ≠ e) (hx : ¬ p → x ≠ .error e) : (if p then throw e' >>= f else x) ≠ .error e := by
  by_cases hp : p
  · rw [if_pos hp]
    intro h
    cases h
    exact he rfl
  · rw [if_neg hp]
    exact hx hp

/-- A loop that collects its results fails if one of its steps does. -/
lemma isSome_mapM_iff {f : α → Option β} {l : List α} :
    (l.mapM f).isSome ↔ ∀ x ∈ l, (f x).isSome := by
  induction l with
  | nil => simp
  | cons x l ih =>
    rw [List.forall_mem_cons, ← ih]
    cases hx : f x <;> cases hl : l.mapM f <;> simp [hx, hl]

end SpiderMonkey.Lib
