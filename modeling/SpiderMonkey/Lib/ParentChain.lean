import Mathlib

/-! # Chains of parents

A forest over the natural numbers is given by a parent for some of them. A number that
is its own parent ends its chain. `OnChain parent b x` says that `x` is `b` or is met on
the way up from `b`.
-/

namespace SpiderMonkey.Lib

/-- `x` is `b` or above it. -/
inductive OnChain (parent : Nat → Option Nat) : Nat → Nat → Prop
  | self (b : Nat) : OnChain parent b b
  | up {b a x : Nat} : parent b = some a → a ≠ b → OnChain parent a x → OnChain parent b x

/-- No parent is larger than its child. -/
def Decreasing (parent : Nat → Option Nat) : Prop := ∀ b a, parent b = some a → a ≤ b

namespace OnChain

variable {parent parent' : Nat → Option Nat} {a b c d x : Nat}

lemma trans (hab : OnChain parent b a) (hax : OnChain parent a x) : OnChain parent b x := by
  induction hab with
  | self => exact hax
  | up hparent hne _ ih => exact .up hparent hne (ih hax)

lemma le (hdec : Decreasing parent) (h : OnChain parent b x) : x ≤ b := by
  induction h with
  | self => exact Nat.le_refl _
  | up hparent _ _ ih =>
    have := hdec _ _ hparent
    omega

/-- What is strictly above `b` is above its parent. -/
lemma of_ne (h : OnChain parent b x) (hne : x ≠ b) :
    ∃ a, parent b = some a ∧ a ≠ b ∧ OnChain parent a x := by
  cases h with
  | self => exact absurd rfl hne
  | up hparent hab hax => exact ⟨_, hparent, hab, hax⟩

/-- Where nothing is above `b`, the chain is `b` alone. -/
lemma eq_of_parent_self (h : OnChain parent b x) (hparent : parent b = some b) : x = b := by
  by_contra hne
  rcases h.of_ne hne with ⟨a, ha, hab, _⟩
  exact hab (Option.some.inj (ha.symm.trans hparent))

/-- A chain only depends on the parents of numbers up to its start. -/
lemma congr (hdec : Decreasing parent) (hsame : ∀ n ≤ b, parent' n = parent n)
    (h : OnChain parent b x) : OnChain parent' b x := by
  induction h with
  | self => exact .self _
  | up hparent hne _ ih =>
    have hle := hdec _ _ hparent
    refine .up ((hsame _ (Nat.le_refl _)).trans hparent) hne (ih ?_)
    intro n hn
    exact hsame n (by omega)

/-- Moving the parent of `c` up its own chain adds nothing to any chain. -/
lemma of_update (hcd : OnChain parent c d)
    (h : OnChain (Function.update parent c (some d)) b x) : OnChain parent b x := by
  induction h with
  | self => exact .self _
  | @up b a x hparent hne _ ih =>
    by_cases hb : b = c
    · subst hb
      rw [Function.update_self] at hparent
      rw [← Option.some.inj hparent] at ih
      exact hcd.trans ih
    · rw [Function.update_of_ne hb] at hparent
      exact .up hparent hne ih

/-- A first parent for `c` adds nothing to the chains that do not meet `c`. -/
lemma of_update_none (hc : parent c = none)
    (hrecorded : ∀ b a, parent b = some a → (parent a).isSome = true)
    (hb : (parent b).isSome = true)
    (h : OnChain (Function.update parent c (some d)) b x) : OnChain parent b x := by
  induction h with
  | self => exact .self _
  | @up b a x hparent hne _ ih =>
    have hbc : b ≠ c := by
      intro hbc
      rw [hbc, hc] at hb
      exact absurd hb (by decide)
    rw [Function.update_of_ne hbc] at hparent
    exact .up hparent hne (ih (hrecorded _ _ hparent))

end OnChain
end SpiderMonkey.Lib
