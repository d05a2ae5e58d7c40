import Mathlib

/-! # Runs of free positions

The free ones of `n` positions, as a list of runs in ascending order: each run but the last by its
first and its last position, and the last run by its first position alone, since it goes on to the
end. That run may be empty, the others are not.
-/

namespace SpiderMonkey.Lib

/-- The runs are in order, and start at `lo` or later. -/
def RunsFrom (n : Nat) : Nat → List (Nat × Nat) → Nat → Prop
  | lo, [], tail => lo ≤ tail ∧ tail ≤ n
  | lo, r :: rs, tail => lo ≤ r.1 ∧ r.1 ≤ r.2 ∧ RunsFrom n (r.2 + 1) rs tail

/-- The positions in the runs. -/
def FreeAt (n : Nat) : List (Nat × Nat) → Nat → Nat → Prop
  | [], tail, k => tail ≤ k ∧ k < n
  | r :: rs, tail, k => (r.1 ≤ k ∧ k ≤ r.2) ∨ FreeAt n rs tail k

variable {n lo lo' tail k i j : Nat} {rs : List (Nat × Nat)}

lemma RunsFrom.mono (h : RunsFrom n lo rs tail) (hle : lo' ≤ lo) : RunsFrom n lo' rs tail := by
  cases rs with
  | nil => exact ⟨Nat.le_trans hle h.1, h.2⟩
  | cons r rs => exact ⟨Nat.le_trans hle h.1, h.2⟩

lemma RunsFrom.le (h : RunsFrom n lo rs tail) : lo ≤ n := by
  induction rs generalizing lo with
  | nil => exact Nat.le_trans h.1 h.2
  | cons r rs ih =>
    have hrest := ih h.2.2
    have hr := h.1
    have hr' := h.2.1
    omega

lemma RunsFrom.bounds (h : RunsFrom n lo rs tail) (hk : FreeAt n rs tail k) : lo ≤ k ∧ k < n := by
  induction rs generalizing lo with
  | nil => exact ⟨Nat.le_trans h.1 hk.1, hk.2⟩
  | cons r rs ih =>
    have hr := h.1
    have hr' := h.2.1
    have hn := h.2.2.le
    rcases hk with hk | hk
    · omega
    · have hrest := ih h.2.2 hk
      omega

/-- Nothing before the first run is free. -/
lemma RunsFrom.not_free (h : RunsFrom n lo rs tail) (hk : k < lo) : ¬ FreeAt n rs tail k :=
  fun hfree => absurd (h.bounds hfree).1 (Nat.not_le_of_lt hk)

/-- The first position of a run of several goes. -/
lemma freeAt_succ (h : RunsFrom n lo ((i, j) :: rs) tail) (hij : i < j) :
    RunsFrom n (i + 1) ((i + 1, j) :: rs) tail ∧
      ∀ k, FreeAt n ((i + 1, j) :: rs) tail k ↔ FreeAt n ((i, j) :: rs) tail k ∧ k ≠ i := by
  refine ⟨⟨Nat.le_refl _, hij, h.2.2⟩, fun k => ?_⟩
  have hrest : FreeAt n rs tail k → j < k := fun hk => (h.2.2.bounds hk).1
  constructor
  · rintro (hk | hk)
    · exact ⟨.inl ⟨Nat.le_of_succ_le hk.1, hk.2⟩, Nat.ne_of_gt hk.1⟩
    · exact ⟨.inr hk, Nat.ne_of_gt (Nat.lt_trans hij (hrest hk))⟩
  · rintro ⟨hk | hk, hne⟩
    · exact .inl ⟨Nat.lt_of_le_of_ne hk.1 (Ne.symm hne), hk.2⟩
    · exact .inr hk

/-- A run of one position goes. -/
lemma freeAt_drop (h : RunsFrom n lo ((i, i) :: rs) tail) :
    ∀ k, FreeAt n rs tail k ↔ FreeAt n ((i, i) :: rs) tail k ∧ k ≠ i := by
  intro k
  constructor
  · intro hk
    exact ⟨.inr hk, Nat.ne_of_gt (h.2.2.bounds hk).1⟩
  · rintro ⟨hk | hk, hne⟩
    · exact absurd (Nat.le_antisymm hk.2 hk.1) hne
    · exact hk

/-- The first position of the last run goes. -/
lemma freeAt_tail_succ : ∀ k, FreeAt n [] (tail + 1) k ↔ FreeAt n [] tail k ∧ k ≠ tail := by
  intro k
  constructor
  · intro hk
    exact ⟨⟨Nat.le_of_succ_le hk.1, hk.2⟩, Nat.ne_of_gt hk.1⟩
  · rintro ⟨hk, hne⟩
    exact ⟨Nat.lt_of_le_of_ne hk.1 (Ne.symm hne), hk.2⟩

/-- With no position free there is only the empty last run. -/
lemma RunsFrom.eq_of_full (h : RunsFrom n lo rs tail) (hfull : ∀ k, ¬ FreeAt n rs tail k) :
    rs = [] ∧ tail = n := by
  cases rs with
  | nil =>
    have htail : ¬ tail < n := fun hlt => hfull tail ⟨Nat.le_refl _, hlt⟩
    exact ⟨rfl, Nat.le_antisymm h.2 (Nat.le_of_not_lt htail)⟩
  | cons r rs => exact absurd (.inl ⟨Nat.le_refl _, h.2.1⟩) (hfull r.1)

end SpiderMonkey.Lib
