import Mathlib

/-! # Lists of ranges

Sets of positions as lists of half-open ranges, in ascending order and apart from each other.
-/

namespace SpiderMonkey.Lib

/-- The positions from `fromPos` up to `toPos`, which is not one of them. -/
structure HalfOpen (α : Type) [LT α] where
  fromPos : α
  toPos : α
  lt : fromPos < toPos
deriving DecidableEq

namespace HalfOpen

variable {α : Type} [LinearOrder α]

instance : Membership α (HalfOpen α) := ⟨fun r p => r.fromPos ≤ p ∧ p < r.toPos⟩

lemma mem_iff {r : HalfOpen α} {p : α} : p ∈ r ↔ r.fromPos ≤ p ∧ p < r.toPos := Iff.rfl

instance (r : HalfOpen α) (p : α) : Decidable (p ∈ r) :=
  inferInstanceAs (Decidable (_ ∧ _))

lemma fromPos_mem (r : HalfOpen α) : r.fromPos ∈ r := ⟨le_rfl, r.lt⟩

end HalfOpen

variable {α : Type} [LinearOrder α]

/-- A position is in one of the ranges. -/
def Covers (rs : List (HalfOpen α)) (p : α) : Prop := ∃ r ∈ rs, p ∈ r

instance (rs : List (HalfOpen α)) (p : α) : Decidable (Covers rs p) :=
  inferInstanceAs (Decidable (∃ r ∈ rs, p ∈ r))

/-- Each range ends before the later ones start. -/
def Ordered (rs : List (HalfOpen α)) : Prop := rs.Pairwise fun r r' => r.toPos ≤ r'.fromPos

@[simp] lemma covers_nil (p : α) : ¬ Covers [] p := by
  rintro ⟨r, hr, _⟩
  cases hr

@[simp] lemma covers_cons (r : HalfOpen α) (rs : List (HalfOpen α)) (p : α) :
    Covers (r :: rs) p ↔ p ∈ r ∨ Covers rs p := by
  constructor
  · rintro ⟨r', hr', hp⟩
    rcases List.mem_cons.1 hr' with rfl | hr'
    · exact Or.inl hp
    · exact Or.inr ⟨r', hr', hp⟩
  · rintro (hp | ⟨r', hr', hp⟩)
    · exact ⟨r, List.mem_cons_self, hp⟩
    · exact ⟨r', List.mem_cons_of_mem r hr', hp⟩

@[simp] lemma covers_append (rs rs' : List (HalfOpen α)) (p : α) :
    Covers (rs ++ rs') p ↔ Covers rs p ∨ Covers rs' p := by
  induction rs with
  | nil => simp
  | cons r rs ih => simp [ih, or_assoc]

lemma ordered_cons {r : HalfOpen α} {rs : List (HalfOpen α)} :
    Ordered (r :: rs) ↔ (∀ r' ∈ rs, r.toPos ≤ r'.fromPos) ∧ Ordered rs :=
  List.pairwise_cons

lemma ordered_append {rs rs' : List (HalfOpen α)} :
    Ordered (rs ++ rs') ↔
      Ordered rs ∧ Ordered rs' ∧ ∀ r ∈ rs, ∀ r' ∈ rs', r.toPos ≤ r'.fromPos :=
  List.pairwise_append

/-- Nothing is covered before the start of the first range. -/
lemma Ordered.head_le {r : HalfOpen α} {rs : List (HalfOpen α)} (h : Ordered (r :: rs)) {p : α}
    (hp : Covers (r :: rs) p) : r.fromPos ≤ p := by
  rcases (covers_cons r rs p).1 hp with hp | ⟨r', hr', hp⟩
  · exact hp.1
  · have hlt := (ordered_cons.1 h).1 r' hr'
    exact le_trans (le_trans (le_of_lt r.lt) hlt) hp.1

/-- Nor from the end of the last one. -/
lemma Ordered.lt_getLast {rs : List (HalfOpen α)} (h : Ordered rs) (hne : rs ≠ []) {p : α}
    (hp : Covers rs p) : p < (rs.getLast hne).toPos := by
  have happend := List.dropLast_append_getLast hne
  rw [← happend] at h hp
  rcases (covers_append _ _ p).1 hp with ⟨r, hr, hp⟩ | ⟨r, hr, hp⟩
  · have hle := (ordered_append.1 h).2.2 r hr _ List.mem_cons_self
    exact lt_trans (lt_of_lt_of_le hp.2 hle) (rs.getLast hne).lt
  · rw [List.mem_singleton.1 hr] at hp
    exact hp.2

end SpiderMonkey.Lib
