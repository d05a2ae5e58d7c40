import Mathlib

/-! # Stable sorting

A comparison is a function to `Bool` that is transitive and total. `StableSort le l sorted`: the
sorted list has the elements of `l` in ascending order, and those that are equivalent in the order
in which they are in `l`.
-/

namespace SpiderMonkey.Lib

open List

variable {α : Type}

/-- `le` is a total preorder. -/
structure Compares (le : α → α → Bool) : Prop where
  trans : ∀ a b c, le a b = true → le b c = true → le a c = true
  total : ∀ a b, (le a b || le b a) = true

namespace Compares

variable {le : α → α → Bool}

lemma le_of_not_le (h : Compares le) {a b : α} (hab : le a b = false) : le b a = true := by
  have htotal := h.total a b
  rwa [hab, Bool.false_or] at htotal

lemma refl (h : Compares le) (a : α) : le a a = true := by
  simpa using h.total a a

/-- A comparison of keys. -/
lemma comap {β : Type} (h : Compares le) (key : β → α) :
    Compares fun a b => le (key a) (key b) :=
  ⟨fun a b c => h.trans (key a) (key b) (key c), fun a b => h.total (key a) (key b)⟩

end Compares

/-- Neither is before the other. -/
def equivalent (le : α → α → Bool) (a b : α) : Bool := le a b && le b a

/-- In ascending order. -/
def Ascending (le : α → α → Bool) (l : List α) : Prop := l.Pairwise fun a b => le a b = true

/-- Equivalent elements are in the same order in both lists. -/
def SameClasses (le : α → α → Bool) (l l' : List α) : Prop :=
  ∀ k, l'.filter (equivalent le k) = l.filter (equivalent le k)

structure StableSort (le : α → α → Bool) (l sorted : List α) : Prop where
  perm : sorted.Perm l
  ascending : Ascending le sorted
  classes : SameClasses le l sorted

variable {le : α → α → Bool}

lemma SameClasses.trans {l l' l'' : List α} (h : SameClasses le l l')
    (h' : SameClasses le l' l'') : SameClasses le l l'' :=
  fun k => (h' k).trans (h k)

lemma SameClasses.append {l₁ l₁' l₂ l₂' : List α} (h₁ : SameClasses le l₁ l₁')
    (h₂ : SameClasses le l₂ l₂') : SameClasses le (l₁ ++ l₂) (l₁' ++ l₂') := by
  intro k
  rw [filter_append, filter_append, h₁ k, h₂ k]

/-- Two neighbours in the wrong order can be exchanged. -/
lemma SameClasses.swap (h : Compares le) {a b : α} (hab : le a b = false) (l l' : List α) :
    SameClasses le (l ++ a :: b :: l') (l ++ b :: a :: l') := by
  intro k
  have hnot : ¬ (equivalent le k a = true ∧ equivalent le k b = true) := by
    intro hboth
    simp only [equivalent, Bool.and_eq_true] at hboth
    have hle := h.trans a k b hboth.1.2 hboth.2.1
    rw [hab] at hle
    cases hle
  rw [filter_append, filter_append]
  congr 1
  cases ha : equivalent le k a with
  | false => simp [filter_cons, ha]
  | true =>
    have hb : equivalent le k b = false := by
      rw [ha] at hnot
      simpa using hnot
    simp [ha, hb]

/-- Merging two ascending lists, the first one's elements first. -/
lemma SameClasses.merge (h : Compares le) (l l' : List α) (hl : Ascending le l) :
    SameClasses le (l ++ l') (l.merge l' le) := by
  intro k
  induction l generalizing l' with
  | nil => simp
  | cons a l ihl =>
    induction l' with
    | nil => simp
    | cons b l' ihl' =>
      rw [cons_merge_cons]
      cases hab : le a b with
      | true =>
        have hrest := ihl (b :: l') (List.Pairwise.of_cons hl)
        rw [if_pos rfl, cons_append, filter_cons, filter_cons, hrest]
      | false =>
        -- what is after `b` in the order cannot be equivalent to it
        have hafter : equivalent le k b = true → (a :: l).filter (equivalent le k) = [] := by
          intro hkb
          rw [filter_eq_nil_iff]
          intro c hc hkc
          simp only [equivalent, Bool.and_eq_true] at hkb hkc
          have hac : le a c = true := by
            rcases mem_cons.1 hc with rfl | hc
            · exact h.refl c
            · exact rel_of_pairwise_cons hl hc
          have hle := h.trans a k b (h.trans a c k hac hkc.2) hkb.1
          rw [hab] at hle
          cases hle
        rw [if_neg (by simp), filter_cons, ihl', filter_append, filter_append]
        cases hkb : equivalent le k b with
        | false => simp [hkb]
        | true => simp [hafter hkb, hkb]

lemma Ascending.merge (h : Compares le) {l l' : List α} (hl : Ascending le l)
    (hl' : Ascending le l') : Ascending le (l.merge l' le) :=
  pairwise_merge h.trans h.total l l' hl hl'

lemma equivalent_congr (h : Compares le) {k a : α} (hka : equivalent le k a = true) (b : α) :
    equivalent le k b = equivalent le a b := by
  simp only [equivalent, Bool.and_eq_true] at hka
  rw [Bool.eq_iff_iff]
  simp only [equivalent, Bool.and_eq_true]
  constructor
  · intro hkb
    exact ⟨h.trans a k b hka.2 hkb.1, h.trans b k a hkb.2 hka.1⟩
  · intro hab
    exact ⟨h.trans k a b hka.1 hab.1, h.trans b a k hab.2 hka.2⟩

/-- Elements that stand for others, and are compared as those are. -/
lemma StableSort.map {β : Type} {le' : β → β → Bool} (h' : Compares le') {f : α → β}
    {l sorted : List α} (hle : ∀ a ∈ l, ∀ b ∈ l, le' (f a) (f b) = le a b)
    (hs : StableSort le l sorted) : StableSort le' (l.map f) (sorted.map f) := by
  have hmem : ∀ a ∈ sorted, a ∈ l := fun a ha => hs.perm.subset ha
  refine ⟨hs.perm.map f, ?_, ?_⟩
  · apply pairwise_map.2
    apply List.Pairwise.imp_of_mem _ hs.ascending
    intro a b ha hb hab
    rw [hle a (hmem a ha) b (hmem b hb)]
    exact hab
  · intro k
    rw [filter_map, filter_map]
    congr 1
    by_cases hclass : ∃ a ∈ l, equivalent le' k (f a) = true
    · rcases hclass with ⟨a, ha, hka⟩
      have hsame : ∀ b ∈ l, (equivalent le' k ∘ f) b = equivalent le a b := by
        intro b hb
        show equivalent le' k (f b) = _
        rw [equivalent_congr h' hka, equivalent, equivalent, hle a ha b hb, hle b hb a ha]
      rw [filter_congr hsame, filter_congr fun b hb => hsame b (hmem b hb)]
      exact hs.classes a
    · have hnone : ∀ b ∈ l, ¬ (equivalent le' k ∘ f) b = true := fun b hb hkb => hclass ⟨b, hb, hkb⟩
      rw [filter_eq_nil_iff.2 hnone,
        filter_eq_nil_iff.2 fun b hb => hnone b (hmem b hb)]

end SpiderMonkey.Lib
