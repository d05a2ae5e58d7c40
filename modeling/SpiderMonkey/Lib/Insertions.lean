import Mathlib

/-! # Insertions in a sequence

A sequence of units, counted from zero, into which blocks are inserted at increasing offsets: a block
at an offset stands before the unit at that offset. A unit moves by the sizes of the blocks at or
before its offset. -/

namespace SpiderMonkey.Insertions

open List

variable {α : Type} (offset size : α → ℤ) (blocks : List α)

/-- The number of blocks at or before an offset. -/
def count (o : ℤ) : ℕ := blocks.countP fun b => offset b ≤ o

/-- The size of the first `n` blocks. -/
def total (n : ℕ) : ℤ := ((blocks.take n).map size).sum

/-- Where the unit at an offset is with the blocks in place. -/
def position (o : ℤ) : ℤ := o + total size blocks (count offset blocks o)

/-- The blocks are in the order of their offsets. -/
def Increasing : Prop := blocks.Pairwise fun b c => offset b ≤ offset c

variable {offset size blocks}

lemma count_le_length (o : ℤ) : count offset blocks o ≤ blocks.length := countP_le_length

lemma count_mono {o o' : ℤ} (h : o ≤ o') : count offset blocks o ≤ count offset blocks o' := by
  refine countP_mono_left fun b _ hb => ?_
  exact decide_eq_true ((of_decide_eq_true hb).trans h)

lemma total_succ {n : ℕ} {b : α} (h : blocks[n]? = some b) :
    total size blocks (n + 1) = total size blocks n + size b := by
  rw [total, take_add_one, h, map_append, sum_append]
  exact congrArg (total size blocks n + ·) sum_singleton

lemma total_append {first last : List α} {n : ℕ} (h : n ≤ first.length) :
    total size (first ++ last) n = total size first n := by
  rw [total, take_append_of_le_length h]
  rfl

/-- An offset with the blocks at or before it first has just these before it. -/
lemma count_append {first last : List α} {o : ℤ} (hfirst : ∀ b ∈ first, offset b ≤ o)
    (hlast : ∀ b ∈ last, o < offset b) : count offset (first ++ last) o = first.length := by
  have hnone : last.countP (fun b => decide (offset b ≤ o)) = 0 :=
    countP_eq_zero.2 fun b hb => by simpa using hlast b hb
  rw [count, countP_append, hnone, Nat.add_zero]
  exact countP_eq_length.2 fun b hb => decide_eq_true (hfirst b hb)

/-- An offset splits the blocks. -/
lemma exists_split (h : Increasing offset blocks) (o : ℤ) : ∃ first last, blocks = first ++ last ∧
    (∀ b ∈ first, offset b ≤ o) ∧ ∀ b ∈ last, o < offset b := by
  induction blocks with
  | nil => exact ⟨[], [], rfl, nofun, nofun⟩
  | cons b rest ih =>
    obtain ⟨hb, hrest⟩ := pairwise_cons.1 h
    rcases lt_or_ge o (offset b) with hlt | hge
    · refine ⟨[], b :: rest, rfl, nofun, ?_⟩
      intro c hc
      rcases mem_cons.1 hc with rfl | hc
      · exact hlt
      · exact hlt.trans_le (hb c hc)
    · obtain ⟨first, last, hsplit, hfirst, hlast⟩ := ih hrest
      refine ⟨b :: first, last, congrArg (b :: ·) hsplit, ?_, hlast⟩
      intro c hc
      rcases mem_cons.1 hc with rfl | hc
      · exact hge
      · exact hfirst c hc

lemma lt_count_iff (h : Increasing offset blocks) {o : ℤ} {n : ℕ} {b : α}
    (hb : blocks[n]? = some b) : n < count offset blocks o ↔ offset b ≤ o := by
  obtain ⟨first, last, rfl, hfirst, hlast⟩ := exists_split h o
  rw [count_append hfirst hlast]
  rcases Nat.lt_or_ge n first.length with hn | hn
  · rw [List.getElem?_append_left hn] at hb
    exact iff_of_true hn (hfirst b (mem_of_getElem? hb))
  · rw [List.getElem?_append_right hn] at hb
    exact iff_of_false hn.not_gt (hlast b (mem_of_getElem? hb)).not_ge

/-- A unit is behind the blocks before it. -/
lemma position_of_split {first last : List α} {o : ℤ} (hfirst : ∀ b ∈ first, offset b ≤ o)
    (hlast : ∀ b ∈ last, o < offset b) :
    position offset size (first ++ last) o = o + total size first first.length := by
  rw [position, count_append hfirst hlast, total_append (Nat.le_refl _)]

end SpiderMonkey.Insertions
