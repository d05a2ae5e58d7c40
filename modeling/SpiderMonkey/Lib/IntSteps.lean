import Mathlib

/-! # Functions of integers

How often a function changes its value between two integers, and between which two of its values an
integer lies.
-/

namespace SpiderMonkey.Lib

/-- The value at `x` is not that before. -/
def ChangesAt {α : Type*} (f : Int → α) (x : Int) : Prop := f (x - 1) ≠ f x

/-- Without a change the value stays. -/
lemma eq_of_no_change {α : Type*} {f : Int → α} {a b : Int} (hab : a ≤ b)
    (h : ∀ x, a < x → x ≤ b → ¬ ChangesAt f x) : f b = f a := by
  obtain ⟨n, rfl⟩ := Int.le.dest hab
  induction n with
  | zero => rw [Int.natCast_zero, Int.add_zero]
  | succ n ih =>
    have hlast : f (a + n) = f (a + (n + 1 : Nat)) := by
      have hnot := h (a + (n + 1 : Nat)) (by omega) (Int.le_refl _)
      rw [ChangesAt, not_not, show a + ((n + 1 : Nat) : Int) - 1 = a + n by omega] at hnot
      exact hnot
    rw [← hlast]
    exact ih (by omega) fun x hx hxb => h x hx (by omega)

/-- After a different value there has been a change. -/
lemma exists_change {α : Type*} {f : Int → α} {a b : Int} (hab : a ≤ b) (hne : f b ≠ f a) :
    ∃ x, a < x ∧ x ≤ b ∧ ChangesAt f x := by
  by_contra hnone
  exact hne (eq_of_no_change hab fun x hx hxb hchange => hnone ⟨x, hx, hxb, hchange⟩)

/-- With no more than one change there are no values but those at the ends. -/
lemma eq_left_or_right {α : Type*} {f : Int → α} {a b : Int}
    (h : ∀ x y, a < x → x ≤ b → a < y → y ≤ b → ChangesAt f x → ChangesAt f y → x = y) {x : Int}
    (hax : a ≤ x) (hxb : x ≤ b) : f x = f a ∨ f x = f b := by
  by_contra hneither
  obtain ⟨ha, hb⟩ := not_or.mp hneither
  obtain ⟨y, hay, hyx, hy⟩ := exists_change hax ha
  obtain ⟨z, hxz, hzb, hz⟩ := exists_change hxb (Ne.symm hb)
  have heq := h y z hay (hyx.trans hxb) (lt_of_le_of_lt hax hxz) hzb hy hz
  omega

/-- An integer lies between at most two consecutive values of an increasing function. -/
lemma unique_between {f : Int → Int} (hf : StrictMono f) {t x y : Int} (hx : f x ≤ t)
    (hx' : t < f (x + 1)) (hy : f y ≤ t) (hy' : t < f (y + 1)) : x = y := by
  have hxy : x < y + 1 := hf.lt_iff_lt.mp (lt_of_le_of_lt hx hy')
  have hyx : y < x + 1 := hf.lt_iff_lt.mp (lt_of_le_of_lt hy hx')
  omega

/-- Between two values of a function there are two consecutive ones around an integer. -/
lemma exists_between {f : Int → Int} {d : Int} (n : Nat) (h0 : f 0 ≤ d) (hn : d < f n) :
    ∃ m : Int, 0 ≤ m ∧ m < n ∧ f m ≤ d ∧ d < f (m + 1) := by
  induction n with
  | zero => exact absurd (lt_of_le_of_lt h0 hn) (lt_irrefl _)
  | succ n ih =>
    by_cases hlast : f n ≤ d
    · exact ⟨n, Int.natCast_nonneg n, by omega, hlast, hn⟩
    · obtain ⟨m, hm, hmn, hle, hlt⟩ := ih (Int.not_le.mp hlast)
      exact ⟨m, hm, by omega, hle, hlt⟩

end SpiderMonkey.Lib
