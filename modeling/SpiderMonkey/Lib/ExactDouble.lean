import Mathlib

/-! # Doubles in exact arithmetic

What the operations on doubles yield where nothing is rounded: rational numbers, with `floor`, `fmod`
and the conversion to an integer.
-/

namespace SpiderMonkey.Lib.Exact

open Int

def floor (x : ℚ) : ℚ := ⌊x⌋

/-- The conversion to an integer type, towards zero. -/
def toInt (x : ℚ) : ℤ := if 0 ≤ x then ⌊x⌋ else ⌈x⌉

/-- What is left of `x` after a whole number of `y`; it has the sign of `x`. -/
def fmod (x y : ℚ) : ℚ := x - y * toInt (x / y)

@[simp] lemma toInt_cast (n : ℤ) : toInt n = n := by
  rw [toInt]
  split_ifs
  · exact floor_intCast n
  · exact ceil_intCast n

lemma floor_div (n : ℤ) {d : ℕ} : floor ((n : ℚ) / (d : ℚ)) = ((n / (d : ℤ) : ℤ) : ℚ) := by
  rw [floor, Rat.floor_intCast_div_natCast]

lemma toInt_div (n : ℤ) {d : ℕ} (hd : 0 < d) : toInt ((n : ℚ) / (d : ℚ)) = n.tdiv d := by
  have hd' : (0 : ℚ) < d := Nat.cast_pos.mpr hd
  rw [toInt]
  by_cases hn : 0 ≤ n
  · rw [if_pos (div_nonneg (cast_nonneg hn) hd'.le), Rat.floor_intCast_div_natCast,
      tdiv_eq_ediv_of_nonneg hn]
  · have hneg : n < 0 := lt_of_not_ge hn
    rw [if_neg (not_le.mpr (div_neg_of_neg_of_pos (cast_lt_zero.mpr hneg) hd')),
      Rat.ceil_intCast_div_natCast]
    obtain ⟨k, rfl⟩ : ∃ k, n = -k := ⟨-n, (neg_neg n).symm⟩
    rw [Int.neg_neg, Int.neg_tdiv, Int.tdiv_eq_ediv_of_nonneg (by omega)]

lemma fmod_cast (n : ℤ) {d : ℕ} (hd : 0 < d) : fmod n d = ((n.tmod d : ℤ) : ℚ) := by
  rw [fmod, toInt_div n hd, tmod_def]
  push_cast
  rfl

lemma tmod_wrap (n : ℤ) {d : ℕ} (hd : 0 < d) :
    (if n.tmod d < 0 then n.tmod d + d else n.tmod d) = n % (d : ℤ) := by
  have hpos : (0 : ℤ) < d := natCast_pos.mpr hd
  have hlt := emod_lt_of_pos n hpos
  have hge := emod_nonneg n hpos.ne'
  have htmod := tmod_eq_emod (a := n) (b := d)
  rw [natAbs_natCast] at htmod
  split_ifs at htmod ⊢ <;> omega

/-- What is left, from zero up: the usual correction of `fmod`. -/
lemma fmod_wrap (n : ℤ) {d : ℕ} (hd : 0 < d) :
    (if fmod n d < 0 then fmod n d + d else fmod n d) = ((n % (d : ℤ) : ℤ) : ℚ) := by
  rw [fmod_cast n hd, ← tmod_wrap n hd]
  by_cases hneg : n.tmod d < 0
  · have hsum : ((n.tmod d : ℤ) : ℚ) + (d : ℚ) = ((n.tmod d + d : ℤ) : ℚ) := by
      push_cast
      rfl
    rw [if_pos (cast_lt_zero.mpr hneg), hsum, if_pos hneg]
  · rw [if_neg (not_lt.mpr (cast_nonneg (not_lt.mp hneg))), if_neg hneg]

lemma fmod_eq_zero (n : ℤ) {d : ℕ} (hd : 0 < d) : fmod n d = 0 ↔ n % (d : ℤ) = 0 := by
  rw [fmod_cast n hd, cast_eq_zero, ← dvd_iff_tmod_eq_zero, dvd_iff_emod_eq_zero]

end SpiderMonkey.Lib.Exact
