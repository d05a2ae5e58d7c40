import Mathlib

/-! # 32-bit signed integers as bounded integers

An int32 is an integer between `int32Min` and `int32Max`. Arithmetic is done in
`Int`, and `wrap32` brings a result back into the range the way a 32-bit
register does (two's complement, modulo `2 ^ 32`).
-/

namespace SpiderMonkey.Lib

/-- `INT32_MIN`. -/
abbrev int32Min : Int := -2147483648

/-- `INT32_MAX`. -/
abbrev int32Max : Int := 2147483647

/-- The integers a 32-bit signed register holds. -/
def IsInt32 (x : Int) : Prop := int32Min ≤ x ∧ x ≤ int32Max

instance (x : Int) : Decidable (IsInt32 x) := inferInstanceAs (Decidable (_ ∧ _))

/-- Two's complement reduction modulo `2 ^ 32`. -/
def wrap32 (x : Int) : Int := (x + 2147483648) % 4294967296 - 2147483648

lemma isInt32_wrap32 (x : Int) : IsInt32 (wrap32 x) := by
  unfold IsInt32 int32Min int32Max wrap32
  omega

/-- Reduction does nothing to an integer already in range. -/
lemma wrap32_of_isInt32 {x : Int} (hx : IsInt32 x) : wrap32 x = x := by
  unfold IsInt32 int32Min int32Max at hx
  unfold wrap32
  omega

/-- Reduction is congruence modulo `2 ^ 32`. -/
lemma wrap32_emod (x : Int) : wrap32 x % 4294967296 = x % 4294967296 := by
  unfold wrap32
  omega

/-- An integer is its reduction plus a multiple of `2 ^ 32`. -/
lemma exists_wrap32_add (x : Int) : ∃ k : Int, x = wrap32 x + 4294967296 * k :=
  ⟨(x + 2147483648) / 4294967296, by unfold wrap32; omega⟩

/-- Two integers with the same reduction differ by a multiple of `2 ^ 32`. -/
lemma wrap32_eq_iff {x y : Int} : wrap32 x = wrap32 y ↔ x % 4294967296 = y % 4294967296 := by
  unfold wrap32
  omega

@[simp] lemma wrap32_wrap32 (x : Int) : wrap32 (wrap32 x) = wrap32 x :=
  wrap32_of_isInt32 (isInt32_wrap32 x)

/-! ## The machine type -/

/-- An `Int32` is in range. -/
lemma isInt32_toInt (n : Int32) : IsInt32 n.toInt := by
  have hlow := n.le_toInt
  have hhigh := n.toInt_lt
  unfold IsInt32 int32Min int32Max
  omega

/-- Machine addition wraps. -/
lemma toInt_add (a b : Int32) : (a + b).toInt = wrap32 (a.toInt + b.toInt) := by
  rw [Int32.toInt_add, Int.bmod_def]
  unfold wrap32
  split_ifs <;> omega

/-- The conversion to unsigned is the residue modulo `2 ^ 32`. -/
lemma toUInt32_toNat (x : Int32) : (x.toUInt32.toNat : Int) = x.toInt % 4294967296 := by
  have h : x.toInt = (x.toUInt32.toNat : Int).bmod 4294967296 := x.toBitVec.toInt_eq_toNat_bmod
  have hlt := x.toUInt32.toNat_lt
  rw [h, Int.bmod_def]
  split_ifs <;> omega

/-! ## Powers of two below the word size -/

/-- `2 ^ k` for a shift amount `k < 32`. -/
lemma two_pow_pos (k : Nat) : (0 : Int) < 2 ^ k := by positivity

lemma two_pow_mul_two_pow_sub {k : Nat} (hk : k < 32) :
    (2 : Int) ^ (31 - k) * 2 ^ k = 2147483648 := by
  rw [← pow_add, show 31 - k + k = 31 by omega]
  norm_num

lemma two_pow_le {k : Nat} (hk : k < 32) : (2 : Int) ^ k ≤ 2147483648 := by
  have h := two_pow_mul_two_pow_sub hk
  have hpos := two_pow_pos (31 - k)
  have hk0 := two_pow_pos k
  nlinarith

/-- A shifted value that leaves the 32 bits keeps its low `k` bits zero. -/
lemma two_pow_dvd_wrap32_mul {k : Nat} (hk : k < 32) (x : Int) :
    (2 : Int) ^ k ∣ wrap32 (x * 2 ^ k) := by
  obtain ⟨j, hj⟩ := exists_wrap32_add (x * 2 ^ k)
  have hword : (2 : Int) ^ k ∣ 4294967296 := by
    refine ⟨2 ^ (31 - k) * 2, ?_⟩
    have h := two_pow_mul_two_pow_sub hk
    linarith [mul_comm ((2 : Int) ^ k) (2 ^ (31 - k))]
  have heq : wrap32 (x * 2 ^ k) = x * 2 ^ k - 4294967296 * j := by omega
  rw [heq]
  exact Int.dvd_sub (Int.dvd_mul_left _ _) (hword.mul_right j)

end SpiderMonkey.Lib
