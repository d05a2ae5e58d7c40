import Mathlib

/-! # Rounding to a number of bits

Natural numbers rounded to `p` significant bits: to the nearest number of so many bits, and where
two are at the same distance, to the one that is even in its last bit.
-/

namespace SpiderMonkey.Lib

/-- A number of at most `p` significant bits. -/
def Fits (p n : ℕ) : Prop := ∃ m e, m < 2 ^ p ∧ n = m * 2 ^ e

/-- The quotient by `2 ^ k`, rounded. -/
def roundQuotient (m k : ℕ) : ℕ :=
  if 2 * (m % 2 ^ k) < 2 ^ k ∨ 2 * (m % 2 ^ k) = 2 ^ k ∧ m / 2 ^ k % 2 = 0 then m / 2 ^ k
  else m / 2 ^ k + 1

/-- The bits behind the first `p`. -/
def excessBits (p m : ℕ) : ℕ := m.log2 + 1 - p

def roundEven (p m : ℕ) : ℕ := roundQuotient m (excessBits p m) * 2 ^ excessBits p m

/-- What rounding to the nearest means; with one bit less, a number is even in its last bit. -/
structure IsNearestEven (p m r : ℕ) : Prop where
  fits : Fits p r
  nearest : ∀ s, Fits p s → |(m : ℤ) - r| ≤ |(m : ℤ) - s|
  even : ∀ s, Fits p s → s ≠ r → |(m : ℤ) - s| = |(m : ℤ) - r| → Fits (p - 1) r

/-! ## Quotients -/

lemma roundQuotient_le (m k : ℕ) : roundQuotient m k ≤ m / 2 ^ k + 1 := by
  rw [roundQuotient]
  split_ifs
  · omega
  · exact Nat.le_refl _

/-- No multiple is nearer. -/
lemma roundQuotient_nearest (m k j : ℕ) :
    |(m : ℤ) - (roundQuotient m k * 2 ^ k : ℕ)| ≤ |(m : ℤ) - (j * 2 ^ k : ℕ)| := by
  have hsplit := Nat.div_add_mod' m (2 ^ k)
  have hlt := Nat.mod_lt m (Nat.two_pow_pos k)
  have hbelow (h : j ≤ m / 2 ^ k) : j * 2 ^ k ≤ m / 2 ^ k * 2 ^ k := Nat.mul_le_mul_right _ h
  have habove (h : m / 2 ^ k + 1 ≤ j) : (m / 2 ^ k + 1) * 2 ^ k ≤ j * 2 ^ k :=
    Nat.mul_le_mul_right _ h
  rw [Nat.add_mul, Nat.one_mul] at habove
  rw [roundQuotient]
  rcases Nat.lt_or_ge (m / 2 ^ k) j with hj | hj
  · have := habove hj
    split_ifs
    · rw [abs_of_nonneg (by omega), abs_of_nonpos (by omega)]
      omega
    · rw [Nat.add_mul, Nat.one_mul, abs_of_nonpos (by omega), abs_of_nonpos (by omega)]
      omega
  · have := hbelow hj
    split_ifs
    · rw [abs_of_nonneg (by omega), abs_of_nonneg (by omega)]
      omega
    · rw [Nat.add_mul, Nat.one_mul, abs_of_nonpos (by omega), abs_of_nonneg (by omega)]
      omega

/-- If another multiple is as near, the quotient is even. -/
lemma roundQuotient_even {m k j : ℕ} (hj : j ≠ roundQuotient m k)
    (htie : |(m : ℤ) - (j * 2 ^ k : ℕ)| = |(m : ℤ) - (roundQuotient m k * 2 ^ k : ℕ)|) :
    roundQuotient m k % 2 = 0 := by
  have hsplit := Nat.div_add_mod' m (2 ^ k)
  have hlt := Nat.mod_lt m (Nat.two_pow_pos k)
  have hbelow (h : j + 1 ≤ m / 2 ^ k) : (j + 1) * 2 ^ k ≤ m / 2 ^ k * 2 ^ k :=
    Nat.mul_le_mul_right _ h
  have habove (h : m / 2 ^ k + 2 ≤ j) : (m / 2 ^ k + 2) * 2 ^ k ≤ j * 2 ^ k :=
    Nat.mul_le_mul_right _ h
  rw [Nat.add_mul] at hbelow habove
  rw [roundQuotient] at hj htie ⊢
  rcases Nat.lt_trichotomy j (m / 2 ^ k) with hcmp | rfl | hcmp
  · have := hbelow hcmp
    rw [abs_of_nonneg (by omega)] at htie
    split_ifs at hj htie ⊢ with h
    · rw [abs_of_nonneg (by omega)] at htie
      omega
    · rw [Nat.add_mul, Nat.one_mul, abs_of_nonpos (by omega)] at htie
      omega
  · rw [abs_of_nonneg (by omega)] at htie
    split_ifs at hj htie ⊢ with h
    · omega
    · rw [Nat.add_mul, Nat.one_mul, abs_of_nonpos (by omega)] at htie
      omega
  · rcases Nat.lt_or_ge j (m / 2 ^ k + 2) with hnext | hfar
    · obtain rfl : j = m / 2 ^ k + 1 := by omega
      rw [Nat.add_mul, Nat.one_mul, abs_of_nonpos (by omega)] at htie
      split_ifs at hj htie ⊢ with h
      · rw [abs_of_nonneg (by omega)] at htie
        omega
      · omega
    · have := habove hfar
      rw [abs_of_nonpos (by omega)] at htie
      split_ifs at hj htie ⊢ with h
      · rw [abs_of_nonneg (by omega)] at htie
        omega
      · rw [Nat.add_mul, Nat.one_mul, abs_of_nonpos (by omega)] at htie
        omega

/-- With a bit behind the quotient, and a remainder: a tie is a bit that is set before zeros. -/
lemma roundQuotient_bits {q b t j : ℕ} (hb : b < 2) (ht : t < 2 ^ j) :
    roundQuotient ((2 * q + b) * 2 ^ j + t) (j + 1) =
      q + if b = 1 ∧ (q % 2 = 1 ∨ t ≠ 0) then 1 else 0 := by
  have hm : (2 * q + b) * 2 ^ j + t = 2 ^ (j + 1) * q + (b * 2 ^ j + t) := by ring
  have hlt : b * 2 ^ j + t < 2 ^ (j + 1) := by
    rw [pow_succ]
    have := Nat.mul_le_mul_right (2 ^ j) (Nat.le_of_lt_succ hb)
    omega
  rw [roundQuotient, hm, Nat.mul_add_mod, Nat.mul_add_div (Nat.two_pow_pos _), Nat.mod_eq_of_lt hlt,
    Nat.div_eq_of_lt hlt, Nat.add_zero, pow_succ]
  obtain rfl | rfl : b = 0 ∨ b = 1 := by omega
  · rw [if_pos (.inl (by omega)), if_neg (by omega), Nat.add_zero]
  · by_cases hcarry : q % 2 = 1 ∨ t ≠ 0
    · rw [if_neg (by omega), if_pos ⟨rfl, hcarry⟩]
    · rw [if_pos (by omega), if_neg (fun h => hcarry h.2), Nat.add_zero]

/-! ## Rounding -/

lemma excessBits_eq {p m k : ℕ} (hp : 0 < p) (hle : 2 ^ (p - 1 + k) ≤ m) (hlt : m < 2 ^ (p + k)) :
    excessBits p m = k := by
  have hm : m ≠ 0 := (Nat.two_pow_pos _ |>.trans_le hle).ne'
  have hlog : m.log2 = p - 1 + k :=
    (Nat.log2_eq_iff hm).mpr ⟨hle, by rwa [show p - 1 + k + 1 = p + k by omega]⟩
  rw [excessBits, hlog]
  omega

lemma lt_excess (p m : ℕ) : m < 2 ^ (p + excessBits p m) := by
  have hle : m.log2 + 1 ≤ p + excessBits p m := by
    rw [excessBits]
    omega
  exact Nat.lt_log2_self.trans_le (Nat.pow_le_pow_right (by decide) hle)

lemma excess_le {p m : ℕ} (hp : 0 < p) (hpos : 0 < excessBits p m) :
    2 ^ (p - 1 + excessBits p m) ≤ m := by
  have hm : m ≠ 0 := by
    rintro rfl
    rw [excessBits, Nat.log2_zero] at hpos
    omega
  have hlog : p - 1 + excessBits p m = m.log2 := by
    rw [excessBits] at hpos ⊢
    omega
  rw [hlog]
  exact Nat.log2_self_le hm

lemma roundQuotient_le_two_pow (p m : ℕ) : roundQuotient m (excessBits p m) ≤ 2 ^ p := by
  have hquot : m / 2 ^ excessBits p m < 2 ^ p := by
    rw [Nat.div_lt_iff_lt_mul (Nat.two_pow_pos _), ← pow_add]
    exact lt_excess p m
  exact (roundQuotient_le m _).trans hquot

lemma fits_of_le {p c e : ℕ} (hp : 0 < p) (h : c ≤ 2 ^ p) : Fits p (c * 2 ^ e) := by
  rcases h.lt_or_eq with hlt | rfl
  · exact ⟨c, e, hlt, rfl⟩
  · exact ⟨1, p + e, Nat.one_lt_two_pow hp.ne', by rw [pow_add, Nat.one_mul]⟩

lemma fits_roundEven {p : ℕ} (hp : 0 < p) (m : ℕ) : Fits p (roundEven p m) :=
  fits_of_le hp (roundQuotient_le_two_pow p m)

/-- A number with a smaller unit lies below the binade. -/
lemma Fits.multiple_or_le {p s k : ℕ} (h : Fits p s) :
    (∃ j, s = j * 2 ^ k) ∨ ∃ i, k = i + 1 ∧ s < 2 ^ (p + i) := by
  obtain ⟨a, e, ha, rfl⟩ := h
  rcases Nat.lt_or_ge e k with he | he
  · obtain ⟨i, rfl⟩ : ∃ i, k = i + 1 := ⟨k - 1, by omega⟩
    refine .inr ⟨i, rfl, ?_⟩
    calc a * 2 ^ e < 2 ^ p * 2 ^ e := Nat.mul_lt_mul_of_pos_right ha (Nat.two_pow_pos e)
      _ ≤ 2 ^ p * 2 ^ i := Nat.mul_le_mul_left _ (Nat.pow_le_pow_right (by decide) (by omega))
      _ = 2 ^ (p + i) := (pow_add 2 p i).symm
  · refine .inl ⟨a * 2 ^ (e - k), ?_⟩
    rw [Nat.mul_assoc, ← pow_add, Nat.sub_add_cancel he]

/-- Below the binade, the start of the binade is nearer. -/
lemma start_nearer {m r s t : ℕ} (hnear : |(m : ℤ) - r| ≤ |(m : ℤ) - t|) (hst : s < t)
    (htm : t ≤ m) : |(m : ℤ) - r| < |(m : ℤ) - s| := by
  rw [abs_of_nonneg (a := (m : ℤ) - t) (by omega)] at hnear
  rw [abs_of_nonneg (a := (m : ℤ) - s) (by omega)]
  omega

lemma isNearestEven_roundEven {p : ℕ} (hp : 2 ≤ p) (m : ℕ) :
    IsNearestEven p m (roundEven p m) := by
  have hp' : 0 < p := by omega
  -- what has a smaller unit is farther away than the start of the binade
  have hfar {s i : ℕ} (hk : excessBits p m = i + 1) (hs : s < 2 ^ (p + i)) :
      |(m : ℤ) - roundEven p m| < |(m : ℤ) - s| := by
    have hstart : 2 ^ (p - 1 + excessBits p m) ≤ m := excess_le hp' (by omega)
    have hunit : 2 ^ (p - 1 + excessBits p m) = 2 ^ (p - 1) * 2 ^ excessBits p m := pow_add 2 _ _
    have hexp : p - 1 + excessBits p m = p + i := by omega
    have hbelow : s < 2 ^ (p - 1) * 2 ^ excessBits p m := by rwa [← hunit, hexp]
    rw [hunit] at hstart
    exact start_nearer (roundQuotient_nearest m _ _) hbelow hstart
  refine ⟨fits_roundEven hp' m, fun s hs => ?_, fun s hs hne htie => ?_⟩
  · rcases hs.multiple_or_le (k := excessBits p m) with ⟨j, rfl⟩ | ⟨i, hk, hlt⟩
    · exact roundQuotient_nearest m _ j
    · exact (hfar hk hlt).le
  · rcases hs.multiple_or_le (k := excessBits p m) with ⟨j, rfl⟩ | ⟨i, hk, hlt⟩
    · have heven := roundQuotient_even (fun hj => hne (by rw [hj, roundEven])) htie
      obtain ⟨c, hc⟩ : ∃ c, roundQuotient m (excessBits p m) = 2 * c :=
        ⟨roundQuotient m (excessBits p m) / 2, by omega⟩
      have hquot := roundQuotient_le_two_pow p m
      have hpow : 2 ^ p = 2 * 2 ^ (p - 1) := by
        rw [← pow_succ', Nat.sub_add_cancel hp']
      have hc' : roundEven p m = c * 2 ^ (excessBits p m + 1) := by
        rw [roundEven, hc, pow_succ]
        ring
      rw [hc']
      exact fits_of_le (by omega) (by omega)
    · exact absurd htie (hfar hk hlt).ne'

/-- A number of so many bits is not crossed. -/
lemma le_roundEven {p a m : ℕ} (hp : 2 ≤ p) (ha : Fits p a) (h : a ≤ m) :
    a ≤ roundEven p m := by
  by_contra hlt
  have hnear := (isNearestEven_roundEven hp m).nearest a ha
  rw [abs_of_nonneg (by omega), abs_of_nonneg (by omega)] at hnear
  omega

lemma roundEven_of_fits {p m : ℕ} (hp : 2 ≤ p) (h : Fits p m) : roundEven p m = m := by
  have hnear := (isNearestEven_roundEven hp m).nearest m h
  rw [sub_self, abs_zero, abs_nonpos_iff] at hnear
  omega

/-- Rounding by the first bit that is dropped, and whether any bit behind it is set. -/
lemma roundEven_bits {p q b t j : ℕ} (hp : 0 < p) (hle : 2 ^ (p - 1) ≤ q) (hlt : q < 2 ^ p)
    (hb : b < 2) (ht : t < 2 ^ j) :
    roundEven p ((2 * q + b) * 2 ^ j + t) =
      (q + if b = 1 ∧ (q % 2 = 1 ∨ t ≠ 0) then 1 else 0) * 2 ^ (j + 1) := by
  have hm : (2 * q + b) * 2 ^ j + t = q * 2 ^ (j + 1) + (b * 2 ^ j + t) := by ring
  have hrest : b * 2 ^ j + t < 2 ^ (j + 1) := by
    rw [pow_succ]
    have := Nat.mul_le_mul_right (2 ^ j) (Nat.le_of_lt_succ hb)
    omega
  have hexcess : excessBits p ((2 * q + b) * 2 ^ j + t) = j + 1 := by
    apply excessBits_eq hp
    · rw [hm, pow_add 2 (p - 1)]
      exact (Nat.mul_le_mul_right _ hle).trans (Nat.le_add_right _ _)
    · rw [hm, pow_add 2 p]
      have := Nat.mul_le_mul_right (2 ^ (j + 1)) (Nat.succ_le_of_lt hlt)
      rw [Nat.succ_mul] at this
      omega
  rw [roundEven, hexcess, roundQuotient_bits hb ht]

end SpiderMonkey.Lib
