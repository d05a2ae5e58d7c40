import SpiderMonkey.Lib.Binary64

/-! # Exact operations on doubles

A difference of doubles whose aligned mantissas differ by less than `2 ^ 53` is not rounded. Its
unpacked form is that of a normal number, or a zero, and survives packing.
-/

namespace SpiderMonkey.Lib.Binary64

open Float.Model Float.Model.UnpackedFloat

/-! ## Fields -/

lemma toNat_unpackExponent (b : BitVec Format.binary64.numBits) :
    (unpackExponent b).toNat = b.toNat / 2 ^ 52 % 2 ^ 11 := by
  simp only [unpackExponent, BitVec.toNat_cast, BitVec.extractLsb_toNat, Nat.shiftRight_eq_div_pow]

lemma toNat_unpackMantissa (b : BitVec Format.binary64.numBits) :
    (unpackMantissa b).toNat = b.toNat % 2 ^ 52 := by
  simp only [unpackMantissa, BitVec.toNat_cast, BitVec.extractLsb_toNat, Nat.shiftRight_zero]

/-- The bits of a number with an exponent that is neither zero nor the largest. -/
lemma unpack_normal {b : BitVec Format.binary64.numBits} (hpos : 1 ≤ b.toNat / 2 ^ 52 % 2 ^ 11)
    (hlt : b.toNat / 2 ^ 52 % 2 ^ 11 ≤ 2046) :
    ∃ hm, UnpackedFloat.unpack Format.binary64 b =
      .finite (Sign.ofBitVec (unpackSign b)) (2 ^ 52 + b.toNat % 2 ^ 52)
        ((b.toNat / 2 ^ 52 % 2 ^ 11 : ℕ) - 1075) hm := by
  have hexp := toNat_unpackExponent b
  have hmantissa : (1#1 ++ unpackMantissa b).toNat = 2 ^ 52 + b.toNat % 2 ^ 52 := by
    rw [toNat_normal, toNat_unpackMantissa]
  have hmax : unpackExponent b ≠ -1#11 := by
    intro h
    rw [h, show (-1#11 : BitVec 11).toNat = 2047 by decide] at hexp
    omega
  have hmin : unpackExponent b ≠ 0#11 := by
    intro h
    rw [h, BitVec.toNat_zero] at hexp
    omega
  have hbias : (Format.binary64.exponentBias : ℤ) + (52 : ℕ) = 1075 := by decide
  refine ⟨by omega, ?_⟩
  unfold UnpackedFloat.unpack
  simp only
  rw [if_neg hmax, if_neg hmin]
  simp only [hmantissa, hexp, hbias]

/-! ## Packed forms -/

lemma unpacked_ofUnpacked (u : UnpackedFloat) : unpacked (ofUnpacked u) =
    UnpackedFloat.unpack Format.binary64 (UnpackedFloat.pack Format.binary64 u) := rfl

/-- The sign of an integer other than zero. -/
def signOf (z : ℤ) : Sign := if z < 0 then .negative else .positive

lemma apply_signOf (z : ℤ) : (signOf z).apply z.natAbs = z := by
  rw [signOf]
  split_ifs
  · simp only [Sign.apply]
    omega
  · simp only [Sign.apply]
    omega

lemma normalize_exact {z e : ℤ} (hz : 0 < z.natAbs) (hlt : z.natAbs < 2 ^ 53) (he : -1022 ≤ e) :
    normalize Format.binary64 z e .positive =
      .finite (signOf z) (z.natAbs * 2 ^ (52 - z.natAbs.log2)) (e - (52 - z.natAbs.log2 : ℕ))
        (Nat.mul_pos hz (Nat.two_pow_pos _)) := by
  have hlog : z.natAbs.log2 ≤ 52 := Nat.le_of_lt_succ ((Nat.log2_lt (by omega)).mpr hlt)
  rw [← round_exact hz hlog he, UnpackedFloat.normalize]
  split
  · rename_i hcmp
    rw [Int.compare_eq_lt] at hcmp
    rw [signOf, if_pos hcmp, show (-z).toNat = z.natAbs by omega]
  · rename_i hcmp
    rw [Int.compare_eq_eq] at hcmp
    omega
  · rename_i hcmp
    rw [Int.compare_eq_gt] at hcmp
    rw [signOf, if_neg (by omega), show z.toNat = z.natAbs by omega]

/-- The unpacked form of an exact result. -/
lemma unpacked_normalize {z e : ℤ} (hz : 0 < z.natAbs) (hlt : z.natAbs < 2 ^ 53)
    (hmin : -1022 ≤ e) (hmax : e ≤ 971) :
    unpacked (ofUnpacked (normalize Format.binary64 z e .positive)) =
      .finite (signOf z) (z.natAbs * 2 ^ (52 - z.natAbs.log2)) (e - (52 - z.natAbs.log2 : ℕ))
        (Nat.mul_pos hz (Nat.two_pow_pos _)) := by
  have hlog : z.natAbs.log2 ≤ 52 := Nat.le_of_lt_succ ((Nat.log2_lt (by omega)).mpr hlt)
  rw [normalize_exact hz hlt hmin, unpacked_ofUnpacked,
    unpack_pack_finite _ (by rw [log2_mul_two_pow hz]; omega) (by omega) (by omega)]

lemma unpacked_normalize_zero (e : ℤ) :
    unpacked (ofUnpacked (normalize Format.binary64 0 e .positive)) = .zero .positive := by
  have hnormalize : normalize Format.binary64 0 e .positive = .zero .positive := by
    rw [UnpackedFloat.normalize]
    split
    · rename_i hcmp
      cases hcmp
    · rfl
    · rename_i hcmp
      cases hcmp
  rw [hnormalize]
  rfl

/-! ## Differences -/

/-- The difference of the mantissas, at the smaller exponent. -/
def alignedDifference (s₁ : Sign) (m₁ : ℕ) (e₁ : ℤ) (s₂ : Sign) (m₂ : ℕ) (e₂ : ℤ) : ℤ :=
  s₁.apply (m₁ * 2 ^ (e₁ - min e₁ e₂).toNat : ℕ) - s₂.apply (m₂ * 2 ^ (e₂ - min e₁ e₂).toNat : ℕ)

lemma sub_finite {x y : Float} {s₁ s₂ : Sign} {m₁ m₂ : ℕ} {e₁ e₂ : ℤ} {h₁ : 0 < m₁} {h₂ : 0 < m₂}
    (hx : unpacked x = .finite s₁ m₁ e₁ h₁) (hy : unpacked y = .finite s₂ m₂ e₂ h₂) :
    x - y = ofUnpacked (normalize Format.binary64 (alignedDifference s₁ m₁ e₁ s₂ m₂ e₂)
      (min e₁ e₂) .positive) := by
  rw [sub_eq, hx, hy]
  simp only [UnpackedFloat.sub, decreaseExponent, Nat.shiftLeft_eq, alignedDifference]

/-- The number that an unpacked float is; what is not finite is taken for zero. -/
def exactValue : UnpackedFloat → ℚ
  | .finite s m e _ => (s.apply m : ℤ) * (2 : ℚ) ^ e
  | _ => 0

lemma exactValue_zero (s : Sign) : exactValue (.zero s) = 0 := rfl

lemma apply_mul (s : Sign) (a b : ℤ) : s.apply (a * b) = s.apply a * b := by
  cases s
  · exact (Int.neg_mul a b).symm
  · rfl

lemma cast_alignedDifference (s₁ : Sign) (m₁ : ℕ) (e₁ : ℤ) (s₂ : Sign) (m₂ : ℕ) (e₂ : ℤ) :
    ((alignedDifference s₁ m₁ e₁ s₂ m₂ e₂ : ℤ) : ℚ) * (2 : ℚ) ^ min e₁ e₂ =
      (s₁.apply m₁ : ℤ) * (2 : ℚ) ^ e₁ - (s₂.apply m₂ : ℤ) * (2 : ℚ) ^ e₂ := by
  have hscale (e : ℤ) (h : min e₁ e₂ ≤ e) :
      (2 : ℚ) ^ (e - min e₁ e₂).toNat * (2 : ℚ) ^ min e₁ e₂ = (2 : ℚ) ^ e := by
    rw [← zpow_natCast, Int.toNat_of_nonneg (by omega), ← zpow_add₀ (by norm_num), sub_add_cancel]
  rw [alignedDifference, Nat.cast_mul, Nat.cast_mul, apply_mul, apply_mul]
  push_cast
  rw [sub_mul, mul_assoc, mul_assoc, hscale e₁ (min_le_left _ _), hscale e₂ (min_le_right _ _)]

/-- A difference that has no more than 53 bits is exact. -/
lemma exactValue_sub {x y : Float} {s₁ s₂ : Sign} {m₁ m₂ : ℕ} {e₁ e₂ : ℤ} {h₁ : 0 < m₁}
    {h₂ : 0 < m₂} (hx : unpacked x = .finite s₁ m₁ e₁ h₁) (hy : unpacked y = .finite s₂ m₂ e₂ h₂)
    (hlt : (alignedDifference s₁ m₁ e₁ s₂ m₂ e₂).natAbs < 2 ^ 53) (hmin : -1022 ≤ min e₁ e₂)
    (hmax : min e₁ e₂ ≤ 971) :
    exactValue (unpacked (x - y)) = exactValue (unpacked x) - exactValue (unpacked y) := by
  rw [hx, hy, exactValue, exactValue, ← cast_alignedDifference, sub_finite hx hy]
  generalize alignedDifference s₁ m₁ e₁ s₂ m₂ e₂ = z at hlt
  generalize min e₁ e₂ = e at hmin hmax
  by_cases hz : z = 0
  · have hzero : unpacked (ofUnpacked (normalize Format.binary64 0 e .positive)) =
        .zero .positive :=
      unpacked_normalize_zero e
    rw [hz, hzero, exactValue_zero, Int.cast_zero, zero_mul]
  · rw [unpacked_normalize (Int.natAbs_pos.mpr hz) hlt hmin hmax, exactValue, Nat.cast_mul,
      apply_mul, apply_signOf]
    push_cast
    rw [mul_assoc, ← zpow_natCast, ← zpow_add₀ (by norm_num), add_sub_cancel]

/-! ## Truncation -/

lemma mantissa_shiftRight (em : ExtendedMantissa) (k : ℕ) :
    (em >>> k).mantissa = em.mantissa / 2 ^ k := by
  change (k.repeat ExtendedMantissa.shiftRightOne em).mantissa = _
  induction k with
  | zero => rw [Nat.repeat, pow_zero, Nat.div_one]
  | succ k ih =>
    rw [Nat.repeat, ExtendedMantissa.shiftRightOne, ih, Nat.div_div_eq_div_mul, pow_succ]

/-- The whole part of `m * 2 ^ e`. -/
def wholePart (m : ℕ) (e : ℤ) : ℕ := m * 2 ^ e.toNat / 2 ^ (-e).toNat

lemma wholePart_eq_floor (m : ℕ) (e : ℤ) : (wholePart m e : ℤ) = ⌊(m : ℚ) * (2 : ℚ) ^ e⌋ := by
  have hpow : (2 : ℚ) ^ e = (2 : ℚ) ^ e.toNat / (2 : ℚ) ^ (-e).toNat := by
    rw [← zpow_natCast, ← zpow_natCast, ← zpow_sub₀ (by norm_num)]
    congr 1
    omega
  have hfloor := Rat.floor_natCast_div_natCast (m * 2 ^ e.toNat) (2 ^ (-e).toNat)
  push_cast at hfloor
  rw [wholePart, hpow, ← mul_div_assoc, Int.natCast_div]
  push_cast
  exact hfloor.symm

lemma wholePart_scale (m k : ℕ) (e : ℤ) : wholePart (m * 2 ^ k) (e - k) = wholePart m e := by
  have h : (wholePart (m * 2 ^ k) (e - k) : ℤ) = wholePart m e := by
    rw [wholePart_eq_floor, wholePart_eq_floor]
    push_cast
    rw [mul_assoc, ← zpow_natCast, ← zpow_add₀ (by norm_num), add_sub_cancel]
  exact_mod_cast h

/-- Whole multiples can be taken away. -/
lemma wholePart_add (a r c n : ℕ) {e : ℤ} (h : (c : ℤ) + e = n) :
    wholePart (a * 2 ^ c + r) e = a * 2 ^ n + wholePart r e := by
  have hsum : ((a * 2 ^ c + r : ℕ) : ℚ) * (2 : ℚ) ^ e =
      ((a * 2 ^ n : ℕ) : ℚ) + r * (2 : ℚ) ^ e := by
    push_cast
    rw [add_mul, mul_assoc, ← zpow_natCast 2 c, ← zpow_add₀ (by norm_num), h, zpow_natCast]
  have heq : (wholePart (a * 2 ^ c + r) e : ℤ) = (a * 2 ^ n + wholePart r e : ℕ) := by
    rw [wholePart_eq_floor, hsum, Int.floor_natCast_add, Int.natCast_add, wholePart_eq_floor]
  exact_mod_cast heq

lemma wholePart_lt {m k n : ℕ} {e : ℤ} (hm : m < 2 ^ k) (h : (k : ℤ) + e = n) :
    wholePart m e < 2 ^ n := by
  have hlt : (m : ℚ) * (2 : ℚ) ^ e < (2 ^ n : ℕ) := by
    push_cast
    rw [← zpow_natCast 2 n, ← h, zpow_add₀ (by norm_num), zpow_natCast]
    exact mul_lt_mul_of_pos_right (by exact_mod_cast hm) (zpow_pos (by norm_num) e)
  have hfloor : (wholePart m e : ℤ) < (2 ^ n : ℕ) := by
    rw [wholePart_eq_floor, Int.floor_lt]
    exact_mod_cast hlt
  exact_mod_cast hfloor

lemma wholePart_lt_of_le {m k n : ℕ} {e : ℤ} (hm : m < 2 ^ k) (h : (k : ℤ) + e ≤ n) :
    wholePart m e < 2 ^ n := by
  have hk : k ≤ ((n : ℤ) - e).toNat := by omega
  apply wholePart_lt (hm.trans_le (Nat.pow_le_pow_right (by decide) hk))
  omega

lemma le_wholePart {m k n : ℕ} {e : ℤ} (hm : 2 ^ k ≤ m) (h : (k : ℤ) + e = n) :
    2 ^ n ≤ wholePart m e := by
  have hle : ((2 ^ n : ℕ) : ℚ) ≤ (m : ℚ) * (2 : ℚ) ^ e := by
    push_cast
    rw [← zpow_natCast 2 n, ← h, zpow_add₀ (by norm_num), zpow_natCast]
    exact mul_le_mul_of_nonneg_right (by exact_mod_cast hm) (zpow_pos (by norm_num) e).le
  have hfloor : ((2 ^ n : ℕ) : ℤ) ≤ wholePart m e := by
    rw [wholePart_eq_floor, Int.le_floor]
    exact_mod_cast hle
  exact_mod_cast hfloor

lemma roundToInt_eq (s : Sign) (m : ℕ) (e : ℤ) :
    roundToInt s m e = s.apply (wholePart m e) := by
  have hexp : (0 - (e - (e.toNat : ℤ))).toNat = (-e).toNat := by omega
  simp only [roundToInt, decreaseExponent, shiftToExponent, mantissa_shiftRight, Int.sub_zero, hexp,
    ExtendedMantissa.ofMantissaAndAccuracy, Nat.shiftLeft_eq, wholePart]

end SpiderMonkey.Lib.Binary64
