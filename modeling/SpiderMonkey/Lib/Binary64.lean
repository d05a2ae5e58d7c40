import Mathlib

/-! # Identities of binary64 arithmetic

Facts about `Float` that hold for every value, the signed zeros, the infinities and
NaN included. A float is its bits, an operation unpacks its operands, computes and
packs the result. Packing undoes unpacking (`pack_unpack`), so an operation that
gives back one of its unpacked operands gives back the float itself; rounding gives
back a mantissa that only has zeros to drop (`roundWithAccuracy_zeros`).

Equality of floats is equality of their bits: it tells `0` from `-0`, and NaN is
equal to itself. The comparison `==` is the one of the number format.
-/

namespace SpiderMonkey.Lib.Binary64

open Float.Model Float.Model.UnpackedFloat BitVec

/-! ## Bits -/

/-- A bit pattern is made of its sign, exponent and mantissa. -/
lemma packComponents_unpack (b : BitVec Format.binary64.numBits) :
    packComponents Format.binary64 (Sign.ofBitVec (unpackSign b)) (unpackExponent b)
      (unpackMantissa b) = b := by
  have hsign : (Sign.ofBitVec (unpackSign b)).toBitVec = unpackSign b := by
    generalize unpackSign b = sign
    revert sign
    decide
  unfold packComponents
  rw [hsign]
  unfold unpackSign unpackExponent unpackMantissa
  apply eq_of_getLsbD_eq
  intro i hi
  simp only [getLsbD_append, getLsbD_cast, getLsbD_extractLsb]
  split_ifs <;> simp <;> grind

/-- The mantissa of a normal number, with the implicit bit. -/
lemma toNat_normal (m : BitVec 52) : (1#1 ++ m).toNat = 2 ^ 52 + m.toNat := by
  have hm := m.isLt
  rw [toNat_append, Nat.shiftLeft_eq]
  simpa using (Nat.two_pow_add_eq_or_of_lt hm 1).symm

lemma log2_normal (m : BitVec 52) : (1#1 ++ m).toNat.log2 = 52 := by
  have hm := m.isLt
  rw [toNat_normal, Nat.log2_eq_iff (by omega)]
  omega

lemma log2_subnormal {m : BitVec 52} (hm : m ≠ 0) : m.toNat.log2 < 52 := by
  have hpos : m.toNat ≠ 0 := fun h => hm (eq_of_toNat_eq (by simpa using h))
  exact (Nat.log2_lt hpos).mpr m.isLt

variable {b : BitVec Format.binary64.numBits}

/-- Packing undoes unpacking. -/
lemma pack_unpack (hb : Format.binary64.Valid b) :
    UnpackedFloat.pack Format.binary64 (UnpackedFloat.unpack Format.binary64 b) = b := by
  have hparts := packComponents_unpack b
  unfold UnpackedFloat.unpack
  simp only
  split_ifs with hmax hzero hmin hzero
  · rw [hmax, hzero] at hparts
    exact hparts
  · exact (hb.eq_packedNaN hmax hzero).symm
  · rw [hmin, hzero] at hparts
    exact hparts
  · have hlog := log2_subnormal hzero
    simp only [UnpackedFloat.pack]
    rw [hmin, if_neg (by decide), if_neg (by simp only [Format.mantissaBits]; omega),
      ofNat_toNat, setWidth_eq, ← hmin]
    exact hparts
  · have hlt : (unpackExponent b).toNat < 2048 := (unpackExponent b).isLt
    have hne : (unpackExponent b).toNat ≠ 2047 :=
      fun h => hmax (eq_of_toNat_eq (by simpa using h))
    have hbiased : (((unpackExponent b).toNat : Int) -
        (Format.binary64.exponentBias + (52 : Nat)) + Format.binary64.exponentBias +
          (52 : Nat)).toNat = (unpackExponent b).toNat := by
      omega
    have hmantissa : BitVec.ofNat 52 (1#1 ++ unpackMantissa b).toNat = unpackMantissa b := by
      apply eq_of_toNat_eq
      rw [toNat_ofNat, toNat_normal, Nat.add_mod_left,
        Nat.mod_eq_of_lt (unpackMantissa b).isLt]
    simp only [UnpackedFloat.pack]
    rw [hbiased, if_neg (by omega),
      if_pos (by rw [log2_normal]; rfl), hmantissa, ofNat_toNat, setWidth_eq]
    exact hparts

variable {m : Nat} {e : Int}

/-- An unpacked number has the exponent of its format. -/
lemma targetExponent_of_unpack {s : Sign} {hm : 0 < m}
    (h : UnpackedFloat.unpack Format.binary64 b = .finite s m e hm) :
    Format.binary64.targetExponent (totalExponent m e) = e := by
  unfold UnpackedFloat.unpack at h
  simp only at h
  split_ifs at h with hmax hzero hmin hzero
  · obtain ⟨-, rfl, rfl⟩ := UnpackedFloat.finite.inj h
    have hlog := log2_subnormal hzero
    have hexp : (unpackExponent b).toNat = 0 := by rw [hmin]; rfl
    simp only [Format.targetExponent, totalExponent, Format.minExponent, Format.mantissaBits,
      Format.exponentBias]
    omega
  · obtain ⟨-, rfl, rfl⟩ := UnpackedFloat.finite.inj h
    have hlog := log2_normal (unpackMantissa b)
    have hexp : (unpackExponent b).toNat ≠ 0 :=
      fun h => hmin (eq_of_toNat_eq (by simpa using h))
    simp only [Format.targetExponent, totalExponent, Format.minExponent, Format.mantissaBits,
      Format.exponentBias]
    rw [hlog]
    omega

/-! ## Rounding -/

/-- Shifting out zeros. -/
lemma shiftRight_zeros (m k : Nat) :
    (⟨m * 2 ^ k, false, false⟩ : ExtendedMantissa) >>> k = ⟨m, false, false⟩ := by
  change k.repeat ExtendedMantissa.shiftRightOne _ = _
  induction k generalizing m with
  | zero => simp [Nat.repeat]
  | succ k ih =>
    have hsplit : m * 2 ^ (k + 1) = m * 2 * 2 ^ k := by ring
    rw [hsplit, Nat.repeat, ih (m * 2)]
    simp [ExtendedMantissa.shiftRightOne]

lemma totalExponent_zeros (hm : 0 < m) (e : Int) (k : Nat) :
    totalExponent (m * 2 ^ k) (e - k) = totalExponent m e := by
  have hlog : (m * 2 ^ k).log2 = m.log2 + k := by
    have hne : m * 2 ^ k ≠ 0 := Nat.mul_ne_zero (by omega) (Nat.two_pow_pos k).ne'
    rw [Nat.log2_eq_iff hne]
    have hlow := Nat.log2_self_le (n := m) (by omega)
    have hhigh := Nat.lt_log2_self (n := m)
    rw [pow_add, show m.log2 + k + 1 = m.log2 + 1 + k by omega, pow_add _ (m.log2 + 1)]
    exact ⟨Nat.mul_le_mul_right _ hlow, Nat.mul_lt_mul_of_pos_right hhigh (Nat.two_pow_pos k)⟩
  unfold totalExponent
  rw [hlog]
  omega

/-- The exponent of the format only has zeros to shift out. -/
lemma shiftToTargetExponent_zeros (hm : 0 < m)
    (hcanon : Format.binary64.targetExponent (totalExponent m e) = e) (k : Nat) :
    shiftToTargetExponent Format.binary64 (m * 2 ^ k) (e - k) .exact = (⟨m, false, false⟩, e) := by
  have hamount : (e - (e - (k : Int))).toNat = k := by omega
  unfold shiftToTargetExponent shiftToExponent
  simp only [totalExponent_zeros hm, hcanon, hamount, ExtendedMantissa.ofMantissaAndAccuracy,
    shiftRight_zeros, Int.sub_add_cancel]

/-- Rounding drops nothing but zeros from an exact mantissa that has no more bits than
the format. -/
lemma roundWithAccuracy_zeros (hm : 0 < m)
    (hcanon : Format.binary64.targetExponent (totalExponent m e) = e) (s : Sign) (k : Nat) :
    roundWithAccuracy Format.binary64 s (m * 2 ^ k) (e - k) .exact = .finite s m e hm := by
  have hagain := shiftToTargetExponent_zeros hm hcanon 0
  rw [pow_zero, mul_one, Int.natCast_zero, Int.sub_zero] at hagain
  have hrounded : (⟨m, false, false⟩ : ExtendedMantissa).roundedMantissa = m := rfl
  unfold roundWithAccuracy
  simp only [shiftToTargetExponent_zeros hm hcanon, hrounded, hagain]
  rw [dif_neg (by omega)]

/-! ## Operations on the unpacked form -/

/-- The unpacked form of a float. -/
def unpacked (x : Float) : UnpackedFloat := x.toModel.unpack

/-- The float a form is packed into. -/
def ofUnpacked (u : UnpackedFloat) : Float := .ofModel (.pack u)

@[simp] lemma ofUnpacked_unpacked (x : Float) : ofUnpacked (unpacked x) = x := by
  obtain ⟨⟨bits, hvalid⟩⟩ := x
  simp [ofUnpacked, unpacked, Float.Model.pack, Float.Model.unpack, pack_unpack hvalid]

lemma unpacked_injective {x y : Float} (h : unpacked x = unpacked y) : x = y := by
  rw [← ofUnpacked_unpacked x, h, ofUnpacked_unpacked]

lemma unpacked_zero : unpacked 0 = .zero .positive := rfl
lemma unpacked_neg_zero : unpacked (-0) = .zero .negative := rfl
lemma unpacked_one : unpacked 1 = .finite .positive (2 ^ 52) (-52) (by decide) := rfl

lemma add_eq (x y : Float) :
    x + y = ofUnpacked (UnpackedFloat.add Format.binary64 (unpacked x) (unpacked y)) := rfl
lemma sub_eq (x y : Float) :
    x - y = ofUnpacked (UnpackedFloat.sub Format.binary64 (unpacked x) (unpacked y)) := rfl
lemma mul_eq (x y : Float) :
    x * y = ofUnpacked (UnpackedFloat.mul Format.binary64 (unpacked x) (unpacked y)) := rfl
lemma div_eq (x y : Float) :
    x / y = ofUnpacked (UnpackedFloat.div Format.binary64 (unpacked x) (unpacked y)) := rfl

/-! ## Neutral elements -/

/-- `x - 0` is `x`, for `-0` too. -/
lemma sub_zero (x : Float) : x - 0 = x := by
  have hsub : UnpackedFloat.sub Format.binary64 (unpacked x) (.zero .positive) = unpacked x := by
    generalize unpacked x = u
    cases u with
    | notANumber => rfl
    | infinity s => rfl
    | zero s => cases s <;> rfl
    | finite s m e hm => rfl
  rw [sub_eq, unpacked_zero, hsub, ofUnpacked_unpacked]

/-- `x - -0` is `x`, but for `-0`. -/
lemma sub_neg_zero_iff (x : Float) : x - -0 = x ↔ x ≠ -0 := by
  have hcases : UnpackedFloat.sub Format.binary64 (unpacked x) (.zero .negative) = unpacked x ∨
      unpacked x = .zero .negative := by
    generalize unpacked x = u
    cases u with
    | notANumber => exact Or.inl rfl
    | infinity s => exact Or.inl rfl
    | zero s =>
      cases s
      · exact Or.inr rfl
      · exact Or.inl rfl
    | finite s m e hm => exact Or.inl rfl
  constructor
  · rintro h rfl
    exact absurd h (by decide)
  · intro hne
    rcases hcases with hsub | hzero
    · rw [sub_eq, unpacked_neg_zero, hsub, ofUnpacked_unpacked]
    · exact absurd (unpacked_injective hzero) hne

variable {x : Float}

lemma unpacked_finite {s : Sign} {hm : 0 < m} (h : unpacked x = .finite s m e hm) :
    Format.binary64.targetExponent (totalExponent m e) = e :=
  targetExponent_of_unpack h

/-- `x * 1` is `x`. -/
lemma mul_one (x : Float) : x * 1 = x := by
  have hmul : UnpackedFloat.mul Format.binary64 (unpacked x) (unpacked 1) = unpacked x := by
    rw [unpacked_one]
    cases hx : unpacked x with
    | notANumber => rfl
    | infinity s => cases s <;> rfl
    | zero s => cases s <;> rfl
    | finite s m e hm =>
      have hround := roundWithAccuracy_zeros hm (unpacked_finite hx) (s * .positive) 52
      have hsign : s * .positive = s := by cases s <;> rfl
      have hexp : e + -52 = e - (52 : Nat) := by omega
      rw [hsign] at hround
      simpa only [UnpackedFloat.mul, hsign, hexp] using hround
  rw [mul_eq, hmul, ofUnpacked_unpacked]

/-- `1 * x` is `x`. -/
lemma one_mul (x : Float) : 1 * x = x := by
  have hmul : UnpackedFloat.mul Format.binary64 (unpacked 1) (unpacked x) = unpacked x := by
    rw [unpacked_one]
    cases hx : unpacked x with
    | notANumber => rfl
    | infinity s => cases s <;> rfl
    | zero s => cases s <;> rfl
    | finite s m e hm =>
      have hround := roundWithAccuracy_zeros hm (unpacked_finite hx) (.positive * s) 52
      have hsign : .positive * s = s := by cases s <;> rfl
      have hexp : -52 + e = e - (52 : Nat) := by omega
      rw [hsign] at hround
      simpa only [UnpackedFloat.mul, hsign, hexp, Nat.mul_comm _ m] using hround
  rw [mul_eq, hmul, ofUnpacked_unpacked]

/-- The exponent a quotient by one is computed with: that of the number, or one less. -/
lemma divCore_one (hcanon : Format.binary64.targetExponent (totalExponent m e) = e) :
    ∃ k : Nat, divCore Format.binary64 m e (2 ^ 52) (-52) = (m * 2 ^ k, e - k, .exact) := by
  have hone : totalExponent (2 ^ 52) (-52) = 1 := by decide
  obtain ⟨t, ht⟩ : ∃ t, t = min (e - -52)
      (Format.binary64.targetExponent (totalExponent m e - 1)) := ⟨_, rfl⟩
  have hle : t ≤ e := by
    simp only [Format.targetExponent, totalExponent, Format.minExponent, Format.mantissaBits]
      at hcanon ht
    omega
  obtain ⟨k, hk⟩ : ∃ k : Nat, e - k = t := ⟨(e - t).toNat, by omega⟩
  have hshift : (e - -52 - t).toNat = k + 52 := by omega
  have hm : m <<< (k + 52) = m * 2 ^ k * 2 ^ 52 := by
    rw [Nat.shiftLeft_eq, pow_add, Nat.mul_assoc]
  refine ⟨k, ?_⟩
  simp only [divCore, hone]
  rw [← ht, hshift, hm, Nat.mul_mod_left, Nat.mul_div_cancel _ (by decide), hk]
  rfl

/-- `x / 1` is `x`. -/
lemma div_one (x : Float) : x / 1 = x := by
  have hdiv : UnpackedFloat.div Format.binary64 (unpacked x) (unpacked 1) = unpacked x := by
    rw [unpacked_one]
    cases hx : unpacked x with
    | notANumber => rfl
    | infinity s => cases s <;> rfl
    | zero s => cases s <;> rfl
    | finite s m e hm =>
      obtain ⟨k, hcore⟩ := divCore_one (unpacked_finite hx)
      have hsign : s / .positive = s := by cases s <;> rfl
      simpa only [UnpackedFloat.div, hcore, hsign] using
        roundWithAccuracy_zeros hm (unpacked_finite hx) s k
  rw [div_eq, hdiv, ofUnpacked_unpacked]

/-- `x + 0` is `x`, but for `-0`. -/
lemma add_zero (hx : x ≠ -0) : x + 0 = x := by
  have hcases : UnpackedFloat.add Format.binary64 (unpacked x) (.zero .positive) = unpacked x ∨
      unpacked x = .zero .negative := by
    generalize unpacked x = u
    cases u with
    | notANumber => exact Or.inl rfl
    | infinity s => exact Or.inl rfl
    | zero s =>
      cases s
      · exact Or.inr rfl
      · exact Or.inl rfl
    | finite s m e hm => exact Or.inl rfl
  rcases hcases with hadd | hzero
  · rw [add_eq, unpacked_zero, hadd, ofUnpacked_unpacked]
  · exact absurd (unpacked_injective hzero) hx

/-- `0 + x` is `x`, but for `-0`. -/
lemma zero_add (hx : x ≠ -0) : 0 + x = x := by
  have hcases : UnpackedFloat.add Format.binary64 (.zero .positive) (unpacked x) = unpacked x ∨
      unpacked x = .zero .negative := by
    generalize unpacked x = u
    cases u with
    | notANumber => exact Or.inl rfl
    | infinity s => exact Or.inl rfl
    | zero s =>
      cases s
      · exact Or.inr rfl
      · exact Or.inl rfl
    | finite s m e hm => exact Or.inl rfl
  rcases hcases with hadd | hzero
  · rw [add_eq, unpacked_zero, hadd, ofUnpacked_unpacked]
  · exact absurd (unpacked_injective hzero) hx

/-! ## Integers -/

/-- The float of an int32. -/
def ofInt32 (n : Int32) : Float := ofUnpacked (UnpackedFloat.ofInt32 Format.binary64 n)

/-- The int32 a float truncates to, clamped; NaN goes to zero. -/
def toInt32 (x : Float) : Int32 := x.toModel.toInt32

/-- A mantissa of at most 53 bits is not rounded, where the exponents have room for it. -/
lemma round_exact (hm : 0 < m) (hlog : m.log2 ≤ 52) (he : -1022 ≤ e) (s : Sign) :
    UnpackedFloat.round Format.binary64 s m e =
      .finite s (m * 2 ^ (52 - m.log2)) (e - (52 - m.log2 : Nat))
        (Nat.mul_pos hm (Nat.two_pow_pos _)) := by
  obtain ⟨k, hk⟩ : ∃ k, k = 52 - m.log2 := ⟨_, rfl⟩
  have hpos : 0 < m * 2 ^ k := Nat.mul_pos hm (Nat.two_pow_pos k)
  have htarget : Format.binary64.targetExponent (totalExponent m e) = e - (k : Int) := by
    simp only [Format.targetExponent, totalExponent, Format.minExponent, Format.mantissaBits]
    omega
  have hround := roundWithAccuracy_zeros hpos (by rw [totalExponent_zeros hm, htarget]) s 0
  rw [pow_zero, Nat.mul_one, Int.natCast_zero, Int.sub_zero] at hround
  have hamount : (e - (e - (k : Int))).toNat = k := by omega
  have hexp : e - (k : Int) = e - k := rfl
  simp only [UnpackedFloat.round, htarget, decreaseExponent, hamount, Nat.shiftLeft_eq, ← hk]
  exact hround

/-- A natural number that fits the mantissa is not rounded. -/
lemma round_natural (hm : 0 < m) (hlog : m.log2 ≤ 52) (s : Sign) :
    UnpackedFloat.round Format.binary64 s m 0 =
      .finite s (m * 2 ^ (52 - m.log2)) (-(52 - m.log2 : Nat))
        (Nat.mul_pos hm (Nat.two_pow_pos _)) := by
  have hround := round_exact hm hlog (e := 0) (by omega) s
  rwa [Int.zero_sub] at hround

lemma log2_mul_two_pow (hm : 0 < m) (k : Nat) : (m * 2 ^ k).log2 = m.log2 + k := by
  have htotal := totalExponent_zeros hm 0 k
  unfold totalExponent at htotal
  omega

/-- The exponent field it is packed with. -/
lemma unpackExponent_round_natural (hm : 0 < m) (hlog : m.log2 ≤ 52) (s : Sign) :
    (unpackExponent (UnpackedFloat.pack Format.binary64
      (UnpackedFloat.round Format.binary64 s m 0))).toNat = m.log2 + 1023 := by
  have hbiased : ((-(52 - m.log2 : Nat) : Int) + Format.binary64.exponentBias +
      (52 : Nat)).toNat = m.log2 + 1023 := by
    have hbias : Format.binary64.exponentBias = 1023 := by decide
    omega
  rw [round_natural hm hlog]
  simp only [UnpackedFloat.pack]
  rw [hbiased, if_neg (by omega), log2_mul_two_pow hm,
    if_pos (by simp only [Format.mantissaBits]; omega), unpackExponent_packComponents,
    toNat_ofNat]
  exact Nat.mod_eq_of_lt (by omega)

/-- The exponent field of an int32 other than zero is that of a normal number. -/
lemma unpackExponent_ofInt32 {n : Int32} (hn : n ≠ 0) :
    ∃ k ≤ 52, (unpackExponent (UnpackedFloat.pack Format.binary64
      (UnpackedFloat.ofInt32 Format.binary64 n))).toNat = k + 1023 := by
  have hlow := n.le_toInt
  have hhigh := n.toInt_lt
  have hlog : ∀ m : Nat, m ≤ 2 ^ 31 → m.log2 ≤ 52 := by
    intro m hm
    rcases Nat.eq_zero_or_pos m with rfl | hpos
    · decide
    · have hlt := (Nat.log2_lt (n := m) (k := 53) (by omega)).mpr (by omega)
      omega
  unfold UnpackedFloat.ofInt32 UnpackedFloat.ofInt UnpackedFloat.normalize
  split
  · rename_i hcmp
    rw [Int.compare_eq_lt] at hcmp
    exact ⟨_, hlog _ (by omega), unpackExponent_round_natural (by omega) (hlog _ (by omega)) _⟩
  · rename_i hcmp
    rw [Int.compare_eq_eq] at hcmp
    exact absurd (Int32.toInt_inj.mp hcmp) hn
  · rename_i hcmp
    rw [Int.compare_eq_gt] at hcmp
    exact ⟨_, hlog _ (by omega), unpackExponent_round_natural (by omega) (hlog _ (by omega)) _⟩

lemma eq_zero_of_ofInt32_bits {n : Int32}
    (hb : (unpackExponent b).toNat = 0 ∨ (unpackExponent b).toNat = 2047)
    (h : UnpackedFloat.pack Format.binary64 (UnpackedFloat.ofInt32 Format.binary64 n) = b) :
    n = 0 := by
  by_contra hn
  rcases unpackExponent_ofInt32 hn with ⟨k, hk, hexp⟩
  rw [h] at hexp
  omega

/-- An int32 that converts to a zero is zero. -/
lemma eq_zero_of_ofInt32 {n : Int32} {s : Sign} (h : ofInt32 n = ofUnpacked (.zero s)) :
    n = 0 := by
  have hbits := congrArg (fun x : Float => x.toModel.toBits.toBitVec) h
  refine eq_zero_of_ofInt32_bits (Or.inl ?_) hbits
  cases s <;> rfl

/-- An int32 is not `-0`. -/
lemma ofInt32_ne_neg_zero (n : Int32) : ofInt32 n ≠ -0 := by
  intro h
  have hn : n = 0 := eq_zero_of_ofInt32 (s := .negative) h
  subst hn
  exact absurd h (by decide)

lemma ofInt32_eq_zero_iff (n : Int32) : ofInt32 n = 0 ↔ n = 0 := by
  constructor
  · intro h
    exact eq_zero_of_ofInt32 (s := .positive) h
  · rintro rfl
    decide

/-! ## Comparisons -/

/-- Positive infinity, negative infinity and NaN. -/
def posInf : Float := ofUnpacked (.infinity .positive)
def negInf : Float := ofUnpacked (.infinity .negative)
def nan : Float := ofUnpacked .notANumber

lemma unpacked_posInf : unpacked posInf = .infinity .positive := rfl
lemma unpacked_negInf : unpacked negInf = .infinity .negative := rfl

lemma beq_eq (x y : Float) :
    (x == y) = (UnpackedFloat.compare (unpacked x) (unpacked y) == some .eq) := rfl

lemma isNaN_eq (x : Float) : x.isNaN = (unpacked x).isNaN := rfl
lemma isInf_eq (x : Float) : x.isInf = (unpacked x).isInf := rfl

lemma lt_iff (x y : Float) :
    x < y ↔ UnpackedFloat.compare (unpacked x) (unpacked y) = some .lt := by
  change decide ((UnpackedFloat.lt (unpacked x) (unpacked y)) = true) = true ↔ _
  simp [UnpackedFloat.lt]

/-- What compares equal is the same, but for two zeros. -/
lemma eq_of_compare_eq {u v : UnpackedFloat} (h : UnpackedFloat.compare u v = some .eq) :
    u = v ∨ (∃ s, u = .zero s) ∧ ∃ s, v = .zero s := by
  have hfinite : ∀ {e e' : Int} {m m' : Nat}, (compare e e').then (compare m m') = .eq →
      e = e' ∧ m = m' := by
    intro e e' m m' hcmp
    rw [Ordering.then_eq_eq, Int.compare_eq_eq, Nat.compare_eq_eq] at hcmp
    exact hcmp
  cases u with
  | notANumber => simp [UnpackedFloat.compare] at h
  | infinity s =>
    cases v with
    | infinity t =>
      cases s <;> cases t <;> first | exact Or.inl rfl | exact absurd h (by decide)
    | notANumber => simp [UnpackedFloat.compare] at h
    | zero t => cases s <;> simp [UnpackedFloat.compare] at h
    | finite t m e hm => cases s <;> simp [UnpackedFloat.compare] at h
  | zero s =>
    cases v with
    | zero t => exact Or.inr ⟨⟨s, rfl⟩, t, rfl⟩
    | notANumber => simp [UnpackedFloat.compare] at h
    | infinity t => cases t <;> simp [UnpackedFloat.compare] at h
    | finite t m e hm => cases t <;> simp [UnpackedFloat.compare] at h
  | finite s m e hm =>
    cases v with
    | notANumber => simp [UnpackedFloat.compare] at h
    | infinity t => cases t <;> simp [UnpackedFloat.compare] at h
    | zero t => cases s <;> simp [UnpackedFloat.compare] at h
    | finite t m' e' hm' =>
      left
      cases s <;> cases t <;> simp only [UnpackedFloat.compare, Option.some.injEq,
        reduceCtorEq] at h
      · obtain ⟨rfl, rfl⟩ := hfinite (Ordering.swap_eq_eq.mp h)
        rfl
      · obtain ⟨rfl, rfl⟩ := hfinite h
        rfl

/-- Equal in the number format is equal, but for two zeros. -/
lemma eq_of_beq {x y : Float} (h : (x == y) = true) :
    x = y ∨ (x = 0 ∨ x = -0) ∧ (y = 0 ∨ y = -0) := by
  have hzero : ∀ {z : Float}, (∃ s, unpacked z = .zero s) → z = 0 ∨ z = -0 := by
    rintro z ⟨s, hz⟩
    cases s
    · exact Or.inr (unpacked_injective hz)
    · exact Or.inl (unpacked_injective hz)
  rw [beq_eq, beq_iff_eq] at h
  rcases eq_of_compare_eq h with hsame | ⟨hx, hy⟩
  · exact Or.inl (unpacked_injective hsame)
  · exact Or.inr ⟨hzero hx, hzero hy⟩

/-- The two zeros are what is equal to zero. -/
lemma beq_zero_iff (x : Float) : (x == 0) = true ↔ x = 0 ∨ x = -0 := by
  constructor
  · intro h
    rcases eq_of_beq h with rfl | ⟨hx, -⟩
    · exact Or.inl rfl
    · exact hx
  · rintro (rfl | rfl) <;> decide

/-- NaN is equal to nothing. -/
lemma beq_nan (x : Float) : (x == nan) = false := by
  rw [beq_eq]
  have hnan : unpacked nan = .notANumber := rfl
  rw [hnan]
  cases unpacked x with
  | infinity s => cases s <;> rfl
  | finite s m e hm => cases s <;> rfl
  | notANumber => rfl
  | zero s => rfl

variable {y : Float}

/-- Nothing but a float itself is equal to it, unless it is a zero. -/
lemma beq_iff_of_ne_zero (hy : (y == 0) = false) (hself : (y == y) = true) (x : Float) :
    (x == y) = true ↔ x = y := by
  constructor
  · intro h
    rcases eq_of_beq h with hsame | ⟨-, hzero⟩
    · exact hsame
    · exact absurd ((beq_zero_iff y).mpr hzero) (by simp [hy])
  · rintro rfl
    exact hself

lemma isInf_iff (x : Float) : x.isInf = true ↔ x = posInf ∨ x = negInf := by
  constructor
  · intro h
    rw [isInf_eq] at h
    cases hx : unpacked x with
    | infinity s =>
      cases s
      · exact Or.inr (unpacked_injective hx)
      · exact Or.inl (unpacked_injective hx)
    | notANumber => simp [hx, UnpackedFloat.isInf] at h
    | zero s => simp [hx, UnpackedFloat.isInf] at h
    | finite s m e hm => simp [hx, UnpackedFloat.isInf] at h
  · rintro (rfl | rfl) <;> decide

/-- A positive number or infinity. -/
def isPositive : UnpackedFloat → Bool
  | .infinity .positive => true
  | .finite .positive _ _ _ => true
  | _ => false

lemma zero_lt_iff (y : Float) : 0 < y ↔ isPositive (unpacked y) = true := by
  rw [lt_iff, unpacked_zero]
  generalize unpacked y = u
  cases u with
  | notANumber => decide
  | infinity s => cases s <;> decide
  | zero s => cases s <;> decide
  | finite s m e hm => cases s <;> simp [UnpackedFloat.compare, isPositive]

/-- An int32 is not NaN. -/
lemma isNaN_ofInt32 (n : Int32) : (ofInt32 n).isNaN = false := by
  by_contra hnan
  rw [Bool.not_eq_false, isNaN_eq] at hnan
  have heq : ofInt32 n = nan := by
    apply unpacked_injective
    cases h : unpacked (ofInt32 n) with
    | notANumber => rfl
    | infinity s => simp [h, UnpackedFloat.isNaN] at hnan
    | zero s => simp [h, UnpackedFloat.isNaN] at hnan
    | finite s m e hm => simp [h, UnpackedFloat.isNaN] at hnan
  have hn : n = 0 := eq_zero_of_ofInt32_bits (Or.inr rfl)
    (congrArg (fun x : Float => x.toModel.toBits.toBitVec) heq)
  subst hn
  exact absurd heq (by decide)

/-! ## Quotients and remainders -/

lemma zero_div_unpacked_iff (s : Sign) (u : UnpackedFloat) :
    ofUnpacked (UnpackedFloat.div Format.binary64 (.zero s) u) = ofUnpacked (.zero s) ↔
      isPositive u = true := by
  cases u with
  | notANumber => cases s <;> decide
  | infinity t => cases s <;> cases t <;> decide
  | zero t => cases s <;> cases t <;> decide
  | finite t m e hm => cases s <;> cases t <;> simp only [UnpackedFloat.div, isPositive] <;> decide

/-- A zero divided by `y` is that zero for positive `y` only. -/
lemma zero_div_iff {z : Float} (hz : z = 0 ∨ z = -0) (y : Float) : z / y = z ↔ 0 < y := by
  rw [zero_lt_iff, div_eq]
  rcases hz with rfl | rfl
  · exact zero_div_unpacked_iff .positive (unpacked y)
  · exact zero_div_unpacked_iff .negative (unpacked y)

/-- What is not positive is negative, a zero or NaN. -/
lemma not_zero_lt_cases (hy : ¬ 0 < y) :
    y < 0 ∨ (y == 0) = true ∨ y.isNaN = true := by
  rw [zero_lt_iff] at hy
  rw [lt_iff, beq_eq, isNaN_eq, unpacked_zero]
  cases h : unpacked y with
  | notANumber => exact Or.inr (Or.inr rfl)
  | infinity s =>
    cases s
    · exact Or.inl rfl
    · exact absurd (by rw [h]; rfl) hy
  | zero s => exact Or.inr (Or.inl rfl)
  | finite s m e hm =>
    cases s
    · exact Or.inl rfl
    · exact absurd (by rw [h]; rfl) hy

lemma not_neg_of_zero_or_nan (hy : (y == 0) = true ∨ y.isNaN = true) : ¬ y < 0 := by
  rw [beq_eq, isNaN_eq, unpacked_zero] at hy
  rw [lt_iff, unpacked_zero]
  cases h : unpacked y with
  | notANumber => simp [UnpackedFloat.compare]
  | infinity s => cases s <;> simp [h, UnpackedFloat.compare, UnpackedFloat.isNaN] at hy
  | zero s => simp [UnpackedFloat.compare]
  | finite s m e hm => cases s <;> simp [h, UnpackedFloat.compare, UnpackedFloat.isNaN] at hy

/-- A zero divided by a negative number changes its sign. -/
lemma zero_div_of_neg (hy : y < 0) (s : Sign) :
    ofUnpacked (.zero s) / y = ofUnpacked (.zero (s / .negative)) := by
  have hzero : unpacked (ofUnpacked (.zero s)) = .zero s := by cases s <;> rfl
  rw [lt_iff, unpacked_zero] at hy
  rw [div_eq, hzero]
  cases h : unpacked y with
  | notANumber => simp [h, UnpackedFloat.compare] at hy
  | infinity t =>
    cases t
    · rfl
    · simp [h, UnpackedFloat.compare] at hy
  | zero t => simp [h, UnpackedFloat.compare] at hy
  | finite t m e hm =>
    cases t
    · rfl
    · simp [h, UnpackedFloat.compare] at hy

/-- A zero has no quotient by a zero or NaN. -/
lemma zero_div_of_zero_or_nan (hy : (y == 0) = true ∨ y.isNaN = true) (s : Sign) :
    ofUnpacked (.zero s) / y = nan := by
  have hzero : unpacked (ofUnpacked (.zero s)) = .zero s := by cases s <;> rfl
  rw [beq_eq, isNaN_eq, unpacked_zero] at hy
  rw [div_eq, hzero]
  cases h : unpacked y with
  | notANumber => rfl
  | infinity t => cases t <;> simp [h, UnpackedFloat.compare, UnpackedFloat.isNaN] at hy
  | zero t => rfl
  | finite t m e hm => cases t <;> simp [h, UnpackedFloat.compare, UnpackedFloat.isNaN] at hy

/-- The remainder of two numbers, both multiples of the smaller power of two; it is
exact and has the sign of the dividend. -/
def fmodUnpacked : UnpackedFloat → UnpackedFloat → UnpackedFloat
  | .notANumber, _ => .notANumber
  | _, .notANumber => .notANumber
  | .infinity _, _ => .notANumber
  | _, .zero _ => .notANumber
  | u, .infinity _ => u
  | .zero s, _ => .zero s
  | .finite s m e _, .finite _ m' e' _ =>
      let exponent := min e e'
      let remainder := m * 2 ^ (e - exponent).toNat % (m' * 2 ^ (e' - exponent).toNat)
      UnpackedFloat.normalize Format.binary64 (s.apply remainder) exponent s

/-- `fmod`. -/
def fmod (x y : Float) : Float := ofUnpacked (fmodUnpacked (unpacked x) (unpacked y))

lemma zero_fmodUnpacked_iff (s : Sign) (u : UnpackedFloat) :
    ofUnpacked (fmodUnpacked (.zero s) u) = ofUnpacked (.zero s) ↔
      u.compare (.zero .positive) ≠ some .eq ∧ u.isNaN = false := by
  cases u with
  | notANumber => cases s <;> decide
  | infinity t => cases s <;> cases t <;> decide
  | zero t => cases s <;> cases t <;> decide
  | finite t m e hm => cases t <;> simp [fmodUnpacked, UnpackedFloat.compare, UnpackedFloat.isNaN]

/-- The remainder of a zero is that zero, unless there is none. -/
lemma zero_fmod_iff {z : Float} (hz : z = 0 ∨ z = -0) (y : Float) :
    fmod z y = z ↔ (y == 0) = false ∧ y.isNaN = false := by
  have hzero : (y == 0) = false ↔ (unpacked y).compare (.zero .positive) ≠ some .eq := by
    rw [beq_eq, beq_eq_false_iff_ne, unpacked_zero]
  rw [hzero, isNaN_eq]
  rcases hz with rfl | rfl
  · exact zero_fmodUnpacked_iff .positive (unpacked y)
  · exact zero_fmodUnpacked_iff .negative (unpacked y)

/-- The remainder by an infinity is the dividend, unless there is none. -/
lemma fmod_inf_iff (x : Float) (hy : y = posInf ∨ y = negInf) :
    fmod x y = x ↔ x.isInf = false := by
  have hunpacked : ∃ s, unpacked y = .infinity s := by
    rcases hy with rfl | rfl
    · exact ⟨_, unpacked_posInf⟩
    · exact ⟨_, unpacked_negInf⟩
  obtain ⟨s, hs⟩ := hunpacked
  have hx := ofUnpacked_unpacked x
  unfold fmod
  rw [isInf_eq, hs]
  generalize unpacked x = u at hx
  subst hx
  cases u with
  | notANumber => simp [fmodUnpacked, UnpackedFloat.isInf]
  | infinity t => cases t <;> simp only [fmodUnpacked, UnpackedFloat.isInf] <;> decide
  | zero t => simp [fmodUnpacked, UnpackedFloat.isInf]
  | finite t m e hm => simp [fmodUnpacked, UnpackedFloat.isInf]

/-- There is no remainder by a zero. -/
lemma fmod_zero (x : Float) (hy : (y == 0) = true) : fmod x y = nan := by
  have hunpacked : ∃ s, unpacked y = .zero s := by
    rcases (beq_zero_iff y).mp hy with rfl | rfl
    · exact ⟨_, unpacked_zero⟩
    · exact ⟨_, unpacked_neg_zero⟩
  rcases hunpacked with ⟨s, hs⟩
  unfold fmod nan
  rw [hs]
  cases unpacked x <;> rfl

/-- There is no remainder by NaN. -/
lemma fmod_nan (x : Float) (hy : y.isNaN = true) : fmod x y = nan := by
  rw [isNaN_eq] at hy
  unfold fmod nan
  cases h : unpacked y with
  | notANumber => cases unpacked x <;> rfl
  | infinity s => simp [h, UnpackedFloat.isNaN] at hy
  | zero s => simp [h, UnpackedFloat.isNaN] at hy
  | finite s m e hm => simp [h, UnpackedFloat.isNaN] at hy

/-- An infinity has no remainder. -/
lemma inf_fmod (hx : x = posInf ∨ x = negInf) (y : Float) : fmod x y = nan := by
  unfold fmod nan
  rcases hx with rfl | rfl
  · rw [unpacked_posInf]
    cases unpacked y <;> rfl
  · rw [unpacked_negInf]
    cases unpacked y <;> rfl

/-! ## From a float to an int32 -/

lemma unpackSign_packComponents (s : Sign) (e : BitVec Format.binary64.exponentBits)
    (m : BitVec Format.binary64.mantissaBitsWithoutImplicit) :
    unpackSign (packComponents Format.binary64 s e m) = s.toBitVec := by
  unfold unpackSign packComponents
  apply eq_of_getLsbD_eq
  intro i hi
  obtain rfl : i = 0 := by omega
  simp only [getLsbD_append, getLsbD_cast, getLsbD_extractLsb]
  rfl

/-- Unpacking undoes packing for a number of 53 bits in the range of the exponents. -/
lemma unpack_pack_finite {s : Sign} (hm : 0 < m) (hlog : m.log2 = 52) (hmin : -1074 ≤ e)
    (hmax : e ≤ 971) :
    UnpackedFloat.unpack Format.binary64 (UnpackedFloat.pack Format.binary64 (.finite s m e hm)) =
      .finite s m e hm := by
  have hbias : Format.binary64.exponentBias = 1023 := by decide
  have hbiased : (e + Format.binary64.exponentBias + (52 : Nat)).toNat = (e + 1075).toNat := by
    omega
  have hmantissa : (1#1 ++ BitVec.ofNat 52 m).toNat = m := by
    have hlow := (Nat.log2_eq_iff (by omega)).mp hlog
    rw [toNat_normal, toNat_ofNat]
    omega
  have hexp : (BitVec.ofNat 11 (e + 1075).toNat).toNat = (e + 1075).toNat := by
    rw [toNat_ofNat]
    exact Nat.mod_eq_of_lt (by omega)
  have hpack : UnpackedFloat.pack Format.binary64 (.finite s m e hm) =
      packComponents Format.binary64 s (BitVec.ofNat 11 (e + 1075).toNat) (BitVec.ofNat 52 m) := by
    simp only [UnpackedFloat.pack]
    rw [hbiased, if_neg (by omega), if_pos (by simp only [Format.mantissaBits]; omega)]
  rw [hpack]
  unfold UnpackedFloat.unpack
  simp only [unpackExponent_packComponents, unpackMantissa_packComponents,
    unpackSign_packComponents]
  have hmax' : BitVec.ofNat 11 (e + 1075).toNat ≠ -1#11 := by
    intro h
    rw [h] at hexp
    have : (-1#11 : BitVec 11).toNat = 2047 := by decide
    omega
  have hmin' : BitVec.ofNat 11 (e + 1075).toNat ≠ 0#11 := by
    intro h
    rw [h] at hexp
    simp at hexp
    omega
  rw [if_neg hmax', if_neg hmin']
  congr 1
  · cases s <;> rfl
  · rw [hexp]
    omega

/-- An int32 survives the conversion to a float and back. -/
lemma toInt32_ofInt32 (n : Int32) : toInt32 (ofInt32 n) = n := by
  have hlow := n.le_toInt
  have hhigh := n.toInt_lt
  have hlog : ∀ m : Nat, m ≤ 2 ^ 31 → 0 < m → m.log2 ≤ 52 := by
    intro m hm hpos
    have hlt := (Nat.log2_lt (n := m) (k := 53) (by omega)).mpr (by omega)
    omega
  have hround : ∀ (s : Sign) (m : Nat), 0 < m → m ≤ 2 ^ 31 →
      (UnpackedFloat.unpack Format.binary64 (UnpackedFloat.pack Format.binary64
        (UnpackedFloat.round Format.binary64 s m 0))).toInt Int32.minValue.toInt
          Int32.maxValue.toInt = s.apply m := by
    intro s m hpos hle
    have hml := hlog m hle hpos
    rw [round_natural hpos hml, unpack_pack_finite _ (by rw [log2_mul_two_pow hpos]; omega)
      (by omega) (by omega)]
    have hdown : ((-(52 - m.log2 : Nat) : Int) - 0).toNat = 0 := by omega
    have hup : ((0 : Int) - (-(52 - m.log2 : Nat) - (0 : Nat))).toNat = 52 - m.log2 := by omega
    simp only [UnpackedFloat.toInt, roundToInt, decreaseExponent, shiftToExponent, hdown, hup,
      Nat.shiftLeft_zero, ExtendedMantissa.ofMantissaAndAccuracy, shiftRight_zeros]
  change Int32.ofIntClamp ((UnpackedFloat.unpack Format.binary64 (UnpackedFloat.pack
    Format.binary64 (UnpackedFloat.ofInt32 Format.binary64 n))).toInt Int32.minValue.toInt
      Int32.maxValue.toInt) = n
  suffices hexact : (UnpackedFloat.unpack Format.binary64 (UnpackedFloat.pack Format.binary64
      (UnpackedFloat.ofInt32 Format.binary64 n))).toInt Int32.minValue.toInt
        Int32.maxValue.toInt = n.toInt by
    rw [hexact, Int32.ofIntClamp_toInt]
  unfold UnpackedFloat.ofInt32 UnpackedFloat.ofInt UnpackedFloat.normalize
  split
  · rename_i hcmp
    rw [Int.compare_eq_lt] at hcmp
    rw [hround _ _ (by omega) (by omega)]
    simp only [Sign.apply]
    omega
  · rename_i hcmp
    rw [Int.compare_eq_eq] at hcmp
    rw [hcmp]
    rfl
  · rename_i hcmp
    rw [Int.compare_eq_gt] at hcmp
    rw [hround _ _ (by omega) (by omega)]
    simp only [Sign.apply]
    omega

/-! ## Floats of stored bits -/

/-- What is not NaN has the bits it was stored with. -/
lemma toBits_ofBits {a : UInt64} (h : (Float.ofBits a).isNaN = false) :
    (Float.ofBits a).toModel.toBits = a := by
  have hvalid : Format.binary64.Valid a.toBitVec := by
    refine ⟨fun hexp hmantissa => ?_⟩
    have hunpack : UnpackedFloat.unpack Format.binary64 a.toBitVec = .notANumber := by
      unfold UnpackedFloat.unpack
      simp only
      rw [if_pos hexp, if_neg hmantissa]
    have hnan : Float.ofBits a = nan := by
      change Float.ofModel (.pack (UnpackedFloat.unpack Format.binary64 a.toBitVec)) = _
      rw [hunpack]
      rfl
    rw [hnan] at h
    exact absurd h (by decide)
  change UInt64.ofBitVec (UnpackedFloat.pack Format.binary64
    (UnpackedFloat.unpack Format.binary64 a.toBitVec)) = a
  rw [pack_unpack hvalid]

lemma ofBits_injective {a b : UInt64} (ha : (Float.ofBits a).isNaN = false)
    (h : Float.ofBits a = Float.ofBits b) : a = b := by
  rw [← toBits_ofBits ha, h, toBits_ofBits (h ▸ ha)]

lemma beq_self (h : x.isNaN = false) : (x == x) = true := by
  rw [isNaN_eq] at h
  rw [beq_eq]
  cases hx : unpacked x with
  | notANumber =>
    rw [hx] at h
    cases h
  | infinity s => cases s <;> rfl
  | zero s => rfl
  | finite s m e hm => cases s <;> simp [UnpackedFloat.compare, Ordering.then]

lemma eq_nan_of_isNaN (h : x.isNaN = true) : x = nan := by
  rw [isNaN_eq] at h
  apply unpacked_injective
  cases hx : unpacked x with
  | notANumber => rfl
  | infinity s =>
    rw [hx] at h
    cases h
  | zero s =>
    rw [hx] at h
    cases h
  | finite s m e hm =>
    rw [hx] at h
    cases h

end SpiderMonkey.Lib.Binary64
