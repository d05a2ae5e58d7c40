import SpiderMonkey.Vm.ArraySort

/-! # Sorting arrays is correct

The comparison of int32s is that of their decimal strings, so the three ways to sort give the
same order. An array without anything to sort is left as it is, undefined elements after holes
included.
-/

namespace SpiderMonkey

open SpiderMonkey.Lib SpiderMonkey.Ds List UInt32

/-! ## Counting digits -/

lemma ceilingLog2_spec (n : UInt32) (hpos : 0 < n.toNat) :
    n.toNat ≤ 2 ^ (ceilingLog2 n).toNat ∧ 2 ^ (ceilingLog2 n).toNat < 2 * n.toNat := by
  rw [ceilingLog2]
  split_ifs with hone
  · rw [le_iff_toNat_le] at hone
    have h1 : (1 : UInt32).toNat = 1 := rfl
    have h0 : (0 : UInt32).toNat = 0 := rfl
    rw [h1] at hone
    rw [h0]
    omega
  · rw [le_iff_toNat_le] at hone
    have h1 : (1 : UInt32).toNat = 1 := rfl
    rw [h1] at hone
    have hlt := n.toNat_lt
    have hsub : (n - 1).toNat = n.toNat - 1 := by
      rw [UInt32.toNat_sub, h1]
      omega
    have hlog : ((n - 1).log2 + 1).toNat = (n.toNat - 1).log2 + 1 := by
      have heq : (n - 1).log2.toNat = (n.toNat - 1).log2 := by
        rw [← hsub]
        rfl
      have hsmall : (n.toNat - 1).log2 < 32 := (Nat.log2_lt (by omega)).2 (by omega)
      rw [UInt32.toNat_add, heq, h1]
      omega
    have hself := Nat.log2_self_le (n := n.toNat - 1) (by omega)
    have hlt' := Nat.lt_log2_self (n := n.toNat - 1)
    rw [hlog, Nat.pow_succ] at *
    omega

/-- The number of digits is `t` or one more, as the table says. -/
lemma count_digits (n t : UInt32) (p : UInt64) (hpos : 0 < n.toNat)
    (hp : p.toNat = 10 ^ t.toNat) (ht : t.toNat ≤ 9) (hle : 10 ^ (t.toNat - 1) ≤ n.toNat)
    (hlt : n.toNat < 10 ^ (t.toNat + 1)) :
    ∃ d, (t - (if n.toUInt64 < p then 1 else 0) + 1).toNat = d + 1 ∧ d ≤ 9 ∧
      10 ^ d ≤ n.toNat ∧ n.toNat < 10 ^ (d + 1) := by
  have h1 : (1 : UInt32).toNat = 1 := rfl
  have h0 : (0 : UInt32).toNat = 0 := rfl
  by_cases hless : n.toUInt64 < p
  · rw [if_pos hless]
    rw [UInt64.lt_iff_toNat_lt, toNat_toUInt64, hp] at hless
    have htpos : t.toNat ≠ 0 := by
      intro hzero
      rw [hzero, Nat.pow_zero] at hless
      omega
    refine ⟨t.toNat - 1, ?_, by omega, hle, ?_⟩
    · rw [UInt32.toNat_add, UInt32.toNat_sub, h1]
      omega
    · rwa [Nat.sub_add_cancel (by omega)]
  · rw [if_neg hless]
    rw [UInt64.lt_iff_toNat_lt, toNat_toUInt64, hp] at hless
    refine ⟨t.toNat, ?_, ht, by omega, hlt⟩
    rw [UInt32.toNat_add, UInt32.toNat_sub, h1, h0]
    omega

/-- For each logarithm, the table's entry is between the bounds that it gives. -/
lemma powersOf10_spec (log2 : Fin 33) :
    (((UInt32.ofNat log2 * 1233) >>> 12).toNat ≤ 9 ∧
      (powersOf10.getD ((UInt32.ofNat log2 * 1233) >>> 12).toNat 0).toNat =
        10 ^ ((UInt32.ofNat log2 * 1233) >>> 12).toNat) ∧
      2 * 10 ^ (((UInt32.ofNat log2 * 1233) >>> 12).toNat - 1) ≤ 2 ^ log2.val + 1 ∧
      2 ^ log2.val < 10 ^ (((UInt32.ofNat log2 * 1233) >>> 12).toNat + 1) := by
  revert log2
  decide +kernel

/-- A positive number has as many digits as are counted. -/
lemma numDigitsBase10_spec (n : UInt32) (hpos : 0 < n.toNat) :
    ∃ d, (numDigitsBase10 n).toNat = d + 1 ∧ d ≤ 9 ∧ 10 ^ d ≤ n.toNat ∧
      n.toNat < 10 ^ (d + 1) := by
  rcases ceilingLog2_spec n hpos with ⟨hupper, hlower⟩
  have hlt := n.toNat_lt
  rw [numDigitsBase10]
  have hle : (ceilingLog2 n).toNat ≤ 32 := by
    by_contra hbig
    have hpow : 2 ^ 33 ≤ 2 ^ (ceilingLog2 n).toNat := Nat.pow_le_pow_right (by omega) (by omega)
    omega
  rcases powersOf10_spec ⟨(ceilingLog2 n).toNat, by omega⟩ with ⟨⟨ht, hp⟩, hlow, hhigh⟩
  simp only [UInt32.ofNat_toNat] at ht hp hlow hhigh
  refine count_digits n _ _ hpos hp ht ?_ ?_
  · omega
  · exact lt_of_le_of_lt hupper hhigh

/-! ## Comparing decimal strings -/

/-- Numbers of `da + 1` and `db + 1` digits are compared as their strings are. -/
lemma charsLe_backfill {a b da db : Nat} (ha : a < 10 ^ (da + 1)) (ha' : 10 ^ da ≤ a ∨ da = 0)
    (hb : b < 10 ^ (db + 1)) (hb' : 10 ^ db ≤ b ∨ db = 0) :
    charsLe (backfillIndexInCharBuffer a) (backfillIndexInCharBuffer b) = true ↔
      if da = db then a ≤ b
      else if db < da then a < b * 10 ^ (da - db)
      else a * 10 ^ (db - da) ≤ b := by
  rw [backfillIndexInCharBuffer_eq ha ha', backfillIndexInCharBuffer_eq hb hb', charsLe,
    decide_eq_true_iff]
  rcases Nat.lt_trichotomy da db with hlt | heq | hgt
  · -- the second number's first digits decide
    rcases Nat.exists_eq_add_of_lt hlt with ⟨k, rfl⟩
    have hpos : 0 < 10 ^ (k + 1) := Nat.pow_pos (by omega)
    have hdigits : lastDigits b (da + k + 1 + 1) =
        lastDigits (b / 10 ^ (k + 1)) (da + 1) ++ lastDigits b (k + 1) := by
      rw [← lastDigits_add]
      congr 1
      omega
    have hprefix : b / 10 ^ (k + 1) < 10 ^ (da + 1) := by
      rw [Nat.div_lt_iff_lt_mul hpos, ← Nat.pow_add]
      rwa [show da + 1 + (k + 1) = da + k + 1 + 1 by omega]
    have hcmp := compareChars_lastDigits ha hprefix
    have hlength : (lastDigits a (da + 1)).length =
        (lastDigits (b / 10 ^ (k + 1)) (da + 1)).length := by simp
    have happend := compareChars_append hlength [] (lastDigits b (k + 1))
    rw [append_nil, ← hdigits] at happend
    have hnil : compareChars [] (lastDigits b (k + 1)) = -((k : Int) + 1) := by
      simp [compareChars]
    rw [if_neg (by omega), if_neg (by omega), show da + k + 1 - da = k + 1 by omega,
      ← Nat.le_div_iff_mul_le hpos, happend, hnil]
    split_ifs with hne
    · omega
    · omega
  · subst heq
    have hcmp := compareChars_lastDigits ha hb
    rw [if_pos rfl]
    omega
  · -- the first number's first digits decide, and it is longer
    rcases Nat.exists_eq_add_of_lt hgt with ⟨k, rfl⟩
    have hpos : 0 < 10 ^ (k + 1) := Nat.pow_pos (by omega)
    have hdigits : lastDigits a (db + k + 1 + 1) =
        lastDigits (a / 10 ^ (k + 1)) (db + 1) ++ lastDigits a (k + 1) := by
      rw [← lastDigits_add]
      congr 1
      omega
    have hprefix : a / 10 ^ (k + 1) < 10 ^ (db + 1) := by
      rw [Nat.div_lt_iff_lt_mul hpos, ← Nat.pow_add]
      rwa [show db + 1 + (k + 1) = db + k + 1 + 1 by omega]
    have hcmp := compareChars_lastDigits hprefix hb
    have hlength : (lastDigits (a / 10 ^ (k + 1)) (db + 1)).length =
        (lastDigits b (db + 1)).length := by simp
    have happend := compareChars_append hlength (lastDigits a (k + 1)) []
    rw [append_nil, ← hdigits] at happend
    have hnil : compareChars (lastDigits a (k + 1)) [] = (k : Int) + 1 := by
      simp [compareChars]
    rw [if_neg (by omega), if_pos (by omega), show db + k + 1 - db = k + 1 by omega,
      ← Nat.div_lt_iff_lt_mul hpos, happend, hnil]
    split_ifs with hne
    · omega
    · omega

lemma exists_digitChar_cons (n : Nat) :
    ∃ d rest, d < 10 ∧ backfillIndexInCharBuffer n = digitChar d :: rest := by
  fun_induction backfillIndexInCharBuffer n with
  | case1 n next digit hpos ih =>
    rcases ih with ⟨d, rest, hd, heq⟩
    exact ⟨d, rest ++ [digitChar digit], hd, by rw [heq, cons_append]⟩
  | case2 n next digit hzero =>
    exact ⟨digit, [], Nat.mod_lt n (by omega), rfl⟩

lemma powersOf10_toNat (k : Fin 10) : (powersOf10.getD k 0).toNat = 10 ^ k.val := by
  revert k
  decide +kernel

lemma toNat_mul_powersOf10 (a : UInt32) {k : Nat} (hk : k ≤ 9) :
    (a.toUInt64 * powersOf10.getD k 0).toNat = a.toNat * 10 ^ k := by
  have hlt := a.toNat_lt
  have hpow : 10 ^ k ≤ 10 ^ 9 := Nat.pow_le_pow_right (by omega) hk
  have hmul : a.toNat * 10 ^ k ≤ 4294967296 * 10 ^ 9 := Nat.mul_le_mul (by omega) hpow
  have htable : (powersOf10.getD k 0).toNat = 10 ^ k := powersOf10_toNat ⟨k, by omega⟩
  rw [UInt64.toNat_mul, toNat_toUInt64, htable, Nat.mod_eq_of_lt (by omega)]

/-- The part of the comparison that looks at the digits. -/
def compareDigits (auint buint : UInt32) : Bool :=
  let digitsa := numDigitsBase10 auint
  let digitsb := numDigitsBase10 buint
  if digitsa = digitsb then auint ≤ buint
  else if digitsb < digitsa then
    auint.toUInt64 < buint.toUInt64 * powersOf10.getD (digitsa - digitsb).toNat 0
  else auint.toUInt64 * powersOf10.getD (digitsb - digitsa).toNat 0 ≤ buint.toUInt64

lemma compareDigits_zero_left {b : UInt32} (hpos : 0 < b.toNat) : compareDigits 0 b = true := by
  rcases numDigitsBase10_spec b hpos with ⟨d, hd, _, _, _⟩
  have hzero : numDigitsBase10 0 = 0 := by decide +kernel
  have hne : (0 : UInt32) ≠ numDigitsBase10 b := by
    intro heq
    rw [← heq] at hd
    cases hd
  have hnlt : ¬ numDigitsBase10 b < 0 := by
    rw [lt_iff_toNat_lt]
    exact Nat.not_lt_zero _
  simp only [compareDigits, hzero, if_neg hne, if_neg hnlt, decide_eq_true_eq,
    UInt64.le_iff_toNat_le, UInt64.toNat_mul]
  simp

lemma compareDigits_zero_right {a : UInt32} (hpos : 0 < a.toNat) :
    compareDigits a 0 = false := by
  rcases numDigitsBase10_spec a hpos with ⟨d, hd, _, _, _⟩
  have hzero : numDigitsBase10 0 = 0 := by decide +kernel
  have hlt : 0 < numDigitsBase10 a := by
    rw [lt_iff_toNat_lt, hd]
    exact Nat.succ_pos d
  have hne : numDigitsBase10 a ≠ 0 := by
    intro heq
    rw [heq] at hd
    cases hd
  simp only [compareDigits, hzero, if_neg hne, if_pos hlt, decide_eq_false_iff_not,
    UInt64.lt_iff_toNat_lt, UInt64.toNat_mul]
  simp

/-- The comparison by digits is that of the decimal strings. -/
lemma compareDigits_eq {a b : UInt32} (hne : a ≠ b) :
    compareDigits a b = charsLe (backfillIndexInCharBuffer a.toNat)
      (backfillIndexInCharBuffer b.toNat) := by
  rw [Bool.eq_iff_iff]
  have hne' : a.toNat ≠ b.toNat := fun heq => hne (UInt32.toNat_inj.1 heq)
  rcases Nat.eq_zero_or_pos a.toNat with ha | ha
  · -- zero has no digits, but it is at most any other number
    have ha0 : a = 0 := UInt32.toNat_inj.1 ha
    have hb : 0 < b.toNat := by omega
    rcases numDigitsBase10_spec b hb with ⟨db, _, _, hlow, hhigh⟩
    rw [charsLe_backfill (by rw [ha]; exact Nat.pow_pos (by omega)) (Or.inr rfl) hhigh
      (Or.inl hlow), ha, ha0, compareDigits_zero_left hb]
    simp
  · rcases numDigitsBase10_spec a ha with ⟨da, hda, hda9, hlowa, hhigha⟩
    rcases Nat.eq_zero_or_pos b.toNat with hb | hb
    · have hb0 : b = 0 := UInt32.toNat_inj.1 hb
      rw [charsLe_backfill hhigha (Or.inl hlowa) (by rw [hb]; exact Nat.pow_pos (by omega))
        (Or.inr rfl), hb, hb0, compareDigits_zero_right ha]
      simp only [Bool.false_eq_true, Nat.zero_mul, Nat.not_lt_zero, Nat.le_zero, false_iff]
      split_ifs with hda0 hdapos
      · omega
      · exact id
      · omega
    · rcases numDigitsBase10_spec b hb with ⟨db, hdb, hdb9, hlowb, hhighb⟩
      rw [charsLe_backfill hhigha (Or.inl hlowa) hhighb (Or.inl hlowb)]
      have heq : numDigitsBase10 a = numDigitsBase10 b ↔ da = db := by
        rw [← UInt32.toNat_inj, hda, hdb]
        omega
      have hlt : numDigitsBase10 b < numDigitsBase10 a ↔ db < da := by
        rw [lt_iff_toNat_lt, hda, hdb]
        omega
      simp only [compareDigits, heq, hlt]
      by_cases hsame : da = db
      · rw [if_pos hsame, if_pos hsame, decide_eq_true_iff, le_iff_toNat_le]
      · rw [if_neg hsame, if_neg hsame]
        by_cases hless : db < da
        · have hsub : (numDigitsBase10 a - numDigitsBase10 b).toNat = da - db := by
            rw [UInt32.toNat_sub, hda, hdb]
            omega
          rw [if_pos hless, if_pos hless, decide_eq_true_iff, UInt64.lt_iff_toNat_lt, hsub,
            toNat_mul_powersOf10 b (by omega), toNat_toUInt64]
        · have hsub : (numDigitsBase10 b - numDigitsBase10 a).toNat = db - da := by
            rw [UInt32.toNat_sub, hda, hdb]
            omega
          rw [if_neg hless, if_neg hless, decide_eq_true_iff, UInt64.le_iff_toNat_le, hsub,
            toNat_mul_powersOf10 a (by omega), toNat_toUInt64]

lemma toNat_toUInt32_of_nonneg {i : Int32} (h : 0 ≤ i) : i.toUInt32.toNat = i.toInt.natAbs := by
  have hlow := i.le_toInt
  have hhigh := i.toInt_lt
  have hres := toUInt32_toNat i
  rw [Int32.le_iff_toInt_le] at h
  have h0 : (0 : Int32).toInt = 0 := rfl
  omega

lemma toNat_negateNegativeInt32 {i : Int32} (h : i < 0) :
    (negateNegativeInt32 i).toNat = i.toInt.natAbs := by
  have hlow := i.le_toInt
  have hres := toUInt32_toNat i
  have hlt := i.toUInt32.toNat_lt
  rw [Int32.lt_iff_toInt_lt] at h
  have h0 : (0 : Int32).toInt = 0 := rfl
  have h1 : (1 : UInt32).toNat = 1 := rfl
  rw [negateNegativeInt32, UInt32.toNat_add, UInt32.toNat_not, h1, UInt32.size]
  omega

/-- **Int32s are compared as their decimal strings.** -/
lemma compareLexicographicInt32_eq (a b : Int32) :
    compareLexicographicInt32 a b = charsLe (intToCString a) (intToCString b) := by
  have hnonneg (i : Int32) : 0 ≤ i ↔ ¬ i.toInt < 0 := by
    rw [Int32.le_iff_toInt_le]
    exact Int.not_lt.symm
  have hneg (i : Int32) : i < 0 ↔ i.toInt < 0 := by
    rw [Int32.lt_iff_toInt_lt]
    rfl
  -- the sign's code unit is before every digit
  have hsign (d : Nat) (hd : d < 10) : (digitChar d).toNat = 48 + d := by
    rw [digitChar, UInt16.toNat_ofNat']
    omega
  have h45 : (45 : Jschar).toNat = 45 := rfl
  have hinj (hne : a ≠ b) : a.toInt ≠ b.toInt := fun heq => hne (Int32.toInt_inj.1 heq)
  rw [compareLexicographicInt32]
  by_cases heq : a = b
  · rw [if_pos heq, heq]
    exact (compares_charsLe.refl _).symm
  have hne := hinj heq
  rw [if_neg heq]
  by_cases ha : a.toInt < 0
  · by_cases hb : b.toInt < 0
    · rw [if_neg fun h => (hnonneg b).1 h.2 hb, if_neg fun h => (hnonneg a).1 h.1 ha]
      simp only [if_neg (by rw [hnonneg]; exact not_not.2 ha : ¬ 0 ≤ a)]
      show compareDigits (negateNegativeInt32 a) (negateNegativeInt32 b) = _
      have hna := toNat_negateNegativeInt32 ((hneg a).2 ha)
      have hnb := toNat_negateNegativeInt32 ((hneg b).2 hb)
      have hdiff : negateNegativeInt32 a ≠ negateNegativeInt32 b := by
        intro hsame
        rw [hsame, hnb] at hna
        omega
      rw [compareDigits_eq hdiff, hna, hnb, intToCString, intToCString]
      simp only [if_pos ha, if_pos hb, charsLe, compareChars, Int.sub_self, ne_eq,
        not_true_eq_false, if_false]
    · rw [if_pos ⟨(hneg a).2 ha, (hnonneg b).2 hb⟩]
      rcases exists_digitChar_cons b.toInt.natAbs with ⟨d, rest, hd, hdigits⟩
      rw [intToCString, intToCString]
      simp only [if_pos ha, if_neg hb, hdigits, charsLe, compareChars, h45, hsign d hd]
      rw [if_pos (by omega)]
      exact (decide_eq_true (by omega)).symm
  · rw [if_neg fun h => ha ((hneg a).1 h.1)]
    by_cases hb : b.toInt < 0
    · rw [if_pos ⟨(hnonneg a).2 ha, (hneg b).2 hb⟩]
      rcases exists_digitChar_cons a.toInt.natAbs with ⟨d, rest, hd, hdigits⟩
      rw [intToCString, intToCString]
      simp only [if_neg ha, if_pos hb, hdigits, charsLe, compareChars, h45, hsign d hd]
      rw [if_pos (by omega)]
      exact (decide_eq_false (by omega)).symm
    · rw [if_neg fun h => hb ((hneg b).1 h.2)]
      simp only [if_pos ((hnonneg a).2 ha)]
      show compareDigits a.toUInt32 b.toUInt32 = _
      have hna := toNat_toUInt32_of_nonneg ((hnonneg a).2 ha)
      have hnb := toNat_toUInt32_of_nonneg ((hnonneg b).2 hb)
      have hdiff : a.toUInt32 ≠ b.toUInt32 := by
        intro hsame
        rw [hsame, hnb] at hna
        omega
      rw [compareDigits_eq hdiff, hna, hnb, intToCString, intToCString]
      simp only [if_neg ha, if_neg hb]

/-! ## The sorted elements -/

section

variable (numberToCString : Float → List Jschar)

/-- The order of the elements: that of their strings. -/
def elementLe (a b : Primitive) : Bool :=
  charsLe (valueToStringBuffer numberToCString a) (valueToStringBuffer numberToCString b)

lemma compares_elementLe : Compares (elementLe numberToCString) :=
  compares_charsLe.comap (valueToStringBuffer numberToCString)

lemma stringify_append (vec : List Primitive) (i : Nat) (sb : List Jschar) :
    ∃ t, (stringify numberToCString vec i sb).1 = sb ++ t := by
  induction vec generalizing i sb with
  | nil => exact ⟨[], (append_nil sb).symm⟩
  | cons v rest ih =>
    rcases ih (i + 1) (sb ++ valueToStringBuffer numberToCString v) with ⟨t, ht⟩
    exact ⟨valueToStringBuffer numberToCString v ++ t, by rw [stringify, ht, append_assoc]⟩

lemma stringify_elementIndex (vec : List Primitive) (i : Nat) (sb : List Jschar) :
    (stringify numberToCString vec i sb).2.map StringifiedElement.elementIndex =
      List.range' i vec.length := by
  induction vec generalizing i sb with
  | nil => rfl
  | cons v rest ih => rw [stringify, map_cons, ih, length_cons, range'_succ]

/-- An element's part of the buffer is its string. -/
lemma stringify_chars (vec : List Primitive) (i : Nat) (sb : List Jschar) :
    ∀ el ∈ (stringify numberToCString vec i sb).2, i ≤ el.elementIndex ∧
      el.chars (stringify numberToCString vec i sb).1 =
        valueToStringBuffer numberToCString (vec.getD (el.elementIndex - i) .undefined) := by
  induction vec generalizing i sb with
  | nil =>
    intro el hel
    cases hel
  | cons v rest ih =>
    intro el hel
    rcases mem_cons.1 hel with rfl | hel
    · rcases stringify_append numberToCString rest (i + 1)
        (sb ++ valueToStringBuffer numberToCString v) with ⟨t, ht⟩
      refine ⟨le_rfl, ?_⟩
      rw [stringify, ht, StringifiedElement.chars]
      simp
    · rcases ih (i + 1) (sb ++ valueToStringBuffer numberToCString v) el hel with ⟨hle, hchars⟩
      refine ⟨by omega, ?_⟩
      rw [stringify, hchars, show el.elementIndex - i = el.elementIndex - (i + 1) + 1 by omega,
        getD_cons_succ]

/-- Whichever way the elements are sorted, they are sorted stably by their strings. -/
lemma sortElements_spec (vec : List Primitive) :
    StableSort (elementLe numberToCString) vec (sortElements numberToCString vec) := by
  have h := compares_elementLe numberToCString
  rw [sortElements]
  split_ifs with hstrings hints
  · -- all are strings
    have hsort := mergeSort_spec (compares_charsLe.comap Primitive.toString) vec
    have hchars : ∀ a ∈ vec, valueToStringBuffer numberToCString a = a.toString := by
      intro a ha
      have hstring := all_eq_true.1 hstrings a ha
      cases a with
      | string chars => rfl
      | _ => cases hstring
    have hmap := hsort.map (f := id) h ?_
    · rwa [map_id, map_id] at hmap
    · intro a ha b hb
      rw [elementLe, id, id, hchars a ha, hchars b hb]
  · -- all are int32s
    have hcompares : Compares fun a b : Primitive =>
        compareLexicographicInt32 a.toInt32 b.toInt32 := by
      simp only [compareLexicographicInt32_eq]
      exact compares_charsLe.comap fun a : Primitive => intToCString a.toInt32
    have hchars : ∀ a ∈ vec, valueToStringBuffer numberToCString a = intToCString a.toInt32 := by
      intro a ha
      have hint := all_eq_true.1 hints a ha
      cases a with
      | int32 n => rfl
      | _ => cases hint
    have hmap := (mergeSort_spec hcompares vec).map (f := id) h ?_
    · rwa [map_id, map_id] at hmap
    · intro a ha b hb
      rw [elementLe, id, id, hchars a ha, hchars b hb, compareLexicographicInt32_eq]
  · -- the strings are parts of the buffer
    have hsort := mergeSort_spec (compares_charsLe.comap fun el : StringifiedElement =>
      el.chars (stringify numberToCString vec 0 []).1) (stringify numberToCString vec 0 []).2
    have hall : (stringify numberToCString vec 0 []).2.map
        (fun el => vec.getD el.elementIndex .undefined) = vec := by
      have hindex := stringify_elementIndex numberToCString vec 0 []
      have hcomp : (fun el : StringifiedElement => vec.getD el.elementIndex .undefined) =
          (fun i => vec.getD i .undefined) ∘ StringifiedElement.elementIndex := rfl
      rw [hcomp, ← map_map, hindex]
      apply ext_getElem
      · simp
      · intro i h1 h2
        simp [h2]
    have hmap := hsort.map (f := fun el => vec.getD el.elementIndex .undefined) h ?_
    · rwa [hall] at hmap
    · intro a ha b hb
      have hchars := stringify_chars numberToCString vec 0 []
      rw [elementLe, (hchars a ha).2, (hchars b hb).2, Nat.sub_zero, Nat.sub_zero]

/-! ## The array -/

lemma length_definedElements (elements : Elements) :
    (definedElements elements).length + elements.count (some .undefined) + elements.count none =
      elements.length := by
  induction elements with
  | nil => rfl
  | cons v rest ih =>
    have hrest : (definedElements rest).length =
      (rest.filterMap fun v => if v = some .undefined then none else v).length := rfl
    rw [definedElements, filterMap_cons, count_cons, count_cons, length_cons]
    cases v with
    | none =>
      simp only [beq_self_eq_true, if_true]
      have hne : (none == some Primitive.undefined) = false := rfl
      simp only [hne]
      simp at ih ⊢
      rw [hrest] at ih
      omega
    | some v =>
      have hsome : (some v == none) = false := rfl
      by_cases hv : v = .undefined
      · simp only [hv, if_true, beq_self_eq_true]
        simp at ih ⊢
        rw [hrest] at ih
        omega
      · have hne : (some v == some Primitive.undefined) = false := by simpa using hv
        simp only [hsome, hne, Option.some.injEq, hv, if_false, length_cons]
        simp at ih ⊢
        rw [hrest] at ih
        omega

lemma setUndefined_eq (undefs : Nat) (before old rest : Elements) (hold : old.length = undefs) :
    setUndefined undefs (before ++ old ++ rest, before.length) =
      (before ++ List.replicate undefs (some .undefined) ++ rest, before.length + undefs) := by
  induction undefs generalizing before old with
  | zero =>
    rw [length_eq_zero_iff] at hold
    rw [setUndefined, hold]
    rfl
  | succ undefs ih =>
    cases old with
    | nil => cases hold
    | cons v old =>
      have hset : (before ++ v :: old ++ rest).set before.length (some .undefined) =
          (before ++ [some .undefined]) ++ old ++ rest := by
        rw [append_assoc, set_append_right _ _ (le_refl _)]
        simp
      have hlength : (before ++ [some Primitive.undefined]).length = before.length + 1 := by simp
      rw [setUndefined, hset, ← hlength, ih _ _ (by simpa using hold), hlength]
      simp only [replicate_succ, append_assoc, singleton_append, Prod.mk.injEq,
        true_and]
      omega

lemma deleteElements_eq (before old rest : Elements) :
    deleteElements before.length (before ++ old).length (before ++ old ++ rest) =
      before ++ List.replicate old.length none ++ rest := by
  induction old using List.reverseRecOn generalizing rest with
  | nil =>
    rw [append_nil]
    cases hlength : before.length with
    | zero => simp [deleteElements]
    | succ n => simp [deleteElements]
  | append_singleton old v ih =>
    have hlength : (before ++ (old ++ [v])).length = (before ++ old).length + 1 := by
      rw [← append_assoc, length_append, length_singleton]
    have hset : (before ++ (old ++ [v]) ++ rest).set (before ++ old).length none =
        before ++ old ++ (none :: rest) := by
      have hassoc : before ++ (old ++ [v]) ++ rest = (before ++ old) ++ (v :: rest) := by simp
      rw [hassoc, set_append_right _ _ (le_refl _)]
      simp
    rw [hlength, deleteElements, if_pos (by rw [length_append]; omega), hset, ih]
    rw [length_append, length_singleton, replicate_succ']
    simp

/-- First the elements that are defined, stably sorted by their strings, then those that are
undefined, then the holes. -/
def SortedElements (elements result : Elements) : Prop :=
  ∃ sorted, StableSort (elementLe numberToCString) (definedElements elements) sorted ∧
    result = sorted.map some ++
      List.replicate (elements.count (some .undefined)) (some .undefined) ++
      List.replicate (elements.count none) none

lemma arraySort_sorted {elements : Elements} (hne : (definedElements elements).length ≠ 0) :
    SortedElements numberToCString elements (arraySort numberToCString elements) := by
  have hsort := sortElements_spec numberToCString (definedElements elements)
  refine ⟨sortElements numberToCString (definedElements elements), hsort, ?_⟩
  have htotal := length_definedElements elements
  have hlength := hsort.perm.length_eq
  rw [arraySort]
  simp only [if_neg hne]
  generalize sortElements numberToCString (definedElements elements) = result at *
  -- behind the sorted elements: a part for those that are undefined, and the rest
  generalize hold : (elements.drop result.length).take (elements.count (some .undefined)) = old
  generalize hrest : (elements.drop result.length).drop (elements.count (some .undefined)) = rest
  have hinit : initArrayElements elements result = result.map some ++ old ++ rest := by
    rw [initArrayElements, ← hold, ← hrest, append_assoc, take_append_drop]
  have holdLength : old.length = elements.count (some .undefined) := by
    rw [← hold, length_take, length_drop]
    omega
  have hrestLength : rest.length = elements.count none := by
    rw [← hrest, length_drop, length_drop]
    omega
  have hset := setUndefined_eq _ (result.map some) old rest holdLength
  rw [length_map, hlength] at hset
  rw [hinit, hset]
  generalize hbefore : result.map some ++
    List.replicate (elements.count (some .undefined)) (some .undefined) = before
  have hbeforeLength : before.length =
      (definedElements elements).length + elements.count (some .undefined) := by
    rw [← hbefore, length_append, length_map, length_replicate, hlength]
  have hlen : elements.length = (before ++ rest).length := by
    rw [length_append]
    omega
  have hdelete := deleteElements_eq before rest []
  rw [append_nil, append_nil] at hdelete
  simp only
  rw [← hbeforeLength, hlen, hdelete, hrestLength]

/-- Without defined elements the array is in order if every element after a hole is a hole. -/
lemma holes_last_iff {elements : Elements} (hempty : definedElements elements = []) :
    elements = List.replicate (elements.count (some .undefined)) (some .undefined) ++
        List.replicate (elements.count none) none ↔
      elements.Pairwise fun a b => a = none → b = none := by
  induction elements with
  | nil => simp
  | cons v rest ih =>
    have hrest : definedElements rest = [] := by
      rw [definedElements, filterMap_eq_nil_iff] at hempty ⊢
      exact fun w hw => hempty w (mem_cons_of_mem v hw)
    have hv : v = none ∨ v = some .undefined := by
      rw [definedElements, filterMap_eq_nil_iff] at hempty
      have hnone := hempty v mem_cons_self
      split_ifs at hnone with hundef
      · exact Or.inr hundef
      · exact Or.inl hnone
    rw [pairwise_cons]
    rcases hv with rfl | rfl
    · -- a hole: nothing after it may be undefined
      have hcount : (none :: rest : Elements).count (some .undefined) =
          rest.count (some .undefined) := count_cons_of_ne (by simp)
      rw [hcount, count_cons_self]
      constructor
      · intro heq
        have hzero : rest.count (some .undefined) = 0 := by
          cases hcases : rest.count (some .undefined) with
          | zero => rfl
          | succ n =>
            rw [hcases, replicate_succ, cons_append, List.cons.injEq] at heq
            cases heq.1
        rw [hzero, replicate_zero, nil_append, replicate_succ,
          List.cons.injEq] at heq
        refine ⟨fun w hw _ => ?_, ?_⟩
        · rw [heq.2] at hw
          exact eq_of_mem_replicate hw
        · apply (ih hrest).1
          rw [hzero, replicate_zero, nil_append]
          exact heq.2
      · rintro ⟨hafter, _⟩
        have hall : ∀ w ∈ rest, w = none := fun w hw => hafter w hw rfl
        have heq : rest = List.replicate rest.length none := eq_replicate_of_mem hall
        have hzero : rest.count (some .undefined) = 0 := by
          rw [heq]
          exact count_eq_zero_of_not_mem fun hmem => by
            cases eq_of_mem_replicate hmem
        have hcountNone : rest.count none = rest.length := count_eq_length.2 fun w hw =>
          (hall w hw).symm
        rw [hzero, hcountNone, replicate_zero, nil_append, replicate_succ, ← heq]
    · have hcount : (some .undefined :: rest : Elements).count none = rest.count none :=
        count_cons_of_ne (by simp)
      rw [hcount, count_cons_self, replicate_succ, cons_append, List.cons.injEq]
      constructor
      · rintro ⟨_, heq⟩
        refine ⟨fun w _ hnone => ?_, (ih hrest).1 heq⟩
        cases hnone
      · rintro ⟨_, hpairwise⟩
        exact ⟨rfl, (ih hrest).2 hpairwise⟩

/-- **Int32s are compared as their decimal strings, and the array is sorted if it has anything to
sort; else it is left as it is**, which is in order if no undefined element is after a hole. -/
theorem arraySort_sorted_iff :
    (∀ a b : Int32, compareLexicographicInt32 a b = true ↔ intToCString a ≤ intToCString b) ∧
      ∀ elements : Elements,
        SortedElements numberToCString elements (arraySort numberToCString elements) ↔
          (∃ v ∈ elements, v ≠ none ∧ v ≠ some .undefined) ∨
            elements.Pairwise fun a b => a = none → b = none := by
  constructor
  · intro a b
    rw [compareLexicographicInt32_eq, charsLe_iff]
  · intro elements
    have hdefined : (∃ v ∈ elements, v ≠ none ∧ v ≠ some .undefined) ↔
        definedElements elements ≠ [] := by
      rw [definedElements, ne_eq, filterMap_eq_nil_iff]
      push Not
      constructor
      · rintro ⟨v, hv, hnone, hundef⟩
        exact ⟨v, hv, by rwa [if_neg hundef]⟩
      · rintro ⟨v, hv, hsome⟩
        by_cases hundef : v = some .undefined
        · rw [if_pos hundef] at hsome
          exact absurd rfl hsome
        · rw [if_neg hundef] at hsome
          exact ⟨v, hv, hsome, hundef⟩
    rw [hdefined]
    by_cases hempty : definedElements elements = []
    · have hkept : arraySort numberToCString elements = elements := by
        rw [arraySort, hempty]
        rfl
      rw [hkept, ← holes_last_iff hempty]
      constructor
      · rintro ⟨sorted, hsort, heq⟩
        have hnil : sorted = [] := by
          rw [hempty] at hsort
          exact hsort.perm.eq_nil
        rw [hnil] at heq
        exact Or.inr heq
      · rintro (hne | heq)
        · exact absurd hempty hne
        · refine ⟨[], ?_, heq⟩
          rw [hempty]
          exact ⟨List.Perm.refl _, List.Pairwise.nil, fun k => rfl⟩
    · have hlength : (definedElements elements).length ≠ 0 := by
        rw [ne_eq, length_eq_zero_iff]
        exact hempty
      constructor
      · exact fun _ => Or.inl hempty
      · exact fun _ => arraySort_sorted numberToCString hlength

end

/-- An undefined element after a hole stays there. -/
theorem arraySort_not_sorted_undefined :
    ¬ SortedElements (fun _ => []) [none, some .undefined]
      (arraySort (fun _ => []) [none, some .undefined]) := by
  rintro ⟨sorted, _, heq⟩
  have hkept : arraySort (fun _ => []) [none, some .undefined] = [none, some .undefined] := by
    decide +kernel
  rw [hkept] at heq
  cases sorted with
  | nil => cases heq
  | cons v rest => cases heq

end SpiderMonkey
