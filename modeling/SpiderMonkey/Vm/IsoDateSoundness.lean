import SpiderMonkey.Lib.Fallible
import SpiderMonkey.Vm.CalendarSoundness
import SpiderMonkey.Vm.IndexString
import SpiderMonkey.Vm.IsoDate

/-! # What is printed and read of ISO dates

The scan never reads outside of the string, and what it accepts is a date. It reads what is printed
for a year of four digits, or of six digits behind a minus sign, and nothing else that is printed:
the printer has no plus sign, and does not pad a year to six digits.
-/

namespace SpiderMonkey.Vm.IsoDate

open Lib Lib.Exact List Int

variable {s : List Jschar}

/-! ## Scanning -/

lemma ok_bind {α β : Type} (a : α) (f : α → Scan β) : ((.ok a : Scan α) >>= f) = f a := rfl

variable {c : Jschar}

lemma charAt_eq {i : ℕ} (h : s[i]? = some c) : charAt s i = .ok c := by
  rw [charAt, h]
  rfl

lemma peek_eq (ch : Jschar) (i : ℕ) : peek s ch i = .ok (s[i]? == some ch) := by
  rw [peek]
  split_ifs with h
  · rw [charAt_eq (List.getElem?_eq_getElem h), List.getElem?_eq_getElem h]
    rfl
  · rw [List.getElem?_eq_none (Nat.le_of_not_lt h)]
    rfl

/-- The digits among the next units. -/
def digitsAt (s : List Jschar) (i left : ℕ) : List Jschar := ((s.drop i).take left).takeWhile isDec

lemma digitsAt_succ {i : ℕ} (h : s[i]? = some c) (left : ℕ) :
    digitsAt s i (left + 1) = if isDec c then c :: digitsAt s (i + 1) left else [] := by
  obtain ⟨hi, rfl⟩ := List.getElem?_eq_some_iff.mp h
  rw [digitsAt, drop_eq_getElem_cons hi, take_succ_cons, takeWhile_cons]
  rfl

lemma decimalDigitsValue_cons (v : ℕ) (c : Jschar) (ds : List Jschar) :
    decimalDigitsValue v (c :: ds) = decimalDigitsValue (10 * v + (c.toNat - 48)) ds := by
  rw [decimalDigitsValue, foldl_cons, decimalDigitsValue]

lemma decimalDigitsValue_from (v : ℕ) (ds : List Jschar) :
    decimalDigitsValue v ds = v * 10 ^ ds.length + decimalDigitsValue 0 ds := by
  induction ds generalizing v with
  | nil => simp
  | cons c ds ih =>
    rw [decimalDigitsValue_cons, decimalDigitsValue_cons, ih, ih (10 * 0 + (c.toNat - 48)),
      length_cons, pow_succ]
    ring

lemma digitsLoop_eq {left i : ℕ} (result : ℕ) (h : i + left ≤ s.length) :
    digitsLoop s left result i =
      .ok (decimalDigitsValue result (digitsAt s i left), i + (digitsAt s i left).length) := by
  induction left generalizing result i with
  | zero => rw [digitsLoop, digitsAt, take_zero]; rfl
  | succ left ih =>
    have hi : i < s.length := by omega
    have hc := List.getElem?_eq_getElem hi
    rw [digitsLoop, charAt_eq hc, ok_bind, digitsAt_succ hc]
    split_ifs
    · rw [ih _ (by omega), decimalDigitsValue_cons, Nat.mul_comm result, length_cons]
      congr 2
      omega
    · rfl

/-- The value of a fraction's digits. -/
lemma fractionalLoop_eq {left i : ℕ} (factor result : ℚ) (h : i + left ≤ s.length) :
    fractionalLoop s left factor result i =
      .ok (result + factor * 10 *
        (decimalDigitsValue 0 (digitsAt s i left) / 10 ^ (digitsAt s i left).length),
        i + (digitsAt s i left).length) := by
  induction left generalizing factor result i with
  | zero =>
    rw [fractionalLoop, digitsAt, take_zero, takeWhile_nil, decimalDigitsValue_nil,
      Nat.cast_zero, zero_div, mul_zero, add_zero]
    rfl
  | succ left ih =>
    have hi : i < s.length := by omega
    have hc := List.getElem?_eq_getElem hi
    rw [fractionalLoop, charAt_eq hc, ok_bind, digitsAt_succ hc]
    split_ifs
    · rw [ih _ _ (by omega), decimalDigitsValue_cons, decimalDigitsValue_from (10 * 0 + _),
        length_cons]
      congr 2
      · push_cast
        field_simp
        ring
      · omega
    · rw [decimalDigitsValue_nil, Nat.cast_zero, zero_div, mul_zero, add_zero]
      rfl

lemma digitsAt_min (i n : ℕ) : digitsAt s i (min s.length (i + n) - i) = digitsAt s i n := by
  have htake : (s.drop i).take (min s.length (i + n) - i) = (s.drop i).take n := by
    rw [take_eq_take_iff, length_drop]
    omega
  rw [digitsAt, digitsAt, htake]

/-- Whether a scan has moved. -/
lemma add_bne_self (i k : ℕ) : (i + k != i) = (k != 0) := by
  rw [Bool.eq_iff_iff, bne_iff_ne, bne_iff_ne]
  omega

lemma digits_eq (i limit : ℕ) (hlimit : limit ≤ s.length) :
    digits s i limit = .ok ((digitsAt s i (limit - i)).length != 0,
      decimalDigitsValue 0 (digitsAt s i (limit - i)), i + (digitsAt s i (limit - i)).length) := by
  by_cases h : i ≤ limit
  · rw [digits, digitsLoop_eq 0 (by omega), ok_bind]
    exact congrArg (fun b => Except.ok (b, _, _)) (add_bne_self i _)
  · rw [digits, Nat.sub_eq_zero_of_le (by omega), digitsLoop, digitsAt, take_zero]
    exact congrArg (fun b => Except.ok (b, _, _)) (add_bne_self i 0)

lemma needNdigits_eq {n : ℕ} (hn : 0 < n) (i : ℕ) :
    needNdigits s n i =
      if (digitsAt s i n).length = n then .ok (decimalDigitsValue 0 (digitsAt s i n), i + n)
      else .error .badSyntax := by
  rw [needNdigits, ndigits, digits_eq i _ (Nat.min_le_left _ _), digitsAt_min]
  simp only [ok_bind, Nat.add_sub_cancel_left]
  by_cases h : (digitsAt s i n).length = n
  · rw [if_pos h, h, if_pos (bne_iff_ne.mpr hn.ne')]
    simp only [beq_self_eq_true]
    rfl
  · rw [if_neg h]
    by_cases hzero : (digitsAt s i n).length = 0
    · rw [hzero]
      rfl
    · rw [if_pos (bne_iff_ne.mpr hzero), beq_eq_false_iff_ne.mpr h]
      rfl

lemma needNdigits_ne_outside {n : ℕ} (hn : 0 < n) (i : ℕ) :
    needNdigits s n i ≠ .error .outside := by
  rw [needNdigits_eq hn]
  split_ifs
  · nofun
  · nofun

lemma fractional_eq (i : ℕ) :
    fractional s i s.length = .ok ((digitsAt s i (s.length - i)).length != 0,
      decimalDigitsValue 0 (digitsAt s i (s.length - i)) /
        10 ^ (digitsAt s i (s.length - i)).length, i + (digitsAt s i (s.length - i)).length) := by
  by_cases h : i ≤ s.length
  · rw [fractional, fractionalLoop_eq _ _ (by omega), ok_bind, div_mul_cancel₀ _ (by norm_num),
      zero_add, one_mul]
    exact congrArg (fun b => Except.ok (b, _, _)) (add_bne_self i _)
  · rw [fractional, Nat.sub_eq_zero_of_le (by omega), fractionalLoop, digitsAt, take_zero,
      takeWhile_nil, decimalDigitsValue_nil, Nat.cast_zero, zero_div]
    exact congrArg (fun b => Except.ok (b, _, _)) (add_bne_self i 0)

/-! ## No read outside -/

lemma parseYear_ne_outside (f : Fields) : parseYear s f ≠ .error .outside := by
  simp only [parseYear, peek_eq, ok_bind]
  split_ifs
  · exact bind_ne_error (needNdigits_ne_outside (by decide) _) fun _ _ => nofun
  · exact bind_ne_error (needNdigits_ne_outside (by decide) _) fun _ _ => nofun
  · nofun
  · exact bind_ne_error (needNdigits_ne_outside (by decide) _) fun _ _ => nofun

lemma parseMonth_ne_outside (f : Fields) : parseMonth s f ≠ .error .outside := by
  have hday (f : Fields) : parseDay s f ≠ .error .outside := by
    simp only [parseDay, peek_eq, ok_bind]
    split_ifs
    · exact bind_ne_error (needNdigits_ne_outside (by decide) _) fun _ _ => nofun
    · nofun
  simp only [parseMonth, peek_eq, ok_bind]
  split_ifs
  · exact bind_ne_error (needNdigits_ne_outside (by decide) _) fun _ _ => hday _
  · nofun

lemma parseSeconds_ne_outside (f : Fields) : parseSeconds s f ≠ .error .outside := by
  have hfraction (f : Fields) : parseFraction s f ≠ .error .outside := by
    simp only [parseFraction, peek_eq, fractional_eq, ok_bind]
    split_ifs
    · nofun
    · nofun
    · nofun
  simp only [parseSeconds, peek_eq, ok_bind]
  split_ifs
  · exact bind_ne_error (needNdigits_ne_outside (by decide) _) fun _ _ => hfraction _
  · nofun

lemma parseZone_ne_outside (f : Fields) : parseZone s f ≠ .error .outside := by
  have hoffset (f : Fields) : parseOffset s f ≠ .error .outside := by
    simp only [parseOffset, peek_eq, ok_bind]
    apply bind_ne_error (needNdigits_ne_outside (by decide) _)
    intro _ _
    exact bind_ne_error (needNdigits_ne_outside (by decide) _) fun _ _ => nofun
  simp only [parseZone, peek_eq, ok_bind]
  split_ifs
  · nofun
  · exact hoffset _
  · exact hoffset _
  · nofun

lemma parseTime_ne_outside (f : Fields) : parseTime s f ≠ .error .outside := by
  have hneed (ch : Jschar) (i : ℕ) : need s ch i ≠ .error .outside := by
    simp only [need, peek_eq, ok_bind]
    split_ifs
    · nofun
    · nofun
  simp only [parseTime, peek_eq, ok_bind]
  split_ifs
  · apply bind_ne_error (needNdigits_ne_outside (by decide) _)
    intro _ _
    apply bind_ne_error (hneed _ _)
    intro _ _
    apply bind_ne_error (needNdigits_ne_outside (by decide) _)
    intro _ _
    exact bind_ne_error (parseSeconds_ne_outside _) fun _ _ => parseZone_ne_outside _
  · nofun

lemma dateParseISOString_ne_outside (utc : ℚ → ℚ) :
    dateParseISOString s utc ≠ .error .outside := by
  have hfields : parseFields s ≠ .error .outside := by
    apply bind_ne_error (parseYear_ne_outside _)
    intro _ _
    apply bind_ne_error (parseMonth_ne_outside _)
    intro _ _
    apply bind_ne_error (parseTime_ne_outside _)
    intro _ _
    split_ifs
    · nofun
    · nofun
    · nofun
  apply bind_ne_error hfields
  intro _ _
  dsimp only
  split_ifs
  · nofun
  · nofun

/-! ## Ranges -/

lemma parseYear_dateMul {f f' : Fields} (h : parseYear s f = .ok f') (hf : f.dateMul = 1) :
    f'.dateMul = 1 ∨ f'.dateMul = -1 := by
  simp only [parseYear, peek_eq, ok_bind] at h
  split_ifs at h with _ hminus
  · obtain ⟨_, _, h⟩ := bind_eq_ok_iff.mp h
    cases h
    exact .inr rfl
  · obtain ⟨_, _, h⟩ := bind_eq_ok_iff.mp h
    cases h
    exact .inl hf
  · cases h
    exact .inl hf
  · obtain ⟨_, _, h⟩ := bind_eq_ok_iff.mp h
    cases h
    exact .inl hf

lemma parseMonth_dateMul {f f' : Fields} (h : parseMonth s f = .ok f') :
    f'.dateMul = f.dateMul := by
  have hday {f : Fields} (h : parseDay s f = .ok f') : f'.dateMul = f.dateMul := by
    simp only [parseDay, peek_eq, ok_bind] at h
    split_ifs at h
    · obtain ⟨_, _, h⟩ := bind_eq_ok_iff.mp h
      cases h
      rfl
    · cases h
      rfl
  simp only [parseMonth, peek_eq, ok_bind] at h
  split_ifs at h
  · obtain ⟨_, _, h⟩ := bind_eq_ok_iff.mp h
    have hframe := hday h
    exact hframe
  · cases h
    rfl

lemma parseSeconds_dateMul {f f' : Fields} (h : parseSeconds s f = .ok f') :
    f'.dateMul = f.dateMul := by
  have hfraction {f : Fields} (h : parseFraction s f = .ok f') : f'.dateMul = f.dateMul := by
    simp only [parseFraction, peek_eq, fractional_eq, ok_bind] at h
    split_ifs at h
    · cases h
      rfl
    · cases h
      rfl
  simp only [parseSeconds, peek_eq, ok_bind] at h
  split_ifs at h
  · obtain ⟨_, _, h⟩ := bind_eq_ok_iff.mp h
    have hframe := hfraction h
    exact hframe
  · cases h
    rfl

lemma parseZone_dateMul {f f' : Fields} (h : parseZone s f = .ok f') :
    f'.dateMul = f.dateMul := by
  have hoffset {f : Fields} (h : parseOffset s f = .ok f') : f'.dateMul = f.dateMul := by
    simp only [parseOffset, peek_eq, ok_bind] at h
    obtain ⟨_, _, h⟩ := bind_eq_ok_iff.mp h
    obtain ⟨_, _, h⟩ := bind_eq_ok_iff.mp h
    cases h
    rfl
  simp only [parseZone, peek_eq, ok_bind] at h
  split_ifs at h
  · cases h
    rfl
  · have hframe := hoffset h
    exact hframe
  · have hframe := hoffset h
    exact hframe
  · cases h
    rfl

lemma parseTime_dateMul {f f' : Fields} (h : parseTime s f = .ok f') :
    f'.dateMul = f.dateMul := by
  simp only [parseTime, peek_eq, ok_bind] at h
  split_ifs at h
  · obtain ⟨_, _, h⟩ := bind_eq_ok_iff.mp h
    obtain ⟨_, _, h⟩ := bind_eq_ok_iff.mp h
    obtain ⟨_, _, h⟩ := bind_eq_ok_iff.mp h
    obtain ⟨_, hseconds, h⟩ := bind_eq_ok_iff.mp h
    have hframe := parseSeconds_dateMul hseconds
    exact (parseZone_dateMul h).trans hframe
  · cases h
    rfl

/-- The fields of a date and a time. -/
structure InRange (f : Fields) : Prop where
  month_pos : 1 ≤ f.month
  month_le : f.month ≤ 12
  day_pos : 1 ≤ f.day
  day_le : (f.day : ℤ) ≤ Vm.daysInMonth (f.dateMul * f.year) (f.month - 1)
  hour_le : f.hour ≤ 24
  midnight : f.hour = 24 → f.min = 0 ∧ f.sec = 0
  min_lt : f.min < 60
  sec_lt : f.sec < 60
  tzHour_lt : f.tzHour < 24
  tzMin_lt : f.tzMin < 60

lemma leap_neg (y : ℤ) : Leap (-y) ↔ Leap y := by
  simp only [Leap, dvd_neg]

lemma daysInMonth_mul {c : ℤ} (hc : c = 1 ∨ c = -1) (y m : ℤ) :
    Vm.daysInMonth (c * y) m = Vm.daysInMonth y m := by
  rcases hc with rfl | rfl
  · rw [one_mul]
  · simp only [Vm.daysInMonth, neg_one_mul, leap_neg]

/-- The difference of two entries of the table is the length of the month. -/
lemma daysInMonth_table (y : ℕ) {m : ℕ} (hpos : 1 ≤ m) (hle : m ≤ 12) :
    daysInMonth y m = Vm.daysInMonth y (m - 1) := by
  have hleap : isLeapYear (y : ℚ) = decide (Leap (y : ℤ)) := by
    rw [← isLeapYear_cast, cast_natCast]
  rw [daysInMonth, hleap, Vm.daysInMonth]
  by_cases h : Leap (y : ℤ)
  · rw [decide_eq_true h]
    interval_cases m <;> simp [dayFromMonth, firstDayOfMonth, h]
  · rw [decide_eq_false h]
    interval_cases m <;> simp [dayFromMonth, firstDayOfMonth, h]

variable {f : Fields}

lemma outOfRange_eq_false_iff (hmul : f.dateMul = 1 ∨ f.dateMul = -1) :
    outOfRange f = false ↔ f.year ≤ 275943 ∧ InRange f := by
  have hday (hpos : 1 ≤ f.month) (hle : f.month ≤ 12) :
      f.day ≤ (daysInMonth f.year f.month).toNat ↔
        (f.day : ℤ) ≤ Vm.daysInMonth (f.dateMul * f.year) (f.month - 1) ∨ f.day = 0 := by
    rw [daysInMonth_table f.year hpos hle, daysInMonth_mul hmul]
    omega
  simp only [outOfRange, Bool.or_eq_false_iff, Bool.and_eq_false_iff, decide_eq_false_iff_not,
    beq_eq_false_iff_ne, Nat.not_lt]
  constructor
  · intro h
    obtain ⟨⟨⟨⟨h, hmin⟩, hsec⟩, htzHour⟩, htzMin⟩ := h
    obtain ⟨⟨⟨⟨hyear, hmonth, hmonth'⟩, hday0, hday'⟩, hhour⟩, hmid⟩ := h
    have hpos : 1 ≤ f.month := Nat.one_le_iff_ne_zero.mpr hmonth
    refine ⟨hyear, hpos, hmonth', by omega, ?_, hhour, fun h => ?_, by omega, by omega, by omega,
      by omega⟩
    · exact ((hday hpos hmonth').mp hday').resolve_right hday0
    · omega
  · rintro ⟨hyear, h⟩
    have hpos := h.day_pos
    have hmpos := h.month_pos
    have hmid := h.midnight
    have hmin := h.min_lt
    have hsec := h.sec_lt
    have htzHour := h.tzHour_lt
    have htzMin := h.tzMin_lt
    refine ⟨⟨⟨⟨⟨⟨⟨⟨hyear, by omega, h.month_le⟩, by omega, ?_⟩, h.hour_le⟩, by omega⟩, by omega⟩,
      by omega⟩, by omega⟩, by omega⟩
    exact (hday hmpos h.month_le).mpr (.inl h.day_le)

/-- What is accepted has been read to its end, and is in range. -/
lemma parseFields_spec (h : parseFields s = .ok f) :
    InRange f ∧ f.i = s.length := by
  obtain ⟨f₁, hyear, h⟩ := bind_eq_ok_iff.mp h
  obtain ⟨f₂, hmonth, h⟩ := bind_eq_ok_iff.mp h
  obtain ⟨f₃, htime, h⟩ := bind_eq_ok_iff.mp h
  have hmul : f₃.dateMul = 1 ∨ f₃.dateMul = -1 := by
    rw [parseTime_dateMul htime, parseMonth_dateMul hmonth]
    exact parseYear_dateMul hyear rfl
  split_ifs at h with hrange hend
  · cases h
    exact ⟨((outOfRange_eq_false_iff hmul).mp (Bool.eq_false_of_not_eq_true hrange)).2,
      not_not.mp hend⟩

/-! ## What is printed -/

lemma cvtLoop_eq {num : ℕ} (h : num ≠ 0) (cvt : List Jschar) :
    cvtLoop num cvt = backfillIndexInCharBuffer num ++ cvt := by
  induction num using Nat.strongRecOn generalizing cvt with
  | _ num ih =>
    rw [cvtLoop, if_neg h, backfill_eq]
    by_cases hlt : num < 10
    · rw [if_pos hlt, cvtLoop, if_pos (by omega)]
      rfl
    · rw [if_neg hlt, ih (num / 10) (by omega) (by omega), append_assoc]
      rfl

lemma cvtL_eq (num : ℕ) : cvtL num = backfillIndexInCharBuffer num := by
  rw [cvtL]
  split_ifs with h
  · rw [h, backfill_eq]
    rfl
  · rw [cvtLoop_eq h, append_nil]

lemma exists_digits (n : ℕ) : ∃ d, n < 10 ^ (d + 1) ∧ (10 ^ d ≤ n ∨ d = 0) := by
  by_cases h : n = 0
  · exact ⟨0, by omega, .inr rfl⟩
  · exact ⟨Nat.log 10 n, Nat.lt_pow_succ_log_self (by decide) n, .inl (Nat.pow_log_le_self 10 h)⟩

/-- A number with at most `k` digits. -/
lemma digits_le {n d k : ℕ} (hle : 10 ^ d ≤ n ∨ d = 0) (hlt : n < 10 ^ k) (hk : 0 < k) :
    d + 1 ≤ k := by
  rcases hle with hle | rfl
  · exact (Nat.pow_lt_pow_iff_right (by decide)).mp (hle.trans_lt hlt)
  · exact hk

/-- A number with more than `k` digits. -/
lemma le_digits {n d k : ℕ} (hlt : n < 10 ^ (d + 1)) (hle : 10 ^ k ≤ n) : k + 1 ≤ d + 1 :=
  (Nat.pow_lt_pow_iff_right (by decide : 1 < 10)).mp (hle.trans_lt hlt)

lemma lastDigits_zero (d : ℕ) : lastDigits 0 d = List.replicate d 48 := by
  induction d with
  | zero => rfl
  | succ d ih =>
    rw [lastDigits, Nat.zero_div, ih, replicate_succ']
    rfl

/-- A precision pads with zeros up to its number of digits. -/
lemma padded {n d : ℕ} (hlt : n < 10 ^ (d + 1)) (hle : 10 ^ d ≤ n ∨ d = 0) (prec : ℕ) :
    List.replicate (prec - (cvtL n).length) 48 ++ cvtL n = lastDigits n (max prec (d + 1)) := by
  rw [cvtL_eq, backfillIndexInCharBuffer_eq hlt hle, length_lastDigits]
  have hmax : max prec (d + 1) = prec - (d + 1) + (d + 1) := by omega
  rw [hmax, lastDigits_add n (prec - (d + 1)) (d + 1), Nat.div_eq_of_lt hlt, lastDigits_zero]

lemma formatInt_nonneg {n d : ℕ} (hlt : n < 10 ^ (d + 1)) (hle : 10 ^ d ≤ n ∨ d = 0)
    (prec : ℕ) : formatInt prec n = lastDigits n (max prec (d + 1)) := by
  rw [formatInt, fillN, decide_eq_false (not_lt.mpr (natCast_nonneg n)), natAbs_natCast,
    padded hlt hle]
  rfl

lemma formatInt_natCast {n prec : ℕ} (hlt : n < 10 ^ prec) (hprec : 0 < prec) :
    formatInt prec n = lastDigits n prec := by
  obtain ⟨d, hd, hd'⟩ := exists_digits n
  rw [formatInt_nonneg hd hd', max_eq_left (digits_le hd' hlt hprec)]

lemma formatInt_neg {n prec d : ℕ} (hpos : 0 < n) (hlt : n < 10 ^ (d + 1))
    (hle : 10 ^ d ≤ n ∨ d = 0) :
    formatInt prec (-(n : ℤ)) = 45 :: lastDigits n (max prec (d + 1)) := by
  rw [formatInt, fillN, decide_eq_true (by omega), natAbs_neg, natAbs_natCast,
    padded hlt hle]
  rfl

/-- What stands behind the year. -/
def restText (m d hh mm ss ms : ℕ) : List Jschar :=
  45 :: (lastDigits m 2 ++ 45 :: (lastDigits d 2 ++ 84 :: (lastDigits hh 2 ++ 58 ::
    (lastDigits mm 2 ++ 58 :: (lastDigits ss 2 ++ 46 :: (lastDigits ms 3 ++ [90]))))))

/-! ## Reading what is printed -/

lemma isDec_lastDigits {n k : ℕ} (h : c ∈ lastDigits n k) : isDec c = true := by
  induction k generalizing n with
  | zero => cases h
  | succ k ih =>
    rcases mem_append.mp h with h | h
    · exact ih h
    · rw [mem_singleton.mp h]
      exact isDec_digitChar (Nat.mod_lt n (by decide))

lemma decimalDigitsValue_lastDigits (n k : ℕ) :
    decimalDigitsValue 0 (lastDigits n k) = n % 10 ^ k := by
  induction k generalizing n with
  | zero => simp [lastDigits, Nat.mod_one]
  | succ k ih =>
    rw [lastDigits, decimalDigitsValue_concat, ih, digitChar_toNat (Nat.mod_lt n (by decide)),
      pow_succ', Nat.mod_mul]
    omega

lemma drop_add {i k : ℕ} {l rest : List Jschar} (h : s.drop i = l ++ rest) (hk : l.length = k) :
    s.drop (i + k) = rest := by
  rw [← drop_drop, h, ← hk, drop_left]

variable {rest : List Jschar}

lemma drop_succ {i : ℕ} (h : s.drop i = c :: rest) :
    s.drop (i + 1) = rest := drop_add (l := [c]) h rfl

lemma peek_cons {i : ℕ} (h : s.drop i = c :: rest) (ch : Jschar) :
    peek s ch i = .ok (c == ch) := by
  rw [peek_eq, ← List.head?_drop, h]
  rfl

/-- Digits up to something else, or up to as many as are wanted. -/
lemma digitsAt_append {i k : ℕ} {ds rest : List Jschar} (h : s.drop i = ds ++ rest)
    (hds : ∀ c ∈ ds, isDec c = true) (hlen : ds.length ≤ k)
    (hrest : ds.length = k ∨ ∃ c l, rest = c :: l ∧ isDec c = false) : digitsAt s i k = ds := by
  rw [digitsAt, h, take_append, take_of_length_le hlen, takeWhile_append_of_pos hds]
  rcases hrest with hrest | ⟨c, l, rfl, hc⟩
  · rw [hrest, Nat.sub_self, take_zero, takeWhile_nil, append_nil]
  · cases k - ds.length with
    | zero => rw [take_zero, takeWhile_nil, append_nil]
    | succ j => rw [take_succ_cons, takeWhile_cons_of_neg (by simp [hc]), append_nil]

lemma needNdigits_lastDigits {i n k : ℕ} (h : s.drop i = lastDigits n k ++ rest)
    (hn : n < 10 ^ k) (hk : 0 < k) :
    needNdigits s k i = .ok (n, i + k) := by
  have hat : digitsAt s i k = lastDigits n k :=
    digitsAt_append h (fun c => isDec_lastDigits) (length_lastDigits n k).le
      (.inl (length_lastDigits n k))
  rw [needNdigits_eq hk, hat, if_pos (length_lastDigits n k), decimalDigitsValue_lastDigits,
    Nat.mod_eq_of_lt hn]

lemma parseMonth_text {m d : ℕ}
    (h : s.drop f.i = 45 :: (lastDigits m 2 ++ 45 :: (lastDigits d 2 ++ rest))) (hm : m < 100)
    (hd : d < 100) : parseMonth s f = .ok { f with month := m, day := d, i := f.i + 6 } := by
  have h₁ := drop_succ h
  have h₂ := drop_add h₁ (length_lastDigits m 2)
  have h₃ := drop_succ h₂
  simp only [parseMonth, peek_cons h, ok_bind, beq_self_eq_true, if_true,
    needNdigits_lastDigits h₁ hm (by decide), parseDay, peek_cons h₂,
    needNdigits_lastDigits h₃ hd (by decide)]
  rfl

lemma parseFraction_text {ms : ℕ} (h : s.drop f.i = 46 :: (lastDigits ms 3 ++ [90]))
    (hms : ms < 1000) :
    parseFraction s f = .ok { f with frac := (ms : ℚ) / 1000, i := f.i + 4 } := by
  have h₁ := drop_succ h
  have hleft : s.length - (f.i + 1) = 4 := by
    have hlen := congrArg List.length h₁
    rw [length_drop, length_append, length_lastDigits, length_singleton] at hlen
    exact hlen
  have hat : digitsAt s (f.i + 1) 4 = lastDigits ms 3 :=
    digitsAt_append h₁ (fun c => isDec_lastDigits) (by rw [length_lastDigits]; decide)
      (.inr ⟨90, [], rfl, rfl⟩)
  have hvalue : decimalDigitsValue 0 (lastDigits ms 3) = ms := by
    rw [decimalDigitsValue_lastDigits, Nat.mod_eq_of_lt (by omega)]
  have hthousand : (10 : ℚ) ^ 3 = 1000 := by norm_num
  simp only [parseFraction, peek_cons h, ok_bind, beq_self_eq_true, if_true, fractional_eq, hleft,
    hat, length_lastDigits, hvalue, hthousand]
  rfl

lemma parseSeconds_text {ss ms : ℕ}
    (h : s.drop f.i = 58 :: (lastDigits ss 2 ++ 46 :: (lastDigits ms 3 ++ [90]))) (hs : ss < 100)
    (hms : ms < 1000) :
    parseSeconds s f = .ok { f with sec := ss, frac := (ms : ℚ) / 1000, i := f.i + 7 } := by
  have h₁ := drop_succ h
  have h₂ := drop_add h₁ (length_lastDigits ss 2)
  have hfraction := parseFraction_text (f := { f with sec := ss, i := f.i + 1 + 2 }) h₂ hms
  simp only [parseSeconds, peek_cons h, ok_bind, beq_self_eq_true, if_true,
    needNdigits_lastDigits h₁ hs (by decide), hfraction]

lemma parseTime_text {hh mm ss ms : ℕ}
    (h : s.drop f.i = 84 :: (lastDigits hh 2 ++ 58 :: (lastDigits mm 2 ++ 58 ::
      (lastDigits ss 2 ++ 46 :: (lastDigits ms 3 ++ [90]))))) (hh' : hh < 100) (hm : mm < 100)
    (hs : ss < 100) (hms : ms < 1000) :
    parseTime s f = .ok
      { f with hour := hh, min := mm, sec := ss, frac := (ms : ℚ) / 1000, i := f.i + 14 } := by
  have h₁ := drop_succ h
  have h₂ := drop_add h₁ (length_lastDigits hh 2)
  have h₃ := drop_succ h₂
  have h₄ := drop_add h₃ (length_lastDigits mm 2)
  have h₅ : s.drop (f.i + 1 + 2 + 1 + 2 + 7) = [90] :=
    drop_add (l := 58 :: (lastDigits ss 2 ++ 46 :: lastDigits ms 3)) (by simpa using h₄) (by simp)
  have hneed : need s 58 (f.i + 1 + 2) = .ok (f.i + 1 + 2 + 1) := by
    simp only [need, peek_cons h₂, ok_bind, beq_self_eq_true, if_true]
    rfl
  have hseconds := parseSeconds_text (s := s)
    (f := { f with hour := hh, min := mm, i := f.i + 1 + 2 + 1 + 2 }) h₄ hs hms
  simp only [parseTime, peek_cons h, ok_bind, beq_self_eq_true, if_true, hneed,
    needNdigits_lastDigits h₁ hh' (by decide), needNdigits_lastDigits h₃ hm (by decide), hseconds,
    parseZone, peek_cons h₅]
  rfl

/-- Behind the year, everything is read. -/
lemma parseRest_text {m d hh mm ss ms : ℕ} (h : s.drop f.i = restText m d hh mm ss ms)
    (hm : m < 100) (hd : d < 100) (hh' : hh < 100) (hmm : mm < 100) (hss : ss < 100)
    (hms : ms < 1000) :
    (parseMonth s f >>= parseTime s) = .ok
      { f with month := m, day := d, hour := hh, min := mm, sec := ss, frac := (ms : ℚ) / 1000,
               i := f.i + 20 } := by
  have h₁ : s.drop (f.i + 6) = _ :=
    drop_add (l := 45 :: (lastDigits m 2 ++ 45 :: lastDigits d 2)) (by simpa [restText] using h)
      (by simp)
  rw [parseMonth_text h hm hd, ok_bind]
  exact parseTime_text (f := { f with month := m, day := d, i := f.i + 6 }) h₁ hh' hmm hss hms

/-! ### The year -/

lemma isDec_ne (h : isDec c = true) : c ≠ 43 ∧ c ≠ 45 ∧ c ≠ 84 := by
  rw [isDec_iff_toNat] at h
  refine ⟨?_, ?_, ?_⟩
  · rintro rfl
    exact absurd h (by decide)
  · rintro rfl
    exact absurd h (by decide)
  · rintro rfl
    exact absurd h (by decide)

lemma parseYear_four {n : ℕ} (h : s = lastDigits n 4 ++ rest) (hn : n < 10000) :
    parseYear s {} = .ok { year := n, i := 4 } := by
  obtain ⟨c, l, hl⟩ : ∃ c l, lastDigits n 4 = c :: l :=
    exists_cons_of_length_eq_add_one (length_lastDigits n 4)
  have hdec : isDec c = true := isDec_lastDigits (hl ▸ mem_cons_self)
  obtain ⟨hplus, hminus, htime⟩ := isDec_ne hdec
  have hs : s.drop 0 = c :: (l ++ rest) := by rw [drop_zero, h, hl, cons_append]
  have hdigits := needNdigits_lastDigits (s := s) (i := 0) h hn (by decide)
  simp only [parseYear, peek_cons hs, ok_bind, beq_eq_false_iff_ne.mpr hplus,
    beq_eq_false_iff_ne.mpr hminus, beq_eq_false_iff_ne.mpr htime, hdigits]
  rfl

lemma parseYear_six {n : ℕ} (h : s = 45 :: (lastDigits n 6 ++ rest)) (hn : n < 1000000) :
    parseYear s {} = .ok { dateMul := -1, year := n, i := 7 } := by
  have hs : s.drop 0 = 45 :: (lastDigits n 6 ++ rest) := h
  simp only [parseYear, peek_cons hs, ok_bind, needNdigits_lastDigits (drop_succ hs) hn (by decide)]
  rfl

lemma lastDigits_mod (n k : ℕ) : lastDigits (n % 10 ^ k) k = lastDigits n k := by
  induction k generalizing n with
  | zero => rfl
  | succ k ih =>
    rw [lastDigits, lastDigits, pow_succ', Nat.mod_mul_right_div_self, ih,
      Nat.mod_mod_of_dvd n (Dvd.intro _ rfl)]

/-- Fewer digits behind a minus sign are no year. -/
lemma parseYear_short {n k : ℕ} (h : s = 45 :: (lastDigits n k ++ 45 :: rest)) (hk : k < 6) :
    parseYear s {} = .error .badSyntax := by
  have hs : s.drop 0 = 45 :: (lastDigits n k ++ 45 :: rest) := h
  have hat : digitsAt s (0 + 1) 6 = lastDigits n k :=
    digitsAt_append (drop_succ hs) (fun c => isDec_lastDigits)
      (by rw [length_lastDigits]; exact hk.le) (.inr ⟨45, rest, rfl, rfl⟩)
  have hdigits : needNdigits s 6 (0 + 1) = .error .badSyntax := by
    rw [needNdigits_eq (by decide), hat, length_lastDigits, if_neg hk.ne]
  simp only [parseYear, peek_cons hs, ok_bind, hdigits]
  rfl

/-- A year with more than four digits is not read to its end. -/
lemma parseFields_long {n k : ℕ} (h : s = lastDigits n (k + 5) ++ rest) :
    parseFields s = .error .badSyntax := by
  have hfour : lastDigits n (k + 5) = lastDigits (n / 10 ^ (k + 1)) 4 ++ lastDigits n (k + 1) := by
    rw [← lastDigits_add, Nat.add_comm 4]
  have hmod := lastDigits_mod (n / 10 ^ (k + 1)) 4
  obtain ⟨c, l, hl⟩ : ∃ c l, lastDigits n (k + 1) = c :: l :=
    exists_cons_of_length_eq_add_one (length_lastDigits n (k + 1))
  have hdec : isDec c = true := isDec_lastDigits (hl ▸ mem_cons_self)
  obtain ⟨hplus, hminus, htime⟩ := isDec_ne hdec
  rw [hfour, ← hmod, append_assoc] at h
  have hat : s.drop 4 = c :: (l ++ rest) := by
    rw [h, hl, drop_left' (length_lastDigits _ 4), cons_append]
  have hlength : 4 ≠ s.length := by
    intro hlen
    rw [drop_eq_nil_of_le hlen.ge] at hat
    cases hat
  have hyear := parseYear_four h (Nat.mod_lt _ (by decide))
  simp only [parseFields, hyear, ok_bind, parseMonth, peek_cons hat, parseTime,
    beq_eq_false_iff_ne.mpr hminus, beq_eq_false_iff_ne.mpr htime, Bool.false_eq_true, if_false,
    pure_bind, if_pos hlength]
  split_ifs
  · rfl
  · rfl

/-! ### The whole -/

/-- What is printed of a time, and the time that it denotes. -/
structure Printed (t y : ℤ) (m d hh mm ss ms : ℕ) : Prop where
  year : yearFromTime t = y
  text : printIsoString t = formatInt 4 y ++ restText m d hh mm ss ms
  month_pos : 1 ≤ m
  month_le : m ≤ 12
  day_pos : 1 ≤ d
  day_le : (d : ℤ) ≤ Vm.daysInMonth y (m - 1)
  hour_lt : hh < 24
  min_lt : mm < 60
  sec_lt : ss < 60
  ms_lt : ms < 1000
  back : dateMsecFromDate y ((m - 1 : ℕ) : ℚ) d hh mm ss ms = t

lemma exists_printed (t : ℤ) : ∃ y m d hh mm ss ms, Printed t y m d hh mm ss ms := by
  obtain ⟨y, m, dt, h⟩ := exists_dateRight t
  have hm0 := h.month_nonneg
  have hm11 := h.month_le
  have hdt := h.date_pos
  obtain ⟨m, rfl⟩ := eq_ofNat_of_zero_le hm0
  obtain ⟨d, rfl⟩ := eq_ofNat_of_zero_le (by omega : 0 ≤ dt)
  obtain ⟨hh, hhh⟩ := eq_ofNat_of_zero_le (by omega : 0 ≤ t / 3600000 % 24)
  obtain ⟨mm, hmm⟩ := eq_ofNat_of_zero_le (by omega : 0 ≤ t / 60000 % 60)
  obtain ⟨ss, hss⟩ := eq_ofNat_of_zero_le (by omega : 0 ≤ t / 1000 % 60)
  obtain ⟨ms, hms⟩ := eq_ofNat_of_zero_le (by omega : 0 ≤ t % 1000)
  have hday : (d : ℤ) < 100 := by
    have hle := h.date_le
    rw [Vm.daysInMonth] at hle
    split_ifs at hle <;> omega
  have hback := h.back
  rw [h.year, h.month, h.date, hourFromTime_cast, minFromTime_cast, secFromTime_cast,
    msFromTime_cast, hhh, hmm, hss, hms] at hback
  refine ⟨y, m + 1, d, hh, mm, ss, ms, ⟨h.year, ?_, by omega, by omega, by omega, ?_, by omega,
    by omega, by omega, by omega, ?_⟩⟩
  · rw [printIsoString, h.year, h.month, h.date, hourFromTime_cast, minFromTime_cast,
      secFromTime_cast, msFromTime_cast, hhh, hmm, hss, hms]
    simp only [toInt_cast]
    have hmonth : (m : ℤ) + 1 = ((m + 1 : ℕ) : ℤ) := by push_cast; rfl
    rw [hmonth, formatInt_natCast (n := m + 1) (by omega) (by decide),
      formatInt_natCast (n := d) (by omega) (by decide),
      formatInt_natCast (n := hh) (by omega) (by decide),
      formatInt_natCast (n := mm) (by omega) (by decide),
      formatInt_natCast (n := ss) (by omega) (by decide),
      formatInt_natCast (n := ms) (by omega) (by decide)]
    rfl
  · have hle := h.date_le
    push_cast
    rwa [add_sub_cancel_right]
  · simpa [dateMsecFromDate] using hback

lemma length_restText (m d hh mm ss ms : ℕ) : (restText m d hh mm ss ms).length = 20 := by
  simp [restText]

/-- What is read of a time without an offset. -/
def fieldsOf (c : ℤ) (n m d hh mm ss ms i : ℕ) : Fields :=
  { dateMul := c, year := n, month := m, day := d, hour := hh, min := mm, sec := ss,
    frac := (ms : ℚ) / 1000, i := i }

/-- If the year is read, the time is. -/
lemma parse_printed {t y c : ℤ} {m d hh mm ss ms n k : ℕ} (h : Printed t y m d hh mm ss ms)
    (ht : |t| ≤ 8640000000000000)
    (hyear : parseYear s {} = .ok { dateMul := c, year := n, i := k })
    (hs : s.drop k = restText m d hh mm ss ms) (hc : c = 1 ∨ c = -1) (hy : c * n = y)
    (hn : n ≤ 275943) (utc : ℚ → ℚ) : dateParseISOString s utc = .ok t := by
  have hday := h.day_le
  have hmonth := h.month_le
  have hhour := h.hour_lt
  have hmin := h.min_lt
  have hsec := h.sec_lt
  have hd : d < 100 := by
    rw [Vm.daysInMonth] at hday
    split_ifs at hday <;> omega
  have hrest : (parseMonth s { dateMul := c, year := n, i := k } >>= parseTime s) =
      .ok (fieldsOf c n m d hh mm ss ms (k + 20)) :=
    parseRest_text hs (by omega) hd (by omega) (by omega) (by omega) h.ms_lt
  have hlength : k + 20 = s.length := by
    have hlen := congrArg List.length hs
    rw [length_drop, length_restText] at hlen
    omega
  have hrange : outOfRange (fieldsOf c n m d hh mm ss ms (k + 20)) = false :=
    (outOfRange_eq_false_iff hc).mpr ⟨hn, h.month_pos, hmonth, h.day_pos, hy ▸ hday,
      hhour.le, fun h24 => absurd h24 hhour.ne, hmin, hsec, Nat.succ_pos _, Nat.succ_pos _⟩
  have hfields : parseFields s = .ok (fieldsOf c n m d hh mm ss ms (k + 20)) := by
    have hend : (fieldsOf c n m d hh mm ss ms (k + 20)).i = s.length := hlength
    rw [parseFields, hyear, ok_bind, ← bind_assoc, hrest, ok_bind, hrange,
      if_neg Bool.false_ne_true, if_neg (not_not.mpr hend)]
    rfl
  have hmsec : msecOf utc (fieldsOf c n m d hh mm ss ms (k + 20)) = t := by
    have hback := h.back
    rw [← hy] at hback
    push_cast at hback
    simp only [msecOf, fieldsOf, div_mul_cancel₀ (ms : ℚ) (by norm_num : (1000 : ℚ) ≠ 0), hback]
    norm_num
  have habs := abs_le.mp ht
  have hlow : ¬ ((t : ℚ) < -8640000000000000 ∨ 8640000000000000 < (t : ℚ)) := by
    rw [not_or, not_lt, not_lt]
    exact ⟨by exact_mod_cast habs.1, by exact_mod_cast habs.2⟩
  rw [dateParseISOString, hfields, ok_bind, hmsec]
  simp only [if_neg hlow]
  rfl

/-- The years that are printed as they are read, by the time. -/
lemma year_iff {t y : ℤ} (h : IsYearOf t y) :
    (0 ≤ y ∧ y ≤ 9999 ↔ -62167219200000 ≤ t ∧ t < 253402300800000) ∧
      (y ≤ -100000 ↔ t < -3217830796800000) ∧
      (|t| ≤ 8640000000000000 → -271821 ≤ y ∧ y ≤ 275760) := by
  obtain ⟨hle, hlt⟩ := h
  rw [daysBefore] at hle hlt
  refine ⟨⟨fun h => ⟨by omega, by omega⟩, fun h => ⟨by omega, by omega⟩⟩,
    ⟨fun h => by omega, fun h => by omega⟩, fun h => ?_⟩
  obtain ⟨hlow, hhigh⟩ := abs_le.mp h
  exact ⟨by omega, by omega⟩

/-- Years of four digits, and years of six digits before the year zero, are read back. -/
lemma parse_printIsoString_iff {t : ℤ} (ht : |t| ≤ 8640000000000000) (utc : ℚ → ℚ) :
    dateParseISOString (printIsoString t) utc = .ok t ↔
      (-62167219200000 ≤ t ∧ t < 253402300800000) ∨ t < -3217830796800000 := by
  obtain ⟨y, m, d, hh, mm, ss, ms, h⟩ := exists_printed t
  obtain ⟨y', hy', hyear, -⟩ := yearFromTime_spec t
  obtain rfl : y' = y := cast_injective (hy'.symm.trans h.year)
  obtain ⟨hfour, hsix, hbound⟩ := year_iff hyear
  obtain ⟨hlow, hhigh⟩ := hbound ht
  rw [← hfour, ← hsix, h.text]
  by_cases hneg : y' < 0
  · obtain ⟨n, rfl⟩ : ∃ n : ℕ, y' = -n := ⟨y'.natAbs, by omega⟩
    obtain ⟨e, he, he'⟩ := exists_digits n
    rw [formatInt_neg (by omega) he he', cons_append]
    by_cases hlong : 100000 ≤ n
    · -- the sign and six digits
      have hle := digits_le (k := 6) he' (by omega) (by decide)
      have hge := le_digits (k := 5) he hlong
      rw [show max 4 (e + 1) = 6 by omega]
      refine iff_of_true ?_ (.inr (by omega))
      exact parse_printed h ht (parseYear_six rfl (by omega)) rfl (.inr rfl) (by omega) (by omega)
        utc
    · -- the sign and fewer digits
      have hle := digits_le (k := 5) he' (by omega) (by decide)
      have hshort := parseYear_short (n := n) (k := max 4 (e + 1))
        (s := 45 :: (lastDigits n (max 4 (e + 1)) ++ restText m d hh mm ss ms)) rfl (by omega)
      refine iff_of_false (fun hok => ?_) (by omega)
      rw [dateParseISOString, parseFields, hshort] at hok
      cases hok
  · obtain ⟨n, rfl⟩ := eq_ofNat_of_zero_le (not_lt.mp hneg)
    by_cases hlong : 10000 ≤ n
    · -- more than four digits
      obtain ⟨e, he, he'⟩ := exists_digits n
      have hge := le_digits (k := 4) he hlong
      have hmax : max 4 (e + 1) = e - 4 + 5 := by omega
      refine iff_of_false (fun hok => ?_) (by omega)
      rw [formatInt_nonneg he he', hmax, dateParseISOString, parseFields_long rfl] at hok
      cases hok
    · rw [formatInt_natCast (by omega) (by decide)]
      refine iff_of_true ?_ (.inl (by omega))
      exact parse_printed h ht (parseYear_four rfl (by omega))
        (drop_left' (length_lastDigits n 4)) (.inl rfl) (by omega) (by omega) utc

/-- What is printed is read back if the year has four digits, or six behind a minus sign; and what is
accepted of any string is in range, with no read outside of it. -/
theorem isoDate_exact (t : ℤ) (ht : |t| ≤ 8640000000000000) (s : List Jschar) (utc : ℚ → ℚ) :
    (dateParseISOString (printIsoString t) utc = .ok t ↔
        (-62167219200000 ≤ t ∧ t < 253402300800000) ∨ t < -3217830796800000) ∧
      dateParseISOString s utc ≠ .error .outside ∧
        ∀ msec, dateParseISOString s utc = .ok msec →
          ∃ f, parseFields s = .ok f ∧ msecOf utc f = msec ∧ InRange f ∧ f.i = s.length := by
  refine ⟨parse_printIsoString_iff ht utc, dateParseISOString_ne_outside utc, fun msec h => ?_⟩
  obtain ⟨f, hf, h⟩ := bind_eq_ok_iff.mp h
  refine ⟨f, hf, ?_, parseFields_spec hf⟩
  dsimp only at h
  split_ifs at h
  exact pure_eq_ok_iff.mp h

/-- Noon of the first day of 1970, and a string with a time only. -/
theorem isoDate_exact_noon :
    dateParseISOString (printIsoString ((43200000 : ℤ) : ℚ)) id = .ok ((43200000 : ℤ) : ℚ) ∧
      dateParseISOString (asciiChars "T12:00Z") id ≠ .error .outside :=
  have h := isoDate_exact 43200000 (by decide) (asciiChars "T12:00Z") id
  ⟨h.1.mpr (by decide), h.2.1⟩

/-- The first millisecond of the year 10000 is not read back. -/
theorem year_ten_thousand :
    |(253402300800000 : ℤ)| ≤ 8640000000000000 ∧
      dateParseISOString (printIsoString ((253402300800000 : ℤ) : ℚ)) id ≠
        .ok ((253402300800000 : ℤ) : ℚ) := by
  have hrange : |(253402300800000 : ℤ)| ≤ 8640000000000000 := by decide
  refine ⟨hrange, fun h => ?_⟩
  exact absurd ((parse_printIsoString_iff hrange id).mp h) (by decide)

end SpiderMonkey.Vm.IsoDate
