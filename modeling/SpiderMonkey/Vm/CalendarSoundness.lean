import SpiderMonkey.Vm.Calendar

/-! # Dates: the two directions

All values are integers; a day has 86400000 milliseconds. A year by the average length is off by one
at most, because the days before a year are, up to two, as many as the average has them.
-/

namespace SpiderMonkey.Vm

open Lib Lib.Exact

/-! ## Years -/

/-- The years with a day more, in the Gregorian calendar. -/
def Leap (y : ℤ) : Prop := 4 ∣ y ∧ (¬ 100 ∣ y ∨ 400 ∣ y)

instance (y : ℤ) : Decidable (Leap y) := inferInstanceAs (Decidable (_ ∧ _))

lemma isLeapYear_cast (y : ℤ) : isLeapYear (y : ℚ) = decide (Leap y) := by
  have h4 := fmod_eq_zero y (d := 4) (by decide)
  have h100 := fmod_eq_zero y (d := 100) (by decide)
  have h400 := fmod_eq_zero y (d := 400) (by decide)
  push_cast at h4 h100 h400
  rw [isLeapYear, Bool.eq_iff_iff, Bool.and_eq_true, Bool.or_eq_true, decide_eq_true_eq,
    decide_eq_true_eq, decide_eq_true_eq, decide_eq_true_eq, h4, ne_eq, h100, h400, Leap,
    Int.dvd_iff_emod_eq_zero, Int.dvd_iff_emod_eq_zero, Int.dvd_iff_emod_eq_zero]

/-- The days before a year, from 1970 on. -/
def daysBefore (y : ℤ) : ℤ :=
  365 * (y - 1970) + (y - 1969) / 4 - (y - 1901) / 100 + (y - 1601) / 400

lemma dayFromYear_cast (y : ℤ) : dayFromYear y = daysBefore y := by
  have h4 := floor_div (y - 1969) (d := 4)
  have h100 := floor_div (y - 1901) (d := 100)
  have h400 := floor_div (y - 1601) (d := 400)
  push_cast at h4 h100 h400
  rw [dayFromYear, h4, h100, h400, daysBefore]
  push_cast
  rfl

lemma timeFromYear_cast (y : ℤ) : timeFromYear y = ((daysBefore y * 86400000 : ℤ) : ℚ) := by
  rw [timeFromYear, dayFromYear_cast, msPerDay]
  push_cast
  rfl

/-- The days of a year. -/
def yearLength (y : ℤ) : ℤ := if Leap y then 366 else 365

lemma daysInYear_cast (y : ℤ) : daysInYear y = yearLength y := by
  rw [daysInYear, isLeapYear_cast, yearLength]
  by_cases h : Leap y
  · rw [decide_eq_true h, if_pos rfl, if_pos h]
    rfl
  · rw [decide_eq_false h, if_neg Bool.false_ne_true, if_neg h]
    rfl

lemma daysBefore_succ (y : ℤ) : daysBefore (y + 1) = daysBefore y + yearLength y := by
  rw [daysBefore, daysBefore, yearLength]
  split_ifs with h <;> rw [Leap] at h <;> omega

lemma strictMono_daysBefore : StrictMono daysBefore := by
  refine strictMono_int_of_lt_succ fun y => ?_
  rw [daysBefore_succ, yearLength]
  split_ifs <;> omega

/-- The year by the average length. -/
def averageYearOf (t : ℤ) : ℤ := t / 31556952000 + 1970

lemma averageYear_cast (t : ℤ) : averageYear t = averageYearOf t := by
  have h := floor_div t (d := 31556952000)
  push_cast at h
  rw [averageYear, show (msPerDay * 365.2425 : ℚ) = 31556952000 by norm_num, h, averageYearOf]
  push_cast
  rfl

/-- It is not off by more than one. -/
lemma averageYearOf_near (t : ℤ) :
    daysBefore (averageYearOf t - 1) * 86400000 ≤ t ∧
      t < daysBefore (averageYearOf t + 2) * 86400000 := by
  rw [averageYearOf, daysBefore, daysBefore]
  constructor <;> omega

/-- A year in which the time lies. -/
def IsYearOf (t y : ℤ) : Prop := daysBefore y * 86400000 ≤ t ∧ t < daysBefore (y + 1) * 86400000

lemma IsYearOf.unique {t y y' : ℤ} (h : IsYearOf t y) (h' : IsYearOf t y') : y = y' := by
  have hmono : StrictMono fun y => daysBefore y * 86400000 := fun a b hab =>
    Int.mul_lt_mul_of_pos_right (strictMono_daysBefore hab) (by decide)
  exact unique_between hmono h.1 h.2 h'.1 h'.2

lemma yearFromTime_spec (t : ℤ) :
    ∃ y : ℤ, yearFromTime t = y ∧ IsYearOf t y ∧ |averageYearOf t - y| ≤ 1 := by
  obtain ⟨hbefore, hafter⟩ := averageYearOf_near t
  have hsucc := daysBefore_succ (averageYearOf t)
  have hsucc2 : daysBefore (averageYearOf t + 2) =
      daysBefore (averageYearOf t + 1) + yearLength (averageYearOf t + 1) := by
    rw [← daysBefore_succ, Int.add_assoc]
    rfl
  have hnext : timeFromYear (averageYearOf t) + msPerDay * daysInYear (averageYearOf t) =
      ((daysBefore (averageYearOf t + 1) * 86400000 : ℤ) : ℚ) := by
    rw [timeFromYear_cast, daysInYear_cast, hsucc, msPerDay]
    push_cast
    ring
  simp only [yearFromTime, averageYear_cast, hnext]
  simp only [timeFromYear_cast, Int.cast_lt, Int.cast_le]
  rw [show (averageYearOf t : ℚ) - 1 = ((averageYearOf t - 1 : ℤ) : ℚ) by push_cast; rfl,
    show (averageYearOf t : ℚ) + 1 = ((averageYearOf t + 1 : ℤ) : ℚ) by push_cast; rfl]
  by_cases hlater : t < daysBefore (averageYearOf t) * 86400000
  · rw [if_pos hlater]
    refine ⟨_, rfl, ⟨hbefore, by rwa [Int.sub_add_cancel]⟩, ?_⟩
    rw [Int.sub_sub_self]
    rfl
  rw [if_neg hlater]
  by_cases hearlier : daysBefore (averageYearOf t + 1) * 86400000 ≤ t
  · rw [if_pos hearlier]
    refine ⟨_, rfl, ⟨hearlier, by rwa [Int.add_assoc]⟩, ?_⟩
    rw [show averageYearOf t - (averageYearOf t + 1) = -1 by omega]
    rfl
  · rw [if_neg hearlier]
    refine ⟨_, rfl, ⟨Int.not_lt.mp hlater, Int.not_le.mp hearlier⟩, ?_⟩
    rw [Int.sub_self]
    decide

/-! ## Months -/

/-- The days of each month, from 0 to 11. -/
def daysInMonth (y m : ℤ) : ℤ :=
  if m = 1 then (if Leap y then 29 else 28)
  else if m = 3 ∨ m = 5 ∨ m = 8 ∨ m = 10 then 30
  else 31

/-- The days of a year before a month. -/
def daysBeforeMonth (y m : ℤ) : ℤ := dayFromMonth m (decide (Leap y))

lemma daysInFebruary_cast (y : ℤ) : daysInFebruary y = if Leap y then 29 else 28 := by
  rw [daysInFebruary, isLeapYear_cast]
  by_cases h : Leap y
  · rw [decide_eq_true h, if_pos rfl, if_pos h]
  · rw [decide_eq_false h, if_neg Bool.false_ne_true, if_neg h]

/-- A month, and a day of it, that are so many days after the first of January. -/
structure IsDateOf (y d m dt : ℤ) : Prop where
  month_nonneg : 0 ≤ m
  month_le : m ≤ 11
  date_pos : 1 ≤ dt
  date_le : dt ≤ daysInMonth y m
  days : daysBeforeMonth y m + dt - 1 = d

lemma daysInMonth_eq (y m : ℤ) :
    daysInMonth y m = if m = 1 then daysInFebruary y
      else if m = 3 ∨ m = 5 ∨ m = 8 ∨ m = 10 then 30 else 31 := by
  rw [daysInMonth, daysInFebruary_cast]

/-- The table, with the days of February. -/
def monthStarts (feb : ℤ) : List ℤ :=
  [0, 31, 31 + feb, 62 + feb, 92 + feb, 123 + feb, 153 + feb, 184 + feb, 215 + feb, 245 + feb,
    276 + feb, 306 + feb, 337 + feb]

lemma daysBeforeMonth_eq (y m : ℤ) :
    daysBeforeMonth y m = (monthStarts (daysInFebruary y)).getD m.toNat 0 := by
  rw [daysBeforeMonth, dayFromMonth, daysInFebruary_cast]
  by_cases h : Leap y
  · rw [decide_eq_true h, if_pos h]
    rfl
  · rw [decide_eq_false h, if_neg h]
    rfl

/-- The chain of `monthFromTime`. -/
def monthChain (feb d : ℤ) : ℚ :=
  if d < 31 then 0
  else if d < 31 + feb then 1
  else if d < 31 + feb + 31 then 2
  else if d < 31 + feb + 31 + 30 then 3
  else if d < 31 + feb + 31 + 30 + 31 then 4
  else if d < 31 + feb + 31 + 30 + 31 + 30 then 5
  else if d < 31 + feb + 31 + 30 + 31 + 30 + 31 then 6
  else if d < 31 + feb + 31 + 30 + 31 + 30 + 31 + 31 then 7
  else if d < 31 + feb + 31 + 30 + 31 + 30 + 31 + 31 + 30 then 8
  else if d < 31 + feb + 31 + 30 + 31 + 30 + 31 + 31 + 30 + 31 then 9
  else if d < 31 + feb + 31 + 30 + 31 + 30 + 31 + 31 + 30 + 31 + 30 then 10
  else 11

/-- The chain of `dateFromTime`. -/
def dateChain (feb d : ℤ) : ℤ :=
  if d ≤ 30 then d + 1
  else if d ≤ 30 + feb then d - 30
  else if d ≤ 30 + feb + 31 then d - (30 + feb)
  else if d ≤ 30 + feb + 31 + 30 then d - (30 + feb + 31)
  else if d ≤ 30 + feb + 31 + 30 + 31 then d - (30 + feb + 31 + 30)
  else if d ≤ 30 + feb + 31 + 30 + 31 + 30 then d - (30 + feb + 31 + 30 + 31)
  else if d ≤ 30 + feb + 31 + 30 + 31 + 30 + 31 then d - (30 + feb + 31 + 30 + 31 + 30)
  else if d ≤ 30 + feb + 31 + 30 + 31 + 30 + 31 + 31 then d - (30 + feb + 31 + 30 + 31 + 30 + 31)
  else if d ≤ 30 + feb + 31 + 30 + 31 + 30 + 31 + 31 + 30 then
    d - (30 + feb + 31 + 30 + 31 + 30 + 31 + 31)
  else if d ≤ 30 + feb + 31 + 30 + 31 + 30 + 31 + 31 + 30 + 31 then
    d - (30 + feb + 31 + 30 + 31 + 30 + 31 + 31 + 30)
  else if d ≤ 30 + feb + 31 + 30 + 31 + 30 + 31 + 31 + 30 + 31 + 30 then
    d - (30 + feb + 31 + 30 + 31 + 30 + 31 + 31 + 30 + 31)
  else d - (30 + feb + 31 + 30 + 31 + 30 + 31 + 31 + 30 + 31 + 30)

/-- The thresholds of both chains are those of the table. -/
lemma exists_isDateOf (y : ℤ) {d : ℤ} (hd : 0 ≤ d) (hlt : d < yearLength y) :
    ∃ m dt : ℤ, IsDateOf y d m dt ∧ monthChain (daysInFebruary y) d = m ∧
      dateChain (daysInFebruary y) d = dt := by
  have hfeb : daysInFebruary y = 28 ∨ daysInFebruary y = 29 := by
    rw [daysInFebruary_cast]
    split_ifs
    · exact .inr rfl
    · exact .inl rfl
  have hlength : d < 337 + daysInFebruary y := by
    rw [yearLength] at hlt
    rw [daysInFebruary_cast]
    split_ifs at hlt ⊢ <;> omega
  have hmonth := daysInMonth_eq y
  have hbefore := daysBeforeMonth_eq y
  generalize daysInFebruary y = feb at *
  obtain ⟨m, hm, hm', hle, hlt'⟩ := exists_between 12
    (f := fun m => (monthStarts feb).getD m.toNat 0) hd hlength
  refine ⟨m, d - daysBeforeMonth y m + 1, ⟨hm, by omega, ?_, ?_, by omega⟩, ?_, ?_⟩
  · rw [hbefore]
    omega
  · rw [hbefore, hmonth]
    interval_cases m <;> simp [monthStarts] at hle hlt' ⊢ <;> omega
  · rw [monthChain]
    interval_cases m <;> simp [monthStarts] at hle hlt' <;>
      simp (disch := omega) only [if_pos, if_neg] <;> norm_num
  · rw [dateChain, hbefore]
    interval_cases m <;> simp [monthStarts] at hle hlt' ⊢ <;>
      simp (disch := omega) only [if_pos, if_neg] <;> omega

lemma day_cast (t : ℤ) : day t = ((t / 86400000 : ℤ) : ℚ) := by
  have h := floor_div t (d := 86400000)
  push_cast at h
  rw [day, msPerDay, h]

lemma dayWithinYear_cast (t y : ℤ) :
    dayWithinYear t y = ((t / 86400000 - daysBefore y : ℤ) : ℚ) := by
  rw [dayWithinYear, day_cast, dayFromYear_cast, Int.cast_sub]

lemma monthFromTime_eq {t y : ℤ} (hy : yearFromTime t = y) :
    monthFromTime t = monthChain (daysInFebruary y) (t / 86400000 - daysBefore y) := by
  simp only [monthFromTime, hy, dayWithinYear_cast, toInt_cast, Int.cast_lt, monthChain]

lemma dateFromTime_eq {t y : ℤ} (hy : yearFromTime t = y) :
    dateFromTime t = dateChain (daysInFebruary y) (t / 86400000 - daysBefore y) := by
  simp only [dateFromTime, hy, dayWithinYear_cast, toInt_cast]
  generalize t / 86400000 - daysBefore y = d
  simp only [Int.cast_le]
  simp only [dateChain, apply_ite (Int.cast : ℤ → ℚ), Int.cast_add, Int.cast_sub, Int.cast_one]

/-! ## Back from the year, the month and the day -/

lemma makeDay_cast (y m dt : ℤ) :
    makeDay y m dt =
      ((daysBefore (y + m / 12) + daysBeforeMonth (y + m / 12) (m % 12) + dt - 1 : ℤ) : ℚ) := by
  have hfloor := floor_div m (d := 12)
  have hfmod := fmod_cast m (d := 12) (by decide)
  have hwrap := tmod_wrap m (d := 12) (by decide)
  push_cast at hfloor hfmod hwrap
  have hyear : (y : ℚ) + ((m / 12 : ℤ) : ℚ) = ((y + m / 12 : ℤ) : ℚ) := (Int.cast_add _ _).symm
  have hday : floor (timeFromYear ((y + m / 12 : ℤ) : ℚ) / msPerDay) = daysBefore (y + m / 12) := by
    rw [timeFromYear_cast, Int.cast_mul, msPerDay, mul_div_assoc, Int.cast_ofNat, div_self (by norm_num),
      mul_one, floor, Int.floor_intCast]
  simp only [makeDay, toInt_cast, hfloor, hfmod, hyear, hday, isLeapYear_cast, hwrap]
  rw [daysBeforeMonth]
  push_cast
  rfl

lemma makeDay_month (y m : ℤ) :
    makeDay y m 1 = makeDay ((y + m / 12 : ℤ) : ℚ) ((m % 12 : ℤ) : ℚ) 1 := by
  have h := makeDay_cast y m 1
  have h' := makeDay_cast (y + m / 12) (m % 12) 1
  rw [show m % 12 / 12 = 0 by omega, Int.add_zero, Int.emod_emod_of_dvd _ (Int.dvd_refl 12)] at h'
  push_cast at h h' ⊢
  rw [h, h']

/-! ## The time of the day -/

lemma hourFromTime_cast (t : ℤ) : hourFromTime t = ((t / 3600000 % 24 : ℤ) : ℚ) := by
  have hfloor := floor_div t (d := 3600000)
  have hwrap := fmod_wrap (t / 3600000) (d := 24) (by decide)
  push_cast at hfloor hwrap
  simp only [hourFromTime, msPerHour, msPerMinute, msPerSecond, secondsPerMinute, minutesPerHour,
    hoursPerDay]
  norm_num only
  rw [hfloor]
  exact hwrap

lemma minFromTime_cast (t : ℤ) : minFromTime t = ((t / 60000 % 60 : ℤ) : ℚ) := by
  have hfloor := floor_div t (d := 60000)
  have hwrap := fmod_wrap (t / 60000) (d := 60) (by decide)
  push_cast at hfloor hwrap
  simp only [minFromTime, msPerMinute, msPerSecond, secondsPerMinute, minutesPerHour]
  norm_num only
  rw [hfloor]
  exact hwrap

lemma secFromTime_cast (t : ℤ) : secFromTime t = ((t / 1000 % 60 : ℤ) : ℚ) := by
  have hfloor := floor_div t (d := 1000)
  have hwrap := fmod_wrap (t / 1000) (d := 60) (by decide)
  push_cast at hfloor hwrap
  simp only [secFromTime, msPerSecond, secondsPerMinute]
  rw [hfloor]
  exact hwrap

lemma msFromTime_cast (t : ℤ) : msFromTime t = ((t % 1000 : ℤ) : ℚ) := by
  have hwrap := fmod_wrap t (d := 1000) (by decide)
  push_cast at hwrap
  simp only [msFromTime, msPerSecond]
  exact hwrap

lemma makeTime_cast (h m s ms : ℤ) :
    makeTime h m s ms = ((h * 3600000 + m * 60000 + s * 1000 + ms : ℤ) : ℚ) := by
  simp only [makeTime, toInt_cast, msPerHour, msPerMinute, msPerSecond, secondsPerMinute,
    minutesPerHour]
  push_cast
  ring

/-! ## Both directions -/

/-- The year, the month and the day of a time, and the way back. -/
structure DateRight (t y m dt : ℤ) : Prop where
  year : yearFromTime t = y
  year_le : timeFromYear y ≤ t
  year_lt : (t : ℚ) < timeFromYear (y + 1)
  year_unique : ∀ y' : ℤ, timeFromYear y' ≤ t → (t : ℚ) < timeFromYear (y' + 1) → y' = y
  estimate : |averageYear t - y| ≤ 1
  month : monthFromTime t = m
  month_nonneg : 0 ≤ m
  month_le : m ≤ 11
  date : dateFromTime t = dt
  date_pos : 1 ≤ dt
  date_le : dt ≤ daysInMonth y m
  back : makeDate (makeDay (yearFromTime t) (monthFromTime t) (dateFromTime t))
    (makeTime (hourFromTime t) (minFromTime t) (secFromTime t) (msFromTime t)) = t

lemma isYearOf_iff (t y : ℤ) :
    IsYearOf t y ↔ timeFromYear y ≤ t ∧ (t : ℚ) < timeFromYear ((y : ℚ) + 1) := by
  rw [show (y : ℚ) + 1 = ((y + 1 : ℤ) : ℚ) by push_cast; rfl, timeFromYear_cast, timeFromYear_cast,
    Int.cast_le, Int.cast_lt, IsYearOf]

lemma exists_dateRight (t : ℤ) : ∃ y m dt, DateRight t y m dt := by
  obtain ⟨y, hy, hyear, hnear⟩ := yearFromTime_spec t
  have hsucc := daysBefore_succ y
  have hlower : 0 ≤ t / 86400000 - daysBefore y := by
    have h := hyear.1
    omega
  have hupper : t / 86400000 - daysBefore y < yearLength y := by
    have h := hyear.2
    rw [hsucc] at h
    omega
  obtain ⟨m, dt, hdate, hmonth, hday⟩ := exists_isDateOf y hlower hupper
  obtain ⟨hle, hlt⟩ := (isYearOf_iff t y).mp hyear
  have hm : monthFromTime t = m := (monthFromTime_eq hy).trans hmonth
  have hdt : dateFromTime t = dt := by rw [dateFromTime_eq hy, hday]
  refine ⟨y, m, dt, hy, hle, hlt, fun y' hle' hlt' => ?_, ?_, hm, hdate.month_nonneg,
    hdate.month_le, hdt, hdate.date_pos, hdate.date_le, ?_⟩
  · exact IsYearOf.unique ((isYearOf_iff t y').mpr ⟨hle', hlt'⟩) hyear
  · rw [averageYear_cast, ← Int.cast_sub, ← Int.cast_abs]
    exact_mod_cast hnear
  · have hdays := hdate.days
    have hm0 := hdate.month_nonneg
    have hm11 := hdate.month_le
    rw [hy, hm, hdt, makeDay_cast, hourFromTime_cast, minFromTime_cast, secFromTime_cast,
      msFromTime_cast, makeTime_cast, makeDate, msPerDay, show m / 12 = 0 by omega, Int.add_zero,
      show m % 12 = m by omega,
      show daysBefore y + daysBeforeMonth y m + dt - 1 = t / 86400000 by omega]
    have hwhole : t / 86400000 * 86400000 + (t / 3600000 % 24 * 3600000 + t / 60000 % 60 * 60000 +
        t / 1000 % 60 * 1000 + t % 1000) = t := by omega
    exact_mod_cast hwhole

/-- Each time has one year, and a date in it, from which the time can be had back; and a month may be
any number of years away. -/
theorem calendar_exact :
    (∀ t : ℤ, ∃ y m dt, DateRight t y m dt) ∧
      ∀ y m : ℤ, makeDay y m 1 = makeDay ((y + m / 12 : ℤ) : ℚ) ((m % 12 : ℤ) : ℚ) 1 :=
  ⟨exists_dateRight, makeDay_month⟩

end SpiderMonkey.Vm
