import SpiderMonkey.Vm.Calendar
import SpiderMonkey.Vm.Chars

/-! # ISO date strings

`print_iso_string` and `date_parseISOString` (`jsdate.cpp`), on times in exact arithmetic: they are
integers below `2 ^ 53`, for which rounding a quotient does not change its floor. The fraction of a
second is read as an exact decimal. A read outside of the string is an error of its own.
-/

namespace SpiderMonkey.Vm.IsoDate

open Lib.Exact

/-! ## Printing -/

/-- The loop of `cvt_l`, in base ten. -/
def cvtLoop (num : ℕ) (cvt : List Jschar) : List Jschar :=
  if num = 0 then cvt else cvtLoop (num / 10) (digitChar (num % 10) :: cvt)

def cvtL (num : ℕ) : List Jschar := if num = 0 then [48] else cvtLoop num []

/-- `fill_n`, for a precision without a width. -/
def fillN (prec : ℕ) (neg : Bool) (src : List Jschar) : List Jschar :=
  (if neg then [45] else []) ++ (List.replicate (prec - src.length) 48 ++ src)

/-- What `JS_snprintf` writes for a precision and the conversion `d`. -/
def formatInt (prec : ℕ) (num : ℤ) : List Jschar := fillN prec (decide (num < 0)) (cvtL num.natAbs)

/-- `print_iso_string`: `%.4d-%.2d-%.2dT%.2d:%.2d:%.2d.%.3dZ` -/
def printIsoString (utctime : ℚ) : List Jschar :=
  formatInt 4 (toInt (yearFromTime utctime)) ++ 45 ::
    (formatInt 2 (toInt (monthFromTime utctime) + 1) ++ 45 ::
      (formatInt 2 (toInt (dateFromTime utctime)) ++ 84 ::
        (formatInt 2 (toInt (hourFromTime utctime)) ++ 58 ::
          (formatInt 2 (toInt (minFromTime utctime)) ++ 58 ::
            (formatInt 2 (toInt (secFromTime utctime)) ++ 46 ::
              (formatInt 3 (toInt (msFromTime utctime)) ++ [90]))))))

/-! ## Reading -/

/-- Why a scan ends early. -/
inductive Stop where
  | badSyntax
  | outside
  deriving DecidableEq

abbrev Scan := Except Stop

variable (s : List Jschar)

def charAt (i : ℕ) : Scan Jschar :=
  match s[i]? with
  | some c => return c
  | none => throw .outside

/-- The loop of `digits`, with so many units up to the limit. -/
def digitsLoop : (left result i : ℕ) → Scan (ℕ × ℕ)
  | 0, result, i => return (result, i)
  | left + 1, result, i => do
    let c ← charAt s i
    if isDec c then digitsLoop left (result * 10 + (c.toNat - 48)) (i + 1) else return (result, i)

/-- `digits`: whether there are any, the number and the place behind them. -/
def digits (i limit : ℕ) : Scan (Bool × ℕ × ℕ) := do
  let (result, j) ← digitsLoop s (limit - i) 0 i
  return (j != i, result, j)

/-- The loop of `fractional`. -/
def fractionalLoop : (left : ℕ) → (factor result : ℚ) → (i : ℕ) → Scan (ℚ × ℕ)
  | 0, _, result, i => return (result, i)
  | left + 1, factor, result, i => do
    let c ← charAt s i
    if isDec c then
      fractionalLoop left (factor * (1 / 10)) (result + ((c.toNat - 48 : ℕ) : ℚ) * factor) (i + 1)
    else return (result, i)

/-- `fractional` -/
def fractional (i limit : ℕ) : Scan (Bool × ℚ × ℕ) := do
  let (result, j) ← fractionalLoop s (limit - i) (1 / 10) 0 i
  return (j != i, result, j)

/-- `ndigits` -/
def ndigits (n i limit : ℕ) : Scan (Bool × ℕ × ℕ) := do
  let (any, result, j) ← digits s i (min limit (i + n))
  if any then return (j - i == n, result, j) else return (false, result, i)

/-- `DaysInMonth` -/
def daysInMonth (year month : ℕ) : ℤ :=
  let leap := isLeapYear year
  dayFromMonth month leap - dayFromMonth (month - 1) leap

/-- The local variables of `date_parseISOString`. -/
structure Fields where
  i : ℕ := 0
  tzMul : ℤ := 1
  dateMul : ℤ := 1
  year : ℕ := 1970
  month : ℕ := 1
  day : ℕ := 1
  hour : ℕ := 0
  min : ℕ := 0
  sec : ℕ := 0
  frac : ℚ := 0
  isLocalTime : Bool := false
  tzHour : ℕ := 0
  tzMin : ℕ := 0
  deriving DecidableEq

/-- `PEEK` -/
def peek (ch : Jschar) (i : ℕ) : Scan Bool :=
  if i < s.length then do return (← charAt s i) == ch else return false

/-- `NEED` -/
def need (ch : Jschar) (i : ℕ) : Scan ℕ := do
  if ← peek s ch i then return i + 1 else throw .badSyntax

/-- `NEED_NDIGITS` -/
def needNdigits (n i : ℕ) : Scan (ℕ × ℕ) := do
  let (found, result, j) ← ndigits s n i s.length
  if found then return (result, j) else throw .badSyntax

def parseYear (f : Fields) : Scan Fields := do
  let plus ← peek s 43 f.i
  let minus ← peek s 45 f.i
  if plus || minus then
    let (year, i) ← needNdigits s 6 (f.i + 1)
    return { f with dateMul := if minus then -1 else f.dateMul, year, i }
  else if ← peek s 84 f.i then return f
  else
    let (year, i) ← needNdigits s 4 f.i
    return { f with year, i }

/-- Up to `done_date`. -/
def parseDay (f : Fields) : Scan Fields := do
  if ← peek s 45 f.i then
    let (day, i) ← needNdigits s 2 (f.i + 1)
    return { f with day, i }
  else return f

def parseMonth (f : Fields) : Scan Fields := do
  if ← peek s 45 f.i then
    let (month, i) ← needNdigits s 2 (f.i + 1)
    parseDay s { f with month, i }
  else return f

def parseFraction (f : Fields) : Scan Fields := do
  if ← peek s 46 f.i then
    let (any, frac, i) ← fractional s (f.i + 1) s.length
    if any then return { f with frac, i } else throw .badSyntax
  else return f

def parseSeconds (f : Fields) : Scan Fields := do
  if ← peek s 58 f.i then
    let (sec, i) ← needNdigits s 2 (f.i + 1)
    parseFraction s { f with sec, i }
  else return f

/-- The hours of the offset, behind its sign, and its minutes. -/
def parseOffset (f : Fields) : Scan Fields := do
  let (tzHour, i) ← needNdigits s 2 f.i
  let colon ← peek s 58 i
  let (tzMin, i) ← needNdigits s 2 (if colon then i + 1 else i)
  return { f with tzHour, tzMin, i }

def parseZone (f : Fields) : Scan Fields := do
  let plus ← peek s 43 f.i
  let minus ← peek s 45 f.i
  if ← peek s 90 f.i then return { f with i := f.i + 1 }
  else if plus || minus then
    parseOffset s { f with tzMul := if minus then -1 else f.tzMul, i := f.i + 1 }
  else return { f with isLocalTime := true }

/-- From `done_date` to `done`. -/
def parseTime (f : Fields) : Scan Fields := do
  if ← peek s 84 f.i then
    let (hour, i) ← needNdigits s 2 (f.i + 1)
    let i ← need s 58 i
    let (min, i) ← needNdigits s 2 i
    let f ← parseSeconds s { f with hour, min, i }
    parseZone s f
  else return f

/-- The test at `done`. -/
def outOfRange (f : Fields) : Bool :=
  decide (275943 < f.year) || (f.month == 0 || decide (12 < f.month)) ||
    (f.day == 0 || decide ((daysInMonth f.year f.month).toNat < f.day)) || decide (24 < f.hour) ||
    (f.hour == 24 && (decide (0 < f.min) || decide (0 < f.sec))) || decide (59 < f.min) ||
    decide (59 < f.sec) || decide (23 < f.tzHour) || decide (59 < f.tzMin)

/-- The fields, tested. -/
def parseFields : Scan Fields := do
  let f ← parseYear s {}
  let f ← parseMonth s f
  let f ← parseTime s f
  if outOfRange f then throw .badSyntax
  else if f.i ≠ s.length then throw .badSyntax
  else return f

/-- `date_msecFromDate` -/
def dateMsecFromDate (year mon mday hour min sec msec : ℚ) : ℚ :=
  makeDate (makeDay year mon mday) (makeTime hour min sec msec)

/-- The time that fields denote; `utc` stands for `UTC`, which asks for the local zone. -/
def msecOf (utc : ℚ → ℚ) (f : Fields) : ℚ :=
  let msec := dateMsecFromDate (f.dateMul * f.year) ((f.month - 1 : ℕ) : ℚ) f.day f.hour f.min f.sec
    (f.frac * 1000)
  if f.isLocalTime then utc msec
  else msec - f.tzMul * (f.tzHour * msPerHour + f.tzMin * msPerMinute)

/-- `date_parseISOString` -/
def dateParseISOString (utc : ℚ → ℚ) : Scan ℚ := do
  let f ← parseFields s
  let msec := msecOf utc f
  if msec < -8640000000000000 ∨ 8640000000000000 < msec then throw .badSyntax else return msec

end SpiderMonkey.Vm.IsoDate
