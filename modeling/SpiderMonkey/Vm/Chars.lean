import SpiderMonkey.Lib.StableSort

/-! # Strings as lists of code units

`jschar`, the comparison of strings (`jsstrinlines.h`) and the decimal form of integers
(`jsatominlines.h`, `jsnum.cpp`).
-/

namespace SpiderMonkey

open SpiderMonkey.Lib List

abbrev Jschar := UInt16

/-- The code units of an ASCII string. -/
def asciiChars (s : String) : List Jschar := s.toList.map fun c => UInt16.ofNat c.toNat

/-- `CompareChars`: the difference of the first code units that differ, else of the lengths. -/
def compareChars : List Jschar → List Jschar → Int
  | a :: s1, b :: s2 =>
    if (a.toNat : Int) - b.toNat ≠ 0 then (a.toNat : Int) - b.toNat else compareChars s1 s2
  | s1, s2 => (s1.length : Int) - s2.length

/-- The comparison of two strings for sorting. -/
def charsLe (s1 s2 : List Jschar) : Bool := decide (compareChars s1 s2 ≤ 0)

/-- The order is the lexicographic one of the code units. -/
lemma charsLe_iff (s1 s2 : List Jschar) : charsLe s1 s2 = true ↔ s1 ≤ s2 := by
  rw [charsLe, decide_eq_true_iff]
  fun_induction compareChars s1 s2 with
  | case1 a s1 b s2 hne =>
    rw [cons_le_cons_iff, UInt16.lt_iff_toNat_lt, ← UInt16.toNat_inj]
    omega
  | case2 a s1 b s2 heq ih =>
    have hab : a = b := by
      rw [← UInt16.toNat_inj]
      omega
    rw [cons_le_cons_iff, ih, hab]
    simp
  | case3 s1 s2 hshort =>
    cases s1 with
    | nil => simp
    | cons a s1 =>
      cases s2 with
      | nil =>
        simp only [length_cons, length_nil]
        constructor
        · intro hle
          omega
        · intro hle
          exact absurd hle (by simp)
      | cons b s2 => exact absurd rfl (hshort a s1 b s2 rfl)

lemma compares_charsLe : Compares charsLe := by
  constructor
  · intro a b c hab hbc
    rw [charsLe_iff] at hab hbc ⊢
    exact List.le_trans hab hbc
  · intro a b
    rw [Bool.or_eq_true, charsLe_iff, charsLe_iff]
    exact List.le_total a b

lemma compareChars_append {s1 s2 : List Jschar} (hlength : s1.length = s2.length)
    (t1 t2 : List Jschar) :
    compareChars (s1 ++ t1) (s2 ++ t2) =
      if compareChars s1 s2 ≠ 0 then compareChars s1 s2 else compareChars t1 t2 := by
  induction s1 generalizing s2 with
  | nil =>
    cases s2 with
    | nil => simp [compareChars]
    | cons b s2 => cases hlength
  | cons a s1 ih =>
    cases s2 with
    | nil => cases hlength
    | cons b s2 =>
      rw [cons_append, cons_append, compareChars, compareChars]
      by_cases hne : (a.toNat : Int) - b.toNat ≠ 0
      · rw [if_pos hne, if_pos hne, if_pos hne]
      · rw [if_neg hne, if_neg hne]
        exact ih (by simpa using hlength)

/-! ## Decimal numbers -/

/-- A digit's code unit. -/
def digitChar (d : Nat) : Jschar := UInt16.ofNat (48 + d)

/-- `BackfillIndexInCharBuffer`. -/
def backfillIndexInCharBuffer (index : Nat) : List Jschar :=
  let next := index / 10
  let digit := index % 10
  if 0 < next then backfillIndexInCharBuffer next ++ [digitChar digit] else [digitChar digit]
termination_by index
decreasing_by omega

/-- `IntToCString`, in base ten. -/
def intToCString (i : Int32) : List Jschar :=
  let digits := backfillIndexInCharBuffer i.toInt.natAbs
  if i.toInt < 0 then 45 :: digits else digits

/-- The last `d` digits of a number. -/
def lastDigits : Nat → Nat → List Jschar
  | _, 0 => []
  | n, d + 1 => lastDigits (n / 10) d ++ [digitChar (n % 10)]

@[simp] lemma length_lastDigits (n d : Nat) : (lastDigits n d).length = d := by
  induction d generalizing n with
  | zero => rfl
  | succ d ih => rw [lastDigits, length_append, ih, length_singleton]

lemma lastDigits_add (n d k : Nat) :
    lastDigits n (d + k) = lastDigits (n / 10 ^ k) d ++ lastDigits n k := by
  induction k generalizing n with
  | zero => simp [lastDigits]
  | succ k ih =>
    rw [← Nat.add_assoc, lastDigits, ih, lastDigits, append_assoc, Nat.div_div_eq_div_mul,
      Nat.pow_succ']

lemma compareChars_digitChar {d e : Nat} (hd : d < 10) (he : e < 10) :
    compareChars [digitChar d] [digitChar e] = (d : Int) - e := by
  have htoNat (n : Nat) (hn : n < 10) : (digitChar n).toNat = 48 + n := by
    rw [digitChar, UInt16.toNat_ofNat']
    omega
  simp only [compareChars, htoNat d hd, htoNat e he, length_nil]
  split_ifs <;> omega

/-- Digits of the same number are compared as the numbers are. -/
lemma compareChars_lastDigits {d a b : Nat} (ha : a < 10 ^ d) (hb : b < 10 ^ d) :
    (compareChars (lastDigits a d) (lastDigits b d) < 0 ↔ a < b) ∧
      (compareChars (lastDigits a d) (lastDigits b d) = 0 ↔ a = b) := by
  induction d generalizing a b with
  | zero =>
    rw [Nat.pow_zero] at ha hb
    simp only [lastDigits, compareChars, length_nil]
    omega
  | succ d ih =>
    rw [Nat.pow_succ] at ha hb
    have hrest := ih (by omega : a / 10 < 10 ^ d) (by omega : b / 10 < 10 ^ d)
    have hlast := compareChars_digitChar (Nat.mod_lt a (by omega)) (Nat.mod_lt b (by omega))
    rw [lastDigits, lastDigits, compareChars_append (by simp), hlast]
    split_ifs with hne
    · omega
    · omega

/-- A number of `d` digits. -/
lemma backfillIndexInCharBuffer_eq {n d : Nat} (hlt : n < 10 ^ (d + 1))
    (hle : 10 ^ d ≤ n ∨ d = 0) : backfillIndexInCharBuffer n = lastDigits n (d + 1) := by
  induction d generalizing n with
  | zero =>
    rw [backfillIndexInCharBuffer, if_neg (by omega)]
    rfl
  | succ d ih =>
    have hle' : 10 ^ (d + 1) ≤ n := by
      rcases hle with hle | hle
      · exact hle
      · omega
    rw [Nat.pow_succ] at hlt hle'
    have hpos : 0 < 10 ^ d := Nat.pow_pos (by omega)
    rw [backfillIndexInCharBuffer, if_pos (by omega), ih (by omega) (Or.inl (by omega))]
    rfl

/-! ## Indices -/

/-- `JS7_ISDEC` and `JS7_UNDEC`. -/
def isDec (c : Jschar) : Bool := 48 ≤ c && c ≤ 57

def unDec (c : Jschar) : UInt32 := (c - 48).toUInt32

/-- The loop of `isIndexSlow`: the index, the one before the last digit, that digit and what is
left of the string. -/
def scanIndex (index oldIndex c : UInt32) : List Jschar → UInt32 × UInt32 × UInt32 × List Jschar
  | [] => (index, oldIndex, c, [])
  | ch :: rest =>
    if isDec ch then scanIndex (10 * index + unDec ch) index (unDec ch) rest
    else (index, oldIndex, c, ch :: rest)

/-- `UINT32_CHAR_BUFFER_LENGTH`. -/
def uint32CharBufferLength : Nat := 10

/-- `isIndex`: the number that a string is the decimal form of, if it is an unsigned one of 32
bits. -/
def isIndex (s : List Jschar) : Option UInt32 :=
  match s with
  | [] => none
  | ch :: rest =>
    if !isDec ch || uint32CharBufferLength < s.length then none
    else
      let (index, oldIndex, c, rest) :=
        if unDec ch ≠ 0 then scanIndex (unDec ch) 0 0 rest else (unDec ch, 0, 0, rest)
      if rest ≠ [] then none
      else if oldIndex < 4294967295 / 10 ∨ oldIndex = 4294967295 / 10 ∧ c ≤ 4294967295 % 10 then
        some index
      else none

end SpiderMonkey
