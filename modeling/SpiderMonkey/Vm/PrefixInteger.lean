import SpiderMonkey.Lib.RoundEven
import SpiderMonkey.Vm.Chars

/-! # Integers in a base

`GetPrefixInteger` (`jsnum.cpp`). The doubles that come about are whole numbers or infinity; an
operation is the exact one, rounded to 53 bits.
-/

namespace SpiderMonkey.Vm

open Lib

/-- A double that is a whole number, or infinity. -/
inductive WholeDouble where
  | finite (n : ℕ)
  | infinity
  deriving DecidableEq

namespace WholeDouble

/-- The double for an exact result. -/
def ofExact (n : ℕ) : WholeDouble :=
  if roundEven 53 n < 2 ^ 1024 then finite (roundEven 53 n) else infinity

/-- No factor is zero where the other is infinite. -/
def mul : WholeDouble → WholeDouble → WholeDouble
  | finite a, finite b => ofExact (a * b)
  | _, _ => infinity

def add : WholeDouble → WholeDouble → WholeDouble
  | finite a, finite b => ofExact (a + b)
  | _, _ => infinity

def lt : WholeDouble → ℕ → Bool
  | finite a, b => decide (a < b)
  | infinity, _ => false

end WholeDouble

/-! ## Bits of digits -/

structure BinaryDigitReader where
  base : ℕ
  digit : ℕ
  digitMask : ℕ
  /-- What is left between `start` and `end`. -/
  start : List Jschar

namespace BinaryDigitReader

/-- The value of what is known to be a digit. -/
def digitOf (c : Jschar) : ℕ :=
  if 48 ≤ c ∧ c ≤ 57 then c.toNat - 48
  else if 97 ≤ c ∧ c ≤ 122 then c.toNat - 97 + 10
  else c.toNat - 65 + 10

/-- The bit under the mask, and the mask moved on. -/
def maskedBit (bdr : BinaryDigitReader) : Option ℕ × BinaryDigitReader :=
  (some (if bdr.digit &&& bdr.digitMask ≠ 0 then 1 else 0),
    { bdr with digitMask := bdr.digitMask >>> 1 })

/-- `nextDigit` -/
def nextDigit (bdr : BinaryDigitReader) : Option ℕ × BinaryDigitReader :=
  if bdr.digitMask = 0 then
    match bdr.start with
    | [] => (none, bdr)
    | c :: start =>
      maskedBit { bdr with start, digit := digitOf c, digitMask := bdr.base >>> 1 }
  else maskedBit bdr

/-- A reader that gives a bit has less to give. -/
lemma nextDigit_decreasing {bdr bdr' : BinaryDigitReader} {bit : ℕ}
    (h : bdr.nextDigit = (some bit, bdr')) :
    Prod.Lex (· < ·) (· < ·) (bdr'.start.length, bdr'.digitMask)
      (bdr.start.length, bdr.digitMask) := by
  rw [nextDigit] at h
  split_ifs at h with hmask
  · cases hstart : bdr.start with
    | nil =>
      rw [hstart] at h
      cases h
    | cons c start =>
      rw [hstart] at h
      cases h
      exact Prod.Lex.left _ _ (Nat.lt_succ_self _)
  · cases h
    apply Prod.Lex.right
    rw [Nat.shiftRight_eq_div_pow]
    exact Nat.div_lt_self (Nat.pos_of_ne_zero hmask) (by decide)

end BinaryDigitReader

open BinaryDigitReader

/-- The first loop of `ComputeAccurateBinaryBaseInteger`. -/
def skipZeroes (bdr : BinaryDigitReader) : Option ℕ × BinaryDigitReader :=
  match h : bdr.nextDigit with
  | (some 0, bdr') => skipZeroes bdr'
  | (some (bit + 1), bdr') => (some (bit + 1), bdr')
  | (none, bdr') => (none, bdr')
termination_by (bdr.start.length, bdr.digitMask)
decreasing_by exact nextDigit_decreasing h

/-- The loop that gathers the significant bits, with `j` to go: the last bit and the reader, or
nothing where the function returns early. -/
def gatherBits :
    (j : ℕ) → (value : WholeDouble) → (bit : ℕ) → BinaryDigitReader →
      WholeDouble × Option (ℕ × BinaryDigitReader)
  | 0, value, bit, bdr => (value, some (bit, bdr))
  | j + 1, value, _, bdr =>
    match bdr.nextDigit with
    | (none, _) => (value, none)
    | (some bit, bdr) => gatherBits j ((value.mul (.finite 2)).add (.finite bit)) bit bdr

/-- The last loop, with `factor` and `sticky`. -/
def stickyBits (factor : WholeDouble) (sticky : ℕ) (bdr : BinaryDigitReader) : WholeDouble × ℕ :=
  match h : bdr.nextDigit with
  | (none, _) => (factor, sticky)
  | (some bit3, bdr') => stickyBits (factor.mul (.finite 2)) (sticky ||| bit3) bdr'
termination_by (bdr.start.length, bdr.digitMask)
decreasing_by exact nextDigit_decreasing h

/-- `ComputeAccurateBinaryBaseInteger` -/
def computeAccurateBinaryBaseInteger (chars : List Jschar) (base : ℕ) : WholeDouble :=
  match gatherBits 52 (.finite 1) 1 (skipZeroes ⟨base, 0, 0, chars⟩).2 with
  | (value, none) => value
  | (value, some (bit, bdr)) =>
    match bdr.nextDigit with
    | (none, _) => value
    | (some bit2, bdr) =>
      match stickyBits (.finite 2) 0 bdr with
      | (factor, sticky) => (value.add (.finite (bit2 &&& (bit ||| sticky)))).mul factor

/-! ## The prefix -/

def digitValue (c : Jschar) : Option ℕ :=
  if 48 ≤ c ∧ c ≤ 57 then some (c.toNat - 48)
  else if 97 ≤ c ∧ c ≤ 122 then some (c.toNat - 97 + 10)
  else if 65 ≤ c ∧ c ≤ 90 then some (c.toNat - 65 + 10)
  else none

/-- The loop of `GetPrefixInteger`: what is left, and the number so far. -/
def prefixLoop (base : ℕ) : (d : WholeDouble) → List Jschar → List Jschar × WholeDouble
  | d, [] => ([], d)
  | d, c :: s =>
    match digitValue c with
    | none => (c :: s, d)
    | some digit =>
      if base ≤ digit then (c :: s, d)
      else prefixLoop base ((d.mul (.finite base)).add (.finite digit)) s

/-- `GetPrefixInteger`: what `*endp` leaves, and the number; `decimal` stands for
`ComputeAccurateDecimalInteger`, which may run out of memory. -/
def getPrefixInteger (decimal : List Jschar → Option WholeDouble) (base : ℕ) (chars : List Jschar) :
    List Jschar × Option WholeDouble :=
  match prefixLoop base (.finite 0) chars with
  | (s, d) =>
    let digits := chars.take (chars.length - s.length)
    if d.lt (2 ^ 53) then (s, some d)
    else if base = 10 then (s, decimal digits)
    else if base &&& (base - 1) = 0 then (s, some (computeAccurateBinaryBaseInteger digits base))
    else (s, some d)

end SpiderMonkey.Vm
