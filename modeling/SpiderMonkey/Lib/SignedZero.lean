import Mathlib

/-! # Integers with a negative zero

The integers of the number format: there are two zeros, which compare equal and differ
in their sign only. An operation is exact, or has no result here when its result is no
integer.
-/

namespace SpiderMonkey.Lib

/-- An integer, or the negative zero. -/
inductive ZInt where
  | int (n : Int)
  | negZero
deriving DecidableEq, Repr

namespace ZInt

/-- The integer without the sign of a zero. -/
def toInt : ZInt → Int
  | int n => n
  | negZero => 0

/-- The negative zero replaced by the other one. -/
def positive (x : ZInt) : ZInt := int x.toInt

def isNegative : ZInt → Bool
  | int n => n < 0
  | negZero => true

/-- The zero with a sign. -/
def zero (negative : Bool) : ZInt := if negative then negZero else int 0

/-- A sum is the negative zero when both terms are. -/
def add : ZInt → ZInt → ZInt
  | negZero, negZero => negZero
  | a, b => int (a.toInt + b.toInt)

/-- A difference is the negative zero when zero is taken from the negative zero. -/
def sub : ZInt → ZInt → ZInt
  | negZero, int 0 => negZero
  | a, b => int (a.toInt - b.toInt)

def mul (a b : ZInt) : ZInt :=
  if a.toInt * b.toInt = 0 then zero (a.isNegative != b.isNegative)
  else int (a.toInt * b.toInt)

/-- The quotient, rounded towards zero if that is asked for. -/
def div (truncated : Bool) (a b : ZInt) : Option ZInt :=
  if b.toInt = 0 then none
  else if a.toInt = 0 then some (zero (a.isNegative != b.isNegative))
  else if truncated ∨ b.toInt ∣ a.toInt then some (int (a.toInt.tdiv b.toInt))
  else none

/-- The remainder has the sign of the dividend. -/
def mod (a b : ZInt) : Option ZInt :=
  if b.toInt = 0 then none
  else if a.toInt.tmod b.toInt = 0 then some (zero a.isNegative)
  else some (int (a.toInt.tmod b.toInt))

@[simp] lemma toInt_int (n : Int) : (int n).toInt = n := rfl
@[simp] lemma toInt_positive (x : ZInt) : x.positive.toInt = x.toInt := rfl

lemma positive_ne (x : ZInt) : x.positive ≠ negZero := ZInt.noConfusion

/-- Only the negative zero is not a plain integer. -/
lemma exists_int {x : ZInt} (h : x ≠ negZero) : ∃ n, x = int n := by
  cases x with
  | int n => exact ⟨n, rfl⟩
  | negZero => exact absurd rfl h

lemma positive_of_ne {x : ZInt} (h : x ≠ negZero) : x.positive = x := by
  rcases exists_int h with ⟨n, rfl⟩
  rfl

lemma add_eq_negZero {a b : ZInt} (h : a.add b = negZero) : a = negZero ∧ b = negZero := by
  cases a with
  | int n => exact absurd h ZInt.noConfusion
  | negZero =>
    cases b with
    | int m => exact absurd h ZInt.noConfusion
    | negZero => exact ⟨rfl, rfl⟩

/-- Unless both terms are the negative zero, a sum does not depend on the sign of a zero. -/
lemma add_eq_int {a b : ZInt} (h : ¬ (a = negZero ∧ b = negZero)) :
    a.add b = int (a.toInt + b.toInt) := by
  cases a with
  | int n => rfl
  | negZero =>
    cases b with
    | int m => rfl
    | negZero => exact absurd ⟨rfl, rfl⟩ h

lemma sub_eq_negZero {a b : ZInt} (h : a.sub b = negZero) : a = negZero := by
  cases a with
  | int n => exact absurd h ZInt.noConfusion
  | negZero => rfl

/-- A difference does not depend on the sign of the zero that is taken away, unless it is
taken from the negative zero. -/
lemma sub_positive {a : ZInt} (h : a ≠ negZero) (b : ZInt) : a.sub b.positive = a.sub b := by
  rcases exists_int h with ⟨n, rfl⟩
  rfl

lemma mod_positive (a b : ZInt) : a.mod b.positive = a.mod b := rfl

lemma mul_comm (a b : ZInt) : a.mul b = b.mul a := by
  have hsign : (a.isNegative != b.isNegative) = (b.isNegative != a.isNegative) := by
    cases a.isNegative <;> cases b.isNegative <;> rfl
  unfold mul
  rw [Int.mul_comm, hsign]

/-- A product with a positive factor is not the negative zero. -/
lemma mul_ne_negZero {a : ZInt} (ha : a ≠ negZero) {n : Int} (hn : 0 < n) :
    a.mul (int n) ≠ negZero := by
  rcases exists_int ha with ⟨m, rfl⟩
  unfold mul
  split_ifs with hzero
  · have hm : m = 0 := by
      rcases Int.mul_eq_zero.mp hzero with hm | hn'
      · exact hm
      · exact absurd hn' (by rw [toInt_int]; omega)
    subst hm
    have hle : 0 ≤ n := Int.le_of_lt hn
    simp [isNegative, zero, hle]
  · exact ZInt.noConfusion

/-- A quotient of a number other than zero is not the negative zero. -/
lemma div_ne_negZero_of_lhs {truncated : Bool} {n : Int} (hn : n ≠ 0) (b : ZInt) :
    div truncated (int n) b ≠ some negZero := by
  unfold div
  split_ifs with hb ha hdvd
  · exact (Option.some_ne_none _).symm
  · exact absurd ha hn
  · exact fun h => ZInt.noConfusion (Option.some.inj h)
  · exact (Option.some_ne_none _).symm

/-- Nor is a quotient by a number that is not negative. -/
lemma div_ne_negZero_of_rhs {truncated : Bool} {a : ZInt} (ha : a ≠ negZero) {n : Int}
    (hn : 0 ≤ n) : div truncated a (int n) ≠ some negZero := by
  rcases exists_int ha with ⟨m, rfl⟩
  unfold div
  split_ifs with hb hm hdvd
  · exact (Option.some_ne_none _).symm
  · have hm : m = 0 := hm
    subst hm
    simp [isNegative, zero, hn]
  · exact fun h => ZInt.noConfusion (Option.some.inj h)
  · exact (Option.some_ne_none _).symm

end ZInt
end SpiderMonkey.Lib
