import SpiderMonkey.Lib.Int32
import SpiderMonkey.Ion.Types

/-! # Value ranges and their transfer functions

`Range` is the class of `RangeAnalysis.h`: two int32 end points, each with a
flag that says the value may have overflowed in that direction. Every operation
reads the end points only, so the ranges of the operands are clamped to int32.

The constructor `Range(l, h)` calls `setLower` and `setUpper`, and each of them
has a branch that leaves its flag as it was. The constructor initialises neither
flag, so the flags of the memory the object is built in are a parameter
(`uninit`) of everything that constructs a range.
-/

namespace SpiderMonkey.Ion

open SpiderMonkey.Lib

/-- `class Range`. -/
structure Range where
  lower : Int
  lowerInfinite : Bool
  upper : Int
  upperInfinite : Bool
deriving DecidableEq, Repr

namespace Range

/-- `Range::Range()`. -/
def unbounded : Range := ⟨int32Min, true, int32Max, true⟩

def makeLowerInfinite (r : Range) : Range :=
  { r with lowerInfinite := true, lower := int32Min }

def makeUpperInfinite (r : Range) : Range :=
  { r with upperInfinite := true, upper := int32Max }

def makeRangeInfinite (r : Range) : Range := r.makeLowerInfinite.makeUpperInfinite

def isFinite (r : Range) : Bool := !r.lowerInfinite && !r.upperInfinite

/-- `setLower`. The first branch does not touch the flag. -/
def setLower (r : Range) (x : Int) : Range :=
  if x > int32Max then { r with lower := int32Max }
  else if x < int32Min then r.makeLowerInfinite
  else { r with lower := x, lowerInfinite := false }

/-- `setUpper`. The second branch does not touch the flag. -/
def setUpper (r : Range) (x : Int) : Range :=
  if x > int32Max then r.makeUpperInfinite
  else if x < int32Min then { r with upper := int32Min }
  else { r with upper := x, upperInfinite := false }

/-- `Range(int64_t l, int64_t h)`, built in memory that held `uninit`. -/
def ofBounds (uninit : Range) (l h : Int) : Range := (uninit.setLower l).setUpper h

/-- `Range::update`: the new contents and whether they differ from the old. -/
def update (r other : Range) : Range × Bool :=
  let changed := decide (r ≠ other)
  (if changed then other else r, changed)

/-- `Range::intersect`. -/
def intersect (uninit lhs rhs : Range) : Range :=
  let r := ofBounds uninit (max lhs.lower rhs.lower) (min lhs.upper rhs.upper)
  let r := { r with
    lowerInfinite := lhs.lowerInfinite && rhs.lowerInfinite
    upperInfinite := lhs.upperInfinite && rhs.upperInfinite }
  if r.upper < r.lower then r.makeRangeInfinite else r

/-- `Range::unionWith`, an in-place modification. -/
def unionWith (r other : Range) : Range :=
  let r := (r.setLower (min r.lower other.lower)).setUpper (max r.upper other.upper)
  { r with
    lowerInfinite := r.lowerInfinite || other.lowerInfinite
    upperInfinite := r.upperInfinite || other.upperInfinite }

/-- `Range::add`. -/
def add (uninit lhs rhs : Range) : Range :=
  ofBounds uninit (lhs.lower + rhs.lower) (lhs.upper + rhs.upper)

/-- `Range::sub`. -/
def sub (uninit lhs rhs : Range) : Range :=
  ofBounds uninit (lhs.lower - rhs.upper) (lhs.upper - rhs.lower)

/-- `Range::mul`. -/
def mul (uninit lhs rhs : Range) : Range :=
  let a := lhs.lower * rhs.lower
  let b := lhs.lower * rhs.upper
  let c := lhs.upper * rhs.lower
  let d := lhs.upper * rhs.upper
  ofBounds uninit (min (min a b) (min c d)) (max (max a b) (max c d))

/-- `c & 0x1f`, the shift amount of an int32 shift. -/
def shiftAmount (c : Int) : Nat := (c % 32).toNat

/-- `Range::shl`. -/
def shl (uninit lhs : Range) (c : Int) : Range :=
  let shift := shiftAmount c
  ofBounds uninit (lhs.lower * 2 ^ shift) (lhs.upper * 2 ^ shift)

/-- `Range::shr`. -/
def shr (uninit lhs : Range) (c : Int) : Range :=
  let shift := shiftAmount c
  ofBounds uninit (lhs.lower / 2 ^ shift) (lhs.upper / 2 ^ shift)

/-- The invariants stated in the header, with the assertion `lower <= upper`
that `analyze` makes of every range it stores. -/
structure Valid (r : Range) : Prop where
  lower_isInt32 : IsInt32 r.lower
  upper_isInt32 : IsInt32 r.upper
  lower_le_upper : r.lower ≤ r.upper
  lower_infinite : r.lowerInfinite → r.lower = int32Min
  upper_infinite : r.upperInfinite → r.upper = int32Max

instance (r : Range) : Decidable r.Valid :=
  decidable_of_iff
    (IsInt32 r.lower ∧ IsInt32 r.upper ∧ r.lower ≤ r.upper ∧
      (r.lowerInfinite → r.lower = int32Min) ∧ (r.upperInfinite → r.upper = int32Max))
    ⟨fun ⟨h₁, h₂, h₃, h₄, h₅⟩ => ⟨h₁, h₂, h₃, h₄, h₅⟩,
      fun h => ⟨h.1, h.2, h.3, h.4, h.5⟩⟩

/-- The int32 values a range allows (its flags ignored). -/
def Contains (r : Range) (x : Int) : Prop := r.lower ≤ x ∧ x ≤ r.upper

instance (r : Range) (x : Int) : Decidable (r.Contains x) := inferInstanceAs (Decidable (_ ∧ _))

lemma Valid.isInt32_of_contains {r : Range} (hr : r.Valid) {x : Int} (hx : r.Contains x) :
    IsInt32 x :=
  ⟨le_trans hr.lower_isInt32.1 hx.1, le_trans hx.2 hr.upper_isInt32.2⟩

/-! ## End points and flags of a constructed range -/

/-- Clamping to the int32 range. -/
def clamp32 (x : Int) : Int := max int32Min (min int32Max x)

@[simp] lemma setLower_lower (r : Range) (x : Int) : (r.setLower x).lower = clamp32 x := by
  unfold setLower makeLowerInfinite clamp32 int32Min int32Max
  split_ifs <;> simp only <;> omega

@[simp] lemma setUpper_upper (r : Range) (x : Int) : (r.setUpper x).upper = clamp32 x := by
  unfold setUpper makeUpperInfinite clamp32 int32Min int32Max
  split_ifs <;> simp only <;> omega

@[simp] lemma setUpper_lower (r : Range) (x : Int) : (r.setUpper x).lower = r.lower := by
  unfold setUpper makeUpperInfinite
  split_ifs <;> rfl

@[simp] lemma setUpper_lowerInfinite (r : Range) (x : Int) :
    (r.setUpper x).lowerInfinite = r.lowerInfinite := by
  unfold setUpper makeUpperInfinite
  split_ifs <;> rfl

@[simp] lemma ofBounds_lower (uninit : Range) (l h : Int) :
    (ofBounds uninit l h).lower = clamp32 l := by
  simp [ofBounds]

@[simp] lemma ofBounds_upper (uninit : Range) (l h : Int) :
    (ofBounds uninit l h).upper = clamp32 h := by
  simp [ofBounds]

/-- A lower flag left clear by `setLower` puts the bound above the minimum. -/
lemma le_of_not_setLower_infinite {r : Range} {x : Int}
    (h : (r.setLower x).lowerInfinite = false) : int32Min ≤ x := by
  by_contra hx
  have hlt : x < int32Min := not_le.mp hx
  have hngt : ¬ x > int32Max := by unfold int32Max int32Min at *; omega
  simp [setLower, makeLowerInfinite, hngt, hlt] at h

lemma le_of_not_setUpper_infinite {r : Range} {x : Int}
    (h : (r.setUpper x).upperInfinite = false) : x ≤ int32Max := by
  by_contra hx
  have hgt : x > int32Max := not_le.mp hx
  simp [setUpper, makeUpperInfinite, hgt] at h

/-- A finite constructed range had both bounds on the right side of the limits,
whatever the flags held before. -/
lemma bounds_of_ofBounds_isFinite {uninit : Range} {l h : Int}
    (hfin : (ofBounds uninit l h).isFinite = true) : int32Min ≤ l ∧ h ≤ int32Max := by
  simp only [isFinite, ofBounds, Bool.and_eq_true, Bool.not_eq_true',
    setUpper_lowerInfinite] at hfin
  exact ⟨le_of_not_setLower_infinite hfin.1, le_of_not_setUpper_infinite hfin.2⟩

/-- An int32 between the exact bounds is between the clamped ones. -/
lemma contains_ofBounds {uninit : Range} {l h x : Int} (hx : IsInt32 x) (hl : l ≤ x)
    (hh : x ≤ h) : (ofBounds uninit l h).Contains x := by
  unfold IsInt32 at hx
  simp only [Contains, ofBounds_lower, ofBounds_upper, clamp32, int32Min, int32Max] at *
  omega

@[simp] lemma update_fst (r other : Range) : (r.update other).1 = other := by
  unfold update
  by_cases h : r = other <;> simp [h]

end Range

end SpiderMonkey.Ion
