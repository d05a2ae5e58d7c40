import SpiderMonkey.Ion.Bce
import SpiderMonkey.Ion.InductionVariableSoundness

/-! # Eliminated bounds checks

A check that is eliminated through the range of the variable cannot fail: the
bounds are at least `0` and `-1`, so a sum that leaves the int32 values only ever
turns negative and rejects, and the unsigned comparison sees every other sum as it
is. A plain check is eliminated through the upper bound alone, and that is enough
exactly when there is a lower bound too.
-/

namespace SpiderMonkey.Ion

open SpiderMonkey.Lib

/-! ## The int32 sums -/

/-- A lower bound whose int32 sum with an offset is accepted. -/
lemma lower_sum_nonneg {lower offset i : Int32} (hlower : 0 ≤ lower.toInt)
    (hsum : 0 ≤ lower + offset) (hi : lower.toInt ≤ i.toInt) : 0 ≤ i.toInt + offset.toInt := by
  have hwrap : 0 ≤ (lower + offset).toInt := Int32.le_iff_toInt_le.mp hsum
  have hoffset := isInt32_toInt offset
  have hlow := isInt32_toInt lower
  unfold IsInt32 int32Min int32Max at hoffset hlow
  rw [toInt_add] at hwrap
  unfold wrap32 at hwrap
  omega

/-- An upper bound whose int32 sum with an offset is accepted as unsigned. -/
lemma upper_sum_lt {upper offset i : Int32} {length : UInt32} (hupper : -1 ≤ upper.toInt)
    (hsum : (upper + offset).toUInt32 ≤ length) (hi : i.toInt < upper.toInt) :
    i.toInt + offset.toInt < length.toNat := by
  have hle : (upper + offset).toUInt32.toNat ≤ length.toNat := UInt32.le_iff_toNat_le.mp hsum
  have hunsigned := toUInt32_toNat (upper + offset)
  have hoffset := isInt32_toInt offset
  have hup := isInt32_toInt upper
  unfold IsInt32 int32Min int32Max at hoffset hup
  rw [toInt_add, wrap32_emod] at hunsigned
  omega

namespace MIRGraph

variable {G : MIRGraph} {heap : Heap} {iv : InductionVariable}

/-! ## The three kinds of check -/

/-- The first way to accept a plain check is never taken: the length would have to
be a constant and an initialized length at once. -/
lemma evaluateConstantLength_eq_false {length : DefId} {upper : Int32}
    (h : (G.definition length).op = .initializedLength) :
    G.evaluateConstantLength upper length = false := by
  simp [evaluateConstantLength, int32Constant?, MDefinition.constantInt32?,
    MDefinition.constantValue?, h]

/-- A plain check is accepted when the length read is not below the upper bound. -/
lemma eliminateBoundsCheck_eq_true {length : DefId}
    (h : G.eliminateBoundsCheck heap iv length = true) :
    ∃ upper initializedLength, iv.upperBound = some upper ∧
      G.constantLength? heap length = some initializedLength ∧
      upper.toUInt32 ≤ initializedLength := by
  unfold eliminateBoundsCheck at h
  split_ifs at h with hop
  split at h
  · rename_i upper hupper
    rw [evaluateConstantLength_eq_false hop, Bool.false_or] at h
    split at h
    · rename_i initializedLength hlength
      exact ⟨upper, initializedLength, hupper, hlength, by simpa using h⟩
    · simp at h
  · simp at h

lemma eliminateBoundsCheckRange_eq_true {length : DefId} {minimum maximum : Int32}
    (h : G.eliminateBoundsCheckRange heap iv length minimum maximum = true) :
    ∃ lower upper initializedLength, iv.lowerBound = some lower ∧ iv.upperBound = some upper ∧
      G.constantLength? heap length = some initializedLength ∧ 0 ≤ lower + minimum ∧
      (upper + maximum).toUInt32 ≤ initializedLength := by
  unfold eliminateBoundsCheckRange at h
  split at h
  · rename_i lower upper initializedLength hlower hupper hlength
    rw [Bool.and_eq_true] at h
    exact ⟨lower, upper, initializedLength, hlower, hupper, hlength, by simpa using h.1,
      by simpa using h.2⟩
  · simp at h

lemma eliminateBoundsCheckLower_eq_true {minimum : Int32}
    (h : eliminateBoundsCheckLower iv minimum = true) :
    ∃ lower, iv.lowerBound = some lower ∧ minimum ≤ lower := by
  unfold eliminateBoundsCheckLower at h
  split at h
  · rename_i lower hlower
    exact ⟨lower, hlower, by simpa using h⟩
  · simp at h

/-- Without a lower bound every negative index below the upper bound is allowed. -/
lemma exists_negative_bounds (hlower : iv.lowerBound = none) :
    ∃ i : Int32, iv.Bounds i ∧ i.toInt < 0 := by
  refine ⟨-2, ⟨by simp [hlower], fun u hu => ?_⟩, by decide⟩
  have hge := iv.upper_ge u hu
  have hvalue : (-2 : Int32).toInt = -2 := by decide
  omega

/-! ## The checks the pass accepts -/

/-- The plain check of a variable without a lower bound: the side
`index + minimum >= 0` is not looked at. -/
def LowerSideUnchecked (G : MIRGraph) (iv : InductionVariable) (d : DefId) : Prop :=
  (G.definition d).op = .boundsCheck 0 0 ∧ iv.lowerBound = none

/-- What the pass accepts, by kind of check. -/
lemma tryElimination_eq_true {d : DefId} (h : G.tryElimination heap iv d = true) :
    (∃ length, (G.definition d).op = .boundsCheck 0 0 ∧ G.operand? d 1 = some length ∧
      G.eliminateBoundsCheck heap iv length = true) ∨
    (∃ length minimum maximum, (G.definition d).op = .boundsCheck minimum maximum ∧
      ¬(minimum = 0 ∧ maximum = 0) ∧ G.operand? d 1 = some length ∧
      G.eliminateBoundsCheckRange heap iv length minimum maximum = true) ∨
    ∃ minimum, (G.definition d).op = .boundsCheckLower minimum ∧
      eliminateBoundsCheckLower iv minimum = true := by
  unfold tryElimination at h
  rw [Bool.and_eq_true] at h
  obtain ⟨-, h⟩ := h
  split at h
  · rename_i minimum maximum length hop hlength
    split_ifs at h with hzero
    · obtain ⟨rfl, rfl⟩ := hzero
      exact Or.inl ⟨length, hop, hlength, h⟩
    · exact Or.inr (Or.inl ⟨length, minimum, maximum, hop, hzero, hlength, h⟩)
  · rename_i minimum hop
    exact Or.inr (Or.inr ⟨minimum, hop, h⟩)
  · simp at h

/-- An accepted check passes for an index within the bounds if there is a lower
bound, or if the check is not plain. -/
lemma checksPass_of_bounds {d : DefId} (h : G.tryElimination heap iv d = true)
    (hsides : ¬ G.LowerSideUnchecked iv d) {i : Int32} (hi : iv.Bounds i) :
    G.ChecksPass heap d i := by
  rcases tryElimination_eq_true h with ⟨length, hop, hlength, helim⟩ |
    ⟨length, minimum, maximum, hop, -, hlength, helim⟩ | ⟨minimum, hop, helim⟩
  · obtain ⟨upper, initializedLength, hupper, hread, hle⟩ := eliminateBoundsCheck_eq_true helim
    cases hlower : iv.lowerBound with
    | none => exact absurd ⟨hop, hlower⟩ hsides
    | some lower =>
      have hnonneg := iv.lower_nonneg lower hlower
      have hli := hi.1 lower hlower
      simp only [ChecksPass, hop, hlength, hread, Option.some.injEq]
      refine ⟨by rw [Int32.toInt_zero]; omega, ?_⟩
      rintro _ rfl
      exact upper_sum_lt (iv.upper_ge upper hupper) (by simpa using hle) (hi.2 upper hupper)
  · obtain ⟨lower, upper, initializedLength, hlower, hupper, hread, hmin, hmax⟩ :=
      eliminateBoundsCheckRange_eq_true helim
    simp only [ChecksPass, hop, hlength, hread, Option.some.injEq]
    refine ⟨lower_sum_nonneg (iv.lower_nonneg lower hlower) hmin (hi.1 lower hlower), ?_⟩
    rintro _ rfl
    exact upper_sum_lt (iv.upper_ge upper hupper) hmax (hi.2 upper hupper)
  · obtain ⟨lower, hlower, hle⟩ := eliminateBoundsCheckLower_eq_true helim
    simp only [ChecksPass, hop]
    exact le_trans (Int32.le_iff_toInt_le.mp hle) (hi.1 lower hlower)

/-- An accepted check passes for every index within the bounds, in exact integers,
unless it is a plain check of a variable without a lower bound. -/
theorem tryElimination_sound_iff {d : DefId} (h : G.tryElimination heap iv d = true) :
    (∀ i, iv.Bounds i → G.ChecksPass heap d i) ↔ ¬ G.LowerSideUnchecked iv d := by
  constructor
  · rintro hall ⟨hop, hlower⟩
    obtain ⟨i, hi, hneg⟩ := exists_negative_bounds hlower
    rcases tryElimination_eq_true h with ⟨length, -, hlength, -⟩ | ⟨_, _, _, hop', hzero, -, -⟩ |
      ⟨_, hop', -⟩
    · have hpass := hall i hi
      simp only [ChecksPass, hop, hlength, Int32.toInt_zero] at hpass
      omega
    · rw [hop, Opcode.boundsCheck.injEq] at hop'
      exact hzero ⟨hop'.1.symm, hop'.2.symm⟩
    · rw [hop] at hop'
      simp at hop'
  · exact fun hsides i hi => checksPass_of_bounds h hsides hi

/-! ## A loop over an array -/

/-- `for (i = init; i < 4; i++) a[i]`, for a constant array `a`. -/
def arrayLoop (init : Opcode) : MIRGraph where
  blocks := [0, 1, 2, 3]
  entryBlock := 0
  osrBlock := none
  block
    | 0 => ⟨.normal, [], [0, 1, 5, 6], .goto 1, [], 0, 0, 3⟩
    | 1 => ⟨.loopHeader, [2], [3], .test 3 2 3, [0, 2], 0, 1, 2⟩
    | 2 => ⟨.normal, [], [7, 8, 9, 4], .goto 1, [1], 1, 2, 0⟩
    | 3 => ⟨.normal, [], [], .other [] false [], [1], 1, 3, 0⟩
    | _ => ⟨.normal, [], [], .other [] false [], [], 0, 4, 0⟩
  definition
    | 0 => ⟨init, [], 0, .int32⟩
    | 1 => ⟨.constant (.int32 1), [], 0, .int32⟩
    | 2 => ⟨.phi, [0, 4], 1, .int32⟩
    | 3 => ⟨.compare .lt .int32, [2, 5], 1, .boolean⟩
    | 4 => ⟨.arith .add .int32 false, [2, 1], 2, .int32⟩
    | 5 => ⟨.constant (.int32 4), [], 0, .int32⟩
    | 6 => ⟨.constant (.object 0), [], 0, .object⟩
    | 7 => ⟨.elements, [6], 2, .elements⟩
    | 8 => ⟨.initializedLength, [7], 2, .int32⟩
    | 9 => ⟨.boundsCheck 0 0, [2, 8], 2, .int32⟩
    | _ => ⟨.other false, [], 0, .value⟩

/-- A heap of dense arrays with four elements. -/
def fourElements : Heap := fun _ => ⟨true, 4⟩

/-- The check of `for (i = 0; i < 4; i++) a[i]` passes for every `i` in `[0, 4)`. -/
theorem tryElimination_sound_iff_arrayLoop :
    ∃ iv, (arrayLoop (.constant (.int32 0))).extractPattern false 1 = some iv ∧
      iv.lowerBound = some 0 ∧ iv.upperBound = some 4 ∧
      ∀ i, iv.Bounds i → (arrayLoop (.constant (.int32 0))).ChecksPass fourElements 9 i := by
  have hfields : ((arrayLoop (.constant (.int32 0))).extractPattern false 1).map (fun iv =>
      (iv.lowerBound, iv.upperBound,
        (arrayLoop (.constant (.int32 0))).tryElimination fourElements iv 9)) =
      some (some 0, some 4, true) := by decide
  obtain ⟨iv, hiv, hfields⟩ := Option.map_eq_some_iff.mp hfields
  obtain ⟨hlower, hupper, htry⟩ : iv.lowerBound = some 0 ∧ iv.upperBound = some 4 ∧
    (arrayLoop (.constant (.int32 0))).tryElimination fourElements iv 9 = true := by
      simpa using hfields
  refine ⟨iv, hiv, hlower, hupper, (tryElimination_sound_iff htry).mpr ?_⟩
  rintro ⟨-, hnone⟩
  simp [hlower] at hnone

/-- When the initial value is not a constant, the check is eliminated for `i = -2`
too. -/
theorem tryElimination_fails_arrayLoop :
    ¬ ∀ (G : MIRGraph) (heap : Heap) (uninit : Bool) (header : BlockId) (iv : InductionVariable)
      (d : DefId), G.extractPattern uninit header = some iv →
      G.tryElimination heap iv d = true → ∀ i, iv.Bounds i → G.ChecksPass heap d i := by
  intro h
  have hfields : ((arrayLoop (.other false)).extractPattern false 1).map (fun iv =>
      (iv.lowerBound, iv.upperBound,
        (arrayLoop (.other false)).tryElimination fourElements iv 9)) =
      some (none, some 4, true) := by decide
  obtain ⟨iv, hiv, hfields⟩ := Option.map_eq_some_iff.mp hfields
  obtain ⟨hlower, hupper, htry⟩ : iv.lowerBound = none ∧ iv.upperBound = some 4 ∧
    (arrayLoop (.other false)).tryElimination fourElements iv 9 = true := by simpa using hfields
  have hbounds : iv.Bounds (-2) := by
    refine ⟨by simp [hlower], fun u hu => ?_⟩
    obtain rfl : 4 = u := by simpa [hupper] using hu
    decide
  have hpass := h _ fourElements false 1 iv 9 hiv htry (-2) hbounds
  exact absurd hpass.1 (by decide)

/-! ## Checks eliminated in a run -/

end MIRGraph
end SpiderMonkey.Ion
