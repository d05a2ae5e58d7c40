import SpiderMonkey.Ion.RangeAnalysis

/-! # Soundness of `recomputeRange`

An instruction of `MIR.h` that computes a range is one constructor of
`RangeIns`, over the ranges of its operands. `Exact` is the integer it denotes
on given operand values and `Produces` the int32 it leaves when it does not bail
out. `TransferSound` says that the computed range describes every value
produced and that a finite range rules out overflow.

The two passes that make an instruction wrap (an int32 left shift, and an
addition or subtraction marked as truncated) meet an end point rule that assumes
a bailout on overflow, and `MMod` looks at the wrong operand. `WrapSafe` and
`maxAbs` are the exact conditions on the operand ranges under which these three
are sound all the same.
-/

namespace SpiderMonkey.Ion

open SpiderMonkey.Lib Option

/-- `Range::abs64`. -/
def abs64 (x : Int) : Int := if x < 0 then -x else x

/-- The instructions with a `recomputeRange`, over their operands. A shift by a
non-constant amount carries `none`. -/
inductive RangeIns (α : Type) where
  | add (specialization : MIRType) (implicitTruncate : Bool) (lhs rhs : α)
  | sub (specialization : MIRType) (implicitTruncate : Bool) (lhs rhs : α)
  | mul (specialization : MIRType) (lhs rhs : α)
  | mod (specialization : MIRType) (lhs rhs : α)
  | abs (specialization : MIRType) (num : α)
  | lsh (lhs : α) (rhs : Option Int)
  | rsh (lhs : α) (rhs : Option Int)
  | phi (type : MIRType) (input : α) (inputs : List α)
  | beta (val : α) (comparison : Range)

namespace RangeIns

variable {α : Type}

/-- The operands whose ranges or values matter, in order. -/
def operands : RangeIns α → List α
  | add _ _ lhs rhs => [lhs, rhs]
  | sub _ _ lhs rhs => [lhs, rhs]
  | mul _ lhs rhs => [lhs, rhs]
  | mod _ lhs rhs => [lhs, rhs]
  | abs _ num => [num]
  | lsh lhs _ => [lhs]
  | rsh lhs _ => [lhs]
  | phi _ input inputs => input :: inputs
  | beta val _ => [val]

/-- The range each `recomputeRange` passes to `update`; `none` where it returns
before computing one. -/
def computedRange (uninit : Range) : RangeIns Range → Option Range
  | add specialization _ left right =>
      if specialization = .int32 then some (Range.add uninit left right) else none
  | sub specialization _ left right =>
      if specialization = .int32 then some (Range.sub uninit left right) else none
  | mul specialization left right =>
      if specialization = .int32 then some (Range.mul uninit left right) else none
  | mod specialization other _ =>
      -- `getOperand(0)`: the dividend, although the divisor bounds a remainder
      let a := abs64 other.lower
      let b := abs64 other.upper
      if specialization = .int32 then
        some (Range.ofBounds uninit (min (-a + 1) (-b + 1)) (max (a - 1) (b - 1)))
      else none
  | abs specialization other =>
      if specialization = .int32 then
        some (Range.ofBounds uninit 0 (max (abs64 other.lower) (abs64 other.upper)))
      else none
  | lsh other right => right.map (Range.shl uninit other)
  | rsh other right => right.map (Range.shr uninit other)
  | phi type input inputs =>
      if type = .int32 then
        some ((input :: inputs).foldl Range.unionWith (Range.unbounded.update input).1)
      else none
  | beta val comparison => some (Range.intersect uninit val comparison)

/-- `recomputeRange`: the range of the instruction afterwards and whether it
changed. -/
def recomputeRange (uninit self : Range) (i : RangeIns Range) : Range × Bool :=
  match i.computedRange uninit with
  | none => (self, false)
  | some r => self.update r

/-- The exact integer the instruction denotes on int32 operand values. A
remainder by zero and a remainder of minus zero are not integers and bail out. -/
def Exact : RangeIns α → List Int → Int → Prop
  | add _ _ _ _, [x, y], v => v = x + y
  | sub _ _ _ _, [x, y], v => v = x - y
  | mul _ _ _, [x, y], v => v = x * y
  | mod _ _ _, [x, y], v => y ≠ 0 ∧ v = x.tmod y ∧ ¬ (x < 0 ∧ v = 0)
  | abs _ _, [x], v => v = abs64 x
  | lsh _ (some c), [x], v => v = x * 2 ^ Range.shiftAmount c
  | rsh _ (some c), [x], v => v = x / 2 ^ Range.shiftAmount c
  | phi _ _ _, xs, v => v ∈ xs
  | beta _ comparison, [x], v => v = x ∧ comparison.Contains x
  | _, _, _ => False

/-- Whether the machine instruction reduces its result modulo `2 ^ 32` instead
of bailing out on overflow. -/
def wraps : RangeIns α → Bool
  | add _ implicitTruncate _ _ => implicitTruncate
  | sub _ implicitTruncate _ _ => implicitTruncate
  | lsh _ _ => true
  | _ => false

/-- `v` is the int32 the instruction leaves when it does not bail out. -/
def Produces (i : RangeIns α) (xs : List Int) (v : Int) : Prop :=
  ∃ e, i.Exact xs e ∧ if i.wraps then v = wrap32 e else v = e ∧ IsInt32 e

/-- The computed range holds every value produced, and if it is finite no exact
result leaves int32 (so the overflow check may be dropped). -/
def TransferSound (uninit : Range) (i : RangeIns Range) : Prop :=
  ∀ r, i.computedRange uninit = some r →
    ∀ xs, List.Forall₂ Range.Contains i.operands xs →
      (∀ v, i.Produces xs v → r.Contains v) ∧
        (r.isFinite = true → ∀ e, i.Exact xs e → IsInt32 e)

/-- The ranges the instruction reads are valid. -/
def OperandsValid (i : RangeIns Range) : Prop := ∀ r ∈ i.operands, r.Valid

/-! ## Instructions that bail out on overflow -/

/-- Exact bounds on the exact result are enough when nothing wraps. -/
lemma transferSound_of_bounds {uninit : Range} {i : RangeIns Range} {l h : Int}
    (hrange : ∀ r, i.computedRange uninit = some r → r = Range.ofBounds uninit l h)
    (hwraps : i.wraps = false)
    (hbounds : ∀ xs, List.Forall₂ Range.Contains i.operands xs →
      ∀ e, i.Exact xs e → l ≤ e ∧ e ≤ h) :
    TransferSound uninit i := by
  intro r hr xs hxs
  obtain rfl := hrange r hr
  constructor
  · rintro v ⟨e, he, hv⟩
    rw [if_neg (by simp [hwraps])] at hv
    obtain ⟨rfl, hint⟩ := hv
    obtain ⟨hl, hh⟩ := hbounds xs hxs v he
    exact Range.contains_ofBounds hint hl hh
  · intro hfin e he
    obtain ⟨hl, hh⟩ := hbounds xs hxs e he
    obtain ⟨hlo, hhi⟩ := Range.bounds_of_ofBounds_isFinite hfin
    exact ⟨le_trans hlo hl, le_trans hh hhi⟩

/-- A product with one factor between two numbers lies between the products at
the ends. -/
lemma mul_between {a b x : Int} (ha : a ≤ x) (hb : x ≤ b) (y : Int) :
    min (a * y) (b * y) ≤ x * y ∧ x * y ≤ max (a * y) (b * y) := by
  rcases le_total 0 y with hy | hy
  · exact ⟨min_le_of_left_le (mul_le_mul_of_nonneg_right ha hy),
      le_max_of_le_right (mul_le_mul_of_nonneg_right hb hy)⟩
  · exact ⟨min_le_of_right_le (mul_le_mul_of_nonpos_right hb hy),
      le_max_of_le_left (mul_le_mul_of_nonpos_right ha hy)⟩

/-- The four corner products bound every product. -/
lemma mul_corners {a b c d x y : Int} (hx : a ≤ x ∧ x ≤ b) (hy : c ≤ y ∧ y ≤ d) :
    min (min (a * c) (a * d)) (min (b * c) (b * d)) ≤ x * y ∧
      x * y ≤ max (max (a * c) (a * d)) (max (b * c) (b * d)) := by
  have hxy := mul_between hx.1 hx.2 y
  have hay := mul_between hy.1 hy.2 a
  have hby := mul_between hy.1 hy.2 b
  rw [mul_comm c a, mul_comm d a, mul_comm y a] at hay
  rw [mul_comm c b, mul_comm d b, mul_comm y b] at hby
  omega

lemma add_sound (uninit : Range) (s : MIRType) (l r : Range) :
    TransferSound uninit (.add s false l r) := by
  refine transferSound_of_bounds (l := l.lower + r.lower) (h := l.upper + r.upper) ?_ rfl ?_
  · intro q hq
    simp only [computedRange, ite_none_right_eq_some, some.injEq] at hq
    exact hq.2.symm
  · rintro _ (_ | ⟨hx, _ | ⟨hy, _ | _⟩⟩) e rfl
    unfold Range.Contains at hx hy
    omega

lemma sub_sound (uninit : Range) (s : MIRType) (l r : Range) :
    TransferSound uninit (.sub s false l r) := by
  refine transferSound_of_bounds (l := l.lower - r.upper) (h := l.upper - r.lower) ?_ rfl ?_
  · intro q hq
    simp only [computedRange, ite_none_right_eq_some, some.injEq] at hq
    exact hq.2.symm
  · rintro _ (_ | ⟨hx, _ | ⟨hy, _ | _⟩⟩) e rfl
    unfold Range.Contains at hx hy
    omega

lemma mul_sound (uninit : Range) (s : MIRType) (l r : Range) :
    TransferSound uninit (.mul s l r) := by
  refine transferSound_of_bounds ?_ rfl ?_ (l := min (min (l.lower * r.lower) (l.lower * r.upper))
    (min (l.upper * r.lower) (l.upper * r.upper))) (h := max (max (l.lower * r.lower)
    (l.lower * r.upper)) (max (l.upper * r.lower) (l.upper * r.upper)))
  · intro q hq
    simp only [computedRange, ite_none_right_eq_some, some.injEq] at hq
    exact hq.2.symm
  · rintro _ (_ | ⟨hx, _ | ⟨hy, _ | _⟩⟩) e rfl
    exact mul_corners hx hy

lemma abs_sound (uninit : Range) (s : MIRType) (r : Range) :
    TransferSound uninit (.abs s r) := by
  refine transferSound_of_bounds (l := 0) (h := max (abs64 r.lower) (abs64 r.upper)) ?_ rfl ?_
  · intro q hq
    simp only [computedRange, ite_none_right_eq_some, some.injEq] at hq
    exact hq.2.symm
  · rintro _ (_ | ⟨hx, _ | _⟩) e rfl
    unfold Range.Contains at hx
    unfold abs64
    split_ifs <;> omega

lemma rsh_sound (uninit : Range) (r : Range) (c : Option Int) :
    TransferSound uninit (.rsh r c) := by
  cases c with
  | none =>
    intro q hq
    simp [computedRange] at hq
  | some c =>
    refine transferSound_of_bounds (l := r.lower / 2 ^ Range.shiftAmount c)
      (h := r.upper / 2 ^ Range.shiftAmount c) ?_ rfl ?_
    · intro q hq
      simp only [computedRange, map_some, some.injEq] at hq
      exact hq.symm
    · rintro _ (_ | ⟨hx, _ | _⟩) e rfl
      have hpos := two_pow_pos (Range.shiftAmount c)
      exact ⟨Int.ediv_le_ediv hpos hx.1, Int.ediv_le_ediv hpos hx.2⟩

/-! ## Joins and branch facts -/

/-- A union contains what either side contains. -/
lemma contains_unionWith {r other : Range} (hr : r.Valid) (ho : other.Valid) {x : Int}
    (hx : r.Contains x ∨ other.Contains x) : (r.unionWith other).Contains x := by
  have hr₁ := hr.lower_isInt32
  have hr₂ := hr.upper_isInt32
  have ho₁ := ho.lower_isInt32
  have ho₂ := ho.upper_isInt32
  simp only [Range.unionWith, Range.Contains, Range.setUpper_lower, Range.setLower_lower,
    Range.setUpper_upper, Range.clamp32, IsInt32, int32Min, int32Max] at *
  omega

/-- The union of two valid ranges is valid: the end points stay int32, and only
an end point of the other side can set a flag. -/
lemma valid_unionWith {r other : Range} (hr : r.Valid) (ho : other.Valid) :
    (r.unionWith other).Valid := by
  obtain ⟨hr₁, hr₂, hr₃, hr₄, hr₅⟩ := hr
  obtain ⟨ho₁, ho₂, ho₃, ho₄, ho₅⟩ := ho
  have hmin : ¬ min r.lower other.lower > int32Max ∧ ¬ min r.lower other.lower < int32Min := by
    unfold IsInt32 at *
    omega
  have hmax : ¬ max r.upper other.upper > int32Max ∧ ¬ max r.upper other.upper < int32Min := by
    unfold IsInt32 at *
    omega
  simp only [Range.unionWith, Range.setLower, Range.setUpper, hmin, hmax, if_false]
  refine ⟨?_, ?_, ?_, ?_, ?_⟩
  · simp only [IsInt32] at *
    omega
  · simp only [IsInt32] at *
    omega
  · simp only
    omega
  · intro h
    have hlow := ho₄ (by simpa using h)
    simp only [IsInt32] at *
    omega
  · intro h
    have hhigh := ho₅ (by simpa using h)
    simp only [IsInt32] at *
    omega

/-- Folding `unionWith` over the inputs keeps what the accumulator contained and
adds what each input contains. -/
lemma contains_foldl_unionWith {rs : List Range} (hrs : ∀ r ∈ rs, r.Valid) :
    ∀ {acc : Range}, acc.Valid → ∀ {x : Int},
      (acc.Contains x ∨ ∃ r ∈ rs, r.Contains x) →
      (rs.foldl Range.unionWith acc).Valid ∧ (rs.foldl Range.unionWith acc).Contains x := by
  induction rs with
  | nil =>
    rintro acc hacc x (hx | ⟨r, hr, _⟩)
    · exact ⟨hacc, hx⟩
    · simp at hr
  | cons r rs ih =>
    intro acc hacc x hx
    have hr : r.Valid := hrs r (by simp)
    refine ih (fun q hq => hrs q (by simp [hq])) (valid_unionWith hacc hr) ?_
    rcases hx with hx | ⟨q, hq, hx⟩
    · exact Or.inl (contains_unionWith hacc hr (Or.inl hx))
    · rcases List.mem_cons.mp hq with rfl | hq
      · exact Or.inl (contains_unionWith hacc hr (Or.inr hx))
      · exact Or.inr ⟨q, hq, hx⟩

/-- Every value lies in the range paired with it. -/
lemma exists_range_of_mem {rs : List Range} {xs : List Int}
    (h : List.Forall₂ Range.Contains rs xs) {x : Int} (hx : x ∈ xs) :
    ∃ r ∈ rs, r.Contains x := by
  induction h with
  | nil => simp at hx
  | cons hr _ ih =>
    rcases List.mem_cons.mp hx with rfl | hx
    · exact ⟨_, by simp, hr⟩
    · obtain ⟨r, hmem, hc⟩ := ih hx
      exact ⟨r, by simp [hmem], hc⟩

lemma phi_sound {uninit : Range} {type : MIRType} {input : Range} {inputs : List Range}
    (hvalid : OperandsValid (.phi type input inputs)) :
    TransferSound uninit (.phi type input inputs) := by
  intro r hr xs hxs
  simp only [computedRange, ite_none_right_eq_some, some.injEq,
    Range.update_fst] at hr
  obtain ⟨-, rfl⟩ := hr
  have hin : input.Valid := hvalid input (by simp [operands])
  have hmem : ∀ v ∈ xs, IsInt32 v ∧
      ((input :: inputs).foldl Range.unionWith input).Contains v := by
    intro v hv
    obtain ⟨q, hq, hc⟩ := exists_range_of_mem hxs hv
    exact ⟨(hvalid q hq).isInt32_of_contains hc,
      (contains_foldl_unionWith hvalid hin (Or.inr ⟨q, hq, hc⟩)).2⟩
  constructor
  · rintro v ⟨e, he, hv⟩
    obtain ⟨rfl, -⟩ : v = e ∧ IsInt32 e := by simpa [wraps] using hv
    exact (hmem v he).2
  · intro _ e he
    exact (hmem e he).1

/-- An intersection contains what both sides contain; conflicting sides give the
unbounded range. -/
lemma contains_intersect {uninit l r : Range} {x : Int} (hx : IsInt32 x)
    (hl : l.Contains x) (hr : r.Contains x) : (Range.intersect uninit l r).Contains x := by
  have hof : (Range.ofBounds uninit (max l.lower r.lower) (min l.upper r.upper)).Contains x := by
    unfold Range.Contains at hl hr
    exact Range.contains_ofBounds hx (by omega) (by omega)
  unfold Range.intersect
  simp only
  split_ifs
  · simpa [Range.Contains, Range.makeRangeInfinite, Range.makeLowerInfinite,
      Range.makeUpperInfinite, IsInt32] using hx
  · exact hof

lemma beta_sound {uninit val comparison : Range}
    (hvalid : OperandsValid (.beta val comparison)) :
    TransferSound uninit (.beta val comparison) := by
  intro r hr xs hxs
  simp only [computedRange, some.injEq] at hr
  subst hr
  have hval : val.Valid := hvalid val (by simp [operands])
  obtain _ | ⟨hx, _ | _⟩ := hxs
  have hint := hval.isInt32_of_contains hx
  constructor
  · rintro v ⟨e, ⟨rfl, hc⟩, hv⟩
    obtain ⟨rfl, -⟩ : v = e ∧ IsInt32 e := by simpa [wraps] using hv
    exact contains_intersect hint hx hc
  · rintro - e ⟨rfl, -⟩
    exact hint

/-! ## Instructions that wrap

The exact results of a wrapping instruction are the multiples of `2 ^ k` between
two multiples `l` and `h` (`k = 0` for a truncated sum). -/

/-- No exact result between `l` and `h` wraps, or the clamped range already holds
every int32 multiple of `step`. -/
def WrapSafe (l h step : Int) : Prop :=
  (int32Min ≤ l ∧ h ≤ int32Max) ∨ (l ≤ int32Min ∧ int32Max < h + step)

instance (l h step : Int) : Decidable (WrapSafe l h step) :=
  inferInstanceAs (Decidable (_ ∨ _))

/-- Distinct multiples of `s` are at least `s` apart. -/
lemma le_sub_of_dvd_of_lt {s x y : Int} (hx : s ∣ x) (hy : s ∣ y) (h : x < y) : x ≤ y - s := by
  have hle : s ≤ y - x := Int.le_of_dvd (by omega) (Int.dvd_sub hy hx)
  omega

lemma two_pow_dvd_int32Min {k : Nat} (hk : k < 32) : (2 : Int) ^ k ∣ int32Min := by
  refine ⟨-2 ^ (31 - k), ?_⟩
  have h := two_pow_mul_two_pow_sub hk
  linarith [mul_comm ((2 : Int) ^ (31 - k)) (2 ^ k)]

lemma two_pow_dvd_wrap32 {k : Nat} (hk : k < 32) {e : Int} (he : (2 : Int) ^ k ∣ e) :
    (2 : Int) ^ k ∣ wrap32 e := by
  obtain ⟨c, rfl⟩ := he
  rw [mul_comm]
  exact two_pow_dvd_wrap32_mul hk c

/-- Under `WrapSafe` the reduced result stays in the clamped range. -/
lemma contains_wrap32 {uninit : Range} {k : Nat} (hk : k < 32) {l h e : Int}
    (hh : (2 : Int) ^ k ∣ h) (he : (2 : Int) ^ k ∣ e) (hle : l ≤ e) (heh : e ≤ h)
    (hsafe : WrapSafe l h (2 ^ k)) : (Range.ofBounds uninit l h).Contains (wrap32 e) := by
  have hint := isInt32_wrap32 e
  rcases hsafe with ⟨hl, hu⟩ | ⟨hl, hu⟩
  · rw [wrap32_of_isInt32 ⟨le_trans hl hle, le_trans heh hu⟩]
    exact Range.contains_ofBounds ⟨le_trans hl hle, le_trans heh hu⟩ hle heh
  · refine Range.contains_ofBounds hint (le_trans hl hint.1) ?_
    by_contra hgt
    -- otherwise `h` and the reduced result are multiples less than a step apart
    have hgap := le_sub_of_dvd_of_lt hh (two_pow_dvd_wrap32 hk he) (not_le.mp hgt)
    have hmax := hint.2
    omega

/-- Without `WrapSafe` some exact result escapes, except where the range is one
value below int32 whose reduction happens to be `INT32_MIN`. -/
lemma exists_escape (uninit : Range) {k : Nat} (hk : k < 32) {l h : Int} (hlh : l ≤ h)
    (hl : (2 : Int) ^ k ∣ l) (hh : (2 : Int) ^ k ∣ h)
    (hsmall : k = 0 → h ≤ 4294967295) (hescapes : ¬ WrapSafe l h (2 ^ k))
    (hlucky : ¬ (l = h ∧ l < int32Min ∧ wrap32 l = int32Min)) :
    ∃ e, (2 : Int) ^ k ∣ e ∧ l ≤ e ∧ e ≤ h ∧
      ¬ (Range.ofBounds uninit l h).Contains (wrap32 e) := by
  have hpos := two_pow_pos k
  have hsize := two_pow_le hk
  have hmin := two_pow_dvd_int32Min hk
  simp only [WrapSafe, not_or, not_and_or, not_le, not_lt] at hescapes
  simp only [Range.Contains, Range.ofBounds_lower, Range.ofBounds_upper, Range.clamp32]
  obtain ⟨hout, hcover⟩ := hescapes
  by_cases hbelow : l < int32Min
  · have hroom : h + 2 ^ k ≤ int32Max := by
      rcases hcover with hc | hc
      · omega
      · exact hc
    by_cases hreach : int32Min - 2 ^ k ≤ h
    · -- the first multiple below the minimum comes back at the top
      refine ⟨int32Min - 2 ^ k, Int.dvd_sub hmin dvd_rfl, le_sub_of_dvd_of_lt hl hmin hbelow,
        hreach, ?_⟩
      unfold wrap32 int32Min int32Max at *
      omega
    · -- everything is far below: the range is the single value `INT32_MIN`
      by_cases hw : wrap32 h = int32Min
      · have hlt : l < h := by
          rcases lt_or_eq_of_le hlh with hlt | rfl
          · exact hlt
          · exact absurd ⟨rfl, hbelow, hw⟩ hlucky
        refine ⟨h - 2 ^ k, Int.dvd_sub hh dvd_rfl, le_sub_of_dvd_of_lt hl hh hlt, by omega, ?_⟩
        unfold wrap32 int32Min int32Max at *
        omega
      · have hint := isInt32_wrap32 h
        refine ⟨h, hh, hlh, le_rfl, ?_⟩
        unfold IsInt32 int32Min int32Max at *
        omega
  · have habove : int32Max < h := by
      rcases hout with ho | ho
      · exact absurd ho hbelow
      · exact ho
    have hlow : int32Min < l := by
      rcases hcover with hc | hc
      · exact hc
      · omega
    by_cases hreach : l ≤ -int32Min
    · -- `2 ^ 31` is a multiple in the range and comes back as the minimum
      refine ⟨-int32Min, (Int.dvd_neg).mpr hmin, hreach, by unfold int32Max int32Min at *; omega,
        ?_⟩
      unfold wrap32 int32Min int32Max at *
      omega
    · -- everything is far above: the range is the single value `INT32_MAX`
      have hne : wrap32 l ≠ int32Max := by
        intro heq
        rcases Nat.eq_zero_or_pos k with rfl | hk0
        · have hb := hsmall rfl
          unfold wrap32 int32Min int32Max at *
          omega
        · have hd := two_pow_dvd_wrap32 hk hl
          have h2 : (2 : Int) ∣ wrap32 l := (dvd_pow_self 2 (by omega)).trans hd
          unfold int32Max at heq
          omega
      have hint := isInt32_wrap32 l
      refine ⟨l, hl, le_rfl, hlh, ?_⟩
      unfold IsInt32 int32Min int32Max at *
      omega

/-- Soundness of a wrapping instruction with bounds `l` and `h`, given that its
exact results are the multiples of `2 ^ k` between them. -/
lemma transferSound_wraps_iff {uninit : Range} {i : RangeIns Range} {k : Nat} (hk : k < 32)
    {l h : Int} (hrange : i.computedRange uninit = some (Range.ofBounds uninit l h))
    (hwraps : i.wraps = true) (hlh : l ≤ h) (hl : (2 : Int) ^ k ∣ l) (hh : (2 : Int) ^ k ∣ h)
    (hsmall : k = 0 → h ≤ 4294967295)
    (hexact : ∀ e, (∃ xs, List.Forall₂ Range.Contains i.operands xs ∧ i.Exact xs e) ↔
      (2 : Int) ^ k ∣ e ∧ l ≤ e ∧ e ≤ h) :
    TransferSound uninit i ↔
      WrapSafe l h (2 ^ k) ∨ (l = h ∧ l < int32Min ∧ wrap32 l = int32Min) := by
  constructor
  · intro hsound
    by_contra hnot
    obtain ⟨hescapes, hlucky⟩ := not_or.mp hnot
    obtain ⟨e, hd, hle, heh, hescape⟩ := exists_escape uninit hk hlh hl hh hsmall hescapes hlucky
    obtain ⟨xs, hxs, he⟩ := (hexact e).mpr ⟨hd, hle, heh⟩
    exact hescape ((hsound _ hrange xs hxs).1 _ ⟨e, he, by simp [hwraps]⟩)
  · intro hcond r hr xs hxs
    obtain rfl : Range.ofBounds uninit l h = r := by simpa [hrange] using hr
    constructor
    · rintro v ⟨e, he, hv⟩
      obtain rfl : v = wrap32 e := by simpa [hwraps] using hv
      obtain ⟨hd, hle, heh⟩ := (hexact e).mp ⟨xs, hxs, he⟩
      rcases hcond with hsafe | ⟨rfl, hlt, hw⟩
      · exact contains_wrap32 hk hh hd hle heh hsafe
      · obtain rfl : e = l := le_antisymm heh hle
        rw [hw]
        simp only [Range.Contains, Range.ofBounds_lower, Range.ofBounds_upper, Range.clamp32]
        unfold int32Min int32Max at *
        omega
    · intro hfin e he
      obtain ⟨-, hle, heh⟩ := (hexact e).mp ⟨xs, hxs, he⟩
      obtain ⟨hlo, hhi⟩ := Range.bounds_of_ofBounds_isFinite hfin
      exact ⟨le_trans hlo hle, le_trans heh hhi⟩

/-- Every sum of the bounds' interval is the sum of two values of the ranges. -/
lemma exact_add_iff {s : MIRType} {l r : Range} (hl : l.Valid) (hr : r.Valid) (e : Int) :
    (∃ xs, List.Forall₂ Range.Contains (operands (.add s true l r)) xs ∧
        Exact (.add s true l r) xs e) ↔
      (2 : Int) ^ 0 ∣ e ∧ l.lower + r.lower ≤ e ∧ e ≤ l.upper + r.upper := by
  have hl₃ := hl.lower_le_upper
  have hr₃ := hr.lower_le_upper
  constructor
  · rintro ⟨_, _ | ⟨hx, _ | ⟨hy, _ | _⟩⟩, rfl⟩
    unfold Range.Contains at hx hy
    exact ⟨by simp, by omega, by omega⟩
  · rintro ⟨-, hle, heh⟩
    -- the left operand as large as the right one's lower end allows
    refine ⟨[min l.upper (e - r.lower), e - min l.upper (e - r.lower)], ?_, ?_⟩
    · refine .cons ?_ (.cons ?_ .nil) <;> unfold Range.Contains <;> omega
    · simp [Exact]

/-- Every difference of the bounds' interval is the difference of two values. -/
lemma exact_sub_iff {s : MIRType} {l r : Range} (hl : l.Valid) (hr : r.Valid) (e : Int) :
    (∃ xs, List.Forall₂ Range.Contains (operands (.sub s true l r)) xs ∧
        Exact (.sub s true l r) xs e) ↔
      (2 : Int) ^ 0 ∣ e ∧ l.lower - r.upper ≤ e ∧ e ≤ l.upper - r.lower := by
  have hl₃ := hl.lower_le_upper
  have hr₃ := hr.lower_le_upper
  constructor
  · rintro ⟨_, _ | ⟨hx, _ | ⟨hy, _ | _⟩⟩, rfl⟩
    unfold Range.Contains at hx hy
    exact ⟨by simp, by omega, by omega⟩
  · rintro ⟨-, hle, heh⟩
    refine ⟨[min l.upper (e + r.upper), min l.upper (e + r.upper) - e], ?_, ?_⟩
    · refine .cons ?_ (.cons ?_ .nil) <;> unfold Range.Contains <;> omega
    · simp [Exact]

/-- The shifted values are the multiples of the power of two in between. -/
lemma exact_lsh_iff {r : Range} (c e : Int) :
    (∃ xs, List.Forall₂ Range.Contains (operands (.lsh r (some c))) xs ∧
        Exact (.lsh r (some c)) xs e) ↔
      (2 : Int) ^ Range.shiftAmount c ∣ e ∧ r.lower * 2 ^ Range.shiftAmount c ≤ e ∧
        e ≤ r.upper * 2 ^ Range.shiftAmount c := by
  have hpos := two_pow_pos (Range.shiftAmount c)
  constructor
  · rintro ⟨_, _ | ⟨hx, _ | _⟩, rfl⟩
    exact ⟨Int.dvd_mul_left _ _, mul_le_mul_of_nonneg_right hx.1 hpos.le,
      mul_le_mul_of_nonneg_right hx.2 hpos.le⟩
  · rintro ⟨⟨x, rfl⟩, hle, heh⟩
    rw [mul_comm _ x] at hle heh
    refine ⟨[x], .cons ⟨le_of_mul_le_mul_right hle hpos, le_of_mul_le_mul_right heh hpos⟩ .nil, ?_⟩
    simp [Exact, mul_comm]

lemma shiftAmount_lt (c : Int) : Range.shiftAmount c < 32 := by
  unfold Range.shiftAmount
  omega

/-! ## The remainder -/

/-- The largest absolute value of a range. -/
def maxAbs (r : Range) : Int := max (abs64 r.lower) (abs64 r.upper)

lemma abs64_le_maxAbs {r : Range} {x : Int} (hx : r.Contains x) : abs64 x ≤ maxAbs r := by
  unfold Range.Contains at hx
  unfold maxAbs abs64
  split_ifs <;> omega

/-- One end point attains the largest absolute value. -/
lemma exists_abs64_eq_maxAbs {r : Range} (hr : r.Valid) :
    ∃ x, r.Contains x ∧ abs64 x = maxAbs r := by
  have hle := hr.lower_le_upper
  rcases le_total (abs64 r.lower) (abs64 r.upper) with h | h
  · exact ⟨r.upper, ⟨hle, le_rfl⟩, (max_eq_right h).symm⟩
  · exact ⟨r.lower, ⟨le_rfl, hle⟩, (max_eq_left h).symm⟩

lemma abs64_eq_natAbs (x : Int) : abs64 x = x.natAbs := by
  unfold abs64
  split_ifs <;> omega

/-- A remainder is smaller than the divisor and no larger than the dividend. -/
lemma abs64_tmod_lt (x : Int) {y : Int} (hy : y ≠ 0) : abs64 (x.tmod y) < abs64 y := by
  rw [abs64_eq_natAbs, abs64_eq_natAbs, Int.natAbs_tmod]
  exact_mod_cast Nat.mod_lt _ (Int.natAbs_pos.mpr hy)

/-- A dividend smaller than the divisor is its own remainder. -/
lemma tmod_eq_self {x y : Int} (h : abs64 x < abs64 y) : x.tmod y = x := by
  rw [abs64_eq_natAbs, abs64_eq_natAbs, Nat.cast_lt] at h
  have habs : (x.tmod y).natAbs = x.natAbs := by
    rw [Int.natAbs_tmod, Nat.mod_eq_of_lt h]
  rcases le_total 0 x with hx | hx
  · have hnonneg := Int.tmod_nonneg y hx
    omega
  · have hnonneg := Int.tmod_nonneg y (neg_nonneg.mpr hx)
    rw [Int.neg_tmod] at hnonneg
    omega

/-- The computed range is one short of the dividend's largest absolute value, so
it is right exactly when no divisor is larger than that. -/
lemma mod_sound_iff (uninit : Range) {l r : Range} (hl : l.Valid) (hr : r.Valid) :
    TransferSound uninit (.mod .int32 l r) ↔ maxAbs r ≤ maxAbs l := by
  have hl₁ := hl.lower_isInt32
  have hl₂ := hl.upper_isInt32
  constructor
  · intro hsound
    by_contra hlt
    obtain ⟨x, hx, hxmax⟩ := exists_abs64_eq_maxAbs hl
    obtain ⟨y, hy, hymax⟩ := exists_abs64_eq_maxAbs hr
    have hxy : abs64 x < abs64 y := by omega
    have hself := tmod_eq_self hxy
    have hy0 : y ≠ 0 := by
      rintro rfl
      unfold abs64 at hxy
      split_ifs at hxy <;> omega
    have hproduces : Produces (.mod .int32 l r) [x, y] x :=
      ⟨x, ⟨hy0, hself.symm, by omega⟩, by simpa [wraps] using hl.isInt32_of_contains hx⟩
    have hin := (hsound _ rfl [x, y] (.cons hx (.cons hy .nil))).1 x hproduces
    simp only [Range.Contains, Range.ofBounds_lower, Range.ofBounds_upper, Range.clamp32,
      maxAbs, IsInt32, int32Min, int32Max] at *
    unfold abs64 at *
    split_ifs at * <;> omega
  · intro hle
    refine transferSound_of_bounds (l := min (-abs64 l.lower + 1) (-abs64 l.upper + 1))
      (h := max (abs64 l.lower - 1) (abs64 l.upper - 1)) ?_ rfl ?_
    · intro q hq
      simpa [computedRange] using hq.symm
    · rintro _ (_ | ⟨hx, _ | ⟨hy, _ | _⟩⟩) e ⟨hy0, rfl, -⟩
      rename_i x y
      have hlt := abs64_tmod_lt x hy0
      have hymax := abs64_le_maxAbs hy
      have hmax : abs64 (x.tmod y) < maxAbs l := by omega
      unfold maxAbs at hmax
      generalize x.tmod y = e at hmax ⊢
      unfold abs64 at hmax ⊢
      split_ifs at hmax ⊢ <;> omega

/-! ## The exact condition -/

/-- The operand ranges on which the transfer function of the instruction is
sound: all of them, but for the two kinds of wrapping and for the remainder. -/
def SoundOperands : RangeIns Range → Prop
  | add .int32 true l r => WrapSafe (l.lower + r.lower) (l.upper + r.upper) 1
  | sub .int32 true l r => WrapSafe (l.lower - r.upper) (l.upper - r.lower) 1
  | mod .int32 l r => maxAbs r ≤ maxAbs l
  | lsh r (some c) =>
      let step := 2 ^ Range.shiftAmount c
      WrapSafe (r.lower * step) (r.upper * step) step ∨
        (r.lower * step = r.upper * step ∧ r.lower * step < int32Min ∧
          wrap32 (r.lower * step) = int32Min)
  | _ => True

/-- Nothing is computed for an operation not specialised to int32. -/
lemma transferSound_of_none (uninit : Range) (i : RangeIns Range)
    (h : i.computedRange uninit = none) : TransferSound uninit i := by
  intro r hr
  simp [h] at hr

/-- A truncated operation whose exact results are all the integers between `l`
and `h` is sound exactly when they are wrap-safe. -/
lemma truncated_sound_iff {uninit : Range} {i : RangeIns Range} {l h : Int}
    (hrange : i.computedRange uninit = some (Range.ofBounds uninit l h))
    (hwraps : i.wraps = true) (hlh : l ≤ h) (hlow : -4294967296 ≤ l) (hhigh : h ≤ 4294967295)
    (hexact : ∀ e, (∃ xs, List.Forall₂ Range.Contains i.operands xs ∧ i.Exact xs e) ↔
      (2 : Int) ^ 0 ∣ e ∧ l ≤ e ∧ e ≤ h) :
    TransferSound uninit i ↔ WrapSafe l h 1 := by
  rw [transferSound_wraps_iff (k := 0) (by omega) hrange hwraps hlh (by simp) (by simp)
    (fun _ => hhigh) hexact, pow_zero, or_iff_left]
  rintro ⟨-, hlt, hw⟩
  unfold wrap32 int32Min at *
  omega

/-- `recomputeRange` is sound on exactly the operand ranges of `SoundOperands`. -/
theorem transferSound_iff (uninit : Range) (i : RangeIns Range) (hvalid : i.OperandsValid) :
    TransferSound uninit i ↔ SoundOperands i := by
  cases i with
  | add s t l r =>
    have hl : l.Valid := hvalid l (by simp [operands])
    have hr : r.Valid := hvalid r (by simp [operands])
    obtain ⟨hl₁, hl₂, hl₃, -, -⟩ := hl
    obtain ⟨hr₁, hr₂, hr₃, -, -⟩ := hr
    by_cases hs : s = .int32
    · subst hs
      cases t with
      | false => simpa [SoundOperands] using add_sound uninit .int32 l r
      | true =>
        unfold IsInt32 int32Min int32Max at *
        exact truncated_sound_iff rfl rfl (by omega) (by omega) (by omega)
          (exact_add_iff (hvalid l (by simp [operands])) (hvalid r (by simp [operands])))
    · have hnone := transferSound_of_none uninit (.add s t l r)
        (by simp [computedRange, hs])
      cases s <;> first | exact absurd rfl hs | simpa [SoundOperands] using hnone
  | sub s t l r =>
    have hl : l.Valid := hvalid l (by simp [operands])
    have hr : r.Valid := hvalid r (by simp [operands])
    obtain ⟨hl₁, hl₂, hl₃, -, -⟩ := hl
    obtain ⟨hr₁, hr₂, hr₃, -, -⟩ := hr
    by_cases hs : s = .int32
    · subst hs
      cases t with
      | false => simpa [SoundOperands] using sub_sound uninit .int32 l r
      | true =>
        unfold IsInt32 int32Min int32Max at *
        exact truncated_sound_iff rfl rfl (by omega) (by omega) (by omega)
          (exact_sub_iff (hvalid l (by simp [operands])) (hvalid r (by simp [operands])))
    · have hnone := transferSound_of_none uninit (.sub s t l r)
        (by simp [computedRange, hs])
      cases s <;> first | exact absurd rfl hs | simpa [SoundOperands] using hnone
  | mul s l r => simpa [SoundOperands] using mul_sound uninit s l r
  | mod s l r =>
    by_cases hs : s = .int32
    · subst hs
      exact mod_sound_iff uninit (hvalid l (by simp [operands])) (hvalid r (by simp [operands]))
    · have hnone := transferSound_of_none uninit (.mod s l r)
        (by simp [computedRange, hs])
      cases s <;> first | exact absurd rfl hs | simpa [SoundOperands] using hnone
  | abs s r => simpa [SoundOperands] using abs_sound uninit s r
  | lsh r c =>
    cases c with
    | none =>
      simpa [SoundOperands] using transferSound_of_none uninit (.lsh r none) rfl
    | some c =>
      have hr : r.Valid := hvalid r (by simp [operands])
      have hpos := two_pow_pos (Range.shiftAmount c)
      refine transferSound_wraps_iff (shiftAmount_lt c) rfl rfl
        (mul_le_mul_of_nonneg_right hr.lower_le_upper hpos.le) (Int.dvd_mul_left _ _)
        (Int.dvd_mul_left _ _) ?_ (exact_lsh_iff c)
      intro hzero
      have hup := hr.upper_isInt32.2
      rw [hzero, pow_zero, mul_one]
      unfold int32Max at hup
      omega
  | rsh r c => simpa [SoundOperands] using rsh_sound uninit r c
  | phi t r rs => simpa [SoundOperands] using phi_sound hvalid
  | beta r cmp => simpa [SoundOperands] using beta_sound hvalid

/-- A shift whose results stay in range is sound. -/
theorem transferSound_iff_lsh :
    TransferSound Range.unbounded (.lsh ⟨0, false, 3, false⟩ (some 2)) :=
  (transferSound_iff Range.unbounded (.lsh ⟨0, false, 3, false⟩ (some 2))
    (by intro r hr; simp only [operands, List.mem_singleton] at hr; subst hr; decide)).mpr
    (Or.inl (by decide))

/-- `5 % 10` is `5`, and the range computed for it is `[-4, 4]`: the transfer
functions are not sound on all valid operand ranges. -/
theorem transferSound_fails_mod :
    ¬ ∀ (uninit : Range) (i : RangeIns Range), i.OperandsValid → TransferSound uninit i := by
  intro h
  have hvalid : OperandsValid (.mod .int32 ⟨5, false, 5, false⟩ ⟨10, false, 10, false⟩) := by
    intro r hr
    simp only [operands, List.mem_cons, List.not_mem_nil, or_false] at hr
    rcases hr with rfl | rfl <;> decide
  have hsound := h Range.unbounded _ hvalid _ rfl [5, 10]
    (.cons (by decide) (.cons (by decide) .nil))
  have hproduces : Produces (.mod .int32 (⟨5, false, 5, false⟩ : Range) ⟨10, false, 10, false⟩)
      [5, 10] 5 := ⟨5, ⟨by decide, by decide, by decide⟩, by decide⟩
  exact absurd (hsound.1 5 hproduces) (by decide)

end RangeIns
end SpiderMonkey.Ion
