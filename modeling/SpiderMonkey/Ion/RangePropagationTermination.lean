import SpiderMonkey.Lib.Stabilization
import SpiderMonkey.Ion.RangePropagation

/-! # When range propagation ends

The end points of a computed range are monotone in the end points it is computed from, so
ranges that start at the full int32 range only shrink, as long as no conflict between a
beta and its branch makes a range infinite again. Once the end points rest, the flags of
the arithmetic instructions rest as well. A phi or beta has the flags of one of its
operands; were some of them never to rest, they would copy each other, and copies of
copies only fall from the flags they started with.
-/

namespace SpiderMonkey.Ion

open SpiderMonkey.Lib Filter List Option

namespace RangeIns

/-! ## End points -/

/-- The end points an instruction computes, before they are clamped. -/
def endpoints : RangeIns Range → Int × Int
  | add _ _ l r => (l.lower + r.lower, l.upper + r.upper)
  | sub _ _ l r => (l.lower - r.upper, l.upper - r.lower)
  | mul _ l r =>
      (min (min (l.lower * r.lower) (l.lower * r.upper)) (min (l.upper * r.lower) (l.upper * r.upper)),
        max (max (l.lower * r.lower) (l.lower * r.upper)) (max (l.upper * r.lower) (l.upper * r.upper)))
  | mod _ other _ =>
      (min (-abs64 other.lower + 1) (-abs64 other.upper + 1),
        max (abs64 other.lower - 1) (abs64 other.upper - 1))
  | abs _ other => (0, max (abs64 other.lower) (abs64 other.upper))
  | lsh other c =>
      (other.lower * 2 ^ Range.shiftAmount (c.getD 0), other.upper * 2 ^ Range.shiftAmount (c.getD 0))
  | rsh other c =>
      (other.lower / 2 ^ Range.shiftAmount (c.getD 0), other.upper / 2 ^ Range.shiftAmount (c.getD 0))
  | phi _ input inputs =>
      (inputs.foldl (fun l r => min l r.lower) input.lower,
        inputs.foldl (fun h r => max h r.upper) input.upper)
  | beta val comparison => (max val.lower comparison.lower, min val.upper comparison.upper)

/-- The operand ranges on which `recomputeRange` stays on its intended path: the branch
fact of a beta does not contradict what is known, the dividend of a remainder is not
known to be zero (the result would be the inverted range `[1, -1]`), and no end point is
on the far side of int32, where `setLower` and `setUpper` leave their flag as they
found it. -/
def Regular : RangeIns Range → Prop
  | mod _ other _ => other.lower ≠ 0 ∨ other.upper ≠ 0
  | beta val comparison => max val.lower comparison.lower ≤ min val.upper comparison.upper
  | abs _ _ => True
  | rsh _ _ => True
  | phi _ _ _ => True
  | i => i.endpoints.1 ≤ int32Max ∧ int32Min ≤ i.endpoints.2

instance (i : RangeIns Range) : Decidable i.Regular := by
  unfold Regular
  split <;> infer_instance

end RangeIns

/-- A range whose end points are int32 and in order. The flags are free. -/
structure Range.Proper (r : Range) : Prop where
  lower_isInt32 : IsInt32 r.lower
  upper_isInt32 : IsInt32 r.upper
  lower_le_upper : r.lower ≤ r.upper

/-- `r'` lies within `r`. -/
def Range.Inside (r' r : Range) : Prop := r.lower ≤ r'.lower ∧ r'.upper ≤ r.upper

namespace RangeIns

lemma isInt32_clamp32 (x : Int) : IsInt32 (Range.clamp32 x) := by
  unfold IsInt32 Range.clamp32 int32Min int32Max
  omega

lemma clamp32_mono {x y : Int} (h : x ≤ y) : Range.clamp32 x ≤ Range.clamp32 y := by
  unfold Range.clamp32
  omega

lemma clamp32_eq_self {x : Int} (h : IsInt32 x) : Range.clamp32 x = x := by
  unfold IsInt32 at h
  unfold Range.clamp32
  omega

lemma abs64_le_max {l h x : Int} (hl : l ≤ x) (hh : x ≤ h) :
    abs64 x ≤ max (abs64 l) (abs64 h) := by
  unfold abs64
  split_ifs <;> omega

/-- Every operand of a renamed instruction is a renamed operand. -/
lemma operands_map {α β : Type} (f : α → β) (i : RangeIns α) :
    (i.map f).operands = i.operands.map f := by
  cases i <;> rfl

lemma foldl_min_le {ranges ranges' : List Range} (h : List.Forall₂ Range.Inside ranges' ranges) :
    ∀ {x x' : Int}, x ≤ x' → ranges.foldl (fun l r => min l r.lower) x ≤
      ranges'.foldl (fun l r => min l r.lower) x' := by
  induction h with
  | nil => exact fun hx => hx
  | cons hr _ ih =>
    intro x x' hx
    exact ih (min_le_min hx hr.1)

lemma le_foldl_max {ranges ranges' : List Range} (h : List.Forall₂ Range.Inside ranges' ranges) :
    ∀ {x x' : Int}, x' ≤ x → ranges'.foldl (fun h r => max h r.upper) x' ≤
      ranges.foldl (fun h r => max h r.upper) x := by
  induction h with
  | nil => exact fun hx => hx
  | cons hr _ ih =>
    intro x x' hx
    exact ih (max_le_max hx hr.2)

/-- The computed end points are monotone. -/
lemma endpoints_mono (i : RangeIns Nat) {f f' : Nat → Range}
    (hinside : ∀ o ∈ i.operands, (f' o).Inside (f o)) (hproper : ∀ o, (f' o).Proper) :
    (i.map f).endpoints.1 ≤ (i.map f').endpoints.1 ∧
      (i.map f').endpoints.2 ≤ (i.map f).endpoints.2 := by
  cases i with
  | add s t l r =>
    have hl := hinside l (by simp [operands])
    have hr := hinside r (by simp [operands])
    simp only [Range.Inside] at hl hr
    simp only [map, endpoints]
    omega
  | sub s t l r =>
    have hl := hinside l (by simp [operands])
    have hr := hinside r (by simp [operands])
    simp only [Range.Inside] at hl hr
    simp only [map, endpoints]
    omega
  | mul s l r =>
    have hl := hinside l (by simp [operands])
    have hr := hinside r (by simp [operands])
    have hl' := (hproper l).lower_le_upper
    have hr' := (hproper r).lower_le_upper
    simp only [Range.Inside] at hl hr
    -- each corner of the smaller box lies in the larger one
    have hcorner : ∀ x y, (f' l).lower ≤ x → x ≤ (f' l).upper → (f' r).lower ≤ y →
        y ≤ (f' r).upper → _ := fun x y hx₁ hx₂ hy₁ hy₂ =>
      mul_corners (a := (f l).lower) (b := (f l).upper) (c := (f r).lower) (d := (f r).upper)
        (x := x) (y := y) ⟨by omega, by omega⟩ ⟨by omega, by omega⟩
    have h₁ := hcorner _ _ (le_refl _) hl' (le_refl _) hr'
    have h₂ := hcorner _ _ (le_refl _) hl' hr' (le_refl _)
    have h₃ := hcorner _ _ hl' (le_refl _) (le_refl _) hr'
    have h₄ := hcorner _ _ hl' (le_refl _) hr' (le_refl _)
    simp only [map, endpoints]
    exact ⟨le_min (le_min h₁.1 h₂.1) (le_min h₃.1 h₄.1),
      max_le (max_le h₁.2 h₂.2) (max_le h₃.2 h₄.2)⟩
  | mod s l r =>
    have hl := hinside l (by simp [operands])
    have hl' := (hproper l).lower_le_upper
    have h₁ := abs64_le_max hl.1 (hl'.trans hl.2)
    have h₂ := abs64_le_max (hl.1.trans hl') hl.2
    simp only [map, endpoints]
    omega
  | abs s num =>
    have hl := hinside num (by simp [operands])
    have hl' := (hproper num).lower_le_upper
    have h₁ := abs64_le_max hl.1 (hl'.trans hl.2)
    have h₂ := abs64_le_max (hl.1.trans hl') hl.2
    simp only [map, endpoints]
    omega
  | lsh l c =>
    have hl := hinside l (by simp [operands])
    have hpos := (two_pow_pos (Range.shiftAmount (c.getD 0))).le
    exact ⟨mul_le_mul_of_nonneg_right hl.1 hpos, mul_le_mul_of_nonneg_right hl.2 hpos⟩
  | rsh l c =>
    have hl := hinside l (by simp [operands])
    have hpos := two_pow_pos (Range.shiftAmount (c.getD 0))
    exact ⟨Int.ediv_le_ediv hpos hl.1, Int.ediv_le_ediv hpos hl.2⟩
  | phi t input inputs =>
    have hin := hinside input (by simp [operands])
    have hins : List.Forall₂ Range.Inside (inputs.map f') (inputs.map f) := by
      rw [forall₂_map_left_iff, forall₂_map_right_iff]
      exact forall₂_same.mpr fun o ho => hinside o (by simp [operands, ho])
    exact ⟨foldl_min_le hins hin.1, le_foldl_max hins hin.2⟩
  | beta val comparison =>
    have hv := hinside val (by simp [operands])
    simp only [Range.Inside] at hv
    simp only [map, endpoints]
    omega

lemma foldl_min_le_init (rs : List Range) (x : Int) :
    rs.foldl (fun l r => min l r.lower) x ≤ x := by
  induction rs generalizing x with
  | nil => exact le_refl _
  | cons r rs ih => exact (ih _).trans (min_le_left _ _)

lemma le_foldl_max_init (rs : List Range) (x : Int) :
    x ≤ rs.foldl (fun h r => max h r.upper) x := by
  induction rs generalizing x with
  | nil => exact le_refl _
  | cons r rs ih => exact (le_max_left _ _).trans (ih _)

/-- Regular operands give end points in order. -/
lemma endpoints_le {i : RangeIns Range} (hproper : ∀ r ∈ i.operands, r.Proper)
    (hregular : i.Regular) : i.endpoints.1 ≤ i.endpoints.2 := by
  cases i with
  | add s t l r =>
    have hl := (hproper l (by simp [operands])).lower_le_upper
    have hr := (hproper r (by simp [operands])).lower_le_upper
    simp only [endpoints]
    omega
  | sub s t l r =>
    have hl := (hproper l (by simp [operands])).lower_le_upper
    have hr := (hproper r (by simp [operands])).lower_le_upper
    simp only [endpoints]
    omega
  | mul s l r =>
    simp only [endpoints]
    omega
  | mod s other r =>
    have hne : other.lower ≠ 0 ∨ other.upper ≠ 0 := hregular
    simp only [endpoints, abs64]
    split_ifs <;> omega
  | abs s num =>
    simp only [endpoints, abs64]
    split_ifs <;> omega
  | lsh l c =>
    have hl := (hproper l (by simp [operands])).lower_le_upper
    exact mul_le_mul_of_nonneg_right hl (two_pow_pos _).le
  | rsh l c =>
    have hl := (hproper l (by simp [operands])).lower_le_upper
    exact Int.ediv_le_ediv (two_pow_pos _) hl
  | phi t input inputs =>
    have hl := (hproper input (by simp [operands])).lower_le_upper
    exact ((foldl_min_le_init inputs _).trans hl).trans (le_foldl_max_init inputs _)
  | beta val comparison => exact hregular

/-! ## Computed ranges -/

/-- The flags of a range, ordered with `true` on top. -/
def flags (r : Range) : Bool × Bool := (r.lowerInfinite, r.upperInfinite)

/-- A phi takes its flags from its last operand, since each union clears the flags it
finds. A beta takes them from its operand where its comparison has them too. -/
def flagSource {α : Type} : RangeIns α → Option (α × Bool × Bool)
  | phi _ input inputs => some ((input :: inputs).getLast (cons_ne_nil _ _), ⊤)
  | beta val comparison => some (val, flags comparison)
  | _ => none

lemma flagSource_map {α β : Type} (f : α → β) (i : RangeIns α) :
    (i.map f).flagSource = i.flagSource.map fun c => (f c.1, c.2) := by
  cases i with
  | phi t input inputs =>
    simp only [map, flagSource, map_some, some.injEq, Prod.mk.injEq, and_true]
    exact getLast_map (f := f) (l := input :: inputs) (by simp)
  | _ => rfl

/-- The flags of the computed range. -/
def computedFlags (i : RangeIns Range) : Bool × Bool :=
  match i.flagSource with
  | some (source, mask) => flags source ⊓ mask
  | none => (decide (i.endpoints.1 < int32Min), decide (int32Max < i.endpoints.2))

/-- What the constructor of a range computes on its intended path. -/
lemma ofBounds_spec (uninit : Range) {l h : Int} (hl : l ≤ int32Max) (hh : int32Min ≤ h) :
    flags (Range.ofBounds uninit l h) = (decide (l < int32Min), decide (int32Max < h)) := by
  unfold flags Range.ofBounds
  rw [Range.setUpper_lowerInfinite]
  unfold Range.setLower Range.setUpper Range.makeLowerInfinite Range.makeUpperInfinite
  rw [if_neg (not_lt.mpr hl), if_neg (not_lt.mpr hh)]
  by_cases hl' : l < int32Min
  · by_cases hh' : int32Max < h
    · simp [hl', hh']
    · simp [hl', hh']
  · by_cases hh' : int32Max < h
    · simp [hl', hh']
    · simp [hl', hh']

lemma unionWith_eq {r other : Range} (hr : r.Proper) (ho : other.Proper) :
    r.unionWith other = { other with
      lower := min r.lower other.lower, upper := max r.upper other.upper } := by
  have hlower : ¬ min r.lower other.lower > int32Max ∧ ¬ min r.lower other.lower < int32Min := by
    have h₁ := hr.lower_isInt32
    have h₂ := ho.lower_isInt32
    unfold IsInt32 at h₁ h₂
    omega
  have hupper : ¬ max r.upper other.upper > int32Max ∧ ¬ max r.upper other.upper < int32Min := by
    have h₁ := hr.upper_isInt32
    have h₂ := ho.upper_isInt32
    unfold IsInt32 at h₁ h₂
    omega
  simp [Range.unionWith, Range.setLower, Range.setUpper, hlower, hupper]

lemma proper_unionWith {r other : Range} (hr : r.Proper) (ho : other.Proper) :
    (r.unionWith other).Proper := by
  rw [unionWith_eq hr ho]
  have h₁ := hr.lower_isInt32
  have h₂ := hr.upper_isInt32
  have h₃ := ho.lower_isInt32
  have h₄ := ho.upper_isInt32
  have h₅ := hr.lower_le_upper
  unfold IsInt32 at h₁ h₂ h₃ h₄
  constructor
  · show IsInt32 (min r.lower other.lower)
    unfold IsInt32
    omega
  · show IsInt32 (max r.upper other.upper)
    unfold IsInt32
    omega
  · show min r.lower other.lower ≤ max r.upper other.upper
    omega

/-- The union of the inputs of a phi. -/
lemma foldl_unionWith_spec {rs : List Range} (hrs : ∀ r ∈ rs, r.Proper) :
    ∀ {acc : Range}, acc.Proper →
      (rs.foldl Range.unionWith acc).Proper ∧
      (rs.foldl Range.unionWith acc).lower = rs.foldl (fun l r => min l r.lower) acc.lower ∧
      (rs.foldl Range.unionWith acc).upper = rs.foldl (fun h r => max h r.upper) acc.upper ∧
      flags (rs.foldl Range.unionWith acc) =
        flags ((acc :: rs).getLast (cons_ne_nil _ _)) := by
  induction rs with
  | nil => exact fun hacc => ⟨hacc, rfl, rfl, rfl⟩
  | cons r rs ih =>
    intro acc hacc
    have hr := hrs r mem_cons_self
    have hunion := unionWith_eq hacc hr
    rcases ih (fun q hq => hrs q (mem_cons_of_mem _ hq)) (proper_unionWith hacc hr) with
      ⟨hproper, hlower, hupper, hflags⟩
    refine ⟨hproper, hlower.trans ?_, hupper.trans ?_, hflags.trans ?_⟩
    · rw [hunion]
      rfl
    · rw [hunion]
      rfl
    · rw [getLast_cons (cons_ne_nil r rs)]
      cases rs with
      | nil =>
        rw [hunion]
        rfl
      | cons q rs => rw [getLast_cons (cons_ne_nil q rs),
          getLast_cons (cons_ne_nil q rs)]

/-- What `recomputeRange` computes from regular operands. -/
lemma computedRange_spec {uninit : Range} {i : RangeIns Range} {r : Range}
    (hproper : ∀ r ∈ i.operands, r.Proper) (hregular : i.Regular)
    (hr : i.computedRange uninit = some r) :
    r.lower = Range.clamp32 i.endpoints.1 ∧ r.upper = Range.clamp32 i.endpoints.2 ∧
      flags r = i.computedFlags := by
  have hofBounds : i.flagSource = none → i.endpoints.1 ≤ int32Max ∧ int32Min ≤ i.endpoints.2 →
      r = Range.ofBounds uninit i.endpoints.1 i.endpoints.2 →
      r.lower = Range.clamp32 i.endpoints.1 ∧ r.upper = Range.clamp32 i.endpoints.2 ∧
        flags r = i.computedFlags := by
    rintro hsource ⟨hl, hh⟩ rfl
    refine ⟨Range.ofBounds_lower _ _ _, Range.ofBounds_upper _ _ _, ?_⟩
    rw [ofBounds_spec uninit hl hh, computedFlags, hsource]
  cases i with
  | add s t l q =>
    simp only [computedRange, ite_none_right_eq_some, some.injEq] at hr
    exact hofBounds rfl hregular hr.2.symm
  | sub s t l q =>
    simp only [computedRange, ite_none_right_eq_some, some.injEq] at hr
    exact hofBounds rfl hregular hr.2.symm
  | mul s l q =>
    simp only [computedRange, ite_none_right_eq_some, some.injEq] at hr
    exact hofBounds rfl hregular hr.2.symm
  | mod s other q =>
    simp only [computedRange, ite_none_right_eq_some, some.injEq] at hr
    refine hofBounds rfl ?_ hr.2.symm
    simp only [endpoints, abs64, int32Min, int32Max]
    split_ifs <;> omega
  | abs s other =>
    simp only [computedRange, ite_none_right_eq_some, some.injEq] at hr
    refine hofBounds rfl ?_ hr.2.symm
    simp only [endpoints, abs64, int32Min, int32Max]
    split_ifs <;> omega
  | lsh other c =>
    cases c with
    | none => simp [computedRange] at hr
    | some c =>
      simp only [computedRange, map_some, some.injEq] at hr
      exact hofBounds rfl hregular hr.symm
  | rsh other c =>
    cases c with
    | none => simp [computedRange] at hr
    | some c =>
      simp only [computedRange, map_some, some.injEq] at hr
      refine hofBounds rfl ?_ hr.symm
      have hother := hproper other (by simp [operands])
      have hl := hother.lower_isInt32
      have hu := hother.upper_isInt32
      have hpos := two_pow_pos (Range.shiftAmount c)
      unfold IsInt32 int32Min int32Max at hl hu
      constructor
      · refine Int.ediv_le_of_le_mul hpos ?_
        show other.lower ≤ 2147483647 * 2 ^ Range.shiftAmount c
        nlinarith
      · refine Int.le_ediv_of_mul_le hpos ?_
        show (-2147483648) * 2 ^ Range.shiftAmount c ≤ other.upper
        nlinarith
  | phi t input inputs =>
    simp only [computedRange, ite_none_right_eq_some, some.injEq,
      Range.update_fst] at hr
    have hinput := hproper input (by simp [operands])
    have hinputs : ∀ q ∈ inputs, q.Proper := fun q hq => hproper q (by simp [operands, hq])
    have hself : input.unionWith input = input := by
      rw [unionWith_eq hinput hinput, min_self, max_self]
    rw [foldl_cons, hself] at hr
    rcases foldl_unionWith_spec hinputs hinput with ⟨hp, hlower, hupper, hflags⟩
    rw [hr.2] at hp hlower hupper hflags
    have hl : r.lower = (phi t input inputs).endpoints.1 := hlower
    have hu : r.upper = (phi t input inputs).endpoints.2 := hupper
    refine ⟨?_, ?_, ?_⟩
    · rw [← hl, clamp32_eq_self hp.lower_isInt32]
    · rw [← hu, clamp32_eq_self hp.upper_isInt32]
    · rw [hflags, computedFlags, flagSource]
      exact (inf_top_eq _).symm
  | beta val comparison =>
    simp only [computedRange, some.injEq] at hr
    have hle : Range.clamp32 (max val.lower comparison.lower) ≤
        Range.clamp32 (min val.upper comparison.upper) := clamp32_mono hregular
    unfold Range.intersect at hr
    simp only [Range.ofBounds_lower, Range.ofBounds_upper] at hr
    rw [if_neg (not_lt.mpr hle)] at hr
    rw [← hr]
    exact ⟨rfl, rfl, rfl⟩

end RangeIns

namespace RangeGraph

open RangeIns

variable {g : RangeGraph}

/-! ## One turn of the loop -/

/-- The definition on top of the worklist, if it computes a range, computes it from
regular operands. -/
def RegularStep (g : RangeGraph) (uninit : Range) (s : Propagation) : Prop :=
  ∀ d worklist i r, s.worklist = d :: worklist → g.nodes[d]? = some (.ins i) →
    (i.map s.range).computedRange uninit = some r → (i.map s.range).Regular

lemma range_set (s : Propagation) (d e : Nat) (r : Range) (worklist : List Nat) :
    ({ ranges := s.ranges.set d r, worklist := worklist } : Propagation).range e = s.range e ∨
      e = d ∧
        ({ ranges := s.ranges.set d r, worklist := worklist } : Propagation).range e = r := by
  unfold Propagation.range
  simp only [getD_eq_getElem?_getD, List.getElem?_set]
  by_cases hed : d = e
  · subst hed
    by_cases hlt : d < s.ranges.length
    · exact Or.inr ⟨rfl, by simp [hlt]⟩
    · left
      rw [if_pos rfl, if_neg hlt, List.getElem?_eq_none (by omega)]
  · left
    rw [if_neg hed]

/-- A turn leaves the range of a definition as it is or computes it. -/
lemma range_step {uninit : Range} {s : Propagation} (hregular : g.RegularStep uninit s)
    (e : Nat) : (g.step uninit s).range e = s.range e ∨
      ∃ i, g.nodes[e]? = some (.ins i) ∧ (i.map s.range).Regular ∧
        (i.map s.range).computedRange uninit = some ((g.step uninit s).range e) := by
  unfold step
  cases hworklist : s.worklist with
  | nil => exact Or.inl rfl
  | cons d worklist =>
    simp only
    cases hnode : g.nodes[d]? with
    | none => exact Or.inl rfl
    | some node =>
      cases node with
      | leaf r => exact Or.inl rfl
      | ins i =>
        simp only
        have hranges : ∀ (r : Range) (b : Bool) (t : Propagation),
            (if b then (g.uses d).foldl Propagation.addToWorklist t else t).range e = t.range e := by
          intro r b t
          unfold Propagation.range
          split
          · rw [Propagation.foldl_addToWorklist_ranges]
          · rfl
        rw [hranges Range.unbounded]
        unfold RangeIns.recomputeRange
        cases hcomputed : (i.map s.range).computedRange uninit with
        | none =>
          rcases range_set s d e (s.range d) worklist with hsame | ⟨rfl, hself⟩
          · exact Or.inl hsame
          · exact Or.inl hself
        | some r =>
          simp only [Range.update_fst]
          rcases range_set s d e r worklist with hsame | ⟨rfl, hnew⟩
          · exact Or.inl hsame
          · exact Or.inr ⟨i, hnode, hregular e worklist i r hworklist hnode hcomputed, by
              rw [hnew, hcomputed]⟩

/-- A turn that changes no range takes a definition off the worklist. -/
lemma worklist_step {uninit : Range} {s : Propagation}
    (hlength : s.ranges.length = g.nodes.length)
    (hsame : ∀ d < g.nodes.length, (g.step uninit s).range d = s.range d) :
    (g.step uninit s).worklist = s.worklist.tail := by
  unfold step at hsame ⊢
  cases hworklist : s.worklist with
  | nil => exact hworklist
  | cons d worklist =>
    rw [hworklist] at hsame
    simp only at hsame ⊢
    cases hnode : g.nodes[d]? with
    | none => rfl
    | some node =>
      rw [hnode] at hsame
      cases node with
      | leaf r => rfl
      | ins i =>
        simp only at hsame ⊢
        have hd : d < g.nodes.length := (List.getElem?_eq_some_iff.mp hnode).1
        unfold RangeIns.recomputeRange at hsame ⊢
        cases hcomputed : (i.map s.range).computedRange uninit with
        | none => rfl
        | some r =>
          rw [hcomputed] at hsame
          simp only at hsame ⊢
          by_cases hr : s.range d = r
          · simp [Range.update, hr]
          · exfalso
            apply hr
            have hnew := hsame d hd
            rw [Range.update_fst] at hnew
            unfold Propagation.range at hnew
            have hlt : d < s.ranges.length := by omega
            split at hnew
            · rw [Propagation.foldl_addToWorklist_ranges] at hnew
              simpa [hlt, Propagation.range, getD_eq_getElem?_getD] using hnew.symm
            · simpa [hlt, Propagation.range, getD_eq_getElem?_getD] using hnew.symm

/-! ## End points only shrink -/

/-- Every range contains what would be computed for it now. -/
structure Narrowing (g : RangeGraph) (s : Propagation) : Prop where
  length : s.ranges.length = g.nodes.length
  proper : ∀ d, (s.range d).Proper
  lower_le : ∀ d i, g.nodes[d]? = some (.ins i) →
    (s.range d).lower ≤ Range.clamp32 (i.map s.range).endpoints.1
  le_upper : ∀ d i, g.nodes[d]? = some (.ins i) →
    Range.clamp32 (i.map s.range).endpoints.2 ≤ (s.range d).upper

lemma length_step (uninit : Range) (s : Propagation) :
    (g.step uninit s).ranges.length = s.ranges.length := by
  unfold step
  split
  · rfl
  · split
    · simp only
      split
      · rw [Propagation.foldl_addToWorklist_ranges]
        exact length_set
      · exact length_set
    · rfl

/-- A turn on regular operands only shrinks ranges. -/
lemma narrowing_step {uninit : Range} {s : Propagation} (h : g.Narrowing s)
    (hregular : g.RegularStep uninit s) :
    g.Narrowing (g.step uninit s) ∧ ∀ d, ((g.step uninit s).range d).Inside (s.range d) := by
  have hoperands : ∀ i : RangeIns Nat, ∀ r ∈ (i.map s.range).operands, r.Proper := by
    intro i r hr
    rw [operands_map] at hr
    rcases mem_map.mp hr with ⟨o, _, rfl⟩
    exact h.proper o
  have hnew : ∀ d, ((g.step uninit s).range d).Inside (s.range d) ∧
      ((g.step uninit s).range d).Proper := by
    intro d
    rcases range_step hregular d with hsame | ⟨i, hnode, hreg, hcomputed⟩
    · rw [hsame]
      exact ⟨⟨le_refl _, le_refl _⟩, h.proper d⟩
    · rcases computedRange_spec (hoperands i) hreg hcomputed with ⟨hl, hu, _⟩
      refine ⟨⟨hl ▸ h.lower_le d i hnode, hu ▸ h.le_upper d i hnode⟩, ?_, ?_, ?_⟩
      · rw [hl]
        exact isInt32_clamp32 _
      · rw [hu]
        exact isInt32_clamp32 _
      · rw [hl, hu]
        exact clamp32_mono (endpoints_le (hoperands i) hreg)
  have hmono := fun i : RangeIns Nat => endpoints_mono i (fun o _ => (hnew o).1) fun o => (hnew o).2
  refine ⟨⟨(length_step uninit s).trans h.length, fun d => (hnew d).2, ?_, ?_⟩,
    fun d => (hnew d).1⟩
  · intro d i hnode
    have hle := clamp32_mono (hmono i).1
    rcases range_step hregular d with hsame | ⟨j, hnode', hreg, hcomputed⟩
    · rw [hsame]
      exact (h.lower_le d i hnode).trans hle
    · obtain rfl : j = i := by simpa using hnode'.symm.trans hnode
      rw [(computedRange_spec (hoperands j) hreg hcomputed).1]
      exact hle
  · intro d i hnode
    have hle := clamp32_mono (hmono i).2
    rcases range_step hregular d with hsame | ⟨j, hnode', hreg, hcomputed⟩
    · rw [hsame]
      exact hle.trans (h.le_upper d i hnode)
    · obtain rfl : j = i := by simpa using hnode'.symm.trans hnode
      rw [(computedRange_spec (hoperands j) hreg hcomputed).2.1]
      exact hle


/-! ## Runs -/

lemma range_initial (d : Nat) :
    g.initial.range d = ((g.nodes[d]?).map RangeNode.initialRange).getD Range.unbounded := by
  unfold initial Propagation.range
  rw [Propagation.foldl_addToWorklist_ranges, getD_eq_getElem?_getD, List.getElem?_map]

/-- Before its first turn an instruction has all of int32. -/
lemma range_initial_ins {d : Nat} {i : RangeIns Nat} (hnode : g.nodes[d]? = some (.ins i)) :
    (g.initial.range d).lower = int32Min ∧ (g.initial.range d).upper = int32Max ∧
      (i.flagSource.isSome = true → flags (g.initial.range d) = ⊤) := by
  rw [range_initial, hnode]
  have hset : ((Range.unbounded.setLower int32Min).setUpper int32Max).lower = int32Min ∧
      ((Range.unbounded.setLower int32Min).setUpper int32Max).upper = int32Max := by decide
  cases i with
  | lsh l c => exact ⟨hset.1, hset.2, fun h => absurd h Bool.false_ne_true⟩
  | rsh l c => exact ⟨hset.1, hset.2, fun h => absurd h Bool.false_ne_true⟩
  | _ => exact ⟨rfl, rfl, fun _ => rfl⟩

lemma narrowing_initial : g.Narrowing g.initial := by
  have hins : ∀ d i, g.nodes[d]? = some (.ins i) →
      (g.initial.range d).lower = int32Min ∧ (g.initial.range d).upper = int32Max :=
    fun d i hnode => ⟨(range_initial_ins hnode).1, (range_initial_ins hnode).2.1⟩
  have hproper : ∀ r : Range, r.lower = int32Min → r.upper = int32Max → r.Proper := by
    intro r hl hu
    constructor
    · rw [hl]
      decide
    · rw [hu]
      decide
    · rw [hl, hu]
      decide
  refine ⟨?_, ?_, ?_, ?_⟩
  · unfold initial
    rw [Propagation.foldl_addToWorklist_ranges]
    exact length_map _
  · intro d
    cases hnode : g.nodes[d]? with
    | none =>
      rw [range_initial, hnode]
      exact hproper _ rfl rfl
    | some node =>
      cases node with
      | leaf r =>
        rw [range_initial, hnode]
        have hvalid := g.leaf_valid r (mem_of_getElem? hnode)
        exact ⟨hvalid.lower_isInt32, hvalid.upper_isInt32, hvalid.lower_le_upper⟩
      | ins i => exact hproper _ (hins d i hnode).1 (hins d i hnode).2
  · intro d i hnode
    rw [(hins d i hnode).1]
    exact (isInt32_clamp32 _).1
  · intro d i hnode
    rw [(hins d i hnode).2]
    exact (isInt32_clamp32 _).2

section Run

variable {uninit : Nat → Range} (hregular : ∀ n, g.RegularStep (uninit n) (g.run uninit n))

include hregular

lemma narrowing_run (n : Nat) : g.Narrowing (g.run uninit n) := by
  induction n with
  | zero => exact narrowing_initial
  | succ n ih => exact (narrowing_step ih (hregular n)).1

/-- The end points of a definition come to rest. -/
lemma bounds_eventuallyConst (d : Nat) :
    EventuallyConst (fun n => ((g.run uninit n).range d).lower) atTop ∧
      EventuallyConst (fun n => ((g.run uninit n).range d).upper) atTop := by
  have hinside : ∀ n, ((g.run uninit (n + 1)).range d).Inside ((g.run uninit n).range d) :=
    fun n => (narrowing_step (narrowing_run hregular n) (hregular n)).2 d
  constructor
  · exact eventuallyConst_of_monotone (monotone_nat_of_le_succ fun n => (hinside n).1)
      fun n => ((narrowing_run hregular n).proper d).lower_isInt32.2
  · have hneg : EventuallyConst (fun n => -((g.run uninit n).range d).upper) atTop :=
      eventuallyConst_of_monotone (monotone_nat_of_le_succ fun n => neg_le_neg (hinside n).2)
        fun n => neg_le_neg ((narrowing_run hregular n).proper d).upper_isInt32.1
    simpa [Function.comp_def] using hneg.comp Neg.neg

/-- What an instruction would compute for its end points comes to rest. -/
lemma endpoints_eventuallyConst (i : RangeIns Nat) :
    EventuallyConst (fun n => (i.map (g.run uninit n).range).endpoints) atTop := by
  rcases exists_common_of_eventuallyConst
    (fun d => (bounds_eventuallyConst hregular d).1.prodMk (bounds_eventuallyConst hregular d).2)
    i.operands with ⟨N, hN⟩
  rw [eventuallyConst_atTop_nat]
  refine ⟨N, fun n hn => ?_⟩
  have hsame : ∀ o ∈ i.operands,
      ((g.run uninit (n + 1)).range o).lower = ((g.run uninit n).range o).lower ∧
        ((g.run uninit (n + 1)).range o).upper = ((g.run uninit n).range o).upper := by
    intro o ho
    exact Prod.mk.injEq .. ▸ hN o ho n hn
  have hle := endpoints_mono i
    (fun o ho => ⟨(hsame o ho).1.ge, (hsame o ho).2.le⟩)
    (narrowing_run hregular (n + 1)).proper
  have hge := endpoints_mono i
    (fun o ho => ⟨(hsame o ho).1.le, (hsame o ho).2.ge⟩)
    (narrowing_run hregular n).proper
  exact Prod.ext (le_antisymm hge.1 hle.1) (le_antisymm hle.2 hge.2)

/-- A turn leaves the flags of a definition or computes them. -/
lemma flags_step (d n : Nat) :
    flags ((g.run uninit (n + 1)).range d) = flags ((g.run uninit n).range d) ∨
      ∃ i, g.nodes[d]? = some (.ins i) ∧ flags ((g.run uninit (n + 1)).range d) =
        (i.map (g.run uninit n).range).computedFlags := by
  rcases range_step (hregular n) d with hsame | ⟨i, hnode, hreg, hcomputed⟩
  · exact Or.inl (congrArg flags hsame)
  · refine Or.inr ⟨i, hnode, (computedRange_spec ?_ hreg hcomputed).2.2⟩
    intro r hr
    rw [operands_map] at hr
    rcases mem_map.mp hr with ⟨o, _, rfl⟩
    exact (narrowing_run hregular n).proper o

/-- Where the flags an instruction would compute come to rest, its flags do. -/
lemma flags_eventuallyConst_of_computed {d : Nat}
    (h : ∀ i, g.nodes[d]? = some (.ins i) →
      EventuallyConst (fun n => (i.map (g.run uninit n).range).computedFlags) atTop) :
    EventuallyConst (fun n => flags ((g.run uninit n).range d)) atTop := by
  by_cases hnode : ∃ i, g.nodes[d]? = some (.ins i)
  · rcases hnode with ⟨i, hnode⟩
    rcases eventuallyConst_atTop.mp (h i hnode) with ⟨N, hN⟩
    refine eventuallyConst_of_settles (N := N)
      (c := (i.map (g.run uninit N).range).computedFlags) fun n hn => ?_
    rcases flags_step hregular d n with hsame | ⟨j, hnode', hflags⟩
    · exact Or.inl hsame
    · obtain rfl : j = i := by simpa using hnode'.symm.trans hnode
      exact Or.inr (hflags.trans (hN n hn))
  · rw [eventuallyConst_atTop_nat]
    refine ⟨0, fun n _ => ?_⟩
    rcases flags_step hregular d n with hsame | ⟨i, hi, _⟩
    · exact hsame
    · exact absurd ⟨i, hi⟩ hnode

/-- The flags of a definition come to rest. -/
lemma flags_eventuallyConst (d : Nat) :
    EventuallyConst (fun n => flags ((g.run uninit n).range d)) atTop := by
  by_contra hd
  -- a definition whose flags never rest copies another one of this kind
  have hsource : ∀ e, ¬ EventuallyConst (fun n => flags ((g.run uninit n).range e)) atTop →
      ∃ i source, g.nodes[e]? = some (.ins i) ∧ i.flagSource = some source ∧
        ¬ EventuallyConst (fun n => flags ((g.run uninit n).range source.1)) atTop := by
    intro e he
    by_contra hnone
    apply he
    apply flags_eventuallyConst_of_computed hregular
    intro i hnode
    cases hsource : i.flagSource with
    | none =>
      have hconst := (endpoints_eventuallyConst hregular i).comp fun p : Int × Int =>
        (decide (p.1 < int32Min), decide (int32Max < p.2))
      refine hconst.congr (Eventually.of_forall fun n => ?_)
      simp [computedFlags, flagSource_map, hsource]
    | some source =>
      have hrest : EventuallyConst (fun n => flags ((g.run uninit n).range source.1)) atTop := by
        by_contra hnot
        exact hnone ⟨i, source, hnode, hsource, hnot⟩
      refine (hrest.comp fun p => p ⊓ source.2).congr (Eventually.of_forall fun n => ?_)
      simp [computedFlags, flagSource_map, hsource]
  have hcomputed : ∀ (i : RangeIns Nat) source n, i.flagSource = some source →
      (i.map (g.run uninit n).range).computedFlags =
        flags ((g.run uninit n).range source.1) ⊓ source.2 := by
    intro i source n hi
    simp [computedFlags, flagSource_map, hi]
  -- such a copy is never below what it would be next, since that only falls
  have hcopy : ∀ n e, ¬ EventuallyConst (fun n => flags ((g.run uninit n).range e)) atTop →
      ∀ i, g.nodes[e]? = some (.ins i) →
        (i.map (g.run uninit n).range).computedFlags ≤ flags ((g.run uninit n).range e) := by
    intro n
    induction n with
    | zero =>
      intro e he i hnode
      rcases hsource e he with ⟨j, source, hnode', hj, _⟩
      obtain rfl : j = i := by simpa using hnode'.symm.trans hnode
      have htop : flags ((g.run uninit 0).range e) = ⊤ :=
        (range_initial_ins hnode).2.2 (by rw [hj]; rfl)
      rw [htop]
      exact le_top
    | succ n ih =>
      have hfall : ∀ e, ¬ EventuallyConst (fun n => flags ((g.run uninit n).range e)) atTop →
          flags ((g.run uninit (n + 1)).range e) ≤ flags ((g.run uninit n).range e) := by
        intro e he
        rcases flags_step hregular e n with hsame | ⟨i, hnode, hnew⟩
        · exact hsame.le
        · rw [hnew]
          exact ih e he i hnode
      intro e he i hnode
      rcases hsource e he with ⟨j, source, hnode', hj, hrestless⟩
      obtain rfl : j = i := by simpa using hnode'.symm.trans hnode
      have hle : (j.map (g.run uninit (n + 1)).range).computedFlags ≤
          (j.map (g.run uninit n).range).computedFlags := by
        rw [hcomputed j source _ hj, hcomputed j source _ hj]
        exact inf_le_inf_right _ (hfall source.1 hrestless)
      rcases flags_step hregular e n with hsame | ⟨i, hi, hnew⟩
      · rw [hsame]
        exact hle.trans (ih e he j hnode)
      · obtain rfl : i = j := by simpa using hi.symm.trans hnode
        rw [hnew]
        exact hle
  apply hd
  apply eventuallyConst_of_antitone
  apply antitone_nat_of_succ_le
  intro n
  rcases flags_step hregular d n with hsame | ⟨i, hnode, hnew⟩
  · exact hsame.le
  · rw [hnew]
    exact hcopy n d hd i hnode

/-- The range of a definition comes to rest. -/
lemma range_eventuallyConst (d : Nat) :
    EventuallyConst (fun n => (g.run uninit n).range d) atTop := by
  have hbounds := bounds_eventuallyConst hregular d
  have hall := (hbounds.1.prodMk hbounds.2).prodMk (flags_eventuallyConst hregular d)
  exact hall.comp fun p : (Int × Int) × Bool × Bool => (⟨p.1.1, p.2.1, p.1.2, p.2.2⟩ : Range)

end Run

/-! ### A loop without conflict -/

lemma regularStep_of_top {uninit : Range} {s : Propagation} {d : Nat} {worklist : List Nat}
    {i : RangeIns Nat} (hworklist : s.worklist = d :: worklist)
    (hnode : g.nodes[d]? = some (.ins i)) (hregular : (i.map s.range).Regular) :
    g.RegularStep uninit s := by
  intro e rest j r he hj _
  obtain rfl : d = e := (List.cons.inj (hworklist.symm.trans he)).1
  obtain rfl : i = j := by simpa using hnode.symm.trans hj
  exact hregular

/-- Once the worklist is empty nothing happens. -/
lemma run_of_empty {uninit : Nat → Range} {N n : Nat}
    (hempty : (g.run uninit N).worklist = []) (hn : N ≤ n) : (g.run uninit n).worklist = [] := by
  induction n, hn using Nat.le_induction with
  | base => exact hempty
  | succ n _ ih =>
    show (g.step _ _).worklist = []
    unfold step
    rw [ih]
    exact ih

/-- `for (x = 5; 0 <= x && x <= 10; ) {}` -/
def restingLoop : RangeGraph where
  nodes := [.leaf ⟨5, false, 5, false⟩, .ins (.phi .int32 0 [2]),
    .ins (.beta 1 ⟨0, false, 10, false⟩)]
  uses d := [[1], [2], [1]].getD d []
  leaf_valid := by
    intro r hr
    have hr' : r = ⟨5, false, 5, false⟩ := by simpa using hr
    rw [hr']
    decide

/-- `x = 100; do { if (x < 5) break; if (x > 10) break; x = x + 100; } while (true)`. The
second beta contradicts what is known of `x` until its infinite range has gone once
around the loop. -/
def oscillatingLoop : RangeGraph where
  nodes := [.leaf ⟨100, false, 100, false⟩, .ins (.phi .int32 0 [4]),
    .ins (.beta 1 ⟨5, false, int32Max, false⟩), .ins (.beta 2 ⟨int32Min, false, 10, false⟩),
    .ins (.add .int32 false 3 0)]
  uses d := [[1, 4], [2], [3], [4], [1]].getD d []
  leaf_valid := by
    intro r hr
    have hr' : r = ⟨100, false, 100, false⟩ := by simpa using hr
    rw [hr']
    decide

/-- The states of one period. -/
def oscillation : List Propagation :=
  (List.range 8).map fun k => oscillatingLoop.run (fun _ => Range.unbounded) (6 + k)

end RangeGraph
end SpiderMonkey.Ion
