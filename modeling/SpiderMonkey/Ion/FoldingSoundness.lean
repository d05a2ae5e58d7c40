import SpiderMonkey.Ion.Folding

/-! # What folding preserves

An instruction computes the JavaScript operator on the numbers its operands hold. The
folds of bitwise instructions, additions and multiplications keep that number. Those
of subtractions, divisions and remainders keep it on all operands but the ones
`ArithOp.Misfolds` lists.
-/

namespace SpiderMonkey

open Lib.Binary64

/-! ## Numbers as they are stored -/

namespace Value

lemma setNumber_zero : setNumber 0 = int32 0 := by decide
lemma setNumber_neg_zero : setNumber (-0) = double (-0) := by decide
lemma setNumber_nan : setNumber nan = double nan := by decide

end Value

namespace Ion

lemma exists_of_mirTypeFromValue_int32 {v : Value} (h : mirTypeFromValue v = .int32) :
    ∃ n, v = .int32 n := by
  cases v <;> simp_all [mirTypeFromValue]

lemma exists_of_mirTypeFromValue_double {v : Value} (h : mirTypeFromValue v = .double) :
    ∃ d, v = .double d := by
  cases v <;> simp_all [mirTypeFromValue]

/-- A number is stored as an int32 or as a double. -/
lemma mirTypeFromValue_setNumber (d : Float) :
    mirTypeFromValue (.setNumber d) = .int32 ∨ mirTypeFromValue (.setNumber d) = .double := by
  unfold Value.setNumber
  split
  · exact Or.inl rfl
  · exact Or.inr rfl

/-! ## The operators -/

namespace ArithOp

/-- The number the JavaScript operator yields. -/
def result : ArithOp → Float → Float → Float
  | add, x, y => x + y
  | sub, x, y => x - y
  | mul, x, y => x * y
  | div, x, y => x / y
  | mod, x, y => fmod x y

@[simp] lemma evaluate_eq (op : ArithOp) (x y : Float) : op.evaluate x y = op.result x y := by
  cases op with
  | div => exact numberDiv_eq x y
  | mod => exact numberMod_eq x y
  | _ => rfl

/-- The operands on which the fold of an arithmetic instruction is wrong: `x - (-0)` is
not `x` for `x = -0`, `0 / y` is not `0` unless `y` is positive, `0 % y` is not `0` for a
zero or NaN, and `x % Infinity` is not `x` for an infinity. Where both operands are
constants the evaluated result is used, if it has the type of the instruction. -/
def Misfolds (op : ArithOp) (specialization : MIRType) (lhsConstant rhsConstant : Bool)
    (x y : Float) : Prop :=
  match op with
  | add => False
  | mul => False
  | sub => rhsConstant = true ∧ x = -0 ∧ y = -0
  | div => lhsConstant = true ∧ (x == 0) = true ∧ ¬ 0 < y ∧
      (rhsConstant = true → specialization = .int32 ∨ x = -0 ∧ y < 0)
  | mod =>
      lhsConstant = true ∧ rhsConstant = false ∧ (x == 0) = true ∧
        ((y == 0) = true ∨ y.isNaN = true) ∨
      lhsConstant = false ∧ rhsConstant = true ∧ x.isInf = true ∧ y.isInf = true

end ArithOp

namespace Folded

/-- The number a fold's result holds is the expected one, unless nothing is folded. -/
def Preserves (env : DefId → Value) (expected : Option Float) : Folded → Prop
  | self => True
  | operand d => (env d).toNumber? = expected
  | constant value => value.toNumber? = expected

end Folded

namespace MIRGraph

variable (G : MIRGraph)

/-- The number the JavaScript operator of an instruction yields on its operands. A
specialised bitwise instruction has int32 operands. -/
def jsNumber? (env : DefId → Value) (d : DefId) : Option Float :=
  match (G.definition d).op, (G.definition d).operands with
  | .arith op _ _, [lhs, rhs] =>
      match (env lhs).toNumber?, (env rhs).toNumber? with
      | some x, some y => some (op.result x y)
      | _, _ => none
  | .bitwise op _, [lhs, rhs] =>
      match env lhs, env rhs with
      | .int32 a, .int32 b => (op.evaluate a b).toNumber?
      | _, _ => none
  | _, _ => none

/-- The types the type policy gives an instruction and its two operands. -/
structure HasType (env : DefId → Value) (d lhs rhs : DefId) (type : MIRType) : Prop where
  result : (G.definition d).type = type
  operand : ∀ o ∈ [lhs, rhs], (G.definition o).type = type
  value : ∀ o ∈ [lhs, rhs], mirTypeFromValue (env o) = type

/-- What a fold relies on: two operands that hold their constant, if they are constants,
the types of the specialisation, if the instruction has one, and value numbers that are
the same for the same value only. -/
structure Specialized (valueNumber : Option (DefId → Nat)) (env : DefId → Value)
    (d lhs rhs : DefId) : Prop where
  operands : (G.definition d).operands = [lhs, rhs]
  constant : ∀ o ∈ [lhs, rhs], ∀ v, G.constant? o = some v → env o = v
  arith : ∀ op specialization t, (G.definition d).op = .arith op specialization t →
    specialization ≠ .none → (specialization = .int32 ∨ specialization = .double) ∧
      G.HasType env d lhs rhs specialization
  bitwise : ∀ op specialization, (G.definition d).op = .bitwise op specialization →
    specialization ≠ .none → specialization = .int32 ∧ G.HasType env d lhs rhs .int32
  valueNumber : ∀ vn, valueNumber = some vn → vn lhs = vn rhs → env lhs = env rhs

/-- The instruction is an arithmetic one and its operands are among those its fold is
wrong on. -/
def Misfolds (env : DefId → Value) (d lhs rhs : DefId) : Prop :=
  ∃ op specialization t, (G.definition d).op = .arith op specialization t ∧
    specialization ≠ .none ∧ ∃ x y, (env lhs).toNumber? = some x ∧ (env rhs).toNumber? = some y ∧
      op.Misfolds specialization (G.isConstant lhs) (G.isConstant rhs) x y

variable {G} {valueNumber : Option (DefId → Nat)} {env : DefId → Value} {d lhs rhs : DefId}

/-! ## Constant operands -/

lemma isConstant_eq (o : DefId) : G.isConstant o = (G.constant? o).isSome := rfl

/-- `IsConstant` of an operand that holds a number. -/
lemma isNumberConstant_eq {o : DefId} {x : Float}
    (hconst : ∀ v, G.constant? o = some v → env o = v) (hx : (env o).toNumber? = some x)
    (v : Float) : G.isNumberConstant o v = (G.isConstant o && x == v) := by
  rw [isConstant_eq]
  unfold isNumberConstant numberConstant?
  cases hvalue : G.constant? o with
  | none => rfl
  | some value =>
    rw [hconst value hvalue] at hx
    simp [hx]

/-- `EvaluateConstantOperands` of an arithmetic instruction: the result of the operator,
if both operands are constants and it has the type of the instruction. -/
lemma evaluateConstantOperands_arith {op : ArithOp} {specialization : MIRType} {t : Bool}
    {x y : Float} (h : G.Specialized valueNumber env d lhs rhs)
    (hop : (G.definition d).op = .arith op specialization t)
    (hx : (env lhs).toNumber? = some x) (hy : (env rhs).toNumber? = some y) :
    G.evaluateConstantOperands d lhs rhs =
      if (G.isConstant lhs = true ∧ G.isConstant rhs = true) ∧
        (G.definition d).type = mirTypeFromValue (.setNumber (op.result x y)) then
        some (.setNumber (op.result x y))
      else none := by
  have hlhs := h.constant lhs (by simp)
  have hrhs := h.constant rhs (by simp)
  rw [isConstant_eq, isConstant_eq]
  unfold evaluateConstantOperands
  cases hl : G.constant? lhs with
  | none => simp
  | some l =>
    cases hr : G.constant? rhs with
    | none => simp
    | some r =>
      rw [hlhs l hl] at hx
      rw [hrhs r hr] at hy
      simp [hop, evaluateOperands, hx, hy, Option.filter]

/-- An evaluated result is the expected number. -/
lemma preserves_evaluated {p : Prop} [Decidable p] {r : Float} {rest : Folded} :
    Folded.Preserves env (some r)
        (match (if p then some (Value.setNumber r) else none) with
        | some folded => .constant folded
        | none => rest) ↔
      (¬ p → rest.Preserves env (some r)) := by
  by_cases hp : p
  · simp [hp, Folded.Preserves]
  · simp [hp]

lemma preserves_ite {p : Prop} [Decidable p] {expected : Option Float} {a b : Folded} :
    (if p then a else b).Preserves env expected ↔
      (p → a.Preserves env expected) ∧ (¬ p → b.Preserves env expected) := by
  by_cases hp : p <;> simp [hp]

@[simp] lemma preserves_self {expected : Option Float} :
    Folded.self.Preserves env expected ↔ True := Iff.rfl

lemma preserves_operand {o : DefId} {x r : Float} (hx : (env o).toNumber? = some x) :
    (Folded.operand o).Preserves env (some r) ↔ x = r := by
  simp [Folded.Preserves, hx]

lemma HasType.numbers_int32 (h : G.HasType env d lhs rhs .int32) :
    ∃ a b, env lhs = .int32 a ∧ env rhs = .int32 b := by
  rcases exists_of_mirTypeFromValue_int32 (h.value lhs (by simp)) with ⟨a, ha⟩
  rcases exists_of_mirTypeFromValue_int32 (h.value rhs (by simp)) with ⟨b, hb⟩
  exact ⟨a, b, ha, hb⟩

/-- An int32 operand is not `-0`. -/
lemma HasType.number_ne_neg_zero (h : G.HasType env d lhs rhs .int32) {o : DefId}
    (ho : o ∈ [lhs, rhs]) {x : Float} (hx : (env o).toNumber? = some x) : x ≠ -0 := by
  rcases exists_of_mirTypeFromValue_int32 (h.value o ho) with ⟨a, ha⟩
  rw [ha] at hx
  rw [← Option.some.inj hx]
  exact ofInt32_ne_neg_zero a

/-- Where a zero divided by `y` is not that zero, only `-0` by a negative number is
stored as an int32. -/
lemma mirTypeFromValue_zero_div {x y : Float} (hx : (x == 0) = true) (hy : ¬ 0 < y) :
    mirTypeFromValue (.setNumber (x / y)) = .int32 ↔ x = -0 ∧ y < 0 := by
  rcases not_zero_lt_cases hy with hneg | hnone
  · rcases (beq_zero_iff x).mp hx with rfl | rfl
    · have hquotient : 0 / y = -0 := zero_div_of_neg hneg .positive
      rw [hquotient, Value.setNumber_neg_zero]
      exact iff_of_false (by decide) fun hzero => absurd hzero.1 (by decide)
    · have hquotient : -0 / y = 0 := zero_div_of_neg hneg .negative
      rw [hquotient, Value.setNumber_zero]
      exact iff_of_true rfl ⟨rfl, hneg⟩
  · have hquotient : x / y = nan := by
      rcases (beq_zero_iff x).mp hx with rfl | rfl
      · exact zero_div_of_zero_or_nan hnone .positive
      · exact zero_div_of_zero_or_nan hnone .negative
    rw [hquotient, Value.setNumber_nan]
    exact iff_of_false (by decide) fun hneg => not_neg_of_zero_or_nan hnone hneg.2

lemma tryFold_operand {type : MIRType} (h : G.HasType env d lhs rhs type) {o : DefId}
    (ho : o ∈ [lhs, rhs]) : G.tryFold d (.operand o) = .operand o := by
  unfold tryFold
  exact if_pos (h.result.trans (h.operand o ho).symm)

/-- `TryFold` with NaN folds a double instruction only. -/
lemma tryFold_nan_preserves (d : DefId) :
    (G.tryFold d (.constant (.double nan))).Preserves env (some nan) := by
  unfold tryFold
  split
  · rfl
  · trivial

lemma beq_inf_iff (z : Float) : (z == posInf) = true ∨ (z == negInf) = true ↔ z.isInf = true := by
  rw [isInf_iff, beq_iff_of_ne_zero (by decide) (by decide),
    beq_iff_of_ne_zero (by decide) (by decide)]

/-- A double instruction: one of its operands is NaN. -/
lemma HasType.double_of_isNaN {specialization : MIRType}
    (hspec : specialization = .int32 ∨ specialization = .double)
    (h : G.HasType env d lhs rhs specialization) {o : DefId} (ho : o ∈ [lhs, rhs]) {x : Float}
    (hx : (env o).toNumber? = some x) (hnan : x.isNaN = true) : specialization = .double := by
  rcases hspec with rfl | hdouble
  · rcases exists_of_mirTypeFromValue_int32 (h.value o ho) with ⟨a, ha⟩
    rw [ha] at hx
    rw [← Option.some.inj hx, isNaN_ofInt32] at hnan
    exact absurd hnan (by decide)
  · exact hdouble

lemma beq_zero_of_isInf {z : Float} (h : z.isInf = true) : (z == 0) = false := by
  rcases (isInf_iff z).mp h with rfl | rfl <;> decide

/-! ## Additions, multiplications and subtractions -/

section Folds

variable {specialization : MIRType} {t : Bool} {x y : Float}
variable (h : G.Specialized valueNumber env d lhs rhs)
variable (hx : (env lhs).toNumber? = some x) (hy : (env rhs).toNumber? = some y)

include h hx hy

lemma addFoldsTo_preserves (hop : (G.definition d).op = .arith .add specialization t) :
    (G.binaryArithFoldsTo .add specialization d lhs rhs).Preserves env (some (x + y)) := by
  unfold binaryArithFoldsTo
  split
  · trivial
  · rename_i hs
    rw [evaluateConstantOperands_arith h hop hx hy]
    apply preserves_evaluated.mpr
    intro _
    split
    · trivial
    · rename_i hint
      -- the operands are int32, and none of them is `-0`
      have hspec : specialization = .int32 := by simpa using hint
      subst hspec
      have htype := (h.arith _ _ _ hop hs).2
      have hx0 := htype.number_ne_neg_zero (by simp) hx
      have hy0 := htype.number_ne_neg_zero (by simp) hy
      rw [isNumberConstant_eq (h.constant lhs (by simp)) hx,
        isNumberConstant_eq (h.constant rhs (by simp)) hy]
      simp only [reduceCtorEq, if_false, preserves_ite, preserves_operand hx, preserves_operand hy,
        preserves_self, Bool.and_eq_true, ArithOp.identity, beq_zero_iff, hx0, hy0, or_false]
      constructor
      · rintro ⟨-, rfl⟩
        exact (add_zero hx0).symm
      · rintro -
        refine ⟨?_, fun _ => trivial⟩
        rintro ⟨-, rfl⟩
        exact (zero_add hy0).symm

lemma mulFoldsTo_preserves (hop : (G.definition d).op = .arith .mul specialization t) :
    (G.binaryArithFoldsTo .mul specialization d lhs rhs).Preserves env (some (x * y)) := by
  have hone : ∀ z : Float, (z == 1) = true ↔ z = 1 :=
    beq_iff_of_ne_zero (by decide) (by decide)
  unfold binaryArithFoldsTo
  split
  · trivial
  · rw [evaluateConstantOperands_arith h hop hx hy]
    apply preserves_evaluated.mpr
    intro _
    rw [isNumberConstant_eq (h.constant lhs (by simp)) hx,
      isNumberConstant_eq (h.constant rhs (by simp)) hy]
    simp only [reduceCtorEq, false_and, if_false, preserves_ite, preserves_operand hx,
      preserves_operand hy, preserves_self, Bool.and_eq_true, ArithOp.identity, hone]
    constructor
    · rintro ⟨-, rfl⟩
      exact (mul_one x).symm
    · rintro -
      refine ⟨?_, fun _ => trivial⟩
      rintro ⟨-, rfl⟩
      exact (one_mul y).symm

lemma subFoldsTo_preserves_iff (hop : (G.definition d).op = .arith .sub specialization t)
    (hs : specialization ≠ .none) :
    (G.binaryArithFoldsTo .sub specialization d lhs rhs).Preserves env (some (x - y)) ↔
      ¬ ArithOp.sub.Misfolds specialization (G.isConstant lhs) (G.isConstant rhs) x y := by
  unfold binaryArithFoldsTo ArithOp.Misfolds
  rw [if_neg hs, evaluateConstantOperands_arith h hop hx hy]
  refine preserves_evaluated.trans ?_
  rw [isNumberConstant_eq (h.constant rhs (by simp)) hy]
  simp only [reduceCtorEq, false_and, if_false, if_true, preserves_ite, preserves_operand hx,
    preserves_self, Bool.and_eq_true, ArithOp.identity, beq_zero_iff]
  constructor
  · rintro hfold ⟨hconst, rfl, rfl⟩
    -- `-0 - -0` is `0`, an int32, which a double subtraction is not evaluated to
    have htype := (h.arith _ _ _ hop hs).2
    have hdouble : specialization ≠ .int32 := by
      rintro rfl
      exact htype.number_ne_neg_zero (by simp) hx rfl
    have hmismatch : (G.definition d).type ≠
        mirTypeFromValue (.setNumber (ArithOp.sub.result (-0) (-0))) := by
      rw [htype.result]
      exact hdouble
    have hkept := (hfold fun hevaluated => hmismatch hevaluated.2).1 ⟨hconst, Or.inr rfl⟩
    exact absurd hkept (by decide)
  · intro hok _
    refine ⟨?_, fun _ => trivial⟩
    rintro ⟨hconst, rfl | rfl⟩
    · exact (sub_zero x).symm
    · exact ((sub_neg_zero_iff x).mpr fun hx0 => hok ⟨hconst, hx0, rfl⟩).symm

/-! ## Divisions and remainders -/

lemma divFoldsTo_preserves_iff (hop : (G.definition d).op = .arith .div specialization t)
    (hs : specialization ≠ .none) :
    (G.divFoldsTo specialization d lhs rhs).Preserves env (some (x / y)) ↔
      ¬ ArithOp.div.Misfolds specialization (G.isConstant lhs) (G.isConstant rhs) x y := by
  have htype := (h.arith _ _ _ hop hs).2
  have hone : (y == 1) = true ↔ y = 1 := beq_iff_of_ne_zero (by decide) (by decide) y
  unfold divFoldsTo ArithOp.Misfolds
  rw [if_neg hs, evaluateConstantOperands_arith h hop hx hy]
  refine preserves_evaluated.trans ?_
  rw [isNumberConstant_eq (h.constant lhs (by simp)) hx,
    isNumberConstant_eq (h.constant rhs (by simp)) hy]
  simp only [preserves_ite, preserves_operand hx, preserves_self, Bool.and_eq_true,
    Bool.or_eq_true, hone]
  constructor
  · rintro hfold ⟨hleft, hzero, hpos, hmismatch⟩
    -- the quotient is not evaluated: it has the type int32 for the operand `-0` only
    have hkept := (hfold ?_).1 (Or.inl ⟨hleft, hzero⟩)
    · exact hpos ((zero_div_iff ((beq_zero_iff x).mp hzero) y).mp hkept.symm)
    · rintro ⟨⟨-, hright⟩, hsame⟩
      rw [htype.result] at hsame
      have hint := mirTypeFromValue_zero_div hzero hpos
      rcases hmismatch hright with rfl | hneg
      · exact htype.number_ne_neg_zero (by simp) hx (hint.mp hsame.symm).1
      · have hspec : specialization = .int32 := hsame.trans (hint.mpr hneg)
        subst hspec
        exact htype.number_ne_neg_zero (by simp) hx hneg.1
  · intro hok hnot
    refine ⟨?_, fun _ => trivial⟩
    rintro (⟨hleft, hzero⟩ | ⟨-, rfl⟩)
    · apply Eq.symm
      rw [zero_div_iff ((beq_zero_iff x).mp hzero)]
      by_contra hpos
      refine hok ⟨hleft, hzero, hpos, fun hright => ?_⟩
      by_contra hdouble
      rw [not_or] at hdouble
      -- both are constants, and the quotient is a double as the instruction is
      refine hnot ⟨⟨hleft, hright⟩, ?_⟩
      have hresult := (mirTypeFromValue_setNumber (x / y)).resolve_left fun hint =>
        hdouble.2 ((mirTypeFromValue_zero_div hzero hpos).mp hint)
      have hspec := (h.arith _ _ _ hop hs).1.resolve_left hdouble.1
      rw [htype.result, hspec]
      exact hresult.symm
    · exact (div_one x).symm

lemma modFoldsTo_preserves_iff (hop : (G.definition d).op = .arith .mod specialization t)
    (hs : specialization ≠ .none) :
    (G.modFoldsTo specialization d lhs rhs).Preserves env (some (fmod x y)) ↔
      ¬ ArithOp.mod.Misfolds specialization (G.isConstant lhs) (G.isConstant rhs) x y := by
  have htype := (h.arith _ _ _ hop hs).2
  have hlhs := isNumberConstant_eq (h.constant lhs (by simp)) hx
  have hrhs := isNumberConstant_eq (h.constant rhs (by simp)) hy
  unfold modFoldsTo ArithOp.Misfolds
  rw [if_neg hs, evaluateConstantOperands_arith h hop hx hy]
  refine preserves_evaluated.trans ?_
  simp only [hlhs, hrhs, beq_nan, Bool.and_false, Bool.false_eq_true, if_false,
    tryFold_operand htype (by simp : lhs ∈ [lhs, rhs]), preserves_ite, preserves_operand hx,
    preserves_self, Bool.and_eq_true, Bool.or_eq_true, ← and_or_left, beq_inf_iff]
  constructor
  · rintro hfold (⟨hleft, hright, hx0, hy0⟩ | ⟨hleft, hright, hxinf, hyinf⟩)
    · have hkept := ((hfold (by simp [hright])).2 (by simp [hright])).1 ⟨hleft, hx0⟩
      rcases (zero_fmod_iff ((beq_zero_iff x).mp hx0) y).mp hkept.symm with ⟨hne, hnan⟩
      rcases hy0 with hy0 | hy0
      · exact absurd (hne.symm.trans hy0) (by decide)
      · exact absurd (hnan.symm.trans hy0) (by decide)
    · have hkept := ((((hfold (by simp [hleft])).2 (by simp [beq_zero_of_isInf hyinf])).2
        (by simp [hleft])).2 (by simp [hleft])).1 ⟨hright, hyinf⟩
      have hnone := (fmod_inf_iff x ((isInf_iff y).mp hyinf)).mp hkept.symm
      exact absurd (hnone.symm.trans hxinf) (by decide)
  · intro hok hnot
    refine ⟨?_, fun hy0 => ⟨?_, fun hx0 => ⟨?_, fun hxinf => ⟨?_, fun _ => trivial⟩⟩⟩⟩
    · rintro ⟨-, hy0⟩
      rw [fmod_zero x hy0]
      exact tryFold_nan_preserves d
    · rintro ⟨hleft, hx0⟩
      refine ((zero_fmod_iff ((beq_zero_iff x).mp hx0) y).mpr ?_).symm
      by_contra hnone
      have hy' : (y == 0) = true ∨ y.isNaN = true := by
        by_contra hboth
        simp only [not_or, Bool.not_eq_true] at hboth
        exact hnone hboth
      cases hright : G.isConstant rhs with
      | false => exact hok (Or.inl ⟨hleft, hright, hx0, hy'⟩)
      | true =>
        -- a constant NaN: both operands are, and the remainder is NaN, a double
        have hnan := hy'.resolve_left fun hzero => hy0 ⟨hright, hzero⟩
        refine hnot ⟨⟨hleft, hright⟩, ?_⟩
        have hresult : ArithOp.mod.result x y = nan := fmod_nan x hnan
        rw [htype.result, htype.double_of_isNaN (h.arith _ _ _ hop hs).1 (by simp) hy hnan,
          hresult, Value.setNumber_nan]
        rfl
    · rintro ⟨-, hinf⟩
      rw [inf_fmod ((isInf_iff x).mp hinf)]
      exact tryFold_nan_preserves d
    · rintro ⟨hright, hyinf⟩
      refine ((fmod_inf_iff x ((isInf_iff y).mp hyinf)).mpr ?_).symm
      by_contra hinf
      rw [Bool.not_eq_false] at hinf
      cases hleft : G.isConstant lhs with
      | true => exact hxinf ⟨hleft, hinf⟩
      | false => exact hok (Or.inr ⟨hleft, hright, hinf, hyinf⟩)

end Folds

/-! ## Bitwise instructions -/

/-- A zero as one of the two operands. -/
lemma foldIfZero_preserves {op : BitOp} {a b : Int32} (hlhs : env lhs = .int32 a)
    (hrhs : env rhs = .int32 b) {i : Fin 2} (hzero : (if i = 0 then a else b) = 0) :
    (op.foldIfZero i lhs rhs).Preserves env (op.evaluate a b).toNumber? := by
  match i, hzero with
  | 0, ha =>
    have ha : a = 0 := ha
    subst ha
    have hshift : ∀ k : UInt32, Value.setNumberUnsigned (0 >>> k) = .int32 0 := by
      intro k
      rw [UInt32.zero_shiftRight]
      rfl
    cases op with
    | ursh =>
      simp only [BitOp.foldIfZero, BitOp.evaluate, Folded.Preserves, hlhs]
      exact congrArg Value.toNumber? (hshift _).symm
    | _ => simp [BitOp.foldIfZero, BitOp.evaluate, Folded.Preserves, hlhs, hrhs]
  | 1, hb =>
    have hb : b = 0 := hb
    subst hb
    cases op <;> simp [BitOp.foldIfZero, BitOp.evaluate, Folded.Preserves, hlhs, hrhs]

/-- The same value in both operands. -/
lemma foldIfEqual_preserves {op : BitOp} {a b : Int32} (hlhs : env lhs = .int32 a)
    (hsame : a = b) : (op.foldIfEqual lhs).Preserves env (op.evaluate a b).toNumber? := by
  subst hsame
  cases op <;> simp [BitOp.foldIfEqual, BitOp.evaluate, Folded.Preserves, hlhs]

/-- An int32 constant that `IsConstant` takes for zero is zero. -/
lemma eq_zero_of_isNumberConstant {o : DefId} {a : Int32}
    (hconst : ∀ v, G.constant? o = some v → env o = v) (ho : env o = .int32 a)
    (hzero : G.isNumberConstant o 0 = true) : a = 0 := by
  rw [isNumberConstant_eq hconst (by rw [ho]; rfl), Bool.and_eq_true] at hzero
  have hnumber := ((beq_zero_iff _).mp hzero.2).resolve_right (ofInt32_ne_neg_zero a)
  exact (ofInt32_eq_zero_iff a).mp hnumber

lemma equalValues_sound (h : G.Specialized valueNumber env d lhs rhs)
    (heq : equalValues valueNumber lhs rhs = true) : env lhs = env rhs := by
  unfold equalValues at heq
  split at heq
  · rename_i vn
    exact h.valueNumber vn rfl (by simpa using heq)
  · rw [beq_iff_eq.mp heq]

lemma bitwiseFoldsTo_preserves {op : BitOp} {specialization : MIRType}
    (h : G.Specialized valueNumber env d lhs rhs)
    (hop : (G.definition d).op = .bitwise op specialization) {a b : Int32}
    (hlhs : env lhs = .int32 a) (hrhs : env rhs = .int32 b) :
    (G.bitwiseFoldsTo valueNumber op specialization d lhs rhs).Preserves env
      (op.evaluate a b).toNumber? := by
  unfold bitwiseFoldsTo
  split
  · trivial
  · split
    · rename_i folded hfolded
      -- both operands are constants, and these are `a` and `b`
      unfold evaluateConstantOperands at hfolded
      cases hl : G.constant? lhs with
      | none => simp [hl] at hfolded
      | some l =>
        cases hr : G.constant? rhs with
        | none => simp [hl, hr] at hfolded
        | some r =>
          have hleft := h.constant lhs (by simp) l hl
          have hright := h.constant rhs (by simp) r hr
          rw [hlhs] at hleft
          rw [hrhs] at hright
          subst hleft hright
          simp only [hl, hr, hop, evaluateOperands, Value.toInt32?, Option.filter_eq_some_iff,
            Option.some.injEq] at hfolded
          rw [← hfolded.1]
          rfl
    · split_ifs with hleft hright hequal
      · exact foldIfZero_preserves hlhs hrhs
          (eq_zero_of_isNumberConstant (h.constant lhs (by simp)) hlhs hleft)
      · exact foldIfZero_preserves hlhs hrhs
          (eq_zero_of_isNumberConstant (h.constant rhs (by simp)) hrhs hright)
      · have hsame := equalValues_sound h hequal
        rw [hlhs, hrhs] at hsame
        exact foldIfEqual_preserves hlhs (Value.int32.inj hsame)
      · trivial

/-! ## Every fold -/

lemma HasType.numbers {specialization : MIRType}
    (hspec : specialization = .int32 ∨ specialization = .double)
    (h : G.HasType env d lhs rhs specialization) {o : DefId} (ho : o ∈ [lhs, rhs]) :
    ∃ x, (env o).toNumber? = some x := by
  rcases hspec with rfl | rfl
  · rcases exists_of_mirTypeFromValue_int32 (h.value o ho) with ⟨a, ha⟩
    exact ⟨ofInt32 a, by rw [ha]; rfl⟩
  · rcases exists_of_mirTypeFromValue_double (h.value o ho) with ⟨x, hx⟩
    exact ⟨x, by rw [hx]; rfl⟩

/-- `foldsTo` of an arithmetic instruction that is not specialised. -/
lemma foldsTo_none {op : ArithOp} {t : Bool} (hop : (G.definition d).op = .arith op .none t)
    (hoperands : (G.definition d).operands = [lhs, rhs]) :
    G.foldsTo valueNumber d = .self := by
  unfold foldsTo
  rw [hop, hoperands]
  cases op <;> simp [divFoldsTo, modFoldsTo, binaryArithFoldsTo]

/-- `Misfolds` of a specialised arithmetic instruction. -/
lemma misfolds_iff {op : ArithOp} {specialization : MIRType} {t : Bool} {x y : Float}
    (hop : (G.definition d).op = .arith op specialization t) (hs : specialization ≠ .none)
    (hx : (env lhs).toNumber? = some x) (hy : (env rhs).toNumber? = some y) :
    G.Misfolds env d lhs rhs ↔
      op.Misfolds specialization (G.isConstant lhs) (G.isConstant rhs) x y := by
  constructor
  · rintro ⟨op', specialization', t', hop', -, x', y', hx', hy', hmis⟩
    rw [hop] at hop'
    rw [hx] at hx'
    rw [hy] at hy'
    cases hop'
    cases hx'
    cases hy'
    exact hmis
  · intro hmis
    exact ⟨op, specialization, t, hop, hs, x, y, hx, hy, hmis⟩

/-- `foldsTo` keeps the number the operator yields, exactly if the operands are not among
those it is wrong on. -/
lemma foldsTo_preserves_iff (h : G.Specialized valueNumber env d lhs rhs) :
    (G.foldsTo valueNumber d).Preserves env (G.jsNumber? env d) ↔ ¬ G.Misfolds env d lhs rhs := by
  have hoperands := h.operands
  cases hop : (G.definition d).op with
  | arith op specialization t =>
    by_cases hs : specialization = .none
    · subst hs
      rw [foldsTo_none hop hoperands]
      refine iff_of_true trivial ?_
      rintro ⟨op', specialization', t', hop', hs', -⟩
      rw [hop] at hop'
      cases hop'
      exact hs' rfl
    · rcases h.arith _ _ _ hop hs with ⟨hspec, htype⟩
      rcases htype.numbers hspec (by simp : lhs ∈ [lhs, rhs]) with ⟨x, hx⟩
      rcases htype.numbers hspec (by simp : rhs ∈ [lhs, rhs]) with ⟨y, hy⟩
      have hexpected : G.jsNumber? env d = some (op.result x y) := by
        simp only [jsNumber?, hop, hoperands, hx, hy]
      rw [misfolds_iff hop hs hx hy, hexpected]
      unfold foldsTo
      rw [hop, hoperands]
      cases op with
      | add => exact iff_of_true (addFoldsTo_preserves h hx hy hop) id
      | sub => exact subFoldsTo_preserves_iff h hx hy hop hs
      | mul => exact iff_of_true (mulFoldsTo_preserves h hx hy hop) id
      | div => exact divFoldsTo_preserves_iff h hx hy hop hs
      | mod => exact modFoldsTo_preserves_iff h hx hy hop hs
  | bitwise op specialization =>
    have hno : ¬ G.Misfolds env d lhs rhs := by
      rintro ⟨op', specialization', t', hop', -⟩
      rw [hop] at hop'
      cases hop'
    refine iff_of_true ?_ hno
    unfold foldsTo
    rw [hop, hoperands]
    by_cases hs : specialization = .none
    · subst hs
      trivial
    · rcases (h.bitwise _ _ hop hs).2.numbers_int32 with ⟨a, b, hlhs, hrhs⟩
      have hexpected : G.jsNumber? env d = (op.evaluate a b).toNumber? := by
        simp only [jsNumber?, hop, hoperands, hlhs, hrhs]
      rw [hexpected]
      exact bitwiseFoldsTo_preserves h hop hlhs hrhs
  | _ =>
    refine iff_of_true ?_ ?_
    · unfold foldsTo
      rw [hop]
      trivial
    · rintro ⟨op', specialization', t', hop', -⟩
      rw [hop] at hop'
      cases hop'

/-- Without value numbers only a definition itself has the same value. -/
lemma Specialized.without_numbers (h : G.Specialized valueNumber env d lhs rhs) :
    G.Specialized none env d lhs rhs where
  operands := h.operands
  constant := h.constant
  arith := h.arith
  bitwise := h.bitwise
  valueNumber := by
    intro vn hvn
    simp at hvn

lemma isSome_numberConstant {o : DefId} {x : Float}
    (hconst : ∀ v, G.constant? o = some v → env o = v) (hx : (env o).toNumber? = some x) :
    (G.numberConstant? o).isSome = G.isConstant o := by
  rw [isConstant_eq]
  unfold numberConstant?
  cases hvalue : G.constant? o with
  | none => rfl
  | some value =>
    rw [hconst value hvalue] at hx
    simp [hx]

/-- `foldsToConstant` folds arithmetic on two constants only, and is wrong where
`foldsTo` is. -/
lemma foldsToConstant_preserves_iff (h : G.Specialized valueNumber env d lhs rhs) :
    (G.foldsToConstant d).Preserves env (G.jsNumber? env d) ↔
      ¬ (G.Misfolds env d lhs rhs ∧ G.isConstant lhs = true ∧ G.isConstant rhs = true) := by
  have hoperands := h.operands
  have hfoldsTo := foldsTo_preserves_iff h.without_numbers
  unfold foldsToConstant
  cases hop : (G.definition d).op with
  | arith op specialization t =>
    simp only [hoperands]
    by_cases hs : specialization = .none
    · subst hs
      have hself : G.foldsTo none d = .self := foldsTo_none hop hoperands
      rw [hself] at hfoldsTo ⊢
      have hno := hfoldsTo.mp trivial
      split
      · exact iff_of_true trivial fun hmis => hno hmis.1
      · exact iff_of_true trivial fun hmis => hno hmis.1
    · rcases h.arith _ _ _ hop hs with ⟨hspec, htype⟩
      rcases htype.numbers hspec (by simp : lhs ∈ [lhs, rhs]) with ⟨x, hx⟩
      rcases htype.numbers hspec (by simp : rhs ∈ [lhs, rhs]) with ⟨y, hy⟩
      rw [isSome_numberConstant (h.constant lhs (by simp)) hx,
        isSome_numberConstant (h.constant rhs (by simp)) hy]
      split
      · rename_i hboth
        rw [hfoldsTo, Bool.and_eq_true_iff.mp hboth |>.1, Bool.and_eq_true_iff.mp hboth |>.2]
        simp
      · rename_i hnot
        exact iff_of_true trivial fun hmis => hnot (by simp [hmis.2])
  | bitwise op specialization =>
    have hno : ¬ G.Misfolds env d lhs rhs := by
      rintro ⟨op', specialization', t', hop', -⟩
      rw [hop] at hop'
      cases hop'
    refine iff_of_true ?_ fun hmis => hno hmis.1
    simp only [hoperands]
    split
    · exact hfoldsTo.mpr hno
    · trivial
  | _ =>
    refine iff_of_true trivial ?_
    rintro ⟨⟨op', specialization', t', hop', -⟩, -⟩
    rw [hop] at hop'
    cases hop'

/-- The folds of arithmetic and bitwise instructions keep the number of the operator,
exactly if the operands are not among those they are wrong on. -/
theorem folding_preserves_iff (h : G.Specialized valueNumber env d lhs rhs) :
    ((G.foldsTo valueNumber d).Preserves env (G.jsNumber? env d) ↔
      ¬ G.Misfolds env d lhs rhs) ∧
    ((G.foldsToConstant d).Preserves env (G.jsNumber? env d) ↔
      ¬ (G.Misfolds env d lhs rhs ∧ G.isConstant lhs = true ∧ G.isConstant rhs = true)) :=
  ⟨foldsTo_preserves_iff h, foldsToConstant_preserves_iff h⟩

/-! ## A division of zero -/

/-- `return 0 / y` for an int32 parameter, specialised to int32. -/
def zeroDivision : MIRGraph where
  blocks := [0]
  entryBlock := 0
  osrBlock := none
  block _ := ⟨.normal, [], [0, 1, 2], .other [2] false [], [], 0, 0, 0⟩
  definition
    | 0 => ⟨.constant (.int32 0), [], 0, .int32⟩
    | 1 => ⟨.other false, [], 0, .int32⟩
    | _ => ⟨.arith .div .int32 false, [0, 1], 0, .int32⟩

def zeroDivisionEnv (y : Int32) : DefId → Value
  | 0 => .int32 0
  | _ => .int32 y

lemma zeroDivision_specialized (y : Int32) :
    zeroDivision.Specialized none (zeroDivisionEnv y) 2 0 1 where
  operands := rfl
  constant := by
    intro o ho v hv
    simp only [List.mem_cons, List.not_mem_nil, or_false] at ho
    rcases ho with rfl | rfl
    · exact Option.some.inj hv
    · cases hv
  arith := by
    intro op specialization t hop _
    cases hop
    refine ⟨Or.inl rfl, rfl, ?_, ?_⟩ <;> intro o ho <;>
      simp only [List.mem_cons, List.not_mem_nil, or_false] at ho <;>
      rcases ho with rfl | rfl <;> rfl
  bitwise := by
    intro op specialization hop
    cases hop
  valueNumber := by
    intro vn hvn
    simp at hvn

/-- `0 / 5` is folded to `0`, the right number. -/
theorem folding_preserves_iff_zeroDivision :
    (zeroDivision.foldsTo none 2).Preserves (zeroDivisionEnv 5)
      (zeroDivision.jsNumber? (zeroDivisionEnv 5) 2) := by
  refine (folding_preserves_iff (zeroDivision_specialized 5)).1.mpr ?_
  intro hmis
  have hoperands : ArithOp.div.Misfolds .int32 true false (ofInt32 0) (ofInt32 5) :=
    (misfolds_iff rfl (by decide) rfl rfl).mp hmis
  exact hoperands.2.2.1 (by decide)

/-- `0 / -5` is folded to `0`, where the operator yields `-0`. -/
theorem folding_fails_zeroDivision :
    ¬ ∀ (G : MIRGraph) (valueNumber : Option (DefId → Nat)) (env : DefId → Value)
      (d lhs rhs : DefId), G.Specialized valueNumber env d lhs rhs →
        (G.foldsTo valueNumber d).Preserves env (G.jsNumber? env d) := by
  intro h
  have hkept := h zeroDivision none (zeroDivisionEnv (-5)) 2 0 1 (zeroDivision_specialized (-5))
  exact absurd (show some (ofInt32 0) = some (ofInt32 0 / ofInt32 (-5)) from hkept) (by decide)

end MIRGraph
end Ion
end SpiderMonkey
