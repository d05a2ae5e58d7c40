import SpiderMonkey.Ion.CompareFold

/-! # Where folding of comparisons is right

A fold is right where no object is asked: where no operand that may be compared in a way of its own
is compared loosely with null or undefined, and where no constant object is compared by more than
its identity.
-/

namespace SpiderMonkey.Ion

open Lib.Binary64 Bool Option

/-! ## Operands -/

/-- The values of a type. A number of type double may be stored as an int32. -/
def HasType : MIRType → Value → Prop
  | .value, v => v ≠ .magic
  | .double, v => v.tag = .int32 ∨ v.tag = .double
  | .undefined, v => v = .undefined
  | .null, v => v = .null
  | .boolean, v => v.tag = .boolean
  | .int32, v => v.tag = .int32
  | .string, v => v.tag = .string
  | .object, v => v.tag = .object
  | _, _ => False

/-- A value an operand may have when it is run. -/
structure OperandHas (C : ObjectClasses) (types : Option OperandTypes) (x : CompareOperand)
    (v : Value) : Prop where
  type : HasType x.type v
  constant : ∀ c, x.constant = some c → v = c ∧ x.type = mirTypeFromValue c
  known : ∀ t, types = some t → HasType t.known v
  ordinary : ∀ t, types = some t → t.specialEquality = false → ∀ a, v = .object a →
    C.isXML a = false ∧ C.hasEquality a = false

/-- If the comparison folds, then to what the interpreter comes to for all values that the operands
may have, whatever objects answer at the time of compilation and when it is run. -/
def FoldIsRight (stringToNumber : String → Float) (op : CompareOp)
    (lhsTypes rhsTypes : Option OperandTypes) (lhs rhs : CompareOperand) : Prop :=
  ∀ (C : ObjectClasses) (compiling running : ObjectHooks) (result b : Bool) (v w : Value),
    OperandHas C lhsTypes lhs v → OperandHas C rhsTypes rhs w →
    compareFoldsTo stringToNumber C compiling result op lhsTypes rhsTypes lhs rhs = some b →
      op.interpret stringToNumber C running v w = some b

/-- Nothing is known that excludes a special equality. -/
def mayBeSpecial (types : Option OperandTypes) : Bool := types.all fun t => t.specialEquality

/-- The comparison of two constants asks an object. -/
def constantsAsk (op : CompareOp) (lspecial rspecial : Bool) : Value → Value → Bool
  | .object a, .object b =>
    if op.isStrict || op.isLoose then
      if a = b then lspecial && rspecial else lspecial || rspecial
    else true
  | .object _, r => !op.isStrict && (!(op.isLoose && r.isNullOrUndefined) || lspecial)
  | l, .object _ => !op.isStrict && (!(op.isLoose && l.isNullOrUndefined) || rspecial)
  | _, _ => false

/-- An object is asked, by the fold or by what it stands for. -/
def asksObject (op : CompareOp) (lhsTypes rhsTypes : Option OperandTypes)
    (lhs rhs : CompareOperand) : Bool :=
  let (specialization, swapped) := inferCompare op lhsTypes rhsTypes
  let (left, right) := if swapped then (rhs, lhs) else (lhs, rhs)
  let (leftTypes, rightTypes) := if swapped then (rhsTypes, lhsTypes) else (lhsTypes, rhsTypes)
  if specialization.isNullOrUndefined then
    op.isLoose && left.type = .object && mayBeSpecial leftTypes
  else
    match left.constant, right.constant with
    | some l, some r => constantsAsk op (mayBeSpecial leftTypes) (mayBeSpecial rightTypes) l r
    | _, _ => false

section

variable {stringToNumber : String → Float} {C : ObjectClasses} {hooks : ObjectHooks}
  {op : CompareOp} {types lhsTypes rhsTypes : Option OperandTypes} {x lhs rhs : CompareOperand}
  {v w l r : Value} {specialization : MIRType} {swapped b : Bool}

lemma OperandHas.isXML (h : OperandHas C types x v) (hspecial : mayBeSpecial types = false) :
    v.isXML C = false := by
  cases types with
  | none => cases hspecial
  | some t =>
    cases v with
    | object a => exact (h.ordinary t rfl hspecial a rfl).1
    | _ => rfl

lemma OperandHas.constant_type (h : OperandHas C types x v) {c : Value}
    (hc : x.constant = some c) : v = c ∧ x.type = mirTypeFromValue c ∧ c ≠ .magic := by
  obtain ⟨rfl, htype⟩ := h.constant c hc
  refine ⟨rfl, htype, ?_⟩
  rintro rfl
  have hmagic := h.type
  rw [htype] at hmagic
  exact hmagic

/-! ## Inference -/

/-- Swapped or not, a specialization that is null, undefined or boolean is what is known of the
right operand. -/
structure FitsRight (op : CompareOp) (lhsTypes rhsTypes : Option OperandTypes)
    (inferred : MIRType × Bool) : Prop where
  nullish : inferred.1.isNullOrUndefined = true → op.isStrict = true ∨ op.isLoose = true
  strict : inferred.1 = .boolean → op.isStrict = true
  known : inferred.1.isNullOrUndefined = true ∨ inferred.1 = .boolean →
    ∃ t, (if inferred.2 then lhsTypes else rhsTypes) = some t ∧ t.known = inferred.1
  swapped : inferred.2 = true → inferred.1.isNullOrUndefined = true ∨ inferred.1 = .boolean

lemma FitsRight.of_other {m : MIRType} (hnull : m.isNullOrUndefined = false)
    (hbool : m ≠ .boolean) : FitsRight op lhsTypes rhsTypes (m, false) where
  nullish h := absurd (hnull.symm.trans h) false_ne_true
  strict h := absurd h hbool
  known h := h.elim (fun h => absurd (hnull.symm.trans h) false_ne_true) fun h => absurd h hbool
  swapped h := absurd h false_ne_true

lemma not_boolean_of_nullish {m : MIRType} (h : m.isNullOrUndefined = true) : m ≠ .boolean := by
  rintro rfl
  cases h

lemma FitsRight.of_nullish {tl tr : OperandTypes} (hop : op.isStrict = true ∨ op.isLoose = true) :
    (tl.known.isNullOrUndefined = true → FitsRight op (some tl) (some tr) (tl.known, true)) ∧
      (tr.known.isNullOrUndefined = true → FitsRight op (some tl) (some tr) (tr.known, false)) := by
  constructor
  · intro h
    exact ⟨fun _ => hop, fun hbool => absurd hbool (not_boolean_of_nullish h),
      fun _ => ⟨tl, rfl, rfl⟩, fun _ => .inl h⟩
  · intro h
    exact ⟨fun _ => hop, fun hbool => absurd hbool (not_boolean_of_nullish h),
      fun _ => ⟨tr, rfl, rfl⟩, fun hswap => absurd hswap false_ne_true⟩

lemma inferEquality_fits {tl tr : OperandTypes} (hop : op.isStrict = true ∨ op.isLoose = true)
    {inferred : MIRType × Bool} (h : inferEquality tl tr = some inferred) :
    FitsRight op (some tl) (some tr) inferred := by
  unfold inferEquality at h
  split_ifs at h with _ _ _ hl hr
  · cases h
    exact .of_other rfl (by decide)
  · cases h
    exact .of_other rfl (by decide)
  · cases h
    exact .of_other rfl (by decide)
  · cases h
    exact (FitsRight.of_nullish hop).1 hl
  · cases h
    exact (FitsRight.of_nullish hop).2 hr

lemma inferStrict_fits {tl tr : OperandTypes} (hop : op.isStrict = true) :
    FitsRight op (some tl) (some tr) (inferStrict tl tr) := by
  unfold inferStrict
  split_ifs with hl hr
  · exact ⟨fun _ => .inl hop, fun _ => hop, fun _ => ⟨tl, rfl, hl⟩, fun _ => .inr rfl⟩
  · exact ⟨fun _ => .inl hop, fun _ => hop, fun _ => ⟨tr, rfl, hr⟩,
      fun hswap => absurd hswap false_ne_true⟩
  · exact .of_other rfl (by decide)

lemma inferCompare_fits : FitsRight op lhsTypes rhsTypes (inferCompare op lhsTypes rhsTypes) := by
  cases lhsTypes with
  | none => exact .of_other rfl (by decide)
  | some tl =>
  cases rhsTypes with
  | none => exact .of_other rfl (by decide)
  | some tr =>
  have hequality : ∀ {rest : MIRType × Bool}, op.isStrict = true ∨ op.isLoose = true →
      FitsRight op (some tl) (some tr) rest →
        FitsRight op (some tl) (some tr) ((inferEquality tl tr).getD rest) := by
    intro rest hop hrest
    cases h : inferEquality tl tr with
    | none => exact hrest
    | some inferred => exact inferEquality_fits hop h
  unfold inferCompare
  simp only
  split_ifs
  · exact .of_other rfl (by decide)
  · exact .of_other rfl (by decide)
  · cases op with
    | stricteq => exact hequality (.inl rfl) (inferStrict_fits rfl)
    | strictne => exact hequality (.inl rfl) (inferStrict_fits rfl)
    | eq => exact hequality (.inr rfl) (.of_other rfl (by decide))
    | ne => exact hequality (.inr rfl) (.of_other rfl (by decide))
    | _ => exact .of_other rfl (by decide)

/-! ## Folds by type -/

/-- What an equality comes to, from both equalities of its operands. -/
def CompareOp.ofEqualities (op : CompareOp) (loose strict : Bool) : Bool :=
  match op with
  | .eq => loose
  | .ne => !loose
  | .stricteq => strict
  | _ => !strict

lemma interpret_equality (hop : op.isStrict = true ∨ op.isLoose = true) (loose : Bool)
    (hloose : op.isLoose = true → Value.looselyEqual stringToNumber C hooks l r = some loose) :
    op.interpret stringToNumber C hooks l r = some (op.ofEqualities loose (l.strictlyEqual r)) := by
  cases op with
  | eq => exact hloose rfl
  | ne =>
    unfold CompareOp.interpret
    rw [hloose rfl]
    rfl
  | stricteq => rfl
  | strictne => rfl
  | _ => rcases hop with hop | hop <;> cases hop

/-- With null or undefined, the strict equality is one of types. -/
lemma strictlyEqual_nullish {n : Value} (hn : HasType specialization n)
    (hnull : specialization.isNullOrUndefined = true) :
    v.strictlyEqual n = decide (mirTypeFromValue v = specialization) ∧
      n.strictlyEqual v = decide (mirTypeFromValue v = specialization) := by
  cases specialization with
  | undefined =>
    cases hn
    cases v <;> exact ⟨rfl, rfl⟩
  | null =>
    cases hn
    cases v <;> exact ⟨rfl, rfl⟩
  | _ => cases hnull

lemma equality_cases (hop : op.isStrict = true ∨ op.isLoose = true) :
    op = .eq ∨ op = .ne ∨ op = .stricteq ∨ op = .strictne := by
  cases op <;> simp_all [CompareOp.isStrict, CompareOp.isLoose]

/-- A type that is not open says whether its values are null or undefined. -/
lemma hasType_nullish {t : MIRType} (hv : HasType t v) (ht : t ≠ .value)
    (hnull : specialization.isNullOrUndefined = true) :
    v.isNullOrUndefined = t.isNullOrUndefined ∧
      decide (mirTypeFromValue v = specialization) = decide (t = specialization) := by
  cases specialization with
  | undefined =>
    cases t <;> cases v <;>
      (first
        | exact ⟨rfl, rfl⟩
        | exact absurd rfl ht
        | (rcases hv with hv | hv <;> cases hv))
  | null =>
    cases t <;> cases v <;>
      (first
        | exact ⟨rfl, rfl⟩
        | exact absurd rfl ht
        | (rcases hv with hv | hv <;> cases hv))
  | _ => cases hnull

/-- The fold of a comparison with null or undefined. -/
lemma tryFold_nullish (hop : op.isStrict = true ∨ op.isLoose = true)
    (hnull : specialization.isNullOrUndefined = true) (hv : HasType x.type v)
    (h : tryFold op specialization x = some b) :
    b = op.ofEqualities v.isNullOrUndefined (mirTypeFromValue v = specialization) := by
  obtain ⟨t, constant⟩ := x
  unfold tryFold at h
  rw [if_pos hnull] at h
  have ht : t ≠ .value := by
    rintro rfl
    cases h
  obtain ⟨hloose, hstrict⟩ := hasType_nullish hv ht hnull
  rw [hloose, hstrict]
  cases specialization with
  | undefined =>
    rcases equality_cases hop with rfl | rfl | rfl | rfl <;>
      cases t <;> first | (cases h; rfl) | cases h
  | null =>
    rcases equality_cases hop with rfl | rfl | rfl | rfl <;>
      cases t <;> first | (cases h; rfl) | cases h
  | _ => cases hnull

/-- What folds against a boolean is none. -/
lemma tryFold_boolean (hop : op.isStrict = true) (hv : HasType x.type v)
    (hw : HasType .boolean w) (h : tryFold op .boolean x = some b) :
    b = op.ofEqualities false false ∧ v.strictlyEqual w = false ∧ w.strictlyEqual v = false := by
  obtain ⟨t, constant⟩ := x
  have hb : b = op.ofEqualities false false := by
    rcases equality_cases (.inl hop) with rfl | rfl | rfl | rfl
    · cases hop
    · cases hop
    · cases t <;> first | (cases h; rfl) | cases h
    · cases t <;> first | (cases h; rfl) | cases h
  refine ⟨hb, ?_⟩
  cases w with
  | boolean c =>
    cases t <;> cases v <;>
      (first
        | exact ⟨rfl, rfl⟩
        | (cases hv; done)
        | (rcases hv with hv | hv <;> cases hv)
        | cases h)
  | _ => cases hw

/-- A type-based fold is right, in both orders of the operands, if no object is asked. -/
lemma tryFold_right (hv : HasType x.type v) (hw : HasType specialization w)
    (hspec : specialization.isNullOrUndefined = true ∧ (op.isStrict = true ∨ op.isLoose = true) ∨
      specialization = .boolean ∧ op.isStrict = true)
    (hxml : op.isLoose = true → v.isXML C = false) (h : tryFold op specialization x = some b) :
    op.interpret stringToNumber C hooks v w = some b ∧
      op.interpret stringToNumber C hooks w v = some b := by
  rcases hspec with ⟨hnull, hop⟩ | ⟨rfl, hop⟩
  · obtain ⟨hvw, hwv⟩ := strictlyEqual_nullish (v := v) hw hnull
    have hw' : w.isNullOrUndefined = true := by
      cases specialization with
      | undefined =>
        cases hw
        rfl
      | null =>
        cases hw
        rfl
      | _ => cases hnull
    have hloose : op.isLoose = true →
        Value.looselyEqual stringToNumber C hooks v w = some v.isNullOrUndefined ∧
          Value.looselyEqual stringToNumber C hooks w v = some v.isNullOrUndefined :=
      fun hl => Value.looselyEqual_nullish hw' (hxml hl)
    rw [tryFold_nullish hop hnull hv h, interpret_equality hop _ fun hl => (hloose hl).1,
      interpret_equality hop _ fun hl => (hloose hl).2, hvw, hwv]
    exact ⟨rfl, rfl⟩
  · obtain ⟨hb, hvw, hwv⟩ := tryFold_boolean hop hv hw h
    have hno : op.isLoose ≠ true := by
      rcases equality_cases (.inl hop) with rfl | rfl | rfl | rfl <;>
        first | exact Bool.noConfusion | cases hop
    rw [hb, interpret_equality (.inl hop) false fun hl => absurd hl hno,
      interpret_equality (.inl hop) false fun hl => absurd hl hno, hvw, hwv]
    exact ⟨rfl, rfl⟩

/-! ## Folds of constants -/

section

variable {running compiling : ObjectHooks} {result : Bool} {y : CompareOperand}
  {lspecial rspecial : Bool}

/-- An equality of constants folds to what `LooselyEqual` comes to, once a strict one has compared
the types. -/
lemma evaluateCompare_equality (hx : x.constant = some l) (hy : y.constant = some r)
    (hop : op.isStrict = true ∨ op.isLoose = true) :
    evaluateCompare stringToNumber C hooks result op x y =
      if op.isStrict && !l.sameType r then none
      else
        some (op.ofEqualities ((Value.looselyEqual stringToNumber C hooks l r).getD result)
          ((Value.looselyEqual stringToNumber C hooks l r).getD result)) := by
  unfold evaluateCompare
  rw [hx, hy]
  rcases equality_cases hop with rfl | rfl | rfl | rfl
  · rfl
  · rfl
  · simp only [CompareOp.isStrict, Bool.true_and]
    rfl
  · simp only [CompareOp.isStrict, Bool.true_and]
    rfl

lemma ofEqualities_loose (hop : op.isLoose = true) (c d e : Bool) :
    op.ofEqualities c d = op.ofEqualities c e := by
  rcases equality_cases (.inr hop) with rfl | rfl | rfl | rfl
  · rfl
  · rfl
  · cases hop
  · cases hop

lemma not_strict_of_loose (hop : op.isLoose = true) : op.isStrict = false := by
  cases op <;> first | rfl | cases hop

/-- Two primitive constants. -/
lemma evaluateCompare_primitive (hx : x.constant = some l) (hy : y.constant = some r)
    (hl : ∀ a, l ≠ .object a) (hr : ∀ a, r ≠ .object a) (hl' : l ≠ .magic) (hr' : r ≠ .magic)
    (h : evaluateCompare stringToNumber C compiling result op x y = some b) :
    op.interpret stringToNumber C running l r = some b := by
  -- the comparison does not fail, at the one time as at the other
  have hrelation : ∀ intOp floatOp,
      (Value.relationalOp stringToNumber compiling intOp floatOp l r).getD result = b →
        Value.relationalOp stringToNumber running intOp floatOp l r = some b := by
    intro intOp floatOp hb
    obtain ⟨c, hc⟩ : ∃ c, Value.relationalOp stringToNumber running intOp floatOp l r = some c :=
      Value.relationalOp_isSome hl hr hl' hr'
    rw [Value.relationalOp_primitive running hl hr, hc] at hb
    rw [hc, ← hb]
    rfl
  by_cases hop : op.isStrict = true ∨ op.isLoose = true
  · obtain ⟨c, hc⟩ : ∃ c, Value.looselyEqual stringToNumber C running l r = some c :=
      Value.looselyEqual_isSome hl hr hl' hr'
    rw [evaluateCompare_equality hx hy hop, Value.looselyEqual_primitive running hl hr, hc] at h
    rw [interpret_equality hop c fun _ => hc]
    split_ifs at h with hfold
    rcases hop with hstrict | hloose
    · rw [hstrict, Bool.true_and, Bool.not_eq_true', Bool.not_eq_false] at hfold
      rw [Value.looselyEqual_sameType hl hfold] at hc
      rw [some.inj hc]
      exact h
    · rw [ofEqualities_loose hloose c _ c]
      exact h
  · unfold evaluateCompare at h
    rw [hx, hy] at h
    cases op with
    | lt => exact hrelation _ _ (some.inj h)
    | le => exact hrelation _ _ (some.inj h)
    | gt => exact hrelation _ _ (some.inj h)
    | ge => exact hrelation _ _ (some.inj h)
    | eq => exact absurd (.inr rfl) hop
    | ne => exact absurd (.inr rfl) hop
    | stricteq => exact absurd (.inl rfl) hop
    | strictne => exact absurd (.inl rfl) hop

/-- Two constant objects, neither with an equality of its own. -/
lemma evaluateCompare_objects {a c : Nat} (hx : x.constant = some (.object a))
    (hy : y.constant = some (.object c)) (hop : op.isStrict = true ∨ op.isLoose = true)
    (ha : C.isXML a = false ∧ C.hasEquality a = false) (hc : C.isXML c = false)
    (h : evaluateCompare stringToNumber C compiling result op x y = some b) :
    op.interpret stringToNumber C running (.object a) (.object c) = some b := by
  have hloose : ∀ hooks, Value.looselyEqual stringToNumber C hooks (.object a) (.object c) =
      some (decide (a = c)) := fun hooks => Value.looselyEqual_objects ha.1 hc ha.2
  have hstrict : (Value.object a).strictlyEqual (.object c) = decide (a = c) :=
    decide_eq_decide.mpr ⟨Value.object.inj, congrArg _⟩
  have hsame : (Value.object a).sameType (.object c) = true := rfl
  rw [evaluateCompare_equality hx hy hop, hsame, Bool.not_true, Bool.and_false,
    if_neg Bool.false_ne_true, hloose] at h
  rw [interpret_equality hop _ fun _ => hloose running, hstrict]
  exact h

/-- A constant object and null or undefined. -/
lemma evaluateCompare_nullish {n u : Value} (hn : n.isNullOrUndefined = true)
    (hu : u.isXML C = false) (hop : op.isLoose = true)
    (hsides : l = u ∧ r = n ∨ l = n ∧ r = u) (hx : x.constant = some l) (hy : y.constant = some r)
    (h : evaluateCompare stringToNumber C compiling result op x y = some b) :
    op.interpret stringToNumber C running l r = some b := by
  have hloose : ∀ hooks, Value.looselyEqual stringToNumber C hooks l r =
      some u.isNullOrUndefined := by
    intro hooks
    rcases hsides with ⟨rfl, rfl⟩ | ⟨rfl, rfl⟩
    · exact (Value.looselyEqual_nullish hn hu).1
    · exact (Value.looselyEqual_nullish hn hu).2
  rw [evaluateCompare_equality hx hy (.inr hop), not_strict_of_loose hop, Bool.false_and,
    if_neg Bool.false_ne_true, hloose] at h
  rw [interpret_equality (.inr hop) _ fun _ => hloose running,
    ofEqualities_loose hop _ _ u.isNullOrUndefined]
  exact h

lemma sameType_object {v : Value} (hv : ∀ c, v ≠ .object c) (a : Nat) :
    (Value.object a).sameType v = false ∧ v.sameType (.object a) = false := by
  cases v with
  | object c => exact absurd rfl (hv c)
  | _ => exact ⟨rfl, rfl⟩

/-- A constant object and a primitive constant. -/
lemma evaluateCompare_mixed {a : Nat} {n : Value} {special : Bool} (hn : ∀ c, n ≠ .object c)
    (hsides : l = .object a ∧ r = n ∨ l = n ∧ r = .object a) (hx : x.constant = some l)
    (hy : y.constant = some r) (hspecial : special = false → C.isXML a = false)
    (hask : (!op.isStrict && (!(op.isLoose && n.isNullOrUndefined) || special)) = false)
    (h : evaluateCompare stringToNumber C compiling result op x y = some b) :
    op.interpret stringToNumber C running l r = some b := by
  cases hop : op.isStrict with
  | true =>
    -- a strict equality is not folded, since the types differ
    have hsame : l.sameType r = false := by
      rcases hsides with ⟨rfl, rfl⟩ | ⟨rfl, rfl⟩
      · exact (sameType_object hn a).1
      · exact (sameType_object hn a).2
    rw [evaluateCompare_equality hx hy (.inl hop), hop, hsame, Bool.not_false, Bool.and_self,
      if_pos rfl] at h
    cases h
  | false =>
    rw [hop, Bool.not_false, Bool.true_and, Bool.or_eq_false_iff, Bool.not_eq_false',
      Bool.and_eq_true] at hask
    have ha : (Value.object a).isXML C = false := hspecial hask.2
    exact evaluateCompare_nullish hask.1.2 ha hask.1.1 hsides hx hy h

/-- Of an object and a primitive value only the object is asked. -/
lemma constantsAsk_mixed {n : Value} (hn : ∀ c, n ≠ .object c) (a : Nat) :
    constantsAsk op lspecial rspecial (.object a) n =
        (!op.isStrict && (!(op.isLoose && n.isNullOrUndefined) || lspecial)) ∧
      constantsAsk op lspecial rspecial n (.object a) =
        (!op.isStrict && (!(op.isLoose && n.isNullOrUndefined) || rspecial)) := by
  cases n with
  | object c => exact absurd rfl (hn c)
  | _ => exact ⟨rfl, rfl⟩

/-- A fold of constants is right if no object is asked. -/
lemma evaluateCompare_right (hx : x.constant = some l) (hy : y.constant = some r)
    (hl' : l ≠ .magic) (hr' : r ≠ .magic)
    (hl : lspecial = false → ∀ a, l = .object a → C.isXML a = false ∧ C.hasEquality a = false)
    (hr : rspecial = false → ∀ a, r = .object a → C.isXML a = false ∧ C.hasEquality a = false)
    (hask : constantsAsk op lspecial rspecial l r = false)
    (h : evaluateCompare stringToNumber C compiling result op x y = some b) :
    op.interpret stringToNumber C running l r = some b := by
  by_cases hlobj : ∃ a, l = .object a
  · obtain ⟨a, rfl⟩ := hlobj
    by_cases hrobj : ∃ c, r = .object c
    · obtain ⟨c, rfl⟩ := hrobj
      simp only [constantsAsk] at hask
      split_ifs at hask with hop hsame
      · subst hsame
        have ha : C.isXML a = false ∧ C.hasEquality a = false := by
          rcases and_eq_false_iff.mp hask with hspecial | hspecial
          · exact hl hspecial a rfl
          · exact hr hspecial a rfl
        exact evaluateCompare_objects hx hy (or_eq_true _ _ ▸ hop) ha ha.1 h
      · obtain ⟨hl0, hr0⟩ := or_eq_false_iff.mp hask
        exact evaluateCompare_objects hx hy (or_eq_true _ _ ▸ hop) (hl hl0 a rfl)
          (hr hr0 c rfl).1 h
    · have hrprim : ∀ c, r ≠ .object c := fun c hc => hrobj ⟨c, hc⟩
      exact evaluateCompare_mixed hrprim (.inl ⟨rfl, rfl⟩) hx hy (fun h0 => (hl h0 a rfl).1)
        ((constantsAsk_mixed hrprim a).1.symm.trans hask) h
  · have hlprim : ∀ a, l ≠ .object a := fun a ha => hlobj ⟨a, ha⟩
    by_cases hrobj : ∃ c, r = .object c
    · obtain ⟨c, rfl⟩ := hrobj
      exact evaluateCompare_mixed hlprim (.inr ⟨rfl, rfl⟩) hx hy (fun h0 => (hr h0 c rfl).1)
        ((constantsAsk_mixed hlprim c).2.symm.trans hask) h
    · exact evaluateCompare_primitive hx hy hlprim (fun c hc => hrobj ⟨c, hc⟩) hl' hr' h

end

/-! ## The whole fold -/

lemma OperandHas.not_special (h : OperandHas C types x v) (hspecial : mayBeSpecial types = false) :
    ∀ a, v = .object a → C.isXML a = false ∧ C.hasEquality a = false := by
  cases types with
  | none => cases hspecial
  | some t => exact h.ordinary t rfl hspecial

/-- A constant is always folded against null or undefined. -/
lemma tryFold_constant {c : Value} (hnull : specialization.isNullOrUndefined = true)
    (htype : x.type = mirTypeFromValue c) (hmagic : c ≠ .magic) :
    tryFold op specialization x ≠ none := by
  obtain ⟨t, constant⟩ := x
  obtain rfl : t = mirTypeFromValue c := htype
  cases specialization with
  | undefined =>
    cases c with
    | magic => exact absurd rfl hmagic
    | _ => exact some_ne_none _
  | null =>
    cases c with
    | magic => exact absurd rfl hmagic
    | _ => exact some_ne_none _
  | _ => cases hnull

/-- A constant that is not folded against a boolean is one. -/
lemma tryFold_boolean_constant {c : Value} (htype : x.type = mirTypeFromValue c)
    (hmagic : c ≠ .magic) (h : tryFold op .boolean x = none) : c.tag = .boolean := by
  unfold tryFold at h
  rw [htype] at h
  cases c with
  | magic => exact absurd rfl hmagic
  | boolean p => rfl
  | _ => cases h

/-- An object is folded by its type. -/
lemma tryFold_object {a : Nat} (hv : HasType x.type (.object a))
    (h : tryFold op specialization x = some b) : x.type = .object := by
  obtain ⟨t, constant⟩ := x
  cases t with
  | object => rfl
  | value =>
    unfold tryFold at h
    split_ifs at h
  | double => rcases hv with hv | hv <;> cases hv
  | _ => cases hv

lemma tryFold_specialized (h : tryFold op specialization x = some b) :
    specialization.isNullOrUndefined = true ∨ specialization = .boolean := by
  by_cases hnull : specialization.isNullOrUndefined = true
  · exact .inl hnull
  · by_cases hbool : specialization = .boolean
    · exact .inr hbool
    · unfold tryFold at h
      rw [if_neg hnull, if_neg hbool] at h
      cases h

lemma not_loose_of_strict (h : op.isStrict = true) : op.isLoose = false := by
  cases op <;> first | rfl | cases h

/-- After inference: the fold of the left operand and the right one is right, and for the operands
that are swapped it is right in the other order too. -/
lemma inferred_right {leftTypes rightTypes : Option OperandTypes} {left right : CompareOperand}
    {compiling running : ObjectHooks} {result : Bool}
    (hl : OperandHas C leftTypes left l) (hr : OperandHas C rightTypes right r)
    (hnullop : specialization.isNullOrUndefined = true → op.isStrict = true ∨ op.isLoose = true)
    (hboolop : specialization = .boolean → op.isStrict = true)
    (hknown : specialization.isNullOrUndefined = true ∨ specialization = .boolean →
      HasType specialization r)
    (hask : (if specialization.isNullOrUndefined then
        op.isLoose && left.type = .object && mayBeSpecial leftTypes
      else
        match left.constant, right.constant with
        | some l, some r => constantsAsk op (mayBeSpecial leftTypes) (mayBeSpecial rightTypes) l r
        | _, _ => false) = false)
    (hfold : (match tryFold op specialization left with
      | some b => some b
      | none => evaluateCompare stringToNumber C compiling result op left right) = some b) :
    op.interpret stringToNumber C running l r = some b ∧
      (specialization.isNullOrUndefined = true ∨ specialization = .boolean →
        op.interpret stringToNumber C running r l = some b) := by
  cases htry : tryFold op specialization left with
  | some c =>
    rw [htry] at hfold
    cases hfold
    have hspec := tryFold_specialized htry
    have hxml : op.isLoose = true → l.isXML C = false := by
      intro hloose
      by_cases hobj : ∃ a, l = .object a
      · obtain ⟨a, rfl⟩ := hobj
        rcases hspec with hnull | hbool
        · rw [if_pos hnull, hloose, tryFold_object hl.type htry, Bool.true_and, decide_eq_true rfl,
            Bool.true_and] at hask
          exact hl.isXML hask
        · rw [not_loose_of_strict (hboolop hbool)] at hloose
          cases hloose
      · exact Value.isXML_primitive fun a ha => hobj ⟨a, ha⟩
    obtain ⟨hlr, hrl⟩ := tryFold_right hl.type (hknown hspec)
      (hspec.imp (fun hnull => ⟨hnull, hnullop hnull⟩) fun hbool => ⟨hbool, hboolop hbool⟩) hxml htry
    exact ⟨hlr, fun _ => hrl⟩
  | none =>
    rw [htry] at hfold
    simp only at hfold
    cases hx : left.constant with
    | none =>
      unfold evaluateCompare at hfold
      rw [hx] at hfold
      cases hfold
    | some c =>
    cases hy : right.constant with
    | none =>
      unfold evaluateCompare at hfold
      rw [hx, hy] at hfold
      cases hfold
    | some d =>
    obtain ⟨rfl, hxtype, hxmagic⟩ := hl.constant_type hx
    obtain ⟨rfl, hytype, hymagic⟩ := hr.constant_type hy
    have hnull : specialization.isNullOrUndefined ≠ true :=
      fun hnull => tryFold_constant hnull hxtype hxmagic htry
    rw [if_neg hnull, hx, hy] at hask
    have hright : op.interpret stringToNumber C running l r = some b :=
      evaluateCompare_right hx hy hxmagic hymagic hl.not_special hr.not_special hask hfold
    refine ⟨hright, fun hspec => ?_⟩
    -- both are booleans, and their strict equality is symmetric
    obtain rfl := hspec.resolve_left hnull
    have hltag := tryFold_boolean_constant hxtype hxmagic htry
    have hrtag : HasType .boolean r := hknown (.inr rfl)
    have hop := hboolop rfl
    cases l with
    | boolean p =>
      cases r with
      | boolean q =>
        rw [← hright]
        have hsymm : (Value.boolean q).strictlyEqual (.boolean p) =
            (Value.boolean p).strictlyEqual (.boolean q) := decide_eq_decide.mpr eq_comm
        cases op with
        | stricteq => exact congrArg some hsymm
        | strictne => exact congrArg (fun e => some !e) hsymm
        | _ => cases hop
      | _ => cases hrtag
    | _ => cases hltag

lemma foldIsRight_of_not_asks (hask : asksObject op lhsTypes rhsTypes lhs rhs = false) :
    FoldIsRight stringToNumber op lhsTypes rhsTypes lhs rhs := by
  intro C compiling running result b v w hv hw hfold
  have hfits : FitsRight op lhsTypes rhsTypes _ := inferCompare_fits
  unfold compareFoldsTo at hfold
  unfold asksObject at hask
  generalize inferCompare op lhsTypes rhsTypes = inferred at hfits hfold hask
  obtain ⟨specialization, swapped⟩ := inferred
  cases swapped with
  | false =>
    have hknown : specialization.isNullOrUndefined = true ∨ specialization = .boolean →
        HasType specialization w := by
      intro hspec
      obtain ⟨t, htypes, rfl⟩ := hfits.known hspec
      exact hw.known t htypes
    exact (inferred_right hv hw hfits.nullish hfits.strict hknown hask hfold).1
  | true =>
    have hknown : specialization.isNullOrUndefined = true ∨ specialization = .boolean →
        HasType specialization v := by
      intro hspec
      obtain ⟨t, htypes, rfl⟩ := hfits.known hspec
      exact hv.known t htypes
    exact (inferred_right hw hv hfits.nullish hfits.strict hknown hask hfold).2 (hfits.swapped rfl)

/-! ## Where an object is asked -/

/-- Only one object is of a class of its own. -/
def oneXML (o : Nat) : ObjectClasses := ⟨fun a => a = o, fun _ => false⟩

def ordinaryClasses : ObjectClasses := ⟨fun _ => false, fun _ => false⟩

/-- XML objects answer so, and no object has a primitive value. -/
def answering (b : Bool) : ObjectHooks := ⟨fun _ _ => some b, fun _ _ => none, fun _ _ => none⟩

lemma OperandHas.ordinaryClasses (h : OperandHas C types x v) :
    OperandHas ordinaryClasses types x v :=
  ⟨h.type, h.constant, h.known, fun _ _ _ _ _ => ⟨rfl, rfl⟩⟩

/-- An object that nothing excludes may be of a class of its own. -/
lemma OperandHas.oneXML {o : Nat} (h : OperandHas C types x v)
    (hone : mayBeSpecial types = true ∨ v ≠ .object o) : OperandHas (oneXML o) types x v := by
  refine ⟨h.type, h.constant, h.known, fun t ht hspecial a ha => ⟨decide_eq_false ?_, rfl⟩⟩
  rintro rfl
  rcases hone with hone | hne
  · rw [ht] at hone
    exact false_ne_true (hspecial.symm.trans hone)
  · exact hne ha

lemma looselyEqual_XML {o : Nat} (h : l = .object o ∨ r = .object o) :
    Value.looselyEqual stringToNumber (oneXML o) hooks l r = hooks.testXMLEquality l r := by
  have hxml : (l.isXML (oneXML o) || r.isXML (oneXML o)) = true := by
    rcases h with rfl | rfl
    · exact or_eq_true_iff.mpr (.inl (decide_eq_true rfl))
    · exact or_eq_true_iff.mpr (.inr (decide_eq_true rfl))
  unfold Value.looselyEqual
  rw [if_pos hxml]

/-- The primitive value of an object is asked for. -/
lemma interpret_throws (h : (∃ a, l = .object a) ∨ ∃ a, r = .object a)
    (hstrict : op.isStrict = false) (hloose : op.isLoose = true →
      l.sameType r = false ∧ l.isNullOrUndefined = false ∧ r.isNullOrUndefined = false) :
    op.interpret stringToNumber ordinaryClasses (answering b) l r = none := by
  have hprimitive : ∀ hint (rest : Value → Value → Option Bool),
      ((l.toPrimitive (answering b) hint).bind fun l =>
        (r.toPrimitive (answering b) hint).bind fun r => rest l r) = none := by
    intro hint rest
    rcases h with ⟨a, rfl⟩ | ⟨a, rfl⟩
    · rfl
    · cases l.toPrimitive (answering b) hint <;> rfl
  have hrelation : ∀ intOp floatOp,
      Value.relationalOp stringToNumber (answering b) intOp floatOp l r = none := by
    intro intOp floatOp
    unfold Value.relationalOp
    split
    · rcases h with ⟨a, ha⟩ | ⟨a, ha⟩ <;> cases ha
    · exact hprimitive _ _
  have hequal : op.isLoose = true →
      Value.looselyEqual stringToNumber ordinaryClasses (answering b) l r = none := by
    intro hop
    obtain ⟨hsame, hl, hr⟩ := hloose hop
    have hxml : ∀ v : Value, v.isXML ordinaryClasses = false := by
      intro v
      cases v <;> rfl
    unfold Value.looselyEqual
    rw [hxml, hxml, hsame, hl, hr]
    exact hprimitive _ _
  unfold CompareOp.interpret
  cases op with
  | lt => exact hrelation _ _
  | le => exact hrelation _ _
  | gt => exact hrelation _ _
  | ge => exact hrelation _ _
  | eq => exact hequal rfl
  | ne =>
    simp only
    rw [hequal rfl]
    rfl
  | _ => cases hstrict

lemma evaluateCompare_isSome {y : CompareOperand} {compiling : ObjectHooks} {result : Bool}
    (hx : x.constant = some l) (hy : y.constant = some r) (hstrict : op.isStrict = false) :
    ∃ c, evaluateCompare stringToNumber C compiling result op x y = some c := by
  unfold evaluateCompare
  rw [hx, hy]
  cases op <;> first | exact ⟨_, rfl⟩ | cases hstrict

/-- A fold of an equality of constants, one of which is XML. -/
lemma evaluateCompare_XML {y : CompareOperand} {o : Nat} {c result : Bool}
    (hx : x.constant = some l) (hy : y.constant = some r) (h : l = .object o ∨ r = .object o)
    (hop : op.isLoose = true ∨ op.isStrict = true ∧ l.sameType r = true) :
    evaluateCompare stringToNumber (oneXML o) (answering c) result op x y =
      some (op.ofEqualities c c) := by
  have hloose : Value.looselyEqual stringToNumber (oneXML o) (answering c) l r = some c :=
    looselyEqual_XML h
  have hfolds : ¬ (op.isStrict && !l.sameType r) = true := by
    rcases hop with hop | ⟨-, hsame⟩
    · rw [not_strict_of_loose hop]
      exact Bool.false_ne_true
    · rw [hsame, Bool.not_true, Bool.and_false]
      exact Bool.false_ne_true
  rw [evaluateCompare_equality hx hy (hop.symm.imp_left And.left), if_neg hfolds, hloose]
  rfl

lemma ofEqualities_ne (hop : op.isStrict = true ∨ op.isLoose = true) {c d e : Bool}
    (hloose : op.isLoose = true → c ≠ d) (hstrict : op.isStrict = true → c ≠ e) :
    op.ofEqualities c c ≠ op.ofEqualities d e := by
  rcases equality_cases hop with rfl | rfl | rfl | rfl
  · exact hloose rfl
  · exact fun h => hloose rfl (not_inj h)
  · exact hstrict rfl
  · exact fun h => hstrict rfl (not_inj h)

/-- Something of constants that goes wrong: a fold that the interpreter does not come to. -/
def GoesWrong (stringToNumber : String → Float) (op : CompareOp)
    (leftTypes rightTypes : Option OperandTypes) (x y : CompareOperand) (l r : Value) : Prop :=
  ∃ (C : ObjectClasses) (compiling running : ObjectHooks) (c : Bool),
    OperandHas C leftTypes x l ∧ OperandHas C rightTypes y r ∧
      evaluateCompare stringToNumber C compiling false op x y = some c ∧
      op.interpret stringToNumber C running l r ≠ some c

section

variable {leftTypes rightTypes : Option OperandTypes} {y : CompareOperand} {a d : Nat}

/-- The comparison of the interpreter throws. -/
lemma goesWrong_throws (hl : OperandHas C leftTypes x l) (hr : OperandHas C rightTypes y r)
    (hx : x.constant = some l) (hy : y.constant = some r)
    (hobj : (∃ a, l = .object a) ∨ ∃ a, r = .object a) (hstrict : op.isStrict = false)
    (hloose : op.isLoose = true →
      l.sameType r = false ∧ l.isNullOrUndefined = false ∧ r.isNullOrUndefined = false) :
    GoesWrong stringToNumber op leftTypes rightTypes x y l r := by
  obtain ⟨c, hc⟩ : ∃ c, evaluateCompare stringToNumber ordinaryClasses (answering true) false op
      x y = some c := evaluateCompare_isSome hx hy hstrict
  refine ⟨ordinaryClasses, answering true, answering true, c, hl.ordinaryClasses,
    hr.ordinaryClasses, hc, ?_⟩
  rw [interpret_throws hobj hstrict hloose]
  exact (some_ne_none c).symm

/-- The answer of an XML object changes, or is not that of the strict equality. -/
lemma goesWrong_XML {o : Nat} (hl : OperandHas C leftTypes x l)
    (hr : OperandHas C rightTypes y r) (hx : x.constant = some l) (hy : y.constant = some r)
    (hlone : mayBeSpecial leftTypes = true ∨ l ≠ .object o)
    (hrone : mayBeSpecial rightTypes = true ∨ r ≠ .object o) (h : l = .object o ∨ r = .object o)
    (hop : op.isLoose = true ∨ op.isStrict = true ∧ l.sameType r = true) :
    GoesWrong stringToNumber op leftTypes rightTypes x y l r := by
  refine ⟨oneXML o, answering !l.strictlyEqual r, answering (l.strictlyEqual r), _,
    hl.oneXML hlone, hr.oneXML hrone, evaluateCompare_XML hx hy h hop, ?_⟩
  have hloose : Value.looselyEqual stringToNumber (oneXML o) (answering (l.strictlyEqual r)) l r =
      some (l.strictlyEqual r) := looselyEqual_XML h
  have hop : op.isStrict = true ∨ op.isLoose = true := hop.symm.imp_left And.left
  rw [interpret_equality hop _ fun _ => hloose]
  intro heq
  have hne : (!l.strictlyEqual r) ≠ l.strictlyEqual r := not_ne_self _
  exact ofEqualities_ne hop (fun _ => hne) (fun _ => hne) (some.inj heq).symm

lemma goesWrong_objects (hl : OperandHas C leftTypes x (.object a))
    (hr : OperandHas C rightTypes y (.object d)) (hx : x.constant = some (.object a))
    (hy : y.constant = some (.object d))
    (hask : constantsAsk op (mayBeSpecial leftTypes) (mayBeSpecial rightTypes) (.object a)
      (.object d) = true) :
    GoesWrong stringToNumber op leftTypes rightTypes x y (.object a) (.object d) := by
  have hequality : (op.isStrict || op.isLoose) = true → op.isLoose = true ∨ op.isStrict = true ∧
      (Value.object a).sameType (.object d) = true := by
    intro hop
    rcases or_eq_true_iff.mp hop with hop | hop
    · exact .inr ⟨hop, rfl⟩
    · exact .inl hop
  simp only [constantsAsk] at hask
  split_ifs at hask with hop hsame
  · subst hsame
    rw [and_eq_true] at hask
    exact goesWrong_XML hl hr hx hy (.inl hask.1) (.inl hask.2) (.inl rfl) (hequality hop)
  · rcases or_eq_true_iff.mp hask with hleft | hright
    · exact goesWrong_XML hl hr hx hy (.inl hleft)
        (.inr fun heq => hsame (Value.object.inj heq).symm) (.inl rfl) (hequality hop)
    · exact goesWrong_XML hl hr hx hy (.inr fun heq => hsame (Value.object.inj heq))
        (.inl hright) (.inr rfl) (hequality hop)
  · rw [not_eq_true, or_eq_false_iff] at hop
    refine goesWrong_throws hl hr hx hy (.inl ⟨a, rfl⟩) hop.1 fun hloose => ?_
    rw [hop.2] at hloose
    cases hloose

lemma goesWrong_mixed {n : Value} {special : Bool} (hl : OperandHas C leftTypes x l)
    (hr : OperandHas C rightTypes y r) (hx : x.constant = some l) (hy : y.constant = some r)
    (hn : ∀ d, n ≠ .object d) (hsides : l = .object a ∧ r = n ∨ l = n ∧ r = .object a)
    (hlone : special = true → mayBeSpecial leftTypes = true ∨ l ≠ .object a)
    (hrone : special = true → mayBeSpecial rightTypes = true ∨ r ≠ .object a)
    (hask : (!op.isStrict && (!(op.isLoose && n.isNullOrUndefined) || special)) = true) :
    GoesWrong stringToNumber op leftTypes rightTypes x y l r := by
  have hobject : l = .object a ∨ r = .object a := hsides.imp And.left And.right
  rw [and_eq_true, not_eq_true'] at hask
  by_cases hnull : op.isLoose = true ∧ n.isNullOrUndefined = true
  · have hspecial : special = true := by
      have hor := hask.2
      rwa [hnull.1, hnull.2, Bool.and_true, Bool.not_true, Bool.false_or] at hor
    exact goesWrong_XML hl hr hx hy (hlone hspecial) (hrone hspecial) hobject (.inl hnull.1)
  · refine goesWrong_throws hl hr hx hy (hobject.imp (⟨a, ·⟩) (⟨a, ·⟩)) hask.1 fun hloose => ?_
    have hnot : n.isNullOrUndefined = false := Bool.eq_false_iff.mpr fun hn => hnull ⟨hloose, hn⟩
    rcases hsides with ⟨rfl, rfl⟩ | ⟨rfl, rfl⟩
    · exact ⟨(sameType_object hn a).1, rfl, hnot⟩
    · exact ⟨(sameType_object hn a).2, hnot, rfl⟩

/-- Constants of which an object is asked. -/
lemma goesWrong_of_asks (hl : OperandHas C leftTypes x l) (hr : OperandHas C rightTypes y r)
    (hx : x.constant = some l) (hy : y.constant = some r)
    (hask : constantsAsk op (mayBeSpecial leftTypes) (mayBeSpecial rightTypes) l r = true) :
    GoesWrong stringToNumber op leftTypes rightTypes x y l r := by
  by_cases hlobj : ∃ a, l = .object a
  · obtain ⟨a, rfl⟩ := hlobj
    by_cases hrobj : ∃ d, r = .object d
    · obtain ⟨d, rfl⟩ := hrobj
      exact goesWrong_objects hl hr hx hy hask
    · have hrprim : ∀ d, r ≠ .object d := fun d hd => hrobj ⟨d, hd⟩
      rw [(constantsAsk_mixed hrprim a).1] at hask
      exact goesWrong_mixed hl hr hx hy hrprim (.inl ⟨rfl, rfl⟩) .inl (fun _ => .inr (hrprim a)) hask
  · have hlprim : ∀ a, l ≠ .object a := fun a ha => hlobj ⟨a, ha⟩
    by_cases hrobj : ∃ d, r = .object d
    · obtain ⟨d, rfl⟩ := hrobj
      rw [(constantsAsk_mixed hlprim d).2] at hask
      exact goesWrong_mixed hl hr hx hy hlprim (.inr ⟨rfl, rfl⟩) (fun _ => .inr (hlprim d)) .inl hask
    · exfalso
      have hnone : constantsAsk op (mayBeSpecial leftTypes) (mayBeSpecial rightTypes) l r =
          false := by
        cases l with
        | object a => exact absurd rfl (hlprim a)
        | _ =>
          cases r with
          | object d => exact absurd ⟨d, rfl⟩ hrobj
          | _ => rfl
      exact false_ne_true (hnone.symm.trans hask)

variable (stringToNumber) in
/-- An XML object that is equal to null or undefined. -/
lemma tryFold_wrong (hl : OperandHas C leftTypes x l) (hr : OperandHas C rightTypes y r)
    (hnull : specialization.isNullOrUndefined = true) (hfits : HasType specialization r)
    (hop : op.isLoose = true) (htype : x.type = .object) (hspecial : mayBeSpecial leftTypes = true) :
    ∃ (o : Nat) (c : Bool), OperandHas (oneXML o) leftTypes x l ∧
      OperandHas (oneXML o) rightTypes y r ∧ tryFold op specialization x = some c ∧
      op.interpret stringToNumber (oneXML o) (answering true) l r ≠ some c ∧
      op.interpret stringToNumber (oneXML o) (answering true) r l ≠ some c := by
  have hltype := hl.type
  rw [htype] at hltype
  cases l with
  | object o =>
    have hne : r ≠ .object o := by
      rintro rfl
      cases specialization with
      | undefined => cases hfits
      | null => cases hfits
      | _ => cases hnull
    have hlr : Value.looselyEqual stringToNumber (oneXML o) (answering true) (.object o) r =
        some true := looselyEqual_XML (.inl rfl)
    have hrl : Value.looselyEqual stringToNumber (oneXML o) (answering true) r (.object o) =
        some true := looselyEqual_XML (.inr rfl)
    have hfold : tryFold op specialization x = some (op.ofEqualities false false) := by
      unfold tryFold
      rw [if_pos hnull, htype]
      rcases equality_cases (.inr hop) with rfl | rfl | rfl | rfl
      · rfl
      · rfl
      · cases hop
      · cases hop
    have hwrong : ∀ d, op.ofEqualities true d ≠ op.ofEqualities false false := by
      intro d
      rcases equality_cases (.inr hop) with rfl | rfl | rfl | rfl
      · exact Bool.noConfusion
      · exact Bool.noConfusion
      · cases hop
      · cases hop
    refine ⟨o, _, hl.oneXML (.inl hspecial), hr.oneXML (.inr hne), hfold, ?_, ?_⟩
    · rw [interpret_equality (.inr hop) _ fun _ => hlr]
      exact fun heq => hwrong _ (some.inj heq)
    · rw [interpret_equality (.inr hop) _ fun _ => hrl]
      exact fun heq => hwrong _ (some.inj heq)
  | _ => cases hltype

end

/-- A boolean is not compared with more than its type. -/
lemma constantsAsk_boolean {lspecial rspecial : Bool} (hop : op.isStrict = true)
    (hr : HasType .boolean r) : constantsAsk op lspecial rspecial l r = false := by
  cases r with
  | boolean q =>
    cases l with
    | object a =>
      unfold constantsAsk
      rw [hop]
      rfl
    | _ => rfl
  | _ => cases hr

/-- Only constants are compared at the time of compilation. -/
lemma exists_constants {y : CompareOperand} {ask : Value → Value → Bool}
    (h : (match x.constant, y.constant with
      | some l, some r => ask l r
      | _, _ => false) = true) :
    ∃ l r, x.constant = some l ∧ y.constant = some r ∧ ask l r = true := by
  cases hx : x.constant with
  | none =>
    rw [hx] at h
    cases h
  | some l =>
    cases hy : y.constant with
    | none =>
      rw [hx, hy] at h
      cases h
    | some r =>
      rw [hx, hy] at h
      exact ⟨l, r, rfl, rfl, h⟩

lemma asksObject_of_right
    (hvalues : ∃ C v w, OperandHas C lhsTypes lhs v ∧ OperandHas C rhsTypes rhs w)
    (hright : FoldIsRight stringToNumber op lhsTypes rhsTypes lhs rhs) :
    asksObject op lhsTypes rhsTypes lhs rhs = false := by
  obtain ⟨C, v, w, hv, hw⟩ := hvalues
  have hfits : FitsRight op lhsTypes rhsTypes _ := inferCompare_fits
  unfold FoldIsRight compareFoldsTo at hright
  unfold asksObject
  generalize inferCompare op lhsTypes rhsTypes = inferred at hfits hright
  obtain ⟨specialization, swapped⟩ := inferred
  rw [← not_eq_true]
  intro hask
  cases swapped with
  | false =>
    simp only [false_eq_true, if_false] at hask hright
    by_cases hnull : specialization.isNullOrUndefined = true
    · rw [if_pos hnull, and_eq_true, and_eq_true, decide_eq_true_eq] at hask
      obtain ⟨t, htypes, rfl⟩ := hfits.known (.inl hnull)
      obtain ⟨o, c, hl, hr, hfold, hwrong, -⟩ := tryFold_wrong stringToNumber
        hv hw hnull (hw.known t htypes) hask.1.1 hask.1.2 hask.2
      exact hwrong (hright _ (answering true) _ false c v w hl hr (by rw [hfold]))
    · rw [if_neg hnull] at hask
      obtain ⟨l, r, hx, hy, hask⟩ := exists_constants hask
      obtain ⟨rfl, -, -⟩ := hv.constant_type hx
      obtain ⟨rfl, -, -⟩ := hw.constant_type hy
      have hbool : specialization ≠ .boolean := by
        rintro rfl
        obtain ⟨t, htypes, hknown⟩ := hfits.known (.inr rfl)
        have hr := hw.known t htypes
        rw [hknown] at hr
        exact false_ne_true ((constantsAsk_boolean (hfits.strict rfl) hr).symm.trans hask)
      have hfold : tryFold op specialization lhs = none := by
        unfold tryFold
        rw [if_neg hnull, if_neg hbool]
      have hwrong : GoesWrong stringToNumber op lhsTypes rhsTypes lhs rhs v w :=
        goesWrong_of_asks hv hw hx hy hask
      obtain ⟨C', compiling, running, c, hl, hr, hc, hwrong⟩ := hwrong
      exact hwrong (hright C' compiling running false c v w hl hr (by rw [hfold]; exact hc))
  | true =>
    simp only [if_true] at hask hright
    rcases hfits.swapped rfl with hnull | hbool
    · rw [if_pos hnull, and_eq_true, and_eq_true, decide_eq_true_eq] at hask
      obtain ⟨t, htypes, rfl⟩ := hfits.known (.inl hnull)
      obtain ⟨o, c, hl, hr, hfold, -, hwrong⟩ := tryFold_wrong stringToNumber
        hw hv hnull (hv.known t htypes) hask.1.1 hask.1.2 hask.2
      exact hwrong (hright _ (answering true) _ false c v w hr hl (by rw [hfold]))
    · obtain rfl : specialization = .boolean := hbool
      rw [if_neg (show ¬ MIRType.boolean.isNullOrUndefined = true from false_ne_true)] at hask
      obtain ⟨t, htypes, hknown⟩ := hfits.known (.inr rfl)
      have hv' := hv.known t htypes
      rw [hknown] at hv'
      obtain ⟨l, r, -, hy, hask⟩ := exists_constants hask
      obtain ⟨rfl, -, -⟩ := hv.constant_type hy
      exact false_ne_true ((constantsAsk_boolean (hfits.strict rfl) hv').symm.trans hask)

/-- For operands that can have values: what a comparison folds to is what the interpreter comes to,
for all values of the operands, if and only if no object is asked. -/
theorem compareFoldsTo_right_iff (stringToNumber : String → Float) (op : CompareOp)
    (lhsTypes rhsTypes : Option OperandTypes) (lhs rhs : CompareOperand)
    (hvalues : ∃ C v w, OperandHas C lhsTypes lhs v ∧ OperandHas C rhsTypes rhs w) :
    FoldIsRight stringToNumber op lhsTypes rhsTypes lhs rhs ↔
      asksObject op lhsTypes rhsTypes lhs rhs = false :=
  ⟨asksObject_of_right hvalues, foldIsRight_of_not_asks⟩

/-- Numbers of which one is `-0`. -/
theorem compareFoldsTo_right_numbers :
    (∃ C v w, OperandHas C (some ⟨.double, false⟩) ⟨.double, some (.double (-0))⟩ v ∧
        OperandHas C (some ⟨.int32, false⟩) ⟨.int32, some (.int32 0)⟩ w) ∧
      (FoldIsRight (fun _ => nan) .stricteq (some ⟨.double, false⟩) (some ⟨.int32, false⟩)
          ⟨.double, some (.double (-0))⟩ ⟨.int32, some (.int32 0)⟩ ↔
        asksObject .stricteq (some ⟨.double, false⟩) (some ⟨.int32, false⟩)
          ⟨.double, some (.double (-0))⟩ ⟨.int32, some (.int32 0)⟩ = false) := by
  have hvalues : ∃ C v w, OperandHas C (some ⟨.double, false⟩) ⟨.double, some (.double (-0))⟩ v ∧
      OperandHas C (some ⟨.int32, false⟩) ⟨.int32, some (.int32 0)⟩ w := by
    refine ⟨ordinaryClasses, .double (-0), .int32 0, ⟨.inr rfl, ?_, ?_, ?_⟩, ⟨rfl, ?_, ?_, ?_⟩⟩
    · rintro c ⟨⟩
      exact ⟨rfl, rfl⟩
    · rintro t ⟨⟩
      exact .inr rfl
    · rintro t ⟨⟩ - a ⟨⟩
    · rintro c ⟨⟩
      exact ⟨rfl, rfl⟩
    · rintro t ⟨⟩
      exact rfl
    · rintro t ⟨⟩ - a ⟨⟩
  exact ⟨hvalues, compareFoldsTo_right_iff _ _ _ _ _ _ hvalues⟩

/-- An empty XML list is equal to undefined, and its comparison folds to false. -/
theorem compareFoldsTo_wrong_xml :
    ∃ (C : ObjectClasses) (hooks : ObjectHooks) (v w : Value),
      OperandHas C (some ⟨.object, true⟩) ⟨.object, none⟩ v ∧
        OperandHas C (some ⟨.undefined, false⟩) ⟨.undefined, some .undefined⟩ w ∧
        compareFoldsTo (fun _ => nan) C hooks false .eq (some ⟨.object, true⟩)
          (some ⟨.undefined, false⟩) ⟨.object, none⟩ ⟨.undefined, some .undefined⟩ = some false ∧
        CompareOp.eq.interpret (fun _ => nan) C hooks v w = some true := by
  refine ⟨oneXML 1, answering true, .object 1, .undefined, ⟨rfl, ?_, ?_, ?_⟩, ⟨rfl, ?_, ?_, ?_⟩,
    rfl, rfl⟩
  · rintro c ⟨⟩
  · rintro t ⟨⟩
    exact rfl
  · rintro t ⟨⟩ ⟨⟩
  · rintro c ⟨⟩
    exact ⟨rfl, rfl⟩
  · rintro t ⟨⟩
    exact rfl
  · rintro t ⟨⟩ - a ⟨⟩

end

end SpiderMonkey.Ion
