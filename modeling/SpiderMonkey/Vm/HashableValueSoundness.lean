import SpiderMonkey.Vm.HashableValue

/-! # Keys are equal where the values are the same

A value denotes what the language makes of it: numbers are floats, with one NaN and two zeros, and
strings are their characters. Two values are the same if they denote the same. The keys are chosen
so that, strings apart, those that denote the same have the same bits.
-/

namespace SpiderMonkey.Vm

open Lib List

/-! ## Bits -/

namespace ValueLayout

variable {L : ValueLayout} {v w : StoredValue}

/-- The exponent of the shift, and the largest tag of a double. -/
def shift : ValueLayout → Nat
  | nunbox32 => 32
  | punbox64 => 47

def tagNat : ValueLayout → Nat
  | nunbox32 => 0xFFFFFF80
  | punbox64 => 0x1FFF0

lemma toNat_or_payload {t s : Nat} {c p : UInt64} (hc : c.toNat = t * 2 ^ s)
    (hp : p.toNat < 2 ^ s) : (c ||| p).toNat = t * 2 ^ s + p.toNat := by
  rw [UInt64.toNat_or, hc, ← Nat.shiftLeft_eq, ← Nat.shiftLeft_add_eq_or_of_lt hp]

lemma payload_lt (h : L.Stores v) : (payload v).toNat < 2 ^ L.shift := by
  have hle : 2 ^ 32 ≤ 2 ^ L.shift := by
    cases L <;> decide
  have haddress : ∀ address, address < L.addressEnd →
      (UInt64.ofNat address).toNat < 2 ^ L.shift := by
    intro address ha
    have hlt : address < 2 ^ L.shift := by
      cases L <;> exact ha
    rw [UInt64.toNat_ofNat']
    exact Nat.lt_of_le_of_lt (Nat.mod_le _ _) hlt
  cases v with
  | undefined => exact Nat.two_pow_pos _
  | null => exact Nat.two_pow_pos _
  | double bits => exact Nat.two_pow_pos _
  | boolean b => cases b <;> cases L <;> decide
  | int32 n =>
    have hn := n.toUInt32.toNat_lt
    simp only [payload, UInt32.toNat_toUInt64]
    omega
  | string address => exact haddress address h
  | object address => exact haddress address h

lemma typeCode_mem (hv : ∀ bits, v ≠ .double bits) :
    typeCode v ∈ ([1, 2, 3, 5, 6, 7] : List UInt64) := by
  cases v with
  | double bits => exact absurd rfl (hv bits)
  | _ => simp [typeCode]

lemma toNat_tag (L : ValueLayout) :
    ∀ code ∈ ([1, 2, 3, 5, 6, 7] : List UInt64),
      ((L.maxDoubleTag ||| code) <<< L.tagShift).toNat =
        (L.tagNat + code.toNat) * 2 ^ L.shift ∧ 0 < code.toNat := by
  intro code hcode
  simp only [mem_cons, not_mem_nil, or_false] at hcode
  rcases hcode with rfl | rfl | rfl | rfl | rfl | rfl <;> cases L <;> exact ⟨rfl, by decide⟩

/-- The tag and the payload of what is no double. -/
lemma toNat_asRawBits (h : L.Stores v) (hv : ∀ bits, v ≠ .double bits) :
    (L.asRawBits v).toNat = (L.tagNat + (typeCode v).toNat) * 2 ^ L.shift + (payload v).toNat := by
  have hbits : L.asRawBits v = ((L.maxDoubleTag ||| typeCode v) <<< L.tagShift) ||| payload v := by
    cases v with
    | double bits => exact absurd rfl (hv bits)
    | _ => rfl
  rw [hbits]
  exact toNat_or_payload (toNat_tag L _ (typeCode_mem hv)).1 (payload_lt h)

lemma toNat_double_lt {bits : UInt64} (h : L.Stores (.double bits)) :
    bits.toNat < (L.tagNat + 1) * 2 ^ L.shift := by
  have h : L.isDouble bits = true := h
  cases L with
  | nunbox32 =>
    simp only [isDouble, decide_eq_true_eq, UInt64.le_iff_toNat_le, UInt64.toNat_shiftRight,
      maxDoubleTag] at h
    simp only [tagNat, shift]
    have : (32 : UInt64).toNat % 64 = 32 := by decide
    rw [this, Nat.shiftRight_eq_div_pow] at h
    have : (0xFFFFFF80 : UInt64).toNat = 0xFFFFFF80 := by decide
    omega
  | punbox64 =>
    simp only [isDouble, decide_eq_true_eq, UInt64.le_iff_toNat_le] at h
    have : ((maxDoubleTag punbox64 <<< tagShift punbox64) ||| 0xFFFFFFFF).toNat =
        0x1FFF0 * 2 ^ 47 + 0xFFFFFFFF := by decide
    simp only [tagNat, shift]
    omega

/-- A value of a type, from its payload. -/
def ofPayload (code payload : UInt64) : StoredValue :=
  if code = 1 then .int32 payload.toUInt32.toInt32
  else if code = 2 then .undefined
  else if code = 3 then .boolean (payload = 1)
  else if code = 5 then .string payload.toNat
  else if code = 6 then .null
  else .object payload.toNat

lemma ofPayload_payload (h : L.Stores v) (hv : ∀ bits, v ≠ .double bits) :
    ofPayload (typeCode v) (payload v) = v := by
  have haddress : ∀ address, address < L.addressEnd → (UInt64.ofNat address).toNat = address := by
    intro address ha
    have hle : L.addressEnd ≤ 2 ^ 64 := by cases L <;> decide
    rw [UInt64.toNat_ofNat']
    exact Nat.mod_eq_of_lt (Nat.lt_of_lt_of_le ha hle)
  cases v with
  | double bits => exact absurd rfl (hv bits)
  | undefined => rfl
  | null => rfl
  | boolean b => cases b <;> rfl
  | int32 n => simp [ofPayload, typeCode, payload]
  | string address => exact congrArg StoredValue.string (haddress address h)
  | object address => exact congrArg StoredValue.object (haddress address h)

lemma asRawBits_ne_double {bits : UInt64} (hd : L.Stores (.double bits)) (h : L.Stores v)
    (hv : ∀ bits, v ≠ .double bits) : L.asRawBits v ≠ bits := by
  intro heq
  have hlt := toNat_double_lt hd
  have htag := toNat_asRawBits h hv
  have hpos := (toNat_tag L _ (typeCode_mem hv)).2
  have hmul := Nat.mul_le_mul_right (2 ^ L.shift) (Nat.add_le_add_left hpos L.tagNat)
  rw [heq] at htag
  simp only [Nat.succ_eq_add_one, Nat.zero_add] at hmul
  omega

/-- The bits tell the types apart, and the values of a type. -/
lemma asRawBits_injective (hv : L.Stores v) (hw : L.Stores w)
    (h : L.asRawBits v = L.asRawBits w) : v = w := by
  by_cases hvd : ∃ bits, v = .double bits
  · obtain ⟨bits, rfl⟩ := hvd
    by_cases hwd : ∃ bits, w = .double bits
    · obtain ⟨bits', rfl⟩ := hwd
      exact congrArg _ h
    · exact absurd h.symm (asRawBits_ne_double hv hw fun bits heq => hwd ⟨bits, heq⟩)
  · have hvd : ∀ bits, v ≠ .double bits := fun bits heq => hvd ⟨bits, heq⟩
    by_cases hwd : ∃ bits, w = .double bits
    · obtain ⟨bits', rfl⟩ := hwd
      exact absurd h (asRawBits_ne_double hw hv hvd)
    · have hwd : ∀ bits, w ≠ .double bits := fun bits heq => hwd ⟨bits, heq⟩
      have hsum := congrArg UInt64.toNat h
      rw [toNat_asRawBits hv hvd, toNat_asRawBits hw hwd] at hsum
      have hpv := payload_lt hv
      have hpw := payload_lt hw
      -- a number is its quotient and its remainder
      have hcode : L.tagNat + (typeCode v).toNat = L.tagNat + (typeCode w).toNat := by
        have hdiv := congrArg (· / 2 ^ L.shift) hsum
        simpa [Nat.mul_comm _ (2 ^ L.shift), Nat.mul_add_div (Nat.two_pow_pos _),
          Nat.div_eq_of_lt hpv, Nat.div_eq_of_lt hpw] using hdiv
      have hcode : typeCode v = typeCode w := UInt64.toNat_inj.mp (Nat.add_left_cancel hcode)
      rw [hcode] at hsum
      have hpayload : payload v = payload w := UInt64.toNat_inj.mp (Nat.add_left_cancel hsum)
      rw [← ofPayload_payload hv hvd, ← ofPayload_payload hw hwd, hcode, hpayload]

end ValueLayout

/-! ## What values denote -/

/-- A value of the language. -/
inductive JsValue where
  | undefined
  | null
  | boolean (b : Bool)
  | number (d : Float)
  | string (chars : List Jschar)
  | object (address : Nat)

namespace StringHeap

variable {heap : StringHeap} {L : ValueLayout} {v w : StoredValue}

def denote (heap : StringHeap) : StoredValue → JsValue
  | .undefined => .undefined
  | .null => .null
  | .boolean b => .boolean b
  | .int32 n => .number (Binary64.ofInt32 n)
  | .double bits => .number (Float.ofBits bits)
  | .string address => .string (heap address).chars
  | .object address => .object address

/-! ### Numbers -/

lemma ofBits_negativeZero : Float.ofBits 0x8000000000000000 = -0 := by decide

/-- `-0` is stored with one pattern of bits. -/
lemma doubleIsNegativeZero_iff (bits : UInt64) :
    doubleIsNegativeZero bits = true ↔ Float.ofBits bits = -0 := by
  rw [doubleIsNegativeZero, decide_eq_true_eq]
  constructor
  · rintro rfl
    exact ofBits_negativeZero
  · intro h
    have hnan : (Float.ofBits bits).isNaN = false := by
      rw [h]
      decide
    exact Binary64.ofBits_injective hnan (h.trans ofBits_negativeZero.symm)

/-- Away from `-0`, equality of the number format with something that is neither `-0` nor NaN is
equality. -/
lemma beq_iff_eq {x y : Float} (hx : x ≠ -0) (hy : y ≠ -0) (hnan : y.isNaN = false) :
    (x == y) = true ↔ x = y := by
  constructor
  · intro h
    rcases Binary64.eq_of_beq h with heq | ⟨hx0, hy0⟩
    · exact heq
    · rw [hx0.resolve_right hx, hy0.resolve_right hy]
  · rintro rfl
    exact Binary64.beq_self hnan

lemma doubleIsInt32_eq_some {bits : UInt64} {i : Int32} :
    doubleIsInt32 bits = some i ↔ Float.ofBits bits = Binary64.ofInt32 i := by
  rw [doubleIsInt32]
  constructor
  · intro h
    split_ifs at h with hcond
    rw [Bool.and_eq_true, Bool.not_eq_true'] at hcond
    obtain ⟨hneg, hbeq⟩ := hcond
    rw [Option.some.inj h] at hbeq
    refine (beq_iff_eq (fun hzero => ?_) (Binary64.ofInt32_ne_neg_zero i)
      (Binary64.isNaN_ofInt32 i)).mp hbeq
    rw [(doubleIsNegativeZero_iff bits).mpr hzero] at hneg
    cases hneg
  · intro h
    have hneg : doubleIsNegativeZero bits = false := by
      rw [← Bool.not_eq_true, doubleIsNegativeZero_iff, h]
      exact Binary64.ofInt32_ne_neg_zero i
    rw [h, Binary64.toInt32_ofInt32, Binary64.beq_self (Binary64.isNaN_ofInt32 i), hneg]
    rfl

lemma ofInt32_injective {m n : Int32} (h : Binary64.ofInt32 m = Binary64.ofInt32 n) : m = n := by
  rw [← Binary64.toInt32_ofInt32 m, h, Binary64.toInt32_ofInt32]

lemma equalStrings_iff (heap : StringHeap) (a b : Nat) :
    equalStrings a b (heap a).chars (heap b).chars = true ↔ (heap a).chars = (heap b).chars := by
  unfold equalStrings
  split_ifs with hsame hlen
  · rw [hsame]
    simp
  · refine iff_of_false not_false fun h => ?_
    exact hlen (by rw [h])
  · exact decide_eq_true_iff

/-! ### SameValue -/

/-- Numbers are strictly equal if they are the same, where neither is `-0` or both are NaN. -/
lemma number_beq_iff {x y : Float} (hx : x ≠ -0) (hy : y ≠ -0)
    (hnan : ¬ (x.isNaN = true ∧ y.isNaN = true)) : (x == y) = true ↔ x = y := by
  by_cases hynan : y.isNaN = true
  · have hxnan : x.isNaN ≠ true := fun h => hnan ⟨h, hynan⟩
    rw [Binary64.eq_nan_of_isNaN hynan, Binary64.beq_nan]
    refine iff_of_false (by simp) ?_
    rintro rfl
    exact hxnan (by decide)
  · exact beq_iff_eq hx hy (by simpa using hynan)

lemma sameValue_of_ne (hv : isNegativeZero v = false) (hw : isNegativeZero w = false)
    (hnan : (isNaN v && isNaN w) = false) : heap.sameValue v w = heap.strictlyEqual v w := by
  rw [sameValue, hv, hw, hnan]
  rfl

/-- `-0` is the same as `-0` only. -/
lemma sameValue_of_negativeZero (h : isNegativeZero v = true ∨ isNegativeZero w = true) :
    heap.sameValue v w = (isNegativeZero v && isNegativeZero w) := by
  unfold sameValue
  cases hv : isNegativeZero v with
  | true => rfl
  | false =>
    rw [h.resolve_left (hv ▸ Bool.false_ne_true)]
    rfl

/-- What is not strictly equal is the same only if both are `-0` or both are NaN. -/
lemma sameValue_of_strictlyEqual (h : heap.strictlyEqual v w = false)
    (hzero : (isNegativeZero v && isNegativeZero w) = false)
    (hnan : (isNaN v && isNaN w) = false) : heap.sameValue v w = false := by
  unfold sameValue
  rw [hnan, h]
  cases hv : isNegativeZero v with
  | false => cases isNegativeZero w <;> rfl
  | true =>
    rw [hv, Bool.true_and] at hzero
    exact hzero

lemma not_negativeZero {x : UInt64} (h : doubleIsNegativeZero x = false) :
    Float.ofBits x ≠ -0 := by
  intro heq
  rw [(doubleIsNegativeZero_iff x).mpr heq] at h
  cases h

lemma double_sameValue_double_iff (x y : UInt64) :
    heap.sameValue (.double x) (.double y) = true ↔ Float.ofBits x = Float.ofBits y := by
  cases hx : doubleIsNegativeZero x with
  | true =>
    rw [sameValue_of_negativeZero (v := .double x) (.inl hx), isNegativeZero, isNegativeZero, hx,
      Bool.true_and, doubleIsNegativeZero_iff, (doubleIsNegativeZero_iff x).mp hx, eq_comm]
  | false =>
    cases hy : doubleIsNegativeZero y with
    | true =>
      rw [sameValue_of_negativeZero (w := .double y) (.inr hy), isNegativeZero, hx,
        Bool.false_and]
      refine iff_of_false Bool.false_ne_true fun h => ?_
      exact not_negativeZero hx (h.trans ((doubleIsNegativeZero_iff y).mp hy))
    | false =>
      cases hnan : doubleIsNaN x && doubleIsNaN y with
      | false =>
        rw [sameValue_of_ne (v := .double x) (w := .double y) hx hy hnan]
        refine number_beq_iff (not_negativeZero hx) (not_negativeZero hy) fun h => ?_
        rw [doubleIsNaN, doubleIsNaN, h.1, h.2] at hnan
        cases hnan
      | true =>
        have htrue : heap.sameValue (.double x) (.double y) = true := by
          unfold sameValue
          rw [show isNegativeZero (.double x) = false from hx,
            show isNegativeZero (.double y) = false from hy,
            show (isNaN (.double x) && isNaN (.double y)) = true from hnan]
          rfl
        rw [Bool.and_eq_true] at hnan
        rw [htrue, Binary64.eq_nan_of_isNaN hnan.1, Binary64.eq_nan_of_isNaN hnan.2]
        exact iff_of_true rfl rfl

lemma double_sameValue_int32_iff (x : UInt64) (n : Int32) :
    heap.sameValue (.double x) (.int32 n) = true ↔ Float.ofBits x = Binary64.ofInt32 n := by
  have hn := Binary64.ofInt32_ne_neg_zero n
  cases hx : doubleIsNegativeZero x with
  | false =>
    rw [sameValue_of_ne (v := .double x) hx rfl (Bool.and_false _)]
    exact beq_iff_eq (not_negativeZero hx) hn (Binary64.isNaN_ofInt32 n)
  | true =>
    have heq : Float.ofBits x = -0 := (doubleIsNegativeZero_iff x).mp hx
    rw [sameValue_of_negativeZero (v := .double x) (.inl hx), Bool.and_comm]
    refine iff_of_false Bool.false_ne_true fun h => ?_
    exact hn (h.symm.trans heq)

lemma int32_sameValue_double_iff (n : Int32) (x : UInt64) :
    heap.sameValue (.int32 n) (.double x) = true ↔ Binary64.ofInt32 n = Float.ofBits x := by
  have hn := Binary64.ofInt32_ne_neg_zero n
  cases hx : doubleIsNegativeZero x with
  | false =>
    rw [sameValue_of_ne (v := .int32 n) (w := .double x) rfl hx (Bool.false_and _)]
    refine number_beq_iff hn (not_negativeZero hx) fun h => ?_
    exact absurd (h.1.symm.trans (Binary64.isNaN_ofInt32 n)) Bool.noConfusion
  | true =>
    have heq : Float.ofBits x = -0 := (doubleIsNegativeZero_iff x).mp hx
    rw [sameValue_of_negativeZero (w := .double x) (.inr hx)]
    refine iff_of_false Bool.false_ne_true fun h => ?_
    exact hn (h.trans heq)

/-- Values that are no numbers are the same as values of their own type only. -/
lemma sameValue_iff_of_ne (h : heap.strictlyEqual v w = false)
    (hzero : (isNegativeZero v && isNegativeZero w) = false)
    (hnan : (isNaN v && isNaN w) = false) (hne : heap.denote v ≠ heap.denote w) :
    heap.sameValue v w = true ↔ heap.denote v = heap.denote w := by
  rw [sameValue_of_strictlyEqual h hzero hnan]
  exact iff_of_false Bool.false_ne_true hne

lemma denote_number_iff {d e : Float} : JsValue.number d = JsValue.number e ↔ d = e :=
  ⟨JsValue.number.inj, congrArg _⟩

/-- Two values are the same if they denote the same. -/
lemma sameValue_iff : heap.sameValue v w = true ↔ heap.denote v = heap.denote w := by
  cases v <;> cases w
  case double.double x y =>
    exact (double_sameValue_double_iff x y).trans denote_number_iff.symm
  case double.int32 x n =>
    exact (double_sameValue_int32_iff x n).trans denote_number_iff.symm
  case int32.double n x =>
    exact (int32_sameValue_double_iff n x).trans denote_number_iff.symm
  case int32.int32 m n =>
    rw [sameValue_of_ne rfl rfl rfl]
    refine decide_eq_true_iff.trans ⟨fun h => by rw [h], fun h => ?_⟩
    exact ofInt32_injective (JsValue.number.inj h)
  case string.string a b =>
    rw [sameValue_of_ne rfl rfl rfl]
    exact (equalStrings_iff heap a b).trans ⟨congrArg _, JsValue.string.inj⟩
  case boolean.boolean b c =>
    rw [sameValue_of_ne rfl rfl rfl]
    exact decide_eq_true_iff.trans ⟨congrArg _, JsValue.boolean.inj⟩
  case object.object a b =>
    rw [sameValue_of_ne rfl rfl rfl]
    exact decide_eq_true_iff.trans ⟨congrArg _, JsValue.object.inj⟩
  case undefined.undefined => exact iff_of_true rfl rfl
  case null.null => exact iff_of_true rfl rfl
  -- the values of two types that are not both numbers
  all_goals
    refine sameValue_iff_of_ne rfl ?_ ?_ (by rintro ⟨⟩)
    · first | rfl | exact Bool.and_false _
    · first | rfl | exact Bool.and_false _

/-! ### Keys -/

/-- What `setValue` makes: a number in one way only, and a string that is linear. -/
def IsKey (L : ValueLayout) (heap : StringHeap) : StoredValue → Prop
  | .double bits =>
    L.isDouble bits = true ∧ doubleIsInt32 bits = none ∧ (doubleIsNaN bits = true → bits = jsNaN)
  | .string address => address < L.addressEnd ∧ ∃ chars, heap address = .linear chars
  | .object address => address < L.addressEnd
  | _ => True

lemma IsKey.stores (h : IsKey L heap v) : L.Stores v := by
  cases v with
  | double bits => exact h.1
  | string address => exact h.1
  | object address => exact h
  | _ => trivial

/-- Keys that are no strings are known by what they denote. -/
lemma IsKey.eq_of_denote (hv : IsKey L heap v) (hw : IsKey L heap w)
    (hstring : ∀ a, v ≠ .string a) (h : heap.denote v = heap.denote w) : v = w := by
  cases v with
  | string a => exact absurd rfl (hstring a)
  | undefined =>
    cases w with
    | undefined => rfl
    | _ => cases h
  | null =>
    cases w with
    | null => rfl
    | _ => cases h
  | boolean b =>
    cases w with
    | boolean c => exact congrArg _ (JsValue.boolean.inj h)
    | _ => cases h
  | object a =>
    cases w with
    | object b => exact congrArg _ (JsValue.object.inj h)
    | _ => cases h
  | int32 n =>
    cases w with
    | int32 m => exact congrArg _ (ofInt32_injective (JsValue.number.inj h))
    | double y =>
      have hint := doubleIsInt32_eq_some.mpr (JsValue.number.inj h).symm
      rw [hw.2.1] at hint
      cases hint
    | _ => cases h
  | double x =>
    cases w with
    | int32 m =>
      have hint := doubleIsInt32_eq_some.mpr (JsValue.number.inj h)
      rw [hv.2.1] at hint
      cases hint
    | double y =>
      have hnum : Float.ofBits x = Float.ofBits y := JsValue.number.inj h
      cases hnan : (Float.ofBits x).isNaN with
      | false => exact congrArg _ (Binary64.ofBits_injective hnan hnum)
      | true =>
        have hnan' : (Float.ofBits y).isNaN = true := hnum ▸ hnan
        rw [hv.2.2 hnan, hw.2.2 hnan']
    | _ => cases h

lemma asRawBits_eq_iff (hv : IsKey L heap v) (hw : IsKey L heap w) :
    L.asRawBits v = L.asRawBits w ↔ v = w :=
  ⟨ValueLayout.asRawBits_injective hv.stores hw.stores, congrArg _⟩

/-- Keys are equal if they denote the same. -/
lemma equals_eq (hv : IsKey L heap v) (hw : IsKey L heap w) :
    ∃ b, heap.equals L v w = some b ∧ (b = true ↔ heap.denote v = heap.denote w) := by
  by_cases heq : v = w
  · subst heq
    refine ⟨true, ?_, iff_of_true rfl rfl⟩
    unfold equals
    rw [if_pos rfl]
  have hbits : L.asRawBits v ≠ L.asRawBits w := fun h => heq ((asRawBits_eq_iff hv hw).mp h)
  by_cases hstring : ∃ a b, v = .string a ∧ w = .string b
  · obtain ⟨a, b, rfl, rfl⟩ := hstring
    obtain ⟨-, chars, ha⟩ := hv
    obtain ⟨-, chars', hb⟩ := hw
    refine ⟨equalStrings a b chars chars', ?_, ?_⟩
    · unfold equals
      rw [if_neg hbits]
      simp only [ha, hb]
    · have hiff := equalStrings_iff heap a b
      rw [ha, hb] at hiff
      refine hiff.trans ⟨fun h => ?_, fun h => ?_⟩
      · simp only [denote, ha, hb, h]
      · simpa only [denote, ha, hb, JsValue.string.injEq] using h
  · refine ⟨false, ?_, iff_of_false Bool.false_ne_true fun h => ?_⟩
    · unfold equals
      rw [if_neg hbits]
      split
      · exact absurd ⟨_, _, rfl, rfl⟩ hstring
      · rfl
    · by_cases hv' : ∃ a, v = .string a
      · obtain ⟨a, rfl⟩ := hv'
        cases w with
        | string b => exact hstring ⟨_, _, rfl, rfl⟩
        | _ => cases h
      · exact heq (hv.eq_of_denote hw (fun a ha => hv' ⟨a, ha⟩) h)

/-- Keys that denote the same have one hash code. -/
lemma hash_eq (hv : IsKey L heap v) (hw : IsKey L heap w)
    (h : heap.denote v = heap.denote w) : heap.hash L v = heap.hash L w := by
  by_cases hstring : ∃ a, v = .string a
  · obtain ⟨a, rfl⟩ := hstring
    cases w with
    | string b =>
      obtain ⟨-, chars, ha⟩ := hv
      obtain ⟨-, chars', hb⟩ := hw
      have hchars : chars = chars' := by
        simpa only [denote, ha, hb, JsValue.string.injEq, RopeString.chars] using h
      simp only [hash, ha, hb, hchars]
    | _ => cases h
  · rw [hv.eq_of_denote hw (fun a ha => hstring ⟨a, ha⟩) h]

lemma hash_isSome (hv : IsKey L heap v) : (heap.hash L v).isSome = true := by
  cases v with
  | string a =>
    obtain ⟨-, chars, ha⟩ := hv
    simp only [hash, ha, Option.isSome_some]
  | _ => rfl

/-! ### Making keys -/

lemma flatten_chars (along : Nat → Bool) (address a : Nat) :
    (heap.flatten along address a).chars = (heap a).chars := by
  unfold flatten
  split_ifs
  · rfl
  · rfl

lemma flatten_denote (along : Nat → Bool) (address : Nat) (u : StoredValue) :
    (heap.flatten along address).denote u = heap.denote u := by
  cases u with
  | string a => exact congrArg _ (flatten_chars along address a)
  | _ => rfl

lemma IsKey.flatten (along : Nat → Bool) (address : Nat) (h : IsKey L heap v) :
    IsKey L (heap.flatten along address) v := by
  cases v with
  | string a =>
    obtain ⟨ha, chars, hlin⟩ := h
    refine ⟨ha, chars, ?_⟩
    unfold StringHeap.flatten
    split_ifs
    · rw [hlin]
      rfl
    · exact hlin
  | _ => exact h

/-- What a call of `setValue` does that makes `k` of `v`. -/
structure Made (L : ValueLayout) (heap heap' : StringHeap) (v k : StoredValue) : Prop where
  isKey : IsKey L heap' k
  denote_key : heap'.denote k = heap.denote v
  denote_eq : ∀ u, heap'.denote u = heap.denote u
  keys : ∀ u, IsKey L heap u → IsKey L heap' u

lemma Made.of_isKey {k : StoredValue} (h : IsKey L heap k)
    (hdenote : heap.denote k = heap.denote v) : Made L heap heap v k :=
  ⟨h, hdenote, fun _ => rfl, fun _ => id⟩

lemma doubleIsInt32_of_isNaN {bits : UInt64} (h : doubleIsNaN bits = true) :
    doubleIsInt32 bits = none := by
  cases hint : doubleIsInt32 bits with
  | none => rfl
  | some i =>
    rw [doubleIsNaN, doubleIsInt32_eq_some.mp hint, Binary64.isNaN_ofInt32] at h
    cases h

lemma jsNaN_isNaN : doubleIsNaN jsNaN = true := by decide

/-- A double becomes the one key of its number. -/
lemma made_double {bits : UInt64} (hv : L.Stores (.double bits)) {alloc : Option (Nat → Bool)}
    {k : StoredValue} {heap' : StringHeap}
    (h : heap.setValue alloc (.double bits) = some (k, heap')) :
    Made L heap heap' (.double bits) k := by
  simp only [setValue] at h
  cases hint : doubleIsInt32 bits with
  | some i =>
    rw [hint] at h
    cases h
    exact .of_isKey trivial (congrArg JsValue.number (doubleIsInt32_eq_some.mp hint).symm)
  | none =>
    rw [hint] at h
    simp only at h
    split_ifs at h with hnan
    · cases h
      refine .of_isKey ⟨?_, doubleIsInt32_of_isNaN jsNaN_isNaN, fun _ => rfl⟩ ?_
      · cases L <;> decide
      · refine congrArg JsValue.number ?_
        rw [Binary64.eq_nan_of_isNaN hnan, Binary64.eq_nan_of_isNaN jsNaN_isNaN]
    · cases h
      exact .of_isKey ⟨hv, hint, fun hnan' => absurd hnan' hnan⟩ rfl

lemma setValue_made (hv : L.Stores v) {alloc : Option (Nat → Bool)} {k : StoredValue}
    {heap' : StringHeap} (h : heap.setValue alloc v = some (k, heap')) : Made L heap heap' v k := by
  cases v with
  | double bits => exact made_double hv h
  | string address =>
    cases hrope : heap address with
    | linear chars =>
      simp only [setValue, hrope] at h
      cases h
      exact .of_isKey ⟨hv, chars, hrope⟩ rfl
    | rope left right =>
      simp only [setValue, hrope, Option.map_eq_some_iff] at h
      obtain ⟨along, -, heq⟩ := h
      cases heq
      refine ⟨⟨hv, (heap address).chars, ?_⟩, flatten_denote along address _,
        flatten_denote along address, fun u hu => hu.flatten along address⟩
      unfold flatten
      rw [decide_eq_true rfl]
      rfl
  | object address =>
    cases h
    exact .of_isKey hv rfl
  | _ =>
    cases h
    exact .of_isKey trivial rfl

lemma setValue_isSome (heap : StringHeap) (along : Nat → Bool) (v : StoredValue) :
    (heap.setValue (some along) v).isSome = true := by
  cases v with
  | double bits =>
    simp only [setValue]
    split
    · rfl
    · split_ifs <;> rfl
  | string address =>
    simp only [setValue]
    split <;> rfl
  | _ => rfl

/-! ### Runs -/

/-- A run of calls of `setValue`: the values of the calls that succeed, with their keys. -/
def setValues : StringHeap → List (StoredValue × Option (Nat → Bool)) →
    List (StoredValue × StoredValue) × StringHeap
  | heap, [] => ([], heap)
  | heap, (v, alloc) :: calls =>
    match heap.setValue alloc v with
    | some (k, heap') =>
      ((v, k) :: (setValues heap' calls).1, (setValues heap' calls).2)
    | none => setValues heap calls

/-- The keys of a run are keys at its end, whatever is flattened after they are made. -/
lemma setValues_made (calls : List (StoredValue × Option (Nat → Bool))) :
    ∀ heap : StringHeap, (∀ c ∈ calls, L.Stores c.1) →
      (∀ p ∈ (heap.setValues calls).1, Made L heap (heap.setValues calls).2 p.1 p.2) ∧
        (∀ u, (heap.setValues calls).2.denote u = heap.denote u) ∧
        ∀ u, IsKey L heap u → IsKey L (heap.setValues calls).2 u := by
  induction calls with
  | nil => exact fun heap _ => ⟨fun p hp => absurd hp not_mem_nil, fun _ => rfl, fun _ => id⟩
  | cons c calls ih =>
    intro heap hstores
    obtain ⟨v, alloc⟩ := c
    have hrest : ∀ c ∈ calls, L.Stores c.1 := fun c hc => hstores c (mem_cons_of_mem _ hc)
    cases hset : heap.setValue alloc v with
    | none =>
      simp only [setValues, hset]
      exact ih heap hrest
    | some made =>
      obtain ⟨k, heap'⟩ := made
      simp only [setValues, hset]
      have hmade := setValue_made (hstores _ mem_cons_self) hset
      obtain ⟨hkeys, hdenote, hkeep⟩ := ih heap' hrest
      have hdenote' := fun u => (hdenote u).trans (hmade.denote_eq u)
      have hkeep' := fun u hu => hkeep u (hmade.keys u hu)
      refine ⟨fun p hp => ?_, hdenote', hkeep'⟩
      rcases mem_cons.mp hp with rfl | hp
      · exact ⟨hkeep k hmade.isKey, (hdenote k).trans hmade.denote_key, hdenote', hkeep'⟩
      · have hp := hkeys p hp
        exact ⟨hp.isKey, hp.denote_key.trans (hmade.denote_eq p.1), hdenote', hkeep'⟩

lemma setValues_complete (calls : List (StoredValue × Option (Nat → Bool))) :
    ∀ heap : StringHeap, ∀ c ∈ calls, c.2.isSome = true →
      ∃ k, (c.1, k) ∈ (heap.setValues calls).1 := by
  induction calls with
  | nil => exact fun heap c hc => absurd hc not_mem_nil
  | cons c calls ih =>
    intro heap d hd hsome
    obtain ⟨v, alloc⟩ := c
    cases hset : heap.setValue alloc v with
    | none =>
      simp only [setValues, hset]
      rcases mem_cons.mp hd with rfl | hd
      · obtain ⟨along, rfl⟩ := Option.isSome_iff_exists.mp hsome
        have hsome := setValue_isSome heap along v
        rw [hset] at hsome
        cases hsome
      · exact ih heap d hd hsome
    | some made =>
      obtain ⟨k, heap'⟩ := made
      simp only [setValues, hset]
      rcases mem_cons.mp hd with rfl | hd
      · exact ⟨k, mem_cons_self⟩
      · obtain ⟨k', hk'⟩ := ih heap' d hd hsome
        exact ⟨k', mem_cons_of_mem _ hk'⟩

variable {heap' : StringHeap} {k l : StoredValue}

/-- Keys are equal where their values were the same. -/
lemma Made.equals_eq (hv : Made L heap heap' v k) (hw : Made L heap heap' w l) :
    heap'.equals L k l = some (heap.sameValue v w) := by
  obtain ⟨b, hequals, hb⟩ := StringHeap.equals_eq hv.isKey hw.isKey
  rw [hv.denote_key, hw.denote_key, ← sameValue_iff] at hb
  rw [hequals, Bool.eq_iff_iff.mpr hb]

lemma Made.equals_iff (hv : Made L heap heap' v k) (hw : Made L heap heap' w l) :
    heap'.equals L k l = some true ↔ heap.denote v = heap.denote w := by
  rw [hv.equals_eq hw, Option.some_inj]
  exact sameValue_iff

/-- Of all runs of `setValue` that start with some strings: every call with enough memory makes a
key; the keys are equal where `SameValue` holds of the values; this is an equivalence; and equal
keys have the same hash code. -/
theorem hashableValue_sameValue (L : ValueLayout) (heap : StringHeap)
    (calls : List (StoredValue × Option (Nat → Bool))) (h : ∀ c ∈ calls, L.Stores c.1) :
    let made := (heap.setValues calls).1
    let heap' := (heap.setValues calls).2
    (∀ c ∈ calls, c.2.isSome = true → ∃ k, (c.1, k) ∈ made) ∧
      (∀ p ∈ made, ∀ q ∈ made, heap'.equals L p.2 q.2 = some (heap.sameValue p.1 q.1)) ∧
      (Equivalence fun p q : {p // p ∈ made} => heap'.equals L p.1.2 q.1.2 = some true) ∧
      ∀ p ∈ made, ∀ q ∈ made, heap'.equals L p.2 q.2 = some true →
        ∃ code, heap'.hash L p.2 = some code ∧ heap'.hash L q.2 = some code := by
  intro made heap'
  have hmade : ∀ p ∈ made, Made L heap heap' p.1 p.2 := (setValues_made calls heap h).1
  refine ⟨setValues_complete calls heap, ?_, ⟨?_, ?_, ?_⟩, ?_⟩
  · exact fun p hp q hq => (hmade p hp).equals_eq (hmade q hq)
  · exact fun p => ((hmade p p.2).equals_iff (hmade p p.2)).mpr rfl
  · intro p q hpq
    have hsame := ((hmade p p.2).equals_iff (hmade q q.2)).mp hpq
    exact ((hmade q q.2).equals_iff (hmade p p.2)).mpr hsame.symm
  · intro p q r hpq hqr
    have hpq := ((hmade p p.2).equals_iff (hmade q q.2)).mp hpq
    have hqr := ((hmade q q.2).equals_iff (hmade r r.2)).mp hqr
    exact ((hmade p p.2).equals_iff (hmade r r.2)).mpr (hpq.trans hqr)
  · intro p hp q hq hequals
    have hsame := ((hmade p hp).equals_iff (hmade q hq)).mp hequals
    rw [← (hmade p hp).denote_key, ← (hmade q hq).denote_key] at hsame
    obtain ⟨code, hcode⟩ := Option.isSome_iff_exists.mp (hash_isSome (hmade p hp).isKey)
    refine ⟨code, hcode, ?_⟩
    rw [← hash_eq (hmade p hp).isKey (hmade q hq).isKey hsame]
    exact hcode

def ropeHeap : StringHeap := fun a =>
  if a = 8 then .rope (.linear [106]) (.linear [115]) else .linear [106, 115]

def ropeCalls : List (StoredValue × Option (Nat → Bool)) :=
  [(.string 8, some fun _ => false), (.string 16, none), (.double 0x3FF0000000000000, none),
    (.int32 1, none)]

/-- A rope and its characters, and a number that is stored in two ways. -/
theorem hashableValue_sameValue_rope :
    (ropeHeap.setValues ropeCalls).2.equals .punbox64 (.string 8) (.string 16) = some true ∧
      (ropeHeap.setValues ropeCalls).2.equals .punbox64 (.int32 1) (.int32 1) = some true := by
  have hstores : ∀ c ∈ ropeCalls, ValueLayout.punbox64.Stores c.1 := by
    intro c hc
    simp only [ropeCalls, mem_cons, not_mem_nil, or_false] at hc
    rcases hc with rfl | rfl | rfl | rfl
    · exact (by decide : 8 < 2 ^ 47)
    · exact (by decide : 16 < 2 ^ 47)
    · exact (by decide : ValueLayout.punbox64.isDouble 0x3FF0000000000000 = true)
    · trivial
  have hspec := (hashableValue_sameValue .punbox64 ropeHeap ropeCalls hstores).2.1
  exact ⟨hspec (.string 8, .string 8) (by decide) (.string 16, .string 16) (by decide),
    hspec (.double 0x3FF0000000000000, .int32 1) (by decide) (.int32 1, .int32 1) (by decide)⟩

end StringHeap

end SpiderMonkey.Vm
