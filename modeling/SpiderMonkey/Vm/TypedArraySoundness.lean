import SpiderMonkey.Vm.TypedArray

/-! # Views stay inside their buffers

The invariant `Buffers.Valid`, and for every call three facts: it keeps the invariant, it reads and
writes only the bytes of its own views, and what it calculates is exact. Only `fromBuffer`
multiplies before it checks.
-/

namespace SpiderMonkey.Vm

open SpiderMonkey.Lib List

lemma ArrayType.size_cases (type : ArrayType) :
    type.size = 1 ∨ type.size = 2 ∨ type.size = 4 ∨ type.size = 8 := by
  cases type <;> simp [ArrayType.size]

lemma uint32_eq {x : Int} (h0 : 0 ≤ x) (h : x < 2 ^ 32) : (uint32 x : Int) = x := by
  unfold uint32
  omega

lemma uint32_natCast {n : Nat} (h : n < 2 ^ 32) : uint32 n = n := by
  unfold uint32
  omega

lemma uint32_sub {m n : Nat} (h : n ≤ m) (hm : m < 2 ^ 32) : uint32 (m - n : Int) = m - n := by
  unfold uint32
  omega

/-- The bytes of the first range are among those of the second. -/
def ByteRange.Within (r s : ByteRange) : Prop :=
  r.buffer = s.buffer ∧ s.first ≤ r.first ∧ r.first + r.count ≤ s.first + s.count

/-- Reads of the bytes of some views, and writes to those of others. -/
def ByteAccess.Inside (sources targets : List ByteRange) : ByteAccess → Prop
  | read bytes => ∃ view ∈ sources, bytes.Within view
  | write bytes => ∃ view ∈ targets, bytes.Within view

/-- The bytes of a view. -/
def TypedArray.bytes (a : TypedArray) : ByteRange := ⟨a.buffer, a.byteOffset, a.byteLength⟩

def DataView.bytes (v : DataView) : ByteRange := ⟨v.buffer, v.byteOffset, v.byteLength⟩

/-! ## The invariant -/

structure TypedArray.Valid (byteLengths : List Nat) (a : TypedArray) : Prop where
  byteLength_eq : a.byteLength = a.length * a.type.size
  aligned : a.byteOffset % a.type.size = 0
  inside : ∃ n, byteLengths[a.buffer]? = some n ∧ a.byteOffset + a.length * a.type.size ≤ n

structure DataView.Valid (byteLengths : List Nat) (v : DataView) : Prop where
  inside : ∃ n, byteLengths[v.buffer]? = some n ∧ v.byteOffset + v.byteLength ≤ n

structure Buffers.Valid (b : Buffers) : Prop where
  byteLength_le : ∀ n ∈ b.byteLengths, n ≤ 2147483647
  array : ∀ a ∈ b.arrays, a.Valid b.byteLengths
  dataView : ∀ v ∈ b.dataViews, v.Valid b.byteLengths

lemma getElem?_append_some {l : List Nat} {i n : Nat} (h : l[i]? = some n) (m : Nat) :
    (l ++ [m])[i]? = some n := by
  rw [List.getElem?_append_left (List.getElem?_eq_some_iff.mp h).1, h]

variable {a : TypedArray}

lemma TypedArray.Valid.append {lens : List Nat} (h : a.Valid lens) (m : Nat) :
    a.Valid (lens ++ [m]) where
  byteLength_eq := h.byteLength_eq
  aligned := h.aligned
  inside := by
    obtain ⟨n, hn, hle⟩ := h.inside
    exact ⟨n, getElem?_append_some hn m, hle⟩

lemma DataView.Valid.append {lens : List Nat} {v : DataView} (h : v.Valid lens) (m : Nat) :
    v.Valid (lens ++ [m]) where
  inside := by
    obtain ⟨n, hn, hle⟩ := h.inside
    exact ⟨n, getElem?_append_some hn m, hle⟩

namespace Buffers

variable {b : Buffers}

lemma Valid.createBuffer (h : b.Valid) {nbytes : Nat} (hn : nbytes ≤ 2147483647) :
    (b.createBuffer nbytes).Valid where
  byteLength_le n hmem := by
    rcases mem_append.mp hmem with hold | hnew
    · exact h.byteLength_le n hold
    · rw [mem_singleton.mp hnew]
      exact hn
  array a ha := (h.array a ha).append nbytes
  dataView v hv := (h.dataView v hv).append nbytes

lemma Valid.addArray (h : b.Valid) (ha : a.Valid b.byteLengths) :
    (b.addArray a).Valid where
  byteLength_le := h.byteLength_le
  array a' hmem := by
    rcases mem_append.mp hmem with hold | hnew
    · exact h.array a' hold
    · rw [mem_singleton.mp hnew]
      exact ha
  dataView := h.dataView

lemma Valid.buffer_le (h : b.Valid) {buffer n : Nat} (hn : b.byteLengths[buffer]? = some n) :
    n ≤ 2147483647 :=
  h.byteLength_le n (mem_of_getElem? hn)

/-- An array of a valid state is no longer than a buffer can be. -/
lemma Valid.array_le (h : b.Valid) (ha : a ∈ b.arrays) :
    a.byteOffset + a.length * a.type.size ≤ 2147483647 ∧ a.length ≤ 2147483647 := by
  obtain ⟨n, hn, hle⟩ := (h.array a ha).inside
  have hmax := h.buffer_le hn
  rcases a.type.size_cases with hs | hs | hs | hs <;> rw [hs] at hle ⊢ <;> omega

/-! ## `ToClampedIndex` -/

lemma toClampedIndex_le (v : Int32Arg) {length : Nat} (h : length ≤ 2147483647) :
    (toClampedIndex v length).1 ≤ length ∧ ∀ c ∈ (toClampedIndex v length).2, c.Fits := by
  obtain ⟨v, hv⟩ := v
  simp only [IsInt32, int32Min, int32Max] at hv
  unfold toClampedIndex
  split
  case isTrue hneg =>
    have hneg : v < 0 := hneg
    -- the sum of a negative number and a length is in range
    have hsum : IsInt32 (v + length) := by
      simp only [IsInt32, int32Min, int32Max]
      omega
    simp only [wrap32_of_isInt32 hsum]
    constructor
    · split
      · exact Nat.zero_le _
      · unfold uint32
        omega
    · intro c hc
      rw [mem_singleton.mp hc]
      exact hsum
  case isFalse hpos =>
    split
    · exact ⟨le_rfl, by simp⟩
    · rename_i hle
      exact ⟨Nat.le_of_not_lt hle, by simp⟩

/-- After the swap the two ends are in order. -/
lemma clampedRange_le (args : List Int32Arg) {length : Nat} (h : length ≤ 2147483647) :
    (clampedRange args length).1 ≤ (clampedRange args length).2.1 ∧
      (clampedRange args length).2.1 ≤ length ∧
      ∀ c ∈ (clampedRange args length).2.2, c.Fits := by
  unfold clampedRange
  rcases args with _ | ⟨v, _ | ⟨w, rest⟩⟩
  · simp
  · have hv := toClampedIndex_le v h
    simp only
    refine ⟨?_, le_rfl, hv.2⟩
    split <;> omega
  · have hv := toClampedIndex_le v h
    have hw := toClampedIndex_le w h
    simp only
    refine ⟨?_, hw.1, fun c hc => ?_⟩
    · split <;> omega
    · rcases mem_append.mp hc with hc | hc
      · exact hv.2 c hc
      · exact hw.2 c hc

/-! ## The calls -/

end Buffers

/-- What a call does that reads `sources` and writes `targets`. -/
structure ViewCall.Sound (sources targets : List ByteRange) (r : ViewCall Buffers) : Prop where
  valid : ∀ b', r.result = some b' → b'.Valid
  inside : ∀ access ∈ r.accesses, access.Inside sources targets
  fits : ∀ c ∈ r.sums, c.Fits

/-- A call that reports an error at once. -/
lemma ViewCall.Sound.error {sources targets : List ByteRange} {sums : List Calculation}
    (hsums : ∀ c ∈ sums, c.Fits) : ViewCall.Sound sources targets ⟨none, sums, []⟩ where
  valid := nofun
  inside := nofun
  fits := hsums

lemma Calculation.fits_unsigned {n : Int} (h0 : 0 ≤ n) (h : n < 2 ^ 32) : (unsigned n).Fits :=
  ⟨h0, h⟩

namespace Buffers

variable {b : Buffers}

lemma newArrayBuffer_sound (h : b.Valid) (nbytes : Int32Arg) :
    (b.newArrayBuffer nbytes).Sound [] [] := by
  obtain ⟨n, hn⟩ := nbytes
  simp only [IsInt32, int32Min, int32Max] at hn
  unfold newArrayBuffer
  split
  · exact .error (by simp)
  · rename_i hpos
    have hpos : ¬n < 0 := hpos
    refine ⟨?_, nofun, nofun⟩
    rintro b' ⟨⟩
    refine h.createBuffer ?_
    show uint32 n ≤ 2147483647
    unfold uint32
    omega

lemma slice_sound (h : b.Valid) {buffer n : Nat} (hn : b.byteLengths[buffer]? = some n)
    (args : List Int32Arg) :
    ∃ length, (b.slice buffer args).result = some (b.createBuffer length) ∧
      (b.slice buffer args).Sound [⟨buffer, 0, n⟩] [⟨b.byteLengths.length, 0, length⟩] := by
  have hmax := h.buffer_le hn
  obtain ⟨hfirst, hlast, hfits⟩ := clampedRange_le args hmax
  unfold slice
  rw [hn]
  simp only
  generalize clampedRange args n = r at hfirst hlast hfits
  obtain ⟨first, last, sums⟩ := r
  simp only at hfirst hlast hfits ⊢
  have hlen : uint32 (last - first : Int) = last - first := uint32_sub hfirst (by omega)
  rw [hlen]
  refine ⟨_, rfl, ?_, ?_, ?_⟩
  · rintro b' ⟨⟩
    exact h.createBuffer (by omega)
  · intro access hmem
    simp only [mem_cons, not_mem_nil, or_false] at hmem
    rcases hmem with rfl | rfl
    · refine ⟨_, mem_singleton_self _, rfl, Nat.zero_le _, ?_⟩
      simp only
      omega
    · exact ⟨_, mem_singleton_self _, rfl, le_rfl, le_rfl⟩
  · intro c hc
    rcases mem_append.mp hc with hc | hc
    · exact hfits c hc
    · rw [mem_singleton.mp hc]
      exact Calculation.fits_unsigned (by omega) (by omega)

/-- What `createBufferWithSizeAndCount` and `makeInstance` make. -/
lemma newArray_sound (h : b.Valid) (type : ArrayType) (count : Nat) :
    (∀ c ∈ (b.newArray type count).sums, c.Fits) ∧
      ∀ b' a, (b.newArray type count).result = some (b', a) →
        b'.Valid ∧ a ∈ b'.arrays ∧ a.length = count ∧ a.type = type := by
  unfold newArray
  split
  · exact ⟨nofun, nofun⟩
  · rename_i hcount
    have hbytes : count * type.size < 2147483647 := by
      simp only [int32Max] at hcount
      rcases type.size_cases with hs | hs | hs | hs <;> rw [hs] at hcount ⊢ <;> omega
    have hcomm : (type.size * count : Int) = ((count * type.size : Nat) : Int) := by
      push_cast
      ring
    have hfits : Calculation.Fits (.unsigned ((count * type.size : Nat) : Int)) :=
      Calculation.fits_unsigned (by omega) (by omega)
    simp only [makeInstance, hcomm, ← Nat.cast_mul, uint32_natCast (n := count * type.size) (by omega)]
    constructor
    · intro c hc
      simp only [mem_cons, not_mem_nil, or_false, or_self] at hc
      rw [hc]
      exact hfits
    · rintro b' a ⟨⟩
      refine ⟨(h.createBuffer (by omega)).addArray ⟨rfl, Nat.zero_mod _, ?_⟩, ?_, rfl, rfl⟩
      · refine ⟨count * type.size, ?_, by simp⟩
        simp [createBuffer]
      · exact mem_append_right _ (mem_singleton_self _)

/-- Bytes of an element are bytes of its array. -/
lemma element_within (h : a.byteLength = a.length * a.type.size) {i : Nat} (hi : i < a.length) :
    ByteRange.Within ⟨a.buffer, a.byteOffset + i * a.type.size, a.type.size⟩ a.bytes := by
  refine ⟨rfl, Nat.le_add_right _ _, ?_⟩
  simp only [TypedArray.bytes, h]
  have hmul : (i + 1) * a.type.size ≤ a.length * a.type.size := Nat.mul_le_mul_right _ hi
  rw [Nat.add_mul, Nat.one_mul] at hmul
  omega

lemma copyFromArray_inside (h : a.byteLength = a.length * a.type.size) {len offset : Nat}
    (hle : offset + len ≤ a.length) (stops : Option Nat) :
    ∀ access ∈ copyFromArray a len offset stops, access.Inside [] [a.bytes] := by
  intro access hmem
  obtain ⟨i, hi, rfl⟩ := mem_map.mp hmem
  refine ⟨_, mem_singleton_self _, element_within h ?_⟩
  have hi := mem_range.mp hi
  -- the loop goes no further than `len`
  have hcount : i < len := by
    cases stops with
    | none => exact hi
    | some n => exact lt_of_lt_of_le hi (Nat.min_le_right n len)
  omega

lemma fromLength_sound (h : b.Valid) (type : ArrayType) (nelements : Uint32Arg) :
    (b.fromLength type nelements).Sound [] [] := by
  obtain ⟨hfits, hnew⟩ := newArray_sound h type nelements.1
  refine ⟨fun b' hb' => ?_, ?_, hfits⟩
  · obtain ⟨⟨b'', a⟩, hr, rfl⟩ := Option.map_eq_some_iff.mp hb'
    exact (hnew b'' a hr).1
  · unfold fromLength newArray
    split <;> exact nofun

lemma fromArray_sound (h : b.Valid) (type : ArrayType) (len : Uint32Arg)
    (stops : Option Nat) :
    (b.fromArray type len stops).Sound []
      ((b.newArray type len.1).result.map fun r => r.2.bytes).toList := by
  obtain ⟨hfits, hnew⟩ := newArray_sound h type len.1
  unfold fromArray
  cases hr : (b.newArray type len.1).result with
  | none =>
    simp only [hr]
    exact .error hfits
  | some r =>
    obtain ⟨b', a⟩ := r
    obtain ⟨hvalid, hmem, hlength, -⟩ := hnew b' a hr
    simp only [hr]
    refine ⟨fun b'' hb'' => ?_, ?_, hfits⟩
    · simp only at hb''
      split at hb''
      · exact absurd hb'' nofun
      · cases hb''
        exact hvalid
    · exact copyFromArray_inside (hvalid.array a hmem).byteLength_eq (by omega) stops

variable {tarray : TypedArray}

lemma subarray_sound (h : b.Valid) (hmem : tarray ∈ b.arrays) (args : List Int32Arg) :
    (b.subarray tarray args).Sound [] [] := by
  obtain ⟨hbytes, hlength⟩ := h.array_le hmem
  obtain ⟨hlen, halign, n, hn, hle⟩ := h.array tarray hmem
  obtain ⟨hfirst, hlast, hfits⟩ := clampedRange_le args hlength
  unfold subarray
  generalize clampedRange args tarray.length = r at hfirst hlast hfits
  obtain ⟨first, last, sums⟩ := r
  simp only at hfirst hlast hfits ⊢
  -- the two parts of the view
  have hsplit : first * tarray.type.size + (last - first) * tarray.type.size
      ≤ tarray.length * tarray.type.size := by
    rw [← Nat.add_mul]
    exact Nat.mul_le_mul_right _ (by omega)
  simp only [makeInstance, ← Nat.cast_mul, uint32_sub hfirst (by omega),
    uint32_natCast (n := first * tarray.type.size) (by omega),
    uint32_natCast (n := (last - first) * tarray.type.size) (by omega)]
  have hoffset : (tarray.byteOffset + ((first * tarray.type.size : Nat) : Int) : Int) =
      ((tarray.byteOffset + first * tarray.type.size : Nat) : Int) := by push_cast; rfl
  rw [hoffset, uint32_natCast (by omega)]
  refine ⟨?_, nofun, fun c hc => ?_⟩
  · rintro b' ⟨⟩
    refine h.addArray ⟨rfl, ?_, n, hn, ?_⟩
    · simp only [Nat.add_mul_mod_self_right, halign]
    · simp only
      omega
  · simp only [mem_append, mem_cons, not_mem_nil, or_false] at hc
    rcases hc with (hc | rfl | rfl | rfl) | rfl
    · exact hfits c hc
    · exact Calculation.fits_unsigned (by omega) (by omega)
    · exact Calculation.fits_unsigned (by omega) (by omega)
    · exact Calculation.fits_unsigned (by omega) (by omega)
    · exact Calculation.fits_unsigned (by omega) (by omega)

/-- A run of elements of an array. -/
lemma run_within (h : a.byteLength = a.length * a.type.size) {i n : Nat} (hle : i + n ≤ a.length) :
    ByteRange.Within ⟨a.buffer, a.byteOffset + i * a.type.size, n * a.type.size⟩ a.bytes := by
  refine ⟨rfl, Nat.le_add_right _ _, ?_⟩
  simp only [TypedArray.bytes, h]
  have hmul : (i + n) * a.type.size ≤ a.length * a.type.size := Nat.mul_le_mul_right _ hle
  rw [Nat.add_mul] at hmul
  omega

/-- A run of elements takes fewer than `2 ^ 31` bytes. -/
lemma Valid.run_le (h : b.Valid) (ha : a ∈ b.arrays) {n : Nat} (hn : n ≤ a.length) :
    n * a.type.size ≤ 2147483647 := by
  have hbytes := (h.array_le ha).1
  have hmul : n * a.type.size ≤ a.length * a.type.size := Nat.mul_le_mul_right _ hn
  omega

lemma move_sound (h : b.Valid) (hmem : tarray ∈ b.arrays) (srcBegin srcEnd dest : Int32Arg) :
    (b.move tarray srcBegin srcEnd dest).Sound [tarray.bytes] [tarray.bytes] := by
  obtain ⟨hbytes, hlength⟩ := h.array_le hmem
  have hlen := (h.array tarray hmem).byteLength_eq
  obtain ⟨hfirst, hfits₁⟩ := toClampedIndex_le srcBegin hlength
  obtain ⟨hlast, hfits₂⟩ := toClampedIndex_le srcEnd hlength
  obtain ⟨hdest, hfits₃⟩ := toClampedIndex_le dest hlength
  unfold move
  generalize toClampedIndex srcBegin tarray.length = r₁ at hfirst hfits₁
  generalize toClampedIndex srcEnd tarray.length = r₂ at hlast hfits₂
  generalize toClampedIndex dest tarray.length = r₃ at hdest hfits₃
  obtain ⟨first, sums₁⟩ := r₁
  obtain ⟨last, sums₂⟩ := r₂
  obtain ⟨to', sums₃⟩ := r₃
  simp only at hfirst hfits₁ hlast hfits₂ hdest hfits₃ ⊢
  have hfits : ∀ c ∈ sums₁ ++ sums₂ ++ sums₃, c.Fits := by
    intro c hc
    rcases mem_append.mp hc with hc | hc
    · rcases mem_append.mp hc with hc | hc
      · exact hfits₁ c hc
      · exact hfits₂ c hc
    · exact hfits₃ c hc
  split
  · exact .error hfits
  · rename_i horder
    have hnelts : uint32 (last - first : Int) = last - first :=
      uint32_sub (by omega) (by omega)
    have hsum : (to' + ((last - first : Nat) : Int)) = ((to' + (last - first) : Nat) : Int) := by
      push_cast
      rfl
    -- the sums that are made before the second check
    have hfits' : ∀ c ∈ sums₁ ++ sums₂ ++ sums₃ ++
        [.unsigned (last - first), .unsigned ((to' + (last - first) : Nat) : Int)], c.Fits := by
      intro c hc
      rcases mem_append.mp hc with hc | hc
      · exact hfits c hc
      · simp only [mem_cons, not_mem_nil, or_false] at hc
        rcases hc with rfl | rfl
        · exact Calculation.fits_unsigned (by omega) (by omega)
        · exact Calculation.fits_unsigned (by omega) (by omega)
    simp only [hnelts, hsum, uint32_natCast (n := to' + (last - first)) (by omega)]
    split
    · exact .error hfits'
    · rename_i hroom
      have hle₁ := h.run_le hmem hfirst
      have hle₂ := h.run_le hmem hdest
      have hle₃ := h.run_le hmem (n := last - first) (by omega)
      simp only [← Nat.cast_mul, uint32_natCast (n := to' * tarray.type.size) (by omega),
        uint32_natCast (n := first * tarray.type.size) (by omega),
        uint32_natCast (n := (last - first) * tarray.type.size) (by omega)]
      refine ⟨?_, fun access haccess => ?_, fun c hc => ?_⟩
      · rintro b' ⟨⟩
        exact h
      · simp only [mem_cons, not_mem_nil, or_false] at haccess
        rcases haccess with rfl | rfl
        · exact ⟨_, mem_singleton_self _, run_within hlen (by omega)⟩
        · exact ⟨_, mem_singleton_self _, run_within hlen (by omega)⟩
      · rcases mem_append.mp hc with hc | hc
        · exact hfits' c hc
        · simp only [mem_cons, not_mem_nil, or_false] at hc
          rcases hc with rfl | rfl | rfl <;> exact Calculation.fits_unsigned (by omega) (by omega)

lemma setOffset_le {args : List Int32Arg} {offset : Nat}
    (h : setOffset tarray args = some offset) : offset ≤ tarray.length := by
  unfold setOffset at h
  split at h
  · cases h
    exact Nat.zero_le _
  · split at h
    · cases h
    · rename_i hnot
      cases h
      exact Nat.le_of_not_lt fun hlt => hnot (Or.inr hlt)

lemma copyFromTypedArray_inside {tarray src : TypedArray}
    (h : tarray.byteLength = tarray.length * tarray.type.size)
    (hsrc : src.byteLength = src.length * src.type.size) {offset : Nat}
    (hle : offset + src.length ≤ tarray.length) :
    ∀ access ∈ copyFromTypedArray tarray src offset, access.Inside [src.bytes] [tarray.bytes] := by
  have hread : ByteAccess.Inside [src.bytes] [tarray.bytes]
      (.read ⟨src.buffer, src.byteOffset, src.byteLength⟩) :=
    ⟨_, mem_singleton_self _, rfl, le_rfl, le_rfl⟩
  have hwrite (i : Nat) (hi : i < src.length) : ByteAccess.Inside [src.bytes] [tarray.bytes]
      (.write ⟨tarray.buffer, tarray.byteOffset + offset * tarray.type.size + i * tarray.type.size,
        tarray.type.size⟩) := by
    refine ⟨_, mem_singleton_self _, ?_⟩
    rw [Nat.add_assoc, ← Nat.add_mul]
    exact element_within h (by omega)
  intro access hmem
  unfold copyFromTypedArray at hmem
  simp only at hmem
  split at hmem
  case isTrue htype =>
    simp only [mem_cons, not_mem_nil, or_false] at hmem
    rcases hmem with rfl | rfl
    · exact hread
    · refine ⟨_, mem_singleton_self _, ?_⟩
      rw [hsrc, htype]
      exact run_within h hle
  case isFalse =>
    split at hmem
    · rcases mem_cons.mp hmem with rfl | hmem
      · exact hread
      · obtain ⟨i, hi, rfl⟩ := mem_map.mp hmem
        exact hwrite i (mem_range.mp hi)
    · obtain ⟨i, hi, hmem⟩ := mem_flatMap.mp hmem
      simp only [mem_cons, not_mem_nil, or_false] at hmem
      rcases hmem with rfl | rfl
      · exact ⟨_, mem_singleton_self _, element_within hsrc (mem_range.mp hi)⟩
      · exact hwrite i (mem_range.mp hi)

lemma setTypedArray_sound (h : b.Valid) {tarray src : TypedArray} (hmem : tarray ∈ b.arrays)
    (hsrc : src ∈ b.arrays) (args : List Int32Arg) :
    (b.setTypedArray tarray src args).Sound [src.bytes] [tarray.bytes] := by
  have hlength := (h.array_le hmem).2
  unfold setTypedArray
  cases hoffset : setOffset tarray args with
  | none => exact .error nofun
  | some offset =>
    have hle := setOffset_le hoffset
    have hfits : ∀ c ∈ [Calculation.unsigned (tarray.length - offset : Int)], c.Fits := by
      intro c hc
      rw [mem_singleton.mp hc]
      exact Calculation.fits_unsigned (by omega) (by omega)
    simp only [uint32_sub hle (by omega : tarray.length < 2 ^ 32)]
    split
    · exact .error hfits
    · refine ⟨?_, ?_, hfits⟩
      · rintro b' ⟨⟩
        exact h
      · exact copyFromTypedArray_inside (h.array tarray hmem).byteLength_eq
          (h.array src hsrc).byteLength_eq (by omega)

lemma setArray_sound (h : b.Valid) (hmem : tarray ∈ b.arrays) (len : Uint32Arg)
    (args : List Int32Arg) (stops : Option Nat) :
    (b.setArray tarray len args stops).Sound [] [tarray.bytes] := by
  have hlength := (h.array_le hmem).2
  unfold setArray
  cases hoffset : setOffset tarray args with
  | none => exact .error nofun
  | some offset =>
    have hle := setOffset_le hoffset
    have hfits : ∀ c ∈ [Calculation.unsigned (tarray.length - offset : Int)], c.Fits := by
      intro c hc
      rw [mem_singleton.mp hc]
      exact Calculation.fits_unsigned (by omega) (by omega)
    simp only [uint32_sub hle (by omega : tarray.length < 2 ^ 32)]
    split
    · exact .error hfits
    · refine ⟨fun b' hb' => ?_, ?_, hfits⟩
      · simp only at hb'
        split at hb'
        · exact absurd hb' nofun
        · cases hb'
          exact h
      · exact copyFromArray_inside (h.array tarray hmem).byteLength_eq (by omega) stops

lemma element_sound (h : b.Valid) (hmem : tarray ∈ b.arrays) (index : Uint32Arg) (isSet : Bool) :
    (b.element tarray index isSet).Sound [tarray.bytes] [tarray.bytes] := by
  unfold element
  split
  · refine ⟨?_, nofun, nofun⟩
    rintro b' ⟨⟩
    exact h
  · rename_i hindex
    refine ⟨?_, fun access haccess => ?_, nofun⟩
    · rintro b' ⟨⟩
      exact h
    · have hwithin := element_within (h.array tarray hmem).byteLength_eq (Nat.lt_of_not_le hindex)
      rw [mem_singleton.mp haccess]
      cases isSet with
      | false => exact ⟨_, mem_singleton_self _, hwithin⟩
      | true => exact ⟨_, mem_singleton_self _, hwithin⟩

lemma Valid.addDataView (h : b.Valid) {v : DataView} (hv : v.Valid b.byteLengths) :
    ({ b with dataViews := b.dataViews ++ [v] } : Buffers).Valid where
  byteLength_le := h.byteLength_le
  array := h.array
  dataView v' hmem := by
    rcases mem_append.mp hmem with hold | hnew
    · exact h.dataView v' hold
    · rw [mem_singleton.mp hnew]
      exact hv

/-- The last check of `DataViewObject::construct`. -/
lemma dataView_finish (h : b.Valid) {buffer n : Nat} (hn : b.byteLengths[buffer]? = some n)
    {byteOffset byteLength : Nat} (hoffset : byteOffset ≤ 2147483647)
    (hlength : byteLength ≤ 2147483647) {sums : List Calculation} (hsums : ∀ c ∈ sums, c.Fits) :
    ViewCall.Sound [] []
      (if n < uint32 (byteOffset + byteLength : Int) then
        ⟨none, sums ++ [.unsigned (byteOffset + byteLength)], []⟩
      else
        ⟨some { b with dataViews := b.dataViews ++ [⟨buffer, byteOffset, byteLength⟩] },
          sums ++ [.unsigned (byteOffset + byteLength)], []⟩) := by
  have hfits : ∀ c ∈ sums ++ [Calculation.unsigned (byteOffset + byteLength : Int)], c.Fits := by
    intro c hc
    rcases mem_append.mp hc with hc | hc
    · exact hsums c hc
    · rw [mem_singleton.mp hc]
      exact Calculation.fits_unsigned (by omega) (by omega)
  have hsum : uint32 (byteOffset + byteLength : Int) = byteOffset + byteLength := by
    unfold uint32
    omega
  rw [hsum]
  split
  · exact .error hfits
  · rename_i hinside
    refine ⟨?_, nofun, hfits⟩
    rintro b' ⟨⟩
    exact h.addDataView ⟨n, hn, Nat.le_of_not_lt hinside⟩

lemma newDataView_sound (h : b.Valid) (buffer : Nat) (args : List Uint32Arg) :
    (b.newDataView buffer args).Sound [] [] := by
  unfold newDataView
  cases hn : b.byteLengths[buffer]? with
  | none => exact .error nofun
  | some n =>
    have hmax := h.buffer_le hn
    rcases args with _ | ⟨⟨byteOffset, _⟩, _ | ⟨⟨byteLength, _⟩, rest⟩⟩
    · exact dataView_finish h hn (Nat.zero_le _) hmax nofun
    · simp only [int32Max]
      split
      · exact .error nofun
      · split
        · exact .error nofun
        · rename_i hle hinside
          have hlen : uint32 (n - byteOffset : Int) = n - byteOffset :=
            uint32_sub (by omega) (by omega)
          rw [hlen]
          refine dataView_finish h hn (by omega) (by omega) fun c hc => ?_
          rw [mem_singleton.mp hc]
          exact Calculation.fits_unsigned (by omega) (by omega)
    · simp only [int32Max]
      split
      · exact .error nofun
      · split
        · exact .error nofun
        · exact dataView_finish h hn (by omega) (by omega) nofun

lemma dataViewAccess_sound (h : b.Valid) (view : DataView) (offset : Uint32Arg)
    (type : ArrayType) (isSet : Bool) :
    (b.dataViewAccess view offset type isSet).Sound [view.bytes] [view.bytes] := by
  obtain ⟨offset, hoffset⟩ := offset
  have hsize : 1 ≤ type.size ∧ type.size ≤ 8 := by
    rcases type.size_cases with hs | hs | hs | hs <;> omega
  have hlimit : uint32 (4294967295 - type.size : Int) = 4294967295 - type.size := by
    unfold uint32
    omega
  have hfits : ∀ c ∈ [Calculation.unsigned (4294967295 - type.size : Int)], c.Fits := by
    intro c hc
    rw [mem_singleton.mp hc]
    exact Calculation.fits_unsigned (by omega) (by omega)
  unfold dataViewAccess
  simp only [hlimit]
  split
  · exact .error hfits
  · rename_i hle
    have hsum : uint32 (offset + type.size : Int) = offset + type.size := by
      unfold uint32
      omega
    have hfits' : ∀ c ∈ [Calculation.unsigned (4294967295 - type.size : Int)] ++
        [.unsigned (offset + type.size)], c.Fits := by
      intro c hc
      rcases mem_append.mp hc with hc | hc
      · exact hfits c hc
      · rw [mem_singleton.mp hc]
        exact Calculation.fits_unsigned (by omega) (by omega)
    rw [hsum]
    split
    · exact .error hfits'
    · rename_i hinside
      have hwithin : ByteRange.Within ⟨view.buffer, view.byteOffset + offset, type.size⟩
          view.bytes := by
        refine ⟨rfl, Nat.le_add_right _ _, ?_⟩
        simp only [DataView.bytes]
        omega
      refine ⟨?_, fun access haccess => ?_, hfits'⟩
      · rintro b' ⟨⟩
        exact h
      · rw [mem_singleton.mp haccess]
        cases isSet with
        | false => exact ⟨_, mem_singleton_self _, hwithin⟩
        | true => exact ⟨_, mem_singleton_self _, hwithin⟩

/-! ## Views of a given buffer -/

/-- The checks keep the array inside its buffer. Only the product of the element size and the number
of elements is calculated before the check that bounds it. -/
lemma fromBufferLength_sound (h : b.Valid) (type : ArrayType) {buffer n boffset : Nat}
    (hn : b.byteLengths[buffer]? = some n) (halign : boffset % type.size = 0) (len : Nat)
    (sums : List Calculation) :
    let r := b.fromBufferLength type buffer n boffset len sums
    (∀ b', r.result = some b' → b'.Valid) ∧ r.accesses = [] ∧
      ∀ c ∈ r.sums, c ∈ sums ∨ c.Fits ∨ r.result = none ∧ c = .unsigned (len * type.size) := by
  unfold fromBufferLength
  simp only [int32Max]
  split
  case isTrue =>
    refine ⟨by simp, rfl, fun c hc => ?_⟩
    rcases mem_append.mp hc with hc | hc
    · exact .inl hc
    · exact .inr (.inr ⟨rfl, mem_singleton.mp hc⟩)
  case isFalse hsmall =>
    have hbytes : len * type.size < 2147483647 := by
      rcases type.size_cases with hs | hs | hs | hs <;> rw [hs] at hsmall ⊢ <;> omega
    have hroom : uint32 (2147483647 - ((len * type.size : Nat) : Int) : Int) =
        2147483647 - len * type.size := by
      unfold uint32
      omega
    simp only [makeInstance, ← Nat.cast_mul, uint32_natCast (n := len * type.size) (by omega), hroom]
    have hproduct : (Calculation.unsigned ((len * type.size : Nat) : Int)).Fits :=
      Calculation.fits_unsigned (by omega) (by omega)
    have hrest : (Calculation.unsigned (2147483647 - ((len * type.size : Nat) : Int))).Fits :=
      Calculation.fits_unsigned (by omega) (by omega)
    split
    case isTrue =>
      refine ⟨by simp, rfl, fun c hc => ?_⟩
      simp only [mem_append, mem_cons, not_mem_nil, or_false] at hc
      rcases hc with (hc | rfl) | rfl
      · exact .inl hc
      · exact .inr (.inl hproduct)
      · exact .inr (.inl hrest)
    case isFalse hoffset =>
      have hsum : (Calculation.unsigned (((len * type.size : Nat) : Int) + boffset)).Fits :=
        Calculation.fits_unsigned (by omega) (by omega)
      have hexact : uint32 (((len * type.size : Nat) : Int) + boffset) =
          len * type.size + boffset := by
        unfold uint32
        omega
      rw [hexact]
      split
      case isTrue =>
        refine ⟨by simp, rfl, fun c hc => ?_⟩
        simp only [mem_append, mem_cons, not_mem_nil, or_false] at hc
        rcases hc with ((hc | rfl) | rfl) | rfl
        · exact .inl hc
        · exact .inr (.inl hproduct)
        · exact .inr (.inl hrest)
        · exact .inr (.inl hsum)
      case isFalse hinside =>
        refine ⟨?_, rfl, fun c hc => ?_⟩
        · rintro b' ⟨⟩
          exact h.addArray ⟨rfl, halign, n, hn, by simp only; omega⟩
        · simp only [mem_append, mem_cons, not_mem_nil, or_false] at hc
          rcases hc with (((hc | rfl) | rfl) | rfl) | rfl
          · exact .inl hc
          · exact .inr (.inl hproduct)
          · exact .inr (.inl hrest)
          · exact .inr (.inl hsum)
          · exact .inr (.inl hproduct)

lemma fromBuffer_sound (h : b.Valid) (type : ArrayType) (buffer : Nat) (byteOffsetInt : Int)
    {lengthInt : Int} (hlength : lengthInt = -1 ∨ 0 ≤ lengthInt)
    (hlength' : IsInt32 lengthInt) :
    let r := b.fromBuffer type buffer byteOffsetInt lengthInt
    (∀ b', r.result = some b' → b'.Valid) ∧ r.accesses = [] ∧
      ∀ c ∈ r.sums, c.Fits ∨
        lengthInt ≠ -1 ∧ r.result = none ∧ c = .unsigned (lengthInt * type.size) := by
  simp only [IsInt32, int32Min, int32Max] at hlength'
  unfold fromBuffer
  cases hn : b.byteLengths[buffer]? with
  | none => exact ⟨by simp, rfl, by simp⟩
  | some n =>
    have hmax := h.buffer_le hn
    simp only
    generalize (if byteOffsetInt = -1 then 0 else uint32 byteOffsetInt) = boffset
    split
    · exact ⟨by simp, rfl, by simp⟩
    · rename_i hinside
      obtain ⟨hle, halign⟩ := not_or.mp hinside
      have halign : boffset % type.size = 0 := not_not.mp halign
      split
      case isTrue =>
        have hlen : uint32 (n - boffset : Int) = n - boffset := uint32_sub (by omega) (by omega)
        -- the number of elements is a quotient
        have hproduct : (n - boffset) / type.size * type.size ≤ n - boffset :=
          Nat.div_mul_le_self _ _
        have hcast : (((n - boffset) / type.size : Nat) * type.size : Int) =
            (((n - boffset) / type.size * type.size : Nat) : Int) := by push_cast; rfl
        have hfits : ∀ c ∈ [Calculation.unsigned (n - boffset : Int),
            .unsigned (((n - boffset) / type.size * type.size : Nat) : Int),
            .unsigned (n - boffset : Int)], c.Fits := by
          intro c hc
          simp only [mem_cons, not_mem_nil, or_false] at hc
          rcases hc with rfl | rfl | rfl <;> exact Calculation.fits_unsigned (by omega) (by omega)
        simp only [hlen, hcast]
        split
        · exact ⟨by simp, rfl, fun c hc => .inl (hfits c hc)⟩
        · obtain ⟨hvalid, haccesses, hsums⟩ :=
            fromBufferLength_sound h type hn halign ((n - boffset) / type.size) _
          refine ⟨hvalid, haccesses, fun c hc => .inl ?_⟩
          rcases hsums c hc with hold | hnew | ⟨-, rfl⟩
          · exact hfits c hold
          · exact hnew
          · rw [hcast]
            exact Calculation.fits_unsigned (by omega) (by omega)
      case isFalse hgiven =>
        have hlen : (uint32 lengthInt : Int) = lengthInt := uint32_eq (by omega) (by omega)
        obtain ⟨hvalid, haccesses, hsums⟩ :=
          fromBufferLength_sound h type hn halign (uint32 lengthInt) []
        refine ⟨hvalid, haccesses, fun c hc => ?_⟩
        rcases hsums c hc with hold | hnew | ⟨hnone, hc⟩
        · exact absurd hold (by simp)
        · exact .inl hnew
        · rw [hlen] at hc
          exact .inr ⟨hgiven, hnone, hc⟩

/-- A construction from a buffer. A product that does not fit belongs to a call that fails. -/
lemma create_sound (h : b.Valid) (type : ArrayType) (buffer : Nat) (args : List Int32Arg) :
    let r := b.create type buffer args
    (∀ b', r.result = some b' → b'.Valid) ∧ r.accesses = [] ∧
      ∀ c ∈ r.sums, c.Fits ∨ r.result = none ∧ ∃ byteOffset length rest,
        args = byteOffset :: length :: rest ∧ c = .unsigned (length.1 * type.size) := by
  have hdefault : IsInt32 (-1) := by
    simp only [IsInt32, int32Min, int32Max]
    omega
  -- without a length argument everything fits
  have hwhole (byteOffsetInt : Int) :=
    fromBuffer_sound h type buffer byteOffsetInt (.inl rfl) hdefault
  rcases args with _ | ⟨byteOffset, _ | ⟨length, rest⟩⟩
  · obtain ⟨hvalid, haccesses, hsums⟩ := hwhole (-1)
    exact ⟨hvalid, haccesses, fun c hc => .inl ((hsums c hc).resolve_right fun h => h.1 rfl)⟩
  · simp only [create]
    split
    · exact ⟨nofun, rfl, nofun⟩
    · obtain ⟨hvalid, haccesses, hsums⟩ := hwhole byteOffset.1
      exact ⟨hvalid, haccesses, fun c hc => .inl ((hsums c hc).resolve_right fun h => h.1 rfl)⟩
  · simp only [create]
    split
    · exact ⟨nofun, rfl, nofun⟩
    · split
      · exact ⟨nofun, rfl, nofun⟩
      · rename_i hlength
        obtain ⟨hvalid, haccesses, hsums⟩ :=
          fromBuffer_sound h type buffer byteOffset.1 (.inr (not_lt.mp hlength)) length.2
        refine ⟨hvalid, haccesses, fun c hc => ?_⟩
        rcases hsums c hc with hfits | ⟨-, hnone, rfl⟩
        · exact .inl hfits
        · exact .inr ⟨hnone, byteOffset, length, rest, rfl, rfl⟩

/-! ## Chains of calls -/

/-- The bytes of the views that a call reads. -/
def sources (b : Buffers) : ViewOp → List ByteRange
  | .slice buffer _ => (b.byteLengths[buffer]?.map fun n => ⟨buffer, 0, n⟩).toList
  | .move array _ _ _ => (b.arrays[array]?.map TypedArray.bytes).toList
  | .setTypedArray _ src _ => (b.arrays[src]?.map TypedArray.bytes).toList
  | .element array _ _ => (b.arrays[array]?.map TypedArray.bytes).toList
  | .dataViewAccess view _ _ _ => (b.dataViews[view]?.map DataView.bytes).toList
  | _ => []

/-- The bytes of the views that a call writes: for `slice` and `fromArray` those of the new buffer
and of the new array. -/
def targets (b : Buffers) : ViewOp → List ByteRange
  | .slice buffer args =>
    ((b.slice buffer args).result.bind fun b' =>
      b'.byteLengths[b.byteLengths.length]?.map fun n => ⟨b.byteLengths.length, 0, n⟩).toList
  | .fromArray type len _ => ((b.newArray type len.1).result.map fun r => r.2.bytes).toList
  | .move array _ _ _ => (b.arrays[array]?.map TypedArray.bytes).toList
  | .setTypedArray array _ _ => (b.arrays[array]?.map TypedArray.bytes).toList
  | .setArray array _ _ _ => (b.arrays[array]?.map TypedArray.bytes).toList
  | .element array _ _ => (b.arrays[array]?.map TypedArray.bytes).toList
  | .dataViewAccess view _ _ _ => (b.dataViews[view]?.map DataView.bytes).toList
  | _ => []

/-- The states that a chain of calls leads to. -/
inductive Reaches : Buffers → Prop
  | start : Reaches ⟨[], [], []⟩
  | call {b b' : Buffers} (op : ViewOp) :
      Reaches b → (b.perform op).result = some b' → Reaches b'

/-- One call, whichever it is. -/
lemma perform_sound (h : b.Valid) (op : ViewOp) :
    let r := b.perform op
    (∀ b', r.result = some b' → b'.Valid) ∧
      (∀ access ∈ r.accesses, access.Inside (b.sources op) (b.targets op)) ∧
      ∀ c ∈ r.sums, c.Fits ∨ r.result = none ∧ ∃ type buffer byteOffset length rest,
        op = .create type buffer (byteOffset :: length :: rest) ∧
          c = .unsigned (length.1 * type.size) := by
  have ofSound {sources targets : List ByteRange} {r : ViewCall Buffers}
      (hr : r.Sound sources targets) {P : Calculation → Prop} :
      (∀ b', r.result = some b' → b'.Valid) ∧
        (∀ access ∈ r.accesses, access.Inside sources targets) ∧ ∀ c ∈ r.sums, c.Fits ∨ P c :=
    ⟨hr.valid, hr.inside, fun c hc => .inl (hr.fits c hc)⟩
  have ofNone {sources targets : List ByteRange} {P : Calculation → Prop} :=
    @ofSound sources targets ⟨none, [], []⟩ (.error nofun) P
  cases op with
  | newArrayBuffer nbytes => exact ofSound (newArrayBuffer_sound h nbytes)
  | slice buffer args =>
    cases hn : b.byteLengths[buffer]? with
    | none =>
      simp only [perform, slice, hn]
      exact ofNone
    | some n =>
      obtain ⟨length, hresult, hsound⟩ := slice_sound h hn args
      have htargets : b.targets (.slice buffer args) = [⟨b.byteLengths.length, 0, length⟩] := by
        simp [targets, hresult, createBuffer]
      simp only [perform, sources, htargets, hn]
      exact ofSound hsound
  | fromLength type nelements => exact ofSound (fromLength_sound h type nelements)
  | fromArray type len stops => exact ofSound (fromArray_sound h type len stops)
  | create type buffer args =>
    obtain ⟨hvalid, haccesses, hsums⟩ := create_sound h type buffer args
    refine ⟨hvalid, fun access hmem => ?_, fun c hc => ?_⟩
    · exact absurd (haccesses ▸ hmem) (by simp)
    · rcases hsums c hc with hfits | ⟨hnone, byteOffset, length, rest, rfl, hproduct⟩
      · exact .inl hfits
      · exact .inr ⟨hnone, type, buffer, byteOffset, length, rest, rfl, hproduct⟩
  | subarray array args =>
    simp only [perform, withArray]
    cases ha : b.arrays[array]? with
    | none => exact ofNone
    | some tarray => exact ofSound (subarray_sound h (mem_of_getElem? ha) args)
  | move array srcBegin srcEnd dest =>
    simp only [perform, withArray, sources, targets]
    cases ha : b.arrays[array]? with
    | none => exact ofNone
    | some tarray => exact ofSound (move_sound h (mem_of_getElem? ha) srcBegin srcEnd dest)
  | setTypedArray array src args =>
    simp only [perform, withArray, sources, targets]
    cases ha : b.arrays[array]? with
    | none => exact ofNone
    | some tarray =>
      cases hs : b.arrays[src]? with
      | none => exact ofNone
      | some source =>
        exact ofSound
          (setTypedArray_sound h (mem_of_getElem? ha) (mem_of_getElem? hs) args)
  | setArray array len args stops =>
    simp only [perform, withArray, sources, targets]
    cases ha : b.arrays[array]? with
    | none => exact ofNone
    | some tarray => exact ofSound (setArray_sound h (mem_of_getElem? ha) len args stops)
  | element array index isSet =>
    simp only [perform, withArray, sources, targets]
    cases ha : b.arrays[array]? with
    | none => exact ofNone
    | some tarray => exact ofSound (element_sound h (mem_of_getElem? ha) index isSet)
  | newDataView buffer args => exact ofSound (newDataView_sound h buffer args)
  | dataViewAccess view offset type isSet =>
    simp only [perform, sources, targets]
    cases hv : b.dataViews[view]? with
    | none => exact ofNone
    | some v => exact ofSound (dataViewAccess_sound h v offset type isSet)

/-- The invariant holds after any chain of calls. -/
lemma Reaches.valid (h : b.Reaches) : b.Valid := by
  induction h with
  | start => exact ⟨nofun, nofun, nofun⟩
  | call op _ hresult ih => exact (perform_sound ih op).1 _ hresult

/-- In every state that a chain of calls leads to, the views are inside their buffers and aligned,
the range of `slice` and `subarray` is in order and inside, every call reads and writes bytes of its
own views only, and a sum or product that wraps is the number of bytes that `fromBuffer` rejects. -/
theorem views_inside_buffers (h : b.Reaches) :
    (∀ a ∈ b.arrays, a.type.size ∣ a.byteOffset ∧
      ∃ n, b.byteLengths[a.buffer]? = some n ∧ a.byteOffset + a.length * a.type.size ≤ n) ∧
    (∀ v ∈ b.dataViews,
      ∃ n, b.byteLengths[v.buffer]? = some n ∧ v.byteOffset + v.byteLength ≤ n) ∧
    (∀ length, length ∈ b.byteLengths ∨ (∃ a ∈ b.arrays, a.length = length) →
      ∀ args, let range := clampedRange args length
        range.1 ≤ range.2.1 ∧ range.2.1 ≤ length) ∧
    ∀ op, let call := b.perform op
      (∀ access ∈ call.accesses, access.Inside (b.sources op) (b.targets op)) ∧
        ∀ c ∈ call.sums, c.Fits ∨ call.result = none ∧ ∃ type buffer byteOffset length rest,
          op = .create type buffer (byteOffset :: length :: rest) ∧
            c = .unsigned (length.1 * type.size) := by
  have hvalid := h.valid
  refine ⟨fun a ha => ?_, fun v hv => (hvalid.dataView v hv).inside, fun length hlength args => ?_,
    fun op => (perform_sound hvalid op).2⟩
  · have ha := hvalid.array a ha
    exact ⟨Nat.dvd_of_mod_eq_zero ha.aligned, ha.inside⟩
  · have hmax : length ≤ 2147483647 := by
      rcases hlength with hmem | ⟨a, ha, rfl⟩
      · exact hvalid.byteLength_le length hmem
      · exact (hvalid.array_le ha).2
    obtain ⟨hfirst, hlast, -⟩ := clampedRange_le args hmax
    exact ⟨hfirst, hlast⟩

/-- A `Uint16Array` from byte 2 to the end of a buffer of 8 bytes. -/
def uint16View : Buffers := ⟨[8], [⟨.uint16, 0, 2, 3, 6⟩], []⟩

lemma reaches_eightBytes : Reaches ⟨[8], [], []⟩ :=
  .call (.newArrayBuffer ⟨8, by decide⟩) .start rfl

theorem views_inside_buffers_uint16View :
    ArrayType.uint16.size ∣ 2 ∧
      ∃ n, uint16View.byteLengths[0]? = some n ∧ 2 + 3 * ArrayType.uint16.size ≤ n := by
  have hreaches : uint16View.Reaches :=
    .call (.create .uint16 0 [⟨2, by decide⟩]) reaches_eightBytes rfl
  exact (views_inside_buffers hreaches).1 _ (mem_singleton_self _)

/-- `new Int32Array(buffer, 0, 1 << 30)`: the number of bytes is `2 ^ 32`, and wraps. -/
theorem product_wraps : ¬∀ b : Buffers, b.Reaches → ∀ op, ∀ c ∈ (b.perform op).sums, c.Fits := by
  intro hclaim
  have hfits := hclaim ⟨[8], [], []⟩ reaches_eightBytes
    (.create .int32 0 [⟨0, by decide⟩, ⟨1073741824, by decide⟩]) (.unsigned 4294967296)
    (by decide +kernel)
  exact absurd hfits.2 (by decide)

end Buffers

end SpiderMonkey.Vm
