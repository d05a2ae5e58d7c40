import SpiderMonkey.Vm.Utf8Soundness

/-! # Deflation and inflation are inverse

In either encoding a string is a list of codes: the units in CESU-8, the characters in UTF-8. Each
loop is followed code by code.
-/

namespace SpiderMonkey.Vm

open SpiderMonkey.Lib List

/-- The codes that are encoded one by one. -/
def IsCode (useCESU8 : Bool) (v : Nat) : Prop :=
  if useCESU8 then v < 0x10000 else v.isValidChar

def unitsOf (useCESU8 : Bool) (v : Nat) : List Jschar :=
  if useCESU8 then [UInt16.ofNat v] else utf16Units v

variable {useCESU8 : Bool} {v : Nat}

lemma IsCode.lt (h : IsCode useCESU8 v) : v < 0x110000 := by
  cases useCESU8 with
  | true => exact Nat.lt_trans h (by decide)
  | false => exact lt_of_isValidChar h

/-- A code is one unit, no surrogate in UTF-8, or a pair. -/
lemma unitsOf_cases (h : IsCode useCESU8 v) :
    (∃ u, unitsOf useCESU8 v = [u] ∧ u.toNat = v ∧ ¬ (IsSurrogate u ∧ useCESU8 = false)) ∨
      ∃ u u2, unitsOf useCESU8 v = [u, u2] ∧ useCESU8 = false ∧ IsHighSurrogate u ∧
        IsLowSurrogate u2 ∧ pairValue u u2 = v := by
  cases useCESU8 with
  | true => exact .inl ⟨_, rfl, UInt16.toNat_ofNat_of_lt' h, by simp⟩
  | false =>
    rcases utf16Units_cases h with ⟨u, hu, hnot, hv⟩ | ⟨u, u2, hu, hhigh, hlow, hv⟩
    · exact .inl ⟨u, hu, hv, fun hs => hnot hs.1⟩
    · exact .inr ⟨u, u2, hu, rfl, hhigh, hlow, hv⟩

/-- `((c - 0xD800) << 10) + (c2 - 0xDC00) + 0x10000` -/
lemma pairValue_eq (c c2 : Jschar) :
    ((c.toNat - 0xD800) <<< 10) + (c2.toNat - 0xDC00) + 0x10000 = pairValue c c2 := by
  rw [Nat.shiftLeft_eq, pairValue]

/-! ## Measuring -/

lemma shiftLoop_add (hlt : v < 0x110000) (hle : 0x80 ≤ v) (n : Nat) :
    shiftLoop (v >>> 11) (n + 1) + 1 = n + (utf8Bytes v).length := by
  rw [shiftLoop_eq hlt, utf8Bytes_length]
  split_ifs <;> omega

/-- One code: what counted its units counts its bytes. -/
lemma deflatedLength_code (h : IsCode useCESU8 v) (rest : List Jschar) {nbytes : Nat}
    (hle : (unitsOf useCESU8 v).length ≤ nbytes) :
    deflatedLength useCESU8 (unitsOf useCESU8 v ++ rest) nbytes =
      deflatedLength useCESU8 rest (nbytes - (unitsOf useCESU8 v).length + (utf8Bytes v).length) := by
  rcases unitsOf_cases h with ⟨u, hu, hv, hnot⟩ | ⟨u, u2, hu, rfl, hhigh, hlow, hv⟩
  · rw [hu, length_singleton] at hle ⊢
    rw [singleton_append, deflatedLength.eq_def]
    simp only [hv]
    by_cases hsmall : v < 0x80
    · rw [if_pos hsmall, utf8Bytes_length, if_pos hsmall, Nat.sub_add_cancel hle]
    · rw [IsSurrogate, hv, and_assoc] at hnot
      rw [if_neg hsmall, if_neg hnot]
      have hadd := shiftLoop_add h.lt (Nat.le_of_not_lt hsmall) nbytes
      congr 1
      omega
  · rw [hu] at hle ⊢
    simp only [length_cons, length_nil, Nat.zero_add] at hle ⊢
    obtain ⟨hbig, hlt⟩ := pairValue_bounds hhigh hlow
    rw [IsHighSurrogate] at hhigh
    rw [IsLowSurrogate] at hlow
    rw [cons_append, singleton_append, deflatedLength, if_neg (by omega),
      if_pos ⟨hhigh.1, by omega, rfl⟩, if_neg (by omega)]
    simp only [pairValue_eq, hv]
    rw [if_neg (by omega)]
    rw [hv] at hbig
    have hadd := shiftLoop_add h.lt (by omega) (nbytes - 1)
    congr 1
    omega

variable {vs : List Nat}

lemma deflatedLength_codes (h : ∀ v ∈ vs, IsCode useCESU8 v) (rest : List Jschar) {nbytes : Nat}
    (hle : (vs.flatMap (unitsOf useCESU8)).length ≤ nbytes) :
    deflatedLength useCESU8 (vs.flatMap (unitsOf useCESU8) ++ rest) nbytes =
      deflatedLength useCESU8 rest (nbytes - (vs.flatMap (unitsOf useCESU8)).length +
        (vs.flatMap utf8Bytes).length) := by
  induction vs generalizing nbytes with
  | nil => rfl
  | cons v vs ih =>
    rw [forall_mem_cons] at h
    rw [flatMap_cons, length_append] at hle
    rw [flatMap_cons, append_assoc, deflatedLength_code h.1 _ (by omega),
      ih h.2 (by omega), flatMap_cons, length_append, length_append]
    congr 1
    omega

variable {rest : List Jschar}

lemma deflatedLength_lone (h : LoneSurrogate rest) (nbytes : Nat) :
    ∃ c, deflatedLength false rest nbytes = .error c := by
  cases h with
  | low u rest h =>
    rw [IsLowSurrogate] at h
    refine ⟨u.toNat, ?_⟩
    rw [deflatedLength.eq_def]
    simp only
    rw [if_neg (by omega), if_pos ⟨by omega, h.2, trivial⟩, if_pos h.1]
  | last u h =>
    rw [IsHighSurrogate] at h
    refine ⟨u.toNat, ?_⟩
    rw [deflatedLength, if_neg (by omega), if_pos ⟨h.1, by omega, rfl⟩, if_neg (by omega)]
  | high u u2 rest h h2 =>
    rw [IsHighSurrogate] at h
    rw [IsLowSurrogate] at h2
    refine ⟨u.toNat, ?_⟩
    rw [deflatedLength, if_neg (by omega), if_pos ⟨h.1, by omega, rfl⟩, if_neg (by omega)]
    simp only
    rw [if_pos (by omega)]

/-! ## Deflating -/

lemma deflateChar_eq (hlt : v < 0x110000) (dstlen : Nat) :
    deflateChar v dstlen =
      if dstlen < (utf8Bytes v).length then none else some (utf8Bytes v) := by
  rw [deflateChar, oneUcs4ToUtf8Char_eq hlt]
  by_cases hsmall : v < 0x80
  · rw [if_pos hsmall, utf8Bytes, if_pos hsmall]
    simp only [length_singleton, Nat.lt_one_iff]
  · rw [if_neg hsmall]

/-- A high surrogate in UTF-8 mode is read with the unit after it. -/
lemma deflateLoop_high {c : Jschar} (h : IsHighSurrogate c) (src : List Jschar) (dstlen : Nat)
    (dst : List UInt8) :
    deflateLoop false (c :: src) dstlen dst =
      match src with
      | [] => ⟨.badSurrogate [c], dst, dstlen⟩
      | c2 :: src =>
        if c2.toNat < 0xDC00 ∨ 0xDFFF < c2.toNat then
          ⟨.badSurrogate (c :: c2 :: src), dst, dstlen⟩
        else
          match deflateChar (((c.toNat - 0xD800) <<< 10) + (c2.toNat - 0xDC00) + 0x10000)
            dstlen with
          | none => ⟨.bufferTooSmall, dst, dstlen⟩
          | some bytes => deflateLoop false src (dstlen - bytes.length) (dst ++ bytes) := by
  rw [IsHighSurrogate] at h
  rewrite [deflateLoop_cons, if_neg (by omega), if_neg (by
    rintro (hless | hmore | hcesu)
    · omega
    · omega
    · cases hcesu)]
  cases src with
  | nil => rfl
  | cons c2 src =>
    cases hwritten : deflateChar (((c.toNat - 0xD800) <<< 10) + (c2.toNat - 0xDC00) + 0x10000)
        dstlen <;>
      simp only [hwritten]

/-- One code: its bytes are written, if they fit. -/
lemma deflateLoop_code (h : IsCode useCESU8 v) (rest : List Jschar) (dstlen : Nat)
    (dst : List UInt8) :
    deflateLoop useCESU8 (unitsOf useCESU8 v ++ rest) dstlen dst =
      if dstlen < (utf8Bytes v).length then ⟨.bufferTooSmall, dst, dstlen⟩
      else deflateLoop useCESU8 rest (dstlen - (utf8Bytes v).length) (dst ++ utf8Bytes v) := by
  rcases unitsOf_cases h with ⟨u, hu, hv, hnot⟩ | ⟨u, u2, hu, rfl, hhigh, hlow, hv⟩
  · rw [IsSurrogate, hv] at hnot
    rw [hu, singleton_append, deflateLoop_cons]
    simp only [hv]
    rw [if_neg (by
      rintro ⟨h1, h2, h3⟩
      exact hnot ⟨⟨by omega, h2⟩, h3⟩), if_pos (by
      cases useCESU8 with
      | true => exact .inr (.inr rfl)
      | false =>
        by_contra hno
        exact hnot ⟨by omega, rfl⟩), deflateChar_eq h.lt]
    split_ifs <;> rfl
  · rw [hu, cons_append, singleton_append, deflateLoop_high hhigh]
    rw [IsLowSurrogate] at hlow
    simp only [pairValue_eq, hv]
    rw [if_neg (by omega), deflateChar_eq h.lt]
    split_ifs <;> rfl

lemma deflateLoop_codes (h : ∀ v ∈ vs, IsCode useCESU8 v) (rest : List Jschar) {dstlen : Nat}
    (hle : (vs.flatMap utf8Bytes).length ≤ dstlen) (dst : List UInt8) :
    deflateLoop useCESU8 (vs.flatMap (unitsOf useCESU8) ++ rest) dstlen dst =
      deflateLoop useCESU8 rest (dstlen - (vs.flatMap utf8Bytes).length)
        (dst ++ vs.flatMap utf8Bytes) := by
  induction vs generalizing dstlen dst with
  | nil => simp
  | cons v vs ih =>
    rw [forall_mem_cons] at h
    rw [flatMap_cons, length_append] at hle
    rw [flatMap_cons, append_assoc, deflateLoop_code h.1, if_neg (by omega),
      ih h.2 (by omega), flatMap_cons, length_append, append_assoc, Nat.sub_sub]

lemma deflateLoop_small (h : ∀ v ∈ vs, IsCode useCESU8 v) (rest : List Jschar) {dstlen : Nat}
    (hlt : dstlen < (vs.flatMap utf8Bytes).length) (dst : List UInt8) :
    (deflateLoop useCESU8 (vs.flatMap (unitsOf useCESU8) ++ rest) dstlen dst).exit =
      .bufferTooSmall := by
  induction vs generalizing dstlen dst with
  | nil => exact absurd hlt (Nat.not_lt_zero _)
  | cons v vs ih =>
    rw [forall_mem_cons] at h
    rw [flatMap_cons, length_append] at hlt
    rw [flatMap_cons, append_assoc, deflateLoop_code h.1]
    by_cases hfits : dstlen < (utf8Bytes v).length
    · rw [if_pos hfits]
    · rw [if_neg hfits]
      exact ih h.2 (by omega) _

lemma deflateLoop_lone (h : LoneSurrogate rest) (dstlen : Nat) (dst : List UInt8) :
    deflateLoop false rest dstlen dst = ⟨.badSurrogate rest, dst, dstlen⟩ := by
  cases h with
  | low u rest h =>
    rw [IsLowSurrogate] at h
    rw [deflateLoop_cons, if_pos ⟨h.1, h.2, rfl⟩]
  | last u h => rw [deflateLoop_high h]
  | high u u2 rest h h2 =>
    rw [IsLowSurrogate] at h2
    rw [deflateLoop_high h]
    simp only
    rw [if_pos (by omega)]

/-- What is written and what is left make up the buffer. -/
lemma deflateLoop_within (useCESU8 : Bool) (src : List Jschar) (dstlen : Nat) (dst : List UInt8) :
    (deflateLoop useCESU8 src dstlen dst).dst.length + (deflateLoop useCESU8 src dstlen dst).dstlen =
      dst.length + dstlen := by
  have hchar {v dstlen : Nat} {bytes : List UInt8} (h : deflateChar v dstlen = some bytes) :
      bytes.length ≤ dstlen := by
    rw [deflateChar] at h
    split_ifs at h <;> cases h
    · rw [length_singleton]
      omega
    · omega
  rw [deflateLoop_eq_by]
  fun_induction deflateLoopBy deflateChar useCESU8 src dstlen dst with
  | case4 dstlen dst c src hlow hsingle bytes h ih =>
    have hle := hchar h
    rw [ih, length_append]
    omega
  | case8 dstlen dst c hlow hsingle c2 src hbad bytes h ih =>
    have hle := hchar h
    rw [ih, length_append]
    omega
  | _ => rfl

/-! ## Inflating -/

/-- The unit that a code of CESU-8 is read as, and the units of a character. -/
def unitsRead (useCESU8 : Bool) (v : Nat) : List Jschar :=
  if useCESU8 then [UInt16.ofNat (readAs v)] else utf16Units v

lemma unitsRead_length (useCESU8 : Bool) (v : Nat) :
    (unitsRead useCESU8 v).length = (unitsOf useCESU8 v).length := by
  cases useCESU8 <;> rfl

lemma and_ten (k : Nat) : k &&& 0x3FF = k % 1024 := Nat.and_two_pow_sub_one_eq_mod k 10

/-- One code: its units are written, if they fit. -/
lemma inflateLoop_code (h : IsCode useCESU8 v) (hasDst : Bool) (rest : List UInt8)
    (dstlen offset : Nat) (dst : List Jschar) :
    ((unitsRead useCESU8 v).length ≤ dstlen →
      inflateLoop useCESU8 hasDst (utf8Bytes v ++ rest) dstlen offset dst =
        inflateLoop useCESU8 hasDst rest (dstlen - (unitsRead useCESU8 v).length)
          (offset + (utf8Bytes v).length) (if hasDst then dst ++ unitsRead useCESU8 v else dst)) ∧
    (dstlen < (unitsRead useCESU8 v).length →
      (inflateLoop useCESU8 hasDst (utf8Bytes v ++ rest) dstlen offset dst).exit ≠ .done) := by
  obtain ⟨lead, tail, hbytes, hread⟩ := readChar_utf8Bytes h.lt rest offset
  have hdrop : (tail ++ rest).drop (tail.length + 1 - 1) = rest := by
    rw [Nat.add_sub_cancel, drop_left]
  rw [hbytes, cons_append, inflateLoop, hread]
  simp only [hdrop, length_cons]
  by_cases hpair : 0x10000 ≤ v ∧ useCESU8 = false
  · obtain ⟨hbig, rfl⟩ := hpair
    have hvalid : v.isValidChar := h
    have hlt := lt_of_isValidChar hvalid
    have hcode : readAs v = v := if_neg (not_surrogate_of_isValidChar hvalid)
    have hunits : unitsRead false v = [UInt16.ofNat (0xD800 + (v - 0x10000) / 1024),
        UInt16.ofNat (0xDC00 + (v - 0x10000) % 1024)] := by
      rw [unitsRead, if_neg (by simp), utf16Units, if_neg (Nat.not_lt_of_le hbig)]
    rw [hcode, highUnit, if_pos ⟨hbig, rfl⟩, hunits]
    simp only [length_cons, length_nil, Nat.zero_add, Nat.reduceAdd]
    constructor
    · intro hle
      rw [if_neg (by omega)]
      cases hasDst with
      | true =>
        simp only [if_true, append_assoc, cons_append, nil_append]
        rw [if_neg (by omega), and_ten, Nat.shiftRight_eq_div_pow, Nat.add_comm _ 0xD800,
          Nat.add_comm _ 0xDC00, Nat.sub_sub]
      | false =>
        simp only [Bool.false_eq_true, if_false]
        rw [if_neg (by omega), Nat.sub_sub]
    · intro hless
      rw [if_pos (.inr hless)]
      rintro ⟨⟩
  · have hone : unitsRead useCESU8 v = [UInt16.ofNat (readAs v)] := by
      cases useCESU8 with
      | true => rfl
      | false =>
        have hvalid : v.isValidChar := h
        have hsmall : v < 0x10000 := Nat.lt_of_not_le fun hle => hpair ⟨hle, rfl⟩
        rw [unitsRead, if_neg (by simp), utf16Units, if_pos hsmall, readAs,
          if_neg (not_surrogate_of_isValidChar hvalid)]
    have hhigh : highUnit useCESU8 hasDst (readAs v) dstlen dst = some (readAs v, dstlen, dst) := by
      rw [highUnit, if_neg]
      rintro ⟨hle, hfalse⟩
      subst hfalse
      have hvalid : v.isValidChar := h
      rw [readAs, if_neg (not_surrogate_of_isValidChar hvalid)] at hle
      exact hpair ⟨hle, rfl⟩
    rw [hhigh, hone, length_singleton]
    simp only
    constructor
    · intro hle
      rw [if_neg (by omega)]
    · intro hless
      rw [if_pos (by omega)]
      rintro ⟨⟩

lemma inflateLoop_codes (h : ∀ v ∈ vs, IsCode useCESU8 v) (hasDst : Bool) {dstlen : Nat}
    (hle : (vs.flatMap (unitsRead useCESU8)).length ≤ dstlen) (offset : Nat) (dst : List Jschar) :
    inflateLoop useCESU8 hasDst (vs.flatMap utf8Bytes) dstlen offset dst =
      ⟨.done, if hasDst then dst ++ vs.flatMap (unitsRead useCESU8) else dst,
        dstlen - (vs.flatMap (unitsRead useCESU8)).length⟩ := by
  induction vs generalizing dstlen offset dst with
  | nil =>
    rw [flatMap_nil, inflateLoop, flatMap_nil, append_nil, ite_self]
    rfl
  | cons v vs ih =>
    rw [forall_mem_cons] at h
    rw [flatMap_cons, length_append] at hle
    rw [flatMap_cons, (inflateLoop_code h.1 hasDst _ _ _ _).1 (by omega), ih h.2 (by omega),
      flatMap_cons, length_append, Nat.sub_sub]
    cases hasDst with
    | true => simp only [if_true, append_assoc]
    | false => rfl

lemma inflateLoop_small (h : ∀ v ∈ vs, IsCode useCESU8 v) (hasDst : Bool) {dstlen : Nat}
    (hlt : dstlen < (vs.flatMap (unitsRead useCESU8)).length) (offset : Nat) (dst : List Jschar) :
    (inflateLoop useCESU8 hasDst (vs.flatMap utf8Bytes) dstlen offset dst).exit ≠ .done := by
  induction vs generalizing dstlen offset dst with
  | nil => exact absurd hlt (Nat.not_lt_zero _)
  | cons v vs ih =>
    rw [flatMap_cons, length_append] at hlt
    rw [forall_mem_cons] at h
    obtain ⟨hfits, hsmall⟩ := inflateLoop_code h.1 hasDst (vs.flatMap utf8Bytes) dstlen offset dst
    rw [flatMap_cons]
    by_cases hle : (unitsRead useCESU8 v).length ≤ dstlen
    · rw [hfits hle]
      exact ih h.2 (by omega) _ _
    · exact hsmall (by omega)

/-- What UTF-8 mode accepts is made of characters. -/
lemma inflateLoop_done {hasDst : Bool} {src : List UInt8} {dstlen offset : Nat}
    {dst : List Jschar} (h : (inflateLoop false hasDst src dstlen offset dst).exit = .done) :
    ∃ vs : List Nat, (∀ v ∈ vs, v.isValidChar) ∧ src = vs.flatMap utf8Bytes := by
  fun_induction inflateLoop false hasDst src dstlen offset dst with
  | case1 => exact ⟨[], by simp, rfl⟩
  | case2 b rest dstlen offset dst exit hread =>
    simp only at h
    subst h
    rw [readChar] at hread
    simp only at hread
    split_ifs at hread <;> cases hread
  | case3 => cases h
  | case4 => cases h
  | case5 dstlen offset dst b rest n v hread v' dstlen' dst' hhigh hroom ih =>
    have hlt : v < 0x110000 := by
      by_contra hge
      rw [highUnit, if_pos ⟨by omega, rfl⟩, if_pos (by omega)] at hhigh
      cases hhigh
    obtain ⟨hnot, tail, behind, rfl, hbytes, rfl⟩ := readChar_ok hread hlt
    rw [Nat.add_sub_cancel, drop_left] at ih h
    obtain ⟨vs, hvs, hbehind⟩ := ih h
    refine ⟨v :: vs, ?_, ?_⟩
    · rw [forall_mem_cons]
      refine ⟨?_, hvs⟩
      rw [Nat.isValidChar]
      omega
    · rw [flatMap_cons, hbytes, hbehind]
      rfl

/-- What is written and what is left make up the buffer. -/
lemma inflateLoop_within (useCESU8 : Bool) (src : List UInt8) (dstlen offset : Nat)
    (dst : List Jschar) :
    (inflateLoop useCESU8 true src dstlen offset dst).dst.length +
      (inflateLoop useCESU8 true src dstlen offset dst).dstlen = dst.length + dstlen := by
  have hhigh {v dstlen v' dstlen' : Nat} {dst dst' : List Jschar}
      (h : highUnit useCESU8 true v dstlen dst = some (v', dstlen', dst')) :
      dst'.length + dstlen' = dst.length + dstlen := by
    rw [highUnit, if_pos rfl] at h
    split_ifs at h with hpair hfits
    · simp only [Option.some.injEq, Prod.mk.injEq] at h
      obtain ⟨-, rfl, rfl⟩ := h
      rw [length_append, length_singleton]
      omega
    · simp only [Option.some.injEq, Prod.mk.injEq] at h
      obtain ⟨-, rfl, rfl⟩ := h
      rfl
  fun_induction inflateLoop useCESU8 true src dstlen offset dst with
  | case4 dstlen offset dst b rest n v hread v' dst' hsome =>
    have hsum := hhigh hsome
    exact hsum
  | case5 dstlen offset dst b rest n v hread v' dstlen' dst' hsome hroom ih =>
    have hsum := hhigh hsome
    rw [dif_pos rfl, length_append, length_singleton] at ih
    rw [if_pos rfl, ih]
    omega
  | _ => rfl

/-! ## Both ways -/

/-- The measurement of a string and its deflation to buffers of any length agree. -/
structure LengthAgrees (units : List Jschar) (fc : FlationCoding) : Prop where
  fails_iff : (∃ c, getDeflatedUTF8StringLength units fc = .error c) ↔
    ∃ dstlen src, (deflateStringToUTF8Buffer units dstlen fc).exit = .badSurrogate src
  fails : ∀ c, getDeflatedUTF8StringLength units fc = .error c →
    ∃ need, ∀ dstlen, need ≤ dstlen →
      ∃ src, (deflateStringToUTF8Buffer units dstlen fc).exit = .badSurrogate src
  succeeds : ∀ n, getDeflatedUTF8StringLength units fc = .ok n → ∀ dstlen, n ≤ dstlen →
    (deflateStringToUTF8Buffer units dstlen fc).exit = .done ∧
      (deflateStringToUTF8Buffer units dstlen fc).dstlen = n
  small : ∀ n, getDeflatedUTF8StringLength units fc = .ok n → ∀ dstlen, dstlen < n →
    (deflateStringToUTF8Buffer units dstlen fc).exit = .bufferTooSmall
  within : ∀ dstlen, (deflateStringToUTF8Buffer units dstlen fc).dst.length =
    (deflateStringToUTF8Buffer units dstlen fc).dstlen ∧
      (deflateStringToUTF8Buffer units dstlen fc).dstlen ≤ dstlen

/-- What was deflated inflates to the same units. -/
def InflatesBack (units : List Jschar) (fc : FlationCoding) : Prop :=
  ∀ dstlen, (deflateStringToUTF8Buffer units dstlen fc).exit = .done →
    ∀ room, units.length ≤ room →
      inflateUTF8StringToBuffer (deflateStringToUTF8Buffer units dstlen fc).dst (some room) fc =
        ⟨.done, units, units.length⟩

/-- UTF-8 mode accepts the bytes if they are characters, and the call that measures tells what the
calls that write do. -/
structure InflatesExactly (src : List UInt8) : Prop where
  writes_iff : ∀ room, src.length ≤ room →
    ((inflateUTF8StringToBuffer src (some room) .normalEncoding).exit = .done ↔ WellFormedUtf8 src)
  measures_iff : src.length < 2 ^ 64 →
    ((inflateUTF8StringToBuffer src none .normalEncoding).exit = .done ↔ WellFormedUtf8 src)
  agree : src.length < 2 ^ 64 → ∀ room,
    ((inflateUTF8StringToBuffer src (some room) .normalEncoding).exit = .done ↔
      (inflateUTF8StringToBuffer src none .normalEncoding).exit = .done ∧
        (inflateUTF8StringToBuffer src none .normalEncoding).dstlen ≤ room) ∧
    ((inflateUTF8StringToBuffer src (some room) .normalEncoding).exit = .done →
      (inflateUTF8StringToBuffer src (some room) .normalEncoding).dstlen =
        (inflateUTF8StringToBuffer src none .normalEncoding).dstlen)
  within : ∀ room fc, (inflateUTF8StringToBuffer src (some room) fc).dst.length =
    (inflateUTF8StringToBuffer src (some room) fc).dstlen ∧
      (inflateUTF8StringToBuffer src (some room) fc).dstlen ≤ room

lemma deflate_within (units : List Jschar) (fc : FlationCoding) (dstlen : Nat) :
    (deflateStringToUTF8Buffer units dstlen fc).dst.length =
      (deflateStringToUTF8Buffer units dstlen fc).dstlen ∧
      (deflateStringToUTF8Buffer units dstlen fc).dstlen ≤ dstlen := by
  have hsum := deflateLoop_within (fc == .cesu8Encoding) units dstlen []
  rw [length_nil] at hsum
  rw [deflateStringToUTF8Buffer]
  constructor <;> simp only <;> omega

/-- Units that are codes of the encoding. -/
lemma codes_lengthAgrees (fc : FlationCoding) (h : ∀ v ∈ vs, IsCode (fc == .cesu8Encoding) v) :
    LengthAgrees (vs.flatMap (unitsOf (fc == .cesu8Encoding))) fc := by
  have hget : getDeflatedUTF8StringLength (vs.flatMap (unitsOf (fc == .cesu8Encoding))) fc =
      .ok (vs.flatMap utf8Bytes).length := by
    have hall := deflatedLength_codes h [] (Nat.le_refl _)
    rw [append_nil, Nat.sub_self, Nat.zero_add] at hall
    rw [getDeflatedUTF8StringLength, hall]
    rfl
  have hput (dstlen : Nat) (hle : (vs.flatMap utf8Bytes).length ≤ dstlen) :
      deflateLoop (fc == .cesu8Encoding) (vs.flatMap (unitsOf (fc == .cesu8Encoding))) dstlen [] =
        ⟨.done, vs.flatMap utf8Bytes, dstlen - (vs.flatMap utf8Bytes).length⟩ := by
    have hall := deflateLoop_codes h [] hle []
    rw [append_nil] at hall
    exact hall
  have hsmall (dstlen : Nat) (hlt : dstlen < (vs.flatMap utf8Bytes).length) :
      (deflateStringToUTF8Buffer (vs.flatMap (unitsOf (fc == .cesu8Encoding))) dstlen fc).exit =
        .bufferTooSmall := by
    have hexit := deflateLoop_small h [] hlt []
    rwa [append_nil] at hexit
  refine ⟨?_, ?_, ?_, ?_, deflate_within _ _⟩
  · constructor
    · rintro ⟨c, hc⟩
      rw [hget] at hc
      cases hc
    · rintro ⟨dstlen, src, hexit⟩
      by_cases hle : (vs.flatMap utf8Bytes).length ≤ dstlen
      · rw [deflateStringToUTF8Buffer, hput dstlen hle] at hexit
        cases hexit
      · rw [hsmall dstlen (Nat.lt_of_not_le hle)] at hexit
        cases hexit
  · intro c hc
    rw [hget] at hc
    cases hc
  · intro n hn dstlen hle
    rw [hget] at hn
    cases hn
    rw [deflateStringToUTF8Buffer, hput dstlen hle]
    simp only [true_and]
    omega
  · intro n hn dstlen hlt
    rw [hget] at hn
    cases hn
    exact hsmall dstlen hlt

/-- Units that are no characters are not deflated. -/
lemma deflate_lone (h : ∀ v ∈ vs, v.isValidChar) (hrest : LoneSurrogate rest) (dstlen : Nat) :
    (deflateStringToUTF8Buffer (vs.flatMap utf16Units ++ rest) dstlen .normalEncoding).exit =
      if dstlen < (vs.flatMap utf8Bytes).length then .bufferTooSmall else .badSurrogate rest := by
  have hcodes : ∀ v ∈ vs, IsCode false v := h
  by_cases hlt : dstlen < (vs.flatMap utf8Bytes).length
  · rw [if_pos hlt]
    exact deflateLoop_small hcodes rest hlt []
  · rw [if_neg hlt]
    have hall := deflateLoop_codes hcodes rest (Nat.le_of_not_lt hlt) []
    rw [deflateLoop_lone hrest] at hall
    exact congrArg Deflated.exit hall

lemma lone_lengthAgrees (h : ∀ v ∈ vs, v.isValidChar) (hrest : LoneSurrogate rest) :
    LengthAgrees (vs.flatMap utf16Units ++ rest) .normalEncoding := by
  have hget : ∃ c, getDeflatedUTF8StringLength (vs.flatMap utf16Units ++ rest) .normalEncoding =
      .error c := by
    have hall : deflatedLength false (vs.flatMap (unitsOf false) ++ rest)
        (vs.flatMap utf16Units ++ rest).length = _ := deflatedLength_codes h rest (by
      rw [length_append]
      exact Nat.le_add_right _ _)
    obtain ⟨c, hc⟩ := deflatedLength_lone hrest ((vs.flatMap utf16Units ++ rest).length -
      (vs.flatMap (unitsOf false)).length + (vs.flatMap utf8Bytes).length)
    exact ⟨c, hall.trans hc⟩
  have hbad (dstlen : Nat) (hle : (vs.flatMap utf8Bytes).length ≤ dstlen) :=
    (deflate_lone h hrest dstlen).trans (if_neg (Nat.not_lt_of_le hle))
  obtain ⟨c, hc⟩ := hget
  refine ⟨⟨fun _ => ⟨_, rest, hbad _ (Nat.le_refl _)⟩, fun _ => ⟨c, hc⟩⟩,
    fun _ _ => ⟨_, fun dstlen hle => ⟨rest, hbad dstlen hle⟩⟩, ?_, ?_, deflate_within _ _⟩
  · intro n hn
    rw [hc] at hn
    cases hn
  · intro n hn
    rw [hc] at hn
    cases hn

/-- The bytes of codes inflate to what the codes are read as. -/
lemma inflate_codes (fc : FlationCoding) (h : ∀ v ∈ vs, IsCode (fc == .cesu8Encoding) v)
    {room : Nat} (hle : (vs.flatMap (unitsRead (fc == .cesu8Encoding))).length ≤ room) :
    inflateUTF8StringToBuffer (vs.flatMap utf8Bytes) (some room) fc =
      ⟨.done, vs.flatMap (unitsRead (fc == .cesu8Encoding)),
        (vs.flatMap (unitsRead (fc == .cesu8Encoding))).length⟩ := by
  rw [inflateUTF8StringToBuffer]
  simp only [Option.getD_some, Option.isSome_some]
  rw [inflateLoop_codes h true hle, Nat.sub_sub_self hle]
  rfl

lemma unitsRead_flatMap_length (useCESU8 : Bool) (vs : List Nat) :
    (vs.flatMap (unitsRead useCESU8)).length = (vs.flatMap (unitsOf useCESU8)).length := by
  simp only [length_flatMap, unitsRead_length]

lemma inflatesBack_iff (fc : FlationCoding) (h : ∀ v ∈ vs, IsCode (fc == .cesu8Encoding) v) :
    InflatesBack (vs.flatMap (unitsOf (fc == .cesu8Encoding))) fc ↔
      vs.flatMap (unitsRead (fc == .cesu8Encoding)) =
        vs.flatMap (unitsOf (fc == .cesu8Encoding)) := by
  have hput (dstlen : Nat) (hle : (vs.flatMap utf8Bytes).length ≤ dstlen) :
      deflateLoop (fc == .cesu8Encoding) (vs.flatMap (unitsOf (fc == .cesu8Encoding))) dstlen [] =
        ⟨.done, vs.flatMap utf8Bytes, dstlen - (vs.flatMap utf8Bytes).length⟩ := by
    have hall := deflateLoop_codes h [] hle []
    rw [append_nil] at hall
    exact hall
  have hlen := unitsRead_flatMap_length (fc == .cesu8Encoding) vs
  constructor
  · intro hback
    have hread := hback (vs.flatMap utf8Bytes).length (by
      rw [deflateStringToUTF8Buffer, hput _ (Nat.le_refl _)]) _ (Nat.le_refl _)
    rw [deflateStringToUTF8Buffer, hput _ (Nat.le_refl _), inflate_codes fc h (Nat.le_of_eq hlen)]
      at hread
    exact congrArg Inflated.dst hread
  · intro heq dstlen hdone room hroom
    by_cases hle : (vs.flatMap utf8Bytes).length ≤ dstlen
    · rw [deflateStringToUTF8Buffer, hput dstlen hle, inflate_codes fc h (hlen ▸ hroom), heq]
    · have hexit := deflateLoop_small h [] (Nat.lt_of_not_le hle) []
      rw [append_nil] at hexit
      exact absurd (hdone.symm.trans hexit) (by decide)

/-- The code 0xFFFFFFFF of an error becomes the unit 0xFFFF. -/
lemma ofNat_readAs_eq_iff (u : Jschar) : UInt16.ofNat (readAs u.toNat) = u ↔ ¬ IsSurrogate u := by
  rw [readAs, IsSurrogate]
  by_cases hs : 0xD800 ≤ u.toNat ∧ u.toNat ≤ 0xDFFF
  · have hinvalid : UInt16.ofNat invalidUtf8 = 0xFFFF := rfl
    rw [if_pos hs, hinvalid]
    refine iff_of_false (fun heq => ?_) (not_not_intro hs)
    rw [← heq] at hs
    exact absurd hs (by decide)
  · rw [if_neg hs, UInt16.ofNat_toNat]
    exact iff_of_true rfl hs

lemma cesu8_flatMap (units : List Jschar) :
    (units.map UInt16.toNat).flatMap (unitsOf true) = units := by
  induction units with
  | nil => rfl
  | cons u units ih =>
    rw [map_cons, flatMap_cons, ih, unitsOf, if_pos rfl, UInt16.ofNat_toNat]
    rfl

lemma cesu8_codes (units : List Jschar) : ∀ v ∈ units.map UInt16.toNat, IsCode true v := by
  intro v hv
  obtain ⟨u, _, rfl⟩ := mem_map.mp hv
  exact u.toNat_lt

lemma utf16Units_length_le : (utf16Units v).length ≤ (utf8Bytes v).length := by
  rw [utf16Units, utf8Bytes_length]
  split_ifs <;> simp only [length_cons, length_nil] <;> omega

lemma utf16_length_le (vs : List Nat) :
    (vs.flatMap (unitsRead false)).length ≤ (vs.flatMap utf8Bytes).length := by
  induction vs with
  | nil => exact Nat.le_refl _
  | cons v vs ih =>
    rw [flatMap_cons, flatMap_cons, length_append, length_append]
    exact Nat.add_le_add utf16Units_length_le ih

lemma inflate_within (src : List UInt8) (room : Nat) (fc : FlationCoding) :
    (inflateUTF8StringToBuffer src (some room) fc).dst.length =
      (inflateUTF8StringToBuffer src (some room) fc).dstlen ∧
      (inflateUTF8StringToBuffer src (some room) fc).dstlen ≤ room := by
  have hsum := inflateLoop_within (fc == .cesu8Encoding) src room 0 []
  rw [length_nil] at hsum
  rw [inflateUTF8StringToBuffer]
  simp only [Option.getD_some, Option.isSome_some]
  constructor <;> omega

/-- A call succeeds on characters if their units fit. -/
lemma inflate_chars (h : ∀ v ∈ vs, v.isValidChar) (dst : Option Nat) :
    ((vs.flatMap utf16Units).length ≤ dst.getD (2 ^ 64 - 1) →
      (inflateUTF8StringToBuffer (vs.flatMap utf8Bytes) dst .normalEncoding).exit = .done ∧
        (inflateUTF8StringToBuffer (vs.flatMap utf8Bytes) dst .normalEncoding).dstlen =
          (vs.flatMap utf16Units).length) ∧
    (dst.getD (2 ^ 64 - 1) < (vs.flatMap utf16Units).length →
      (inflateUTF8StringToBuffer (vs.flatMap utf8Bytes) dst .normalEncoding).exit ≠ .done) := by
  have hcodes : ∀ v ∈ vs, IsCode false v := h
  constructor
  · intro hle
    have hloop := inflateLoop_codes hcodes dst.isSome hle 0 []
    refine ⟨congrArg Inflated.exit hloop, ?_⟩
    exact (congrArg (fun r => dst.getD (2 ^ 64 - 1) - r.dstlen) hloop).trans (Nat.sub_sub_self hle)
  · intro hlt
    exact inflateLoop_small hcodes dst.isSome hlt 0 []

lemma inflatesExactly (src : List UInt8) : InflatesExactly src := by
  by_cases hwf : WellFormedUtf8 src
  · obtain ⟨vs, hvs, rfl⟩ := (wellFormedUtf8_iff src).mp hwf
    have hunits : (vs.flatMap utf16Units).length ≤ (vs.flatMap utf8Bytes).length :=
      utf16_length_le vs
    refine ⟨fun room hroom => ?_, fun hlt => ?_, fun hlt room => ?_, inflate_within _⟩
    · exact iff_of_true ((inflate_chars hvs (some room)).1 (Nat.le_trans hunits hroom)).1 hwf
    · have hroom : (vs.flatMap utf16Units).length ≤ 2 ^ 64 - 1 := by omega
      exact iff_of_true ((inflate_chars hvs none).1 hroom).1 hwf
    · have hroom : (vs.flatMap utf16Units).length ≤ 2 ^ 64 - 1 := by omega
      obtain ⟨hmeasured, hlen⟩ := (inflate_chars hvs none).1 hroom
      obtain ⟨hfits, hsmall⟩ := inflate_chars hvs (some room)
      rw [Option.getD_some] at hfits hsmall
      rw [hlen]
      by_cases hle : (vs.flatMap utf16Units).length ≤ room
      · exact ⟨iff_of_true (hfits hle).1 ⟨hmeasured, hle⟩, fun _ => (hfits hle).2⟩
      · have hfails := hsmall (Nat.lt_of_not_le hle)
        exact ⟨iff_of_false hfails fun h => hle h.2, fun h => absurd h hfails⟩
  · have hfails (dst : Option Nat) :
        (inflateUTF8StringToBuffer src dst .normalEncoding).exit ≠ .done := by
      intro hdone
      exact hwf ((wellFormedUtf8_iff src).mpr (inflateLoop_done hdone))
    refine ⟨fun room _ => iff_of_false (hfails _) hwf, fun _ => iff_of_false (hfails _) hwf,
      fun _ room => ⟨?_, fun h => absurd h (hfails _)⟩, inflate_within _⟩
    exact iff_of_false (hfails _) fun h => hfails _ h.1

/-- Measuring and deflating agree and UTF-8 mode inflates exactly what is well formed. Strings come
back, but for the surrogates of CESU-8: they are deflated, and come back as 0xFFFF. -/
theorem utf8_converts (units : List Jschar) (fc : FlationCoding) (src : List UInt8) :
    (LengthAgrees units fc ∧ InflatesBack units fc ↔
      fc = .normalEncoding ∨ ∀ u ∈ units, ¬ IsSurrogate u) ∧
    InflatesExactly src := by
  refine ⟨?_, inflatesExactly src⟩
  cases fc with
  | normalEncoding =>
    refine iff_of_true ?_ (.inl rfl)
    obtain ⟨vs, rest, hvs, rfl, hrest⟩ := exists_split units
    rcases hrest with rfl | hlone
    · have hcodes : ∀ v ∈ vs, IsCode false v := hvs
      rw [append_nil]
      exact ⟨codes_lengthAgrees .normalEncoding hcodes,
        (inflatesBack_iff .normalEncoding hcodes).mpr rfl⟩
    · refine ⟨lone_lengthAgrees hvs hlone, fun dstlen hdone => ?_⟩
      rw [deflate_lone hvs hlone] at hdone
      split_ifs at hdone
  | cesu8Encoding =>
    have hcodes := cesu8_codes units
    have hagrees : LengthAgrees ((units.map UInt16.toNat).flatMap (unitsOf true)) .cesu8Encoding :=
      codes_lengthAgrees .cesu8Encoding hcodes
    have hback : InflatesBack ((units.map UInt16.toNat).flatMap (unitsOf true)) .cesu8Encoding ↔
        (units.map UInt16.toNat).flatMap (unitsRead true) =
          (units.map UInt16.toNat).flatMap (unitsOf true) :=
      inflatesBack_iff .cesu8Encoding hcodes
    have hread : (units.map UInt16.toNat).flatMap (unitsRead true) =
        units.map fun u => UInt16.ofNat (readAs u.toNat) := by
      rw [flatMap_map, map_eq_flatMap]
      rfl
    rw [cesu8_flatMap] at hagrees hback
    have hsame : units.map (fun u => UInt16.ofNat (readAs u.toNat)) = units ↔
        ∀ u ∈ units, ¬ IsSurrogate u := by
      conv_lhs => rhs; rw [← map_id units]
      rw [map_inj_left]
      exact forall₂_congr fun u _ => ofNat_readAs_eq_iff u
    rw [hback, hread, hsame]
    exact ⟨fun h => .inr h.2, fun h => ⟨hagrees, h.resolve_left (by decide)⟩⟩

/-- A surrogate is deflated to CESU-8 and comes back as another unit. -/
theorem cesu8_loses_surrogates :
    deflateStringToUTF8Buffer [0xD800] 3 .cesu8Encoding = ⟨.done, [0xED, 0xA0, 0x80], 3⟩ ∧
      inflateUTF8StringToBuffer [0xED, 0xA0, 0x80] (some 1) .cesu8Encoding = ⟨.done, [0xFFFF], 1⟩ ∧
      ¬ InflatesBack [0xD800] .cesu8Encoding := by
  have hdeflate : deflateStringToUTF8Buffer [0xD800] 3 .cesu8Encoding =
      ⟨.done, [0xED, 0xA0, 0x80], 3⟩ := by
    simp [deflateStringToUTF8Buffer, deflateLoop_cons, deflateLoop_nil, deflateChar, oneUcs4ToUtf8Char, shiftLoop,
      tailLoop]
  have hinflate : inflateUTF8StringToBuffer [0xED, 0xA0, 0x80] (some 1) .cesu8Encoding =
      ⟨.done, [0xFFFF], 1⟩ := by
    have hcodes : ∀ v ∈ [0xD800], IsCode true v := cesu8_codes [0xD800]
    exact inflate_codes .cesu8Encoding hcodes (Nat.le_refl 1)
  refine ⟨hdeflate, hinflate, fun hback => ?_⟩
  have hsame := hback 3 (by rw [hdeflate]) 1 (Nat.le_refl 1)
  rw [hdeflate, hinflate] at hsame
  exact absurd hsame (by decide)

end SpiderMonkey.Vm
