import SpiderMonkey.Lib.Unicode
import SpiderMonkey.Vm.Utf8

/-! # The conversions are those of the encodings -/

namespace SpiderMonkey.Vm

open SpiderMonkey.Lib List

/-! ## Writing one character -/

lemma shiftLoop_eq {v : Nat} (h : v < 0x110000) (n : Nat) :
    shiftLoop (v >>> 11) n = n + if v < 0x800 then 0 else if v < 0x10000 then 1 else 2 := by
  have h11 : v >>> 11 = v / 2048 := Nat.shiftRight_eq_div_pow v 11
  have h16 : (v / 2048) >>> 5 = v / 65536 := by
    rw [Nat.shiftRight_eq_div_pow, Nat.div_div_eq_div_mul]
  have h21 : (v / 65536) >>> 5 = 0 := by
    rw [Nat.shiftRight_eq_div_pow, Nat.div_div_eq_div_mul]
    omega
  rw [h11]
  by_cases h1 : v < 0x800
  · rw [if_pos h1, shiftLoop, if_pos (show v / 2048 = 0 by omega)]
    rfl
  rw [if_neg h1, shiftLoop, if_neg (show ¬ v / 2048 = 0 by omega), h16]
  by_cases h2 : v < 0x10000
  · rw [if_pos h2, shiftLoop, if_pos (show v / 65536 = 0 by omega)]
  · rw [if_neg h2, shiftLoop, if_neg (show ¬ v / 65536 = 0 by omega), h21, shiftLoop, if_pos rfl]

lemma tailByte (c : Nat) : ((c &&& 0x3F) ||| 0x80) = 0x80 + c % 64 := by
  have hmod : c &&& 0x3F = c % 64 := Nat.and_two_pow_sub_one_eq_mod c 6
  rw [hmod]
  have hlt : c % 64 < 2 ^ 7 := Nat.lt_trans (Nat.mod_lt _ (by decide)) (by decide)
  have hor : 1 <<< 7 + c % 64 = 1 <<< 7 ||| c % 64 := Nat.shiftLeft_add_eq_or_of_lt hlt 1
  rw [Nat.or_comm]
  exact hor.symm

lemma shiftRight6 (c : Nat) : c >>> 6 = c / 64 := Nat.shiftRight_eq_div_pow c 6

lemma oneUcs4ToUtf8Char_eq {v : Nat} (h : v < 0x110000) : oneUcs4ToUtf8Char v = utf8Bytes v := by
  rw [oneUcs4ToUtf8Char, utf8Bytes]
  by_cases h1 : v < 0x80
  · rw [if_pos h1, if_pos h1]
  rw [if_neg h1, if_neg h1, shiftLoop_eq h]
  by_cases h2 : v < 0x800
  · simp only [if_pos h2, tailLoop, tailByte, shiftRight6]
    rfl
  by_cases h3 : v < 0x10000
  · simp only [if_neg h2, if_pos h3, tailLoop, tailByte, shiftRight6, Nat.div_div_eq_div_mul]
    rfl
  · simp only [if_neg h2, if_neg h3, tailLoop, tailByte, shiftRight6, Nat.div_div_eq_div_mul]
    rfl

lemma utf8Bytes_length (v : Nat) :
    (utf8Bytes v).length =
      if v < 0x80 then 1 else if v < 0x800 then 2 else if v < 0x10000 then 3 else 4 := by
  rw [utf8Bytes]
  split_ifs <;> rfl

/-! ## Reading one character -/

lemma leadLoop_eq : ∀ b < 256, 0x80 ≤ b → leadLoop b 7 1 =
    if b < 0xC0 then 1 else if b < 0xE0 then 2 else if b < 0xF0 then 3 else if b < 0xF8 then 4
    else if b < 0xFC then 5 else if b < 0xFE then 6 else if b < 0xFF then 7 else 8 := by
  decide +kernel

lemma highBit_iff : ∀ b < 256, b &&& 0x80 = 0 ↔ b < 0x80 := by
  decide +kernel

/-- `(b & 0xC0) == 0x80` -/
lemma isTail_iff : ∀ b < 256, b &&& 0xC0 = 0x80 ↔ 0x80 ≤ b ∧ b < 0xC0 := by
  decide +kernel

lemma or_tail (c b : Nat) : (c <<< 6) ||| (b &&& 0x3F) = c * 64 + b % 64 := by
  have hmod : b &&& 0x3F = b % 64 := Nat.and_two_pow_sub_one_eq_mod b 6
  rw [hmod, ← Nat.shiftLeft_add_eq_or_of_lt (Nat.mod_lt b (by decide) : b % 64 < 2 ^ 6),
    Nat.shiftLeft_eq]

/-- The code of a lead byte and those behind it, before it is checked. -/
def rawChar (lead : UInt8) (tail : List UInt8) : Nat :=
  tail.foldl (fun c b => c * 64 + b.toNat % 64) (lead.toNat % 2 ^ (6 - tail.length))

lemma utf8ToOneUcs4Char_eq (lead x : UInt8) (tail : List UInt8) :
    utf8ToOneUcs4Char lead (x :: tail) =
      if rawChar lead (x :: tail) < minUcs4 (tail.length + 2) ∨
        (0xD800 ≤ rawChar lead (x :: tail) ∧ rawChar lead (x :: tail) ≤ 0xDFFF) then invalidUtf8
      else rawChar lead (x :: tail) := by
  have hraw : (x :: tail).foldl (fun c b => (c <<< 6) ||| (b.toNat &&& 0x3F))
      (lead.toNat &&& ((1 <<< (7 - (tail.length + 2))) - 1)) = rawChar lead (x :: tail) := by
    rw [Nat.one_shiftLeft, Nat.and_two_pow_sub_one_eq_mod, rawChar]
    simp only [or_tail, length_cons]
    congr 3
    omega
  rw [utf8ToOneUcs4Char]
  simp only [length_cons, hraw]
  rw [if_neg (by omega)]

lemma utf8ToOneUcs4Char_cases (lead x : UInt8) (tail : List UInt8) :
    utf8ToOneUcs4Char lead (x :: tail) = invalidUtf8 ∨
      minUcs4 (tail.length + 2) ≤ utf8ToOneUcs4Char lead (x :: tail) ∧
      ¬ (0xD800 ≤ utf8ToOneUcs4Char lead (x :: tail) ∧
        utf8ToOneUcs4Char lead (x :: tail) ≤ 0xDFFF) ∧
      utf8ToOneUcs4Char lead (x :: tail) = rawChar lead (x :: tail) := by
  rw [utf8ToOneUcs4Char_eq]
  split_ifs with h
  · exact .inl rfl
  · refine .inr ⟨?_, ?_, rfl⟩
    · omega
    · omega

lemma toNat_ofNat8 {k : Nat} (h : k < 256) : (UInt8.ofNat k).toNat = k :=
  UInt8.toNat_ofNat_of_lt' h

lemma eq_ofNat8 {k : Nat} {b : UInt8} (h : k = b.toNat) : UInt8.ofNat k = b := by
  rw [h, UInt8.ofNat_toNat]

/-- A surrogate is read as invalid, any other code point as itself. -/
def readAs (v : Nat) : Nat := if 0xD800 ≤ v ∧ v ≤ 0xDFFF then invalidUtf8 else v

/-- The bytes of a code point: a lead byte that tells their number, and those behind it. -/
structure EncodedAs (v : Nat) (lead : UInt8) (tail : List UInt8) : Prop where
  bytes : utf8Bytes v = lead :: tail
  length : leadLoop lead.toNat 7 1 = tail.length + 1
  tails : ∀ x ∈ tail, 0x80 ≤ x.toNat ∧ x.toNat < 0xC0
  raw : rawChar lead tail = v
  min : minUcs4 (tail.length + 1) ≤ v

lemma encodedAs {v : Nat} (hle : 0x80 ≤ v) (hlt : v < 0x110000) :
    ∃ lead x tail, EncodedAs v lead (x :: tail) ∧ tail.length + 2 ≤ 4 ∧ 0x80 ≤ lead.toNat := by
  have htail (k : Nat) : (UInt8.ofNat (0x80 + k % 64)).toNat = 0x80 + k % 64 :=
    toNat_ofNat8 (by omega)
  have hmem (k : Nat) : 0x80 ≤ (UInt8.ofNat (0x80 + k % 64)).toNat ∧
      (UInt8.ofNat (0x80 + k % 64)).toNat < 0xC0 := by
    rw [htail]
    omega
  by_cases h2 : v < 0x800
  · have hlead : (UInt8.ofNat (0xC0 + v / 64)).toNat = 0xC0 + v / 64 := toNat_ofNat8 (by omega)
    refine ⟨UInt8.ofNat (0xC0 + v / 64), UInt8.ofNat (0x80 + v % 64), [], ⟨?_, ?_, ?_, ?_, ?_⟩,
      by simp, by omega⟩
    · rw [utf8Bytes, if_neg (Nat.not_lt_of_le hle), if_pos h2]
    · rw [leadLoop_eq _ (UInt8.toNat_lt _) (by omega), hlead]
      simp (disch := omega) only [if_pos, if_neg]
      rfl
    · simp only [mem_singleton, forall_eq]
      exact hmem v
    · simp only [rawChar, foldl_cons, foldl_nil, htail, hlead, length_cons,
        length_nil]
      omega
    · simp only [length_cons, length_nil, minUcs4]
      omega
  by_cases h3 : v < 0x10000
  · have hlead : (UInt8.ofNat (0xE0 + v / 4096)).toNat = 0xE0 + v / 4096 := toNat_ofNat8 (by omega)
    refine ⟨UInt8.ofNat (0xE0 + v / 4096), UInt8.ofNat (0x80 + v / 64 % 64),
      [UInt8.ofNat (0x80 + v % 64)], ⟨?_, ?_, ?_, ?_, ?_⟩, by simp, by omega⟩
    · rw [utf8Bytes, if_neg (Nat.not_lt_of_le hle), if_neg h2, if_pos h3]
    · rw [leadLoop_eq _ (UInt8.toNat_lt _) (by omega), hlead]
      simp (disch := omega) only [if_pos, if_neg]
      rfl
    · simp only [mem_cons, not_mem_nil, or_false, forall_eq_or_imp, forall_eq]
      exact ⟨hmem _, hmem _⟩
    · simp only [rawChar, foldl_cons, foldl_nil, htail, hlead, length_cons,
        length_nil]
      omega
    · simp only [length_cons, length_nil, minUcs4]
      omega
  · have hlead : (UInt8.ofNat (0xF0 + v / 262144)).toNat = 0xF0 + v / 262144 :=
      toNat_ofNat8 (by omega)
    refine ⟨UInt8.ofNat (0xF0 + v / 262144), UInt8.ofNat (0x80 + v / 4096 % 64),
      [UInt8.ofNat (0x80 + v / 64 % 64), UInt8.ofNat (0x80 + v % 64)],
      ⟨?_, ?_, ?_, ?_, ?_⟩, by simp, by omega⟩
    · rw [utf8Bytes, if_neg (Nat.not_lt_of_le hle), if_neg h2, if_neg h3]
    · rw [leadLoop_eq _ (UInt8.toNat_lt _) (by omega), hlead]
      simp (disch := omega) only [if_pos, if_neg]
      rfl
    · simp only [mem_cons, not_mem_nil, or_false, forall_eq_or_imp, forall_eq]
      exact ⟨hmem _, hmem _, hmem _⟩
    · simp only [rawChar, foldl_cons, foldl_nil, htail, hlead, length_cons,
        length_nil]
      omega
    · change 0x10000 ≤ v
      omega

lemma EncodedAs.utf8ToOneUcs4Char_eq {v : Nat} {lead x : UInt8} {tail : List UInt8}
    (h : EncodedAs v lead (x :: tail)) : utf8ToOneUcs4Char lead (x :: tail) = readAs v := by
  have hmin : minUcs4 (tail.length + 2) ≤ v := h.min
  rw [Vm.utf8ToOneUcs4Char_eq, h.raw, readAs]
  by_cases hs : 0xD800 ≤ v ∧ v ≤ 0xDFFF
  · rw [if_pos hs, if_pos (.inr hs)]
  · rw [if_neg hs, if_neg]
    omega

/-- The bytes of a code point read back. -/
lemma readChar_utf8Bytes {v : Nat} (hlt : v < 0x110000) (rest : List UInt8) (offset : Nat) :
    ∃ lead tail, utf8Bytes v = lead :: tail ∧
      readChar lead (tail ++ rest) offset = .ok (tail.length + 1, readAs v) := by
  by_cases hle : 0x80 ≤ v
  · obtain ⟨lead, x, tail, henc, hlen, hlead⟩ := encodedAs hle hlt
    refine ⟨lead, x :: tail, henc.bytes, ?_⟩
    have htake : (x :: tail ++ rest).take (tail.length + 2 - 1) = x :: tail :=
      take_left' (by simp)
    have hall : (x :: tail).all (fun b => b.toNat &&& 0xC0 = 0x80) = true := by
      rw [all_eq_true]
      intro y hy
      rw [decide_eq_true_eq, isTail_iff _ (UInt8.toNat_lt _)]
      exact henc.tails y hy
    rw [readChar, if_neg (by rw [highBit_iff _ (UInt8.toNat_lt _)]; omega)]
    simp only [henc.length, length_cons, length_append]
    rw [if_neg (by omega), if_neg (by omega), htake, if_pos hall, henc.utf8ToOneUcs4Char_eq]
  · have hsmall : v < 0x80 := by omega
    refine ⟨UInt8.ofNat v, [], by rw [utf8Bytes, if_pos hsmall], ?_⟩
    have hval := toNat_ofNat8 (show v < 256 by omega)
    rw [readChar, if_pos (by rwa [highBit_iff _ (UInt8.toNat_lt _), hval]), hval, readAs,
      if_neg (by omega)]
    rfl

/-- The code of bytes that have the form of a character encodes to these bytes, when it is not too
small for their number. -/
lemma utf8Bytes_rawChar {lead x : UInt8} {tail : List UInt8} (hlead : 0x80 ≤ lead.toNat)
    (hlen : leadLoop lead.toNat 7 1 = tail.length + 2) (hmax : tail.length + 2 ≤ 4)
    (htails : ∀ y ∈ x :: tail, 0x80 ≤ y.toNat ∧ y.toNat < 0xC0)
    (hmin : minUcs4 (tail.length + 2) ≤ rawChar lead (x :: tail)) :
    utf8Bytes (rawChar lead (x :: tail)) = lead :: x :: tail := by
  rw [leadLoop_eq _ (UInt8.toNat_lt _) hlead] at hlen
  have hx := htails x mem_cons_self
  match tail with
  | [] =>
    have hrange : 0xC0 ≤ lead.toNat ∧ lead.toNat < 0xE0 := by
      simp only [length_nil] at hlen
      split_ifs at hlen <;> omega
    have hraw : rawChar lead [x] = (lead.toNat - 0xC0) * 64 + (x.toNat - 0x80) := by
      simp only [rawChar, foldl_cons, foldl_nil, length_cons, length_nil]
      omega
    have hmin : 0x80 ≤ rawChar lead [x] := hmin
    rw [hraw] at hmin ⊢
    rw [utf8Bytes, if_neg (by omega), if_pos (by omega), eq_ofNat8 (b := lead) (by omega),
      eq_ofNat8 (b := x) (by omega)]
  | [y] =>
    have hy := htails y (by simp)
    have hrange : 0xE0 ≤ lead.toNat ∧ lead.toNat < 0xF0 := by
      simp only [length_cons, length_nil] at hlen
      split_ifs at hlen <;> omega
    have hraw : rawChar lead [x, y] =
        ((lead.toNat - 0xE0) * 64 + (x.toNat - 0x80)) * 64 + (y.toNat - 0x80) := by
      simp only [rawChar, foldl_cons, foldl_nil, length_cons, length_nil]
      omega
    have hmin : 0x800 ≤ rawChar lead [x, y] := hmin
    rw [hraw] at hmin ⊢
    rw [utf8Bytes, if_neg (by omega), if_neg (by omega), if_pos (by omega),
      eq_ofNat8 (b := lead) (by omega), eq_ofNat8 (b := x) (by omega),
      eq_ofNat8 (b := y) (by omega)]
  | [y, z] =>
    have hy := htails y (by simp)
    have hz := htails z (by simp)
    have hrange : 0xF0 ≤ lead.toNat ∧ lead.toNat < 0xF8 := by
      simp only [length_cons, length_nil] at hlen
      split_ifs at hlen <;> omega
    have hraw : rawChar lead [x, y, z] =
        (((lead.toNat - 0xF0) * 64 + (x.toNat - 0x80)) * 64 + (y.toNat - 0x80)) * 64 +
          (z.toNat - 0x80) := by
      simp only [rawChar, foldl_cons, foldl_nil, length_cons, length_nil]
      omega
    have hmin : 0x10000 ≤ rawChar lead [x, y, z] := hmin
    rw [hraw] at hmin ⊢
    rw [utf8Bytes, if_neg (by omega), if_neg (by omega), if_neg (by omega),
      eq_ofNat8 (b := lead) (by omega), eq_ofNat8 (b := x) (by omega),
      eq_ofNat8 (b := y) (by omega), eq_ofNat8 (b := z) (by omega)]
  | _ :: _ :: _ :: _ =>
    simp only [length_cons] at hmax
    omega

/-- What is read with a code in the range of Unicode is the bytes of that code, no surrogate. -/
lemma readChar_ok {b : UInt8} {rest : List UInt8} {offset n v : Nat}
    (h : readChar b rest offset = .ok (n, v)) (hlt : v < 0x110000) :
    ¬ (0xD800 ≤ v ∧ v ≤ 0xDFFF) ∧
      ∃ tail behind, rest = tail ++ behind ∧ utf8Bytes v = b :: tail ∧ n = tail.length + 1 := by
  rw [readChar] at h
  by_cases hascii : b.toNat &&& 0x80 = 0
  · rw [if_pos hascii] at h
    cases h
    rw [highBit_iff _ (UInt8.toNat_lt _)] at hascii
    refine ⟨by omega, [], rest, rfl, ?_, rfl⟩
    rw [utf8Bytes, if_pos hascii, UInt8.ofNat_toNat]
  rw [if_neg hascii] at h
  rw [highBit_iff _ (UInt8.toNat_lt _), Nat.not_lt] at hascii
  simp only at h
  by_cases hfits : rest.length + 1 < leadLoop b.toNat 7 1
  · rw [if_pos hfits] at h
    cases h
  rw [if_neg hfits] at h
  by_cases hbad : leadLoop b.toNat 7 1 = 1 ∨ 4 < leadLoop b.toNat 7 1
  · rw [if_pos hbad] at h
    cases h
  rw [if_neg hbad] at h
  by_cases hall : (rest.take (leadLoop b.toNat 7 1 - 1)).all (fun b => b.toNat &&& 0xC0 = 0x80)
  case neg =>
    rw [if_neg hall] at h
    cases h
  rw [if_pos hall] at h
  simp only [Except.ok.injEq, Prod.mk.injEq] at h
  obtain ⟨hn, hv⟩ := h
  have hpos : leadLoop b.toNat 7 1 ≠ 0 := by
    rw [leadLoop_eq _ (UInt8.toNat_lt _) hascii]
    split_ifs <;> decide
  have hlen : (rest.take (leadLoop b.toNat 7 1 - 1)).length = leadLoop b.toNat 7 1 - 1 := by
    rw [length_take]
    omega
  cases htake : rest.take (leadLoop b.toNat 7 1 - 1) with
  | nil =>
    rw [htake, length_nil] at hlen
    omega
  | cons x tail =>
    rw [htake] at hlen hall hv
    rw [length_cons] at hlen
    have htails : ∀ y ∈ x :: tail, 0x80 ≤ y.toNat ∧ y.toNat < 0xC0 := by
      intro y hy
      have hbits := all_eq_true.mp hall y hy
      rwa [decide_eq_true_eq, isTail_iff _ (UInt8.toNat_lt _)] at hbits
    rcases utf8ToOneUcs4Char_cases b x tail with hinvalid | ⟨hmin, hnot, hraw⟩
    · rw [hv] at hinvalid
      rw [hinvalid, invalidUtf8] at hlt
      omega
    · rw [hv] at hmin hnot hraw
      refine ⟨hnot, x :: tail, rest.drop (leadLoop b.toNat 7 1 - 1), ?_, ?_, ?_⟩
      · rw [← htake, take_append_drop]
      · rw [hraw]
        exact utf8Bytes_rawChar hascii (by omega) (by omega) htails (hraw ▸ hmin)
      · rw [length_cons]
        omega

end SpiderMonkey.Vm
