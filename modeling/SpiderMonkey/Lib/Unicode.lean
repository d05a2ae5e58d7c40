import Mathlib

/-! # Unicode

The encodings of characters in bytes and in 16-bit units. A character is a `Char`, which is no
surrogate; the bytes of a surrogate are given by the same arithmetic.
-/

namespace SpiderMonkey.Lib

/-! ## UTF-8 -/

/-- The bytes of a code point. -/
def utf8Bytes (v : Nat) : List UInt8 :=
  if v < 0x80 then [UInt8.ofNat v]
  else if v < 0x800 then [UInt8.ofNat (0xC0 + v / 64), UInt8.ofNat (0x80 + v % 64)]
  else if v < 0x10000 then
    [UInt8.ofNat (0xE0 + v / 4096), UInt8.ofNat (0x80 + v / 64 % 64), UInt8.ofNat (0x80 + v % 64)]
  else
    [UInt8.ofNat (0xF0 + v / 262144), UInt8.ofNat (0x80 + v / 4096 % 64),
      UInt8.ofNat (0x80 + v / 64 % 64), UInt8.ofNat (0x80 + v % 64)]

lemma char_lt (c : Char) : c.toNat < 0x110000 := by
  rcases c.valid with h | h
  · exact Nat.lt_trans h (by decide)
  · exact h.2

/-- They are those of the standard, for a character. -/
lemma utf8Bytes_char (c : Char) : utf8Bytes c.toNat = String.utf8EncodeChar c := by
  have hlt := char_lt c
  rw [utf8Bytes, String.utf8EncodeChar]
  have hval : c.val.toNat = c.toNat := rfl
  simp only [hval]
  generalize c.toNat = v at hlt
  by_cases h1 : v < 0x80
  · rw [if_pos h1, if_pos (show v ≤ 0x7F by omega)]
  rw [if_neg h1, if_neg (show ¬ v ≤ 0x7F by omega)]
  by_cases h2 : v < 0x800
  · rw [if_pos h2, if_pos (show v ≤ 0x7FF by omega), show 0xC0 + v / 64 = v / 64 % 0x20 + 0xC0 by omega,
      show 0x80 + v % 64 = v % 0x40 + 0x80 by omega]
  rw [if_neg h2, if_neg (show ¬ v ≤ 0x7FF by omega),
    show 0x80 + v / 64 % 64 = v / 64 % 0x40 + 0x80 by omega,
    show 0x80 + v % 64 = v % 0x40 + 0x80 by omega]
  by_cases h3 : v < 0x10000
  · rw [if_pos h3, if_pos (show v ≤ 0xFFFF by omega),
      show 0xE0 + v / 4096 = v / 4096 % 0x10 + 0xE0 by omega]
  · rw [if_neg h3, if_neg (show ¬ v ≤ 0xFFFF by omega),
      show 0xF0 + v / 262144 = v / 262144 % 0x08 + 0xF0 by omega,
      show 0x80 + v / 4096 % 64 = v / 4096 % 0x40 + 0x80 by omega]

/-- Bytes that encode characters. -/
def WellFormedUtf8 (bytes : List UInt8) : Prop :=
  ∃ cs : List Char, bytes = cs.flatMap String.utf8EncodeChar

/-! ## UTF-16 -/

def IsHighSurrogate (u : UInt16) : Prop := 0xD800 ≤ u.toNat ∧ u.toNat ≤ 0xDBFF

def IsLowSurrogate (u : UInt16) : Prop := 0xDC00 ≤ u.toNat ∧ u.toNat ≤ 0xDFFF

def IsSurrogate (u : UInt16) : Prop := 0xD800 ≤ u.toNat ∧ u.toNat ≤ 0xDFFF

instance (u : UInt16) : Decidable (IsHighSurrogate u) := inferInstanceAs (Decidable (_ ∧ _))

instance (u : UInt16) : Decidable (IsLowSurrogate u) := inferInstanceAs (Decidable (_ ∧ _))

instance (u : UInt16) : Decidable (IsSurrogate u) := inferInstanceAs (Decidable (_ ∧ _))

/-- The units of a code point. -/
def utf16Units (v : Nat) : List UInt16 :=
  if v < 0x10000 then [UInt16.ofNat v]
  else [UInt16.ofNat (0xD800 + (v - 0x10000) / 1024), UInt16.ofNat (0xDC00 + (v - 0x10000) % 1024)]

def utf16EncodeChar (c : Char) : List UInt16 := utf16Units c.toNat

/-- Units that encode characters. -/
def WellFormedUtf16 (units : List UInt16) : Prop :=
  ∃ cs : List Char, units = cs.flatMap utf16EncodeChar

/-- The code point of a pair of surrogates. -/
def pairValue (u u2 : UInt16) : Nat := (u.toNat - 0xD800) * 1024 + (u2.toNat - 0xDC00) + 0x10000

/-- The character with a code point that is no surrogate. -/
lemma exists_char {v : Nat} (h : v.isValidChar) : ∃ c : Char, c.toNat = v := by
  refine ⟨Char.ofNat v, ?_⟩
  rw [Char.ofNat, dif_pos h]
  rfl

lemma lt_of_isValidChar {v : Nat} (h : v.isValidChar) : v < 0x110000 := by
  rw [Nat.isValidChar] at h
  omega

lemma not_surrogate_of_isValidChar {v : Nat} (h : v.isValidChar) :
    ¬ (0xD800 ≤ v ∧ v ≤ 0xDFFF) := by
  rw [Nat.isValidChar] at h
  omega

lemma pairValue_bounds {u u2 : UInt16} (h : IsHighSurrogate u) (h2 : IsLowSurrogate u2) :
    0x10000 ≤ pairValue u u2 ∧ pairValue u u2 < 0x110000 := by
  rw [IsHighSurrogate] at h
  rw [IsLowSurrogate] at h2
  rw [pairValue]
  omega

lemma utf16Units_single (u : UInt16) : utf16Units u.toNat = [u] := by
  rw [utf16Units, if_pos u.toNat_lt, UInt16.ofNat_toNat]

lemma utf16Units_pair {u u2 : UInt16} (h : IsHighSurrogate u) (h2 : IsLowSurrogate u2) :
    utf16Units (pairValue u u2) = [u, u2] := by
  obtain ⟨hle, _⟩ := pairValue_bounds h h2
  rw [utf16Units, if_neg (Nat.not_lt_of_le hle)]
  rw [IsHighSurrogate] at h
  rw [IsLowSurrogate] at h2
  have hhigh : 0xD800 + (pairValue u u2 - 0x10000) / 1024 = u.toNat := by
    rw [pairValue]
    omega
  have hlow : 0xDC00 + (pairValue u u2 - 0x10000) % 1024 = u2.toNat := by
    rw [pairValue]
    omega
  rw [hhigh, hlow, UInt16.ofNat_toNat, UInt16.ofNat_toNat]

/-- The units of a character are one that is no surrogate, or a pair. -/
lemma utf16Units_cases {v : Nat} (h : v.isValidChar) :
    (∃ u, utf16Units v = [u] ∧ ¬ IsSurrogate u ∧ u.toNat = v) ∨
      ∃ u u2, utf16Units v = [u, u2] ∧ IsHighSurrogate u ∧ IsLowSurrogate u2 ∧
        pairValue u u2 = v := by
  have hlt := lt_of_isValidChar h
  have hnot := not_surrogate_of_isValidChar h
  rw [utf16Units]
  by_cases hsmall : v < 0x10000
  · have hval : (UInt16.ofNat v).toNat = v := UInt16.toNat_ofNat_of_lt' hsmall
    rw [if_pos hsmall]
    refine .inl ⟨_, rfl, ?_, hval⟩
    rwa [IsSurrogate, hval]
  · rw [if_neg hsmall]
    have hhigh : (UInt16.ofNat (0xD800 + (v - 0x10000) / 1024)).toNat =
        0xD800 + (v - 0x10000) / 1024 := UInt16.toNat_ofNat_of_lt' (by
      change _ < 65536
      omega)
    have hlow : (UInt16.ofNat (0xDC00 + (v - 0x10000) % 1024)).toNat =
        0xDC00 + (v - 0x10000) % 1024 := UInt16.toNat_ofNat_of_lt' (by
      change _ < 65536
      omega)
    refine .inr ⟨_, _, rfl, ?_, ?_, ?_⟩
    · rw [IsHighSurrogate, hhigh]
      omega
    · rw [IsLowSurrogate, hlow]
      omega
    · rw [pairValue, hhigh, hlow]
      omega

/-! ## Lists of code points -/

/-- A list of characters is the list of their code points. -/
lemma exists_chars {vs : List Nat} (h : ∀ v ∈ vs, v.isValidChar) :
    ∃ cs : List Char, vs = cs.map Char.toNat := by
  induction vs with
  | nil => exact ⟨[], rfl⟩
  | cons v vs ih =>
    rw [List.forall_mem_cons] at h
    obtain ⟨cs, hcs⟩ := ih h.2
    obtain ⟨c, hc⟩ := exists_char (v := v) h.1
    exact ⟨c :: cs, by rw [List.map_cons, hc, hcs]⟩

lemma forall_isValidChar (cs : List Char) : ∀ v ∈ cs.map Char.toNat, v.isValidChar := by
  intro v hv
  obtain ⟨c, _, rfl⟩ := List.mem_map.mp hv
  exact c.valid

lemma wellFormedUtf8_iff (bytes : List UInt8) :
    WellFormedUtf8 bytes ↔ ∃ vs : List Nat, (∀ v ∈ vs, v.isValidChar) ∧
      bytes = vs.flatMap utf8Bytes := by
  constructor
  · rintro ⟨cs, rfl⟩
    refine ⟨cs.map Char.toNat, forall_isValidChar cs, ?_⟩
    rw [List.flatMap_map]
    exact congrArg (cs.flatMap ·) (funext fun c => (utf8Bytes_char c).symm)
  · rintro ⟨vs, hvs, rfl⟩
    obtain ⟨cs, rfl⟩ := exists_chars hvs
    refine ⟨cs, ?_⟩
    rw [List.flatMap_map]
    exact congrArg (cs.flatMap ·) (funext fun c => utf8Bytes_char c)

lemma wellFormedUtf16_iff (units : List UInt16) :
    WellFormedUtf16 units ↔ ∃ vs : List Nat, (∀ v ∈ vs, v.isValidChar) ∧
      units = vs.flatMap utf16Units := by
  constructor
  · rintro ⟨cs, rfl⟩
    refine ⟨cs.map Char.toNat, forall_isValidChar cs, ?_⟩
    rw [List.flatMap_map]
    rfl
  · rintro ⟨vs, hvs, rfl⟩
    obtain ⟨cs, rfl⟩ := exists_chars hvs
    refine ⟨cs, ?_⟩
    rw [List.flatMap_map]
    rfl

/-- Units that begin with a surrogate that is not part of a pair. -/
inductive LoneSurrogate : List UInt16 → Prop
  | low (u : UInt16) (rest : List UInt16) : IsLowSurrogate u → LoneSurrogate (u :: rest)
  | last (u : UInt16) : IsHighSurrogate u → LoneSurrogate [u]
  | high (u u2 : UInt16) (rest : List UInt16) : IsHighSurrogate u → ¬ IsLowSurrogate u2 →
      LoneSurrogate (u :: u2 :: rest)

/-- Units are characters, up to their end or to a surrogate that is not part of a pair. -/
lemma exists_split (units : List UInt16) :
    ∃ (vs : List Nat) (rest : List UInt16), (∀ v ∈ vs, v.isValidChar) ∧
      units = vs.flatMap utf16Units ++ rest ∧ (rest = [] ∨ LoneSurrogate rest) := by
  match units with
  | [] => exact ⟨[], [], by simp, rfl, .inl rfl⟩
  | u :: units =>
    by_cases hlow : IsLowSurrogate u
    · exact ⟨[], u :: units, by simp, rfl, .inr (.low u units hlow)⟩
    by_cases hhigh : IsHighSurrogate u
    · match units with
      | [] => exact ⟨[], [u], by simp, rfl, .inr (.last u hhigh)⟩
      | u2 :: units =>
        by_cases hlow2 : IsLowSurrogate u2
        · obtain ⟨vs, rest, hvs, rfl, hrest⟩ := exists_split units
          obtain ⟨hle, hlt⟩ := pairValue_bounds hhigh hlow2
          refine ⟨pairValue u u2 :: vs, rest, ?_, ?_, hrest⟩
          · rw [List.forall_mem_cons]
            exact ⟨.inr ⟨by omega, hlt⟩, hvs⟩
          · rw [List.flatMap_cons, utf16Units_pair hhigh hlow2]
            rfl
        · exact ⟨[], u :: u2 :: units, by simp, rfl, .inr (.high u u2 units hhigh hlow2)⟩
    · obtain ⟨vs, rest, hvs, rfl, hrest⟩ := exists_split units
      refine ⟨u.toNat :: vs, rest, ?_, ?_, hrest⟩
      · rw [List.forall_mem_cons]
        refine ⟨?_, hvs⟩
        have hlt := u.toNat_lt
        rw [IsLowSurrogate] at hlow
        rw [IsHighSurrogate] at hhigh
        rw [Nat.isValidChar]
        omega
      · rw [List.flatMap_cons, utf16Units_single]
        rfl

end SpiderMonkey.Lib
