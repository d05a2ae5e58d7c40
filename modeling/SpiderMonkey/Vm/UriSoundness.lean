import SpiderMonkey.Vm.Uri
import SpiderMonkey.Vm.Utf8RoundTrip

/-! # Encoding and decoding are inverse

A string that is decoded falls into pieces: units that stand for themselves, and runs of triplets
for the bytes of a character.
-/

namespace SpiderMonkey.Vm

open SpiderMonkey.Lib List
open SpiderMonkey.Json (isHex unHex)

/-! ## Sets -/

/-- The units before the NUL. -/
def members (s : List Jschar) : List Jschar := s.takeWhile (· ≠ 0)

lemma strchr_iff (s : List Jschar) (c : Jschar) : strchr s c = true ↔ c ∈ members s := by
  induction s with
  | nil => simp [strchr, members]
  | cons a s ih =>
    rw [strchr, members]
    by_cases hzero : a = 0
    · simp [hzero]
    · rw [if_neg hzero, takeWhile_cons_of_pos (by simpa using hzero), mem_cons]
      by_cases hc : a = c
      · simp [hc]
      · rw [if_neg hc, ih, members]
        exact ⟨.inr, fun h => h.resolve_left (Ne.symm hc)⟩

/-- The sets are ASCII, and none has `%`. -/
def IsUriSet (s : List Jschar) : Prop := ∀ c ∈ members s, c.toNat < 0x80 ∧ c ≠ percent

lemma isUriSet_of_all {s : List Jschar}
    (h : (members s).all (fun c => decide (c.toNat < 0x80 ∧ c ≠ percent)) = true) :
    IsUriSet s := by
  intro c hc
  exact of_decide_eq_true (all_eq_true.mp h c hc)

lemma isUriSet_reserved : IsUriSet uriReservedPlusPound := isUriSet_of_all (by decide)

lemma isUriSet_unescaped : IsUriSet uriUnescaped := isUriSet_of_all (by decide)

lemma isUriSet_empty : IsUriSet emptyUcstr := isUriSet_of_all (by decide)

/-! ## Hexadecimal digits -/

lemma unHex_lt {c : Jschar} (h : isHex c = true) : (unHex c).toNat < 16 := by
  simp only [isHex, isDec, Bool.or_eq_true, Bool.and_eq_true, decide_eq_true_eq,
    UInt16.le_iff_toNat_le] at h
  rw [unHex]
  simp only [isDec, Bool.and_eq_true, decide_eq_true_eq, UInt16.le_iff_toNat_le]
  have hc := c.toNat_lt
  split_ifs <;> simp only [UInt16.toNat_sub, UInt16.toNat_add, UInt16.reduceToNat] at * <;> omega

/-- The byte of two digits. -/
def digitsValue (d : Jschar × Jschar) : Nat := (unHex d.1).toNat * 16 + (unHex d.2).toNat

variable {d : Jschar × Jschar}

lemma digitsValue_lt (h1 : isHex d.1 = true) (h2 : isHex d.2 = true) :
    digitsValue d < 256 := by
  have hhigh := unHex_lt h1
  have hlow := unHex_lt h2
  rw [digitsValue]
  omega

/-- `HexDigits` are read back. -/
lemma hexDigits_read : ∀ d < 16, isHex (hexDigits.getD d 0) = true ∧
    (unHex (hexDigits.getD d 0)).toNat = d := by
  decide

/-- The digits of a byte. -/
def digitsOf (b : UInt8) : Jschar × Jschar :=
  (hexDigits.getD (b.toNat >>> 4) 0, hexDigits.getD (b.toNat &&& 0xF) 0)

lemma digitsOf_spec (b : UInt8) : isHex (digitsOf b).1 = true ∧ isHex (digitsOf b).2 = true ∧
    digitsValue (digitsOf b) = b.toNat := by
  have hlt := b.toNat_lt
  have hshift : b.toNat >>> 4 = b.toNat / 16 := Nat.shiftRight_eq_div_pow _ 4
  have hand : b.toNat &&& 0xF = b.toNat % 16 := Nat.and_two_pow_sub_one_eq_mod _ 4
  obtain ⟨hhex, hval⟩ := hexDigits_read (b.toNat / 16) (by omega)
  obtain ⟨hhex2, hval2⟩ := hexDigits_read (b.toNat % 16) (Nat.mod_lt _ (by decide))
  rw [digitsValue, digitsOf, hshift, hand]
  refine ⟨hhex, hhex2, ?_⟩
  simp only [hval, hval2]
  omega

/-! ## Pieces -/

inductive Piece where
  | plain (u : Jschar)
  | run (v : Nat) (digits : List (Jschar × Jschar))

def triplets (digits : List (Jschar × Jschar)) : List Jschar :=
  digits.flatMap fun d => [percent, d.1, d.2]

/-- What the digits of a run are: the bytes of a character, in their shortest form. -/
structure IsRun (v : Nat) (digits : List (Jschar × Jschar)) : Prop where
  valid : v.isValidChar
  hex : ∀ d ∈ digits, isHex d.1 = true ∧ isHex d.2 = true
  bytes : digits.map (fun d => UInt8.ofNat (digitsValue d)) = utf8Bytes v

def Piece.Valid : Piece → Prop
  | .plain u => u ≠ percent
  | .run v digits => IsRun v digits

def Piece.source : Piece → List Jschar
  | .plain u => [u]
  | .run _ digits => triplets digits

/-- A run stays as it is if it denotes a member of the reserved set. -/
def Piece.result (reservedSet : List Jschar) : Piece → List Jschar
  | .plain u => [u]
  | .run v digits =>
    if v ∈ (members reservedSet).map UInt16.toNat then triplets digits else utf16Units v

/-! ## Reading triplets -/

variable {chars : List Jschar}

lemma charAt_ok_iff {k : Nat} {c : Jschar} :
    charAt chars k = .ok c ↔ chars[k]? = some c := by
  rw [charAt]
  cases chars[k]? <;> simp

lemma drop_eq_cons_iff {α : Type} {l : List α} {k : Nat} {a : α} :
    l[k]? = some a ↔ l.drop k = a :: l.drop (k + 1) := by
  constructor
  · intro h
    obtain ⟨hk, rfl⟩ := List.getElem?_eq_some_iff.mp h
    exact drop_eq_getElem_cons hk
  · intro h
    have hget := congrArg (fun m => m[0]?) h
    simpa using hget

lemma hexByte_ok_iff {k b : Nat} :
    hexByte chars k = .ok b ↔ ∃ d : Jschar × Jschar, chars[k + 1]? = some d.1 ∧
      chars[k + 2]? = some d.2 ∧ isHex d.1 = true ∧ isHex d.2 = true ∧ digitsValue d = b := by
  simp only [hexByte, bind_eq_ok_iff, check_eq_ok_iff, pure_eq_ok_iff, charAt_ok_iff,
    Bool.not_eq_true, Bool.not_eq_false']
  constructor
  · rintro ⟨h1, hread1, hhex1, h2, hread2, hhex2, hb⟩
    exact ⟨(h1, h2), hread1, hread2, hhex1, hhex2, hb⟩
  · rintro ⟨d, hread1, hread2, hhex1, hhex2, hb⟩
    exact ⟨d.1, hread1, hhex1, d.2, hread2, hhex2, hb⟩

/-- A byte above ASCII that begins with the bits 10. -/
def IsTail (b : Nat) : Prop := b &&& 0xC0 = 0x80

lemma octetLoop_succ_ok_iff {left k : Nat} {octets : List UInt8} {r : List UInt8 × Nat} :
    octetLoop chars (left + 1) k octets = .ok r ↔ chars[k + 1]? = some percent ∧
      ∃ b, hexByte chars (k + 1) = .ok b ∧ IsTail b ∧
        octetLoop chars left (k + 3) (octets ++ [UInt8.ofNat b]) = .ok r := by
  simp only [octetLoop, bind_eq_ok_iff, check_eq_ok_iff, charAt_ok_iff, ne_eq, Decidable.not_not]
  constructor
  · rintro ⟨c, hread, rfl, b, hb, htail, hrest⟩
    exact ⟨hread, b, hb, htail, hrest⟩
  · rintro ⟨hread, b, hb, htail, hrest⟩
    exact ⟨percent, hread, rfl, b, hb, htail, hrest⟩

/-- The triplet at `k`. -/
lemma hexByte_ok_iff_drop {k b : Nat} (h : chars[k]? = some percent) :
    hexByte chars k = .ok b ↔ ∃ d : Jschar × Jschar, isHex d.1 = true ∧ isHex d.2 = true ∧
      digitsValue d = b ∧ chars.drop k = percent :: d.1 :: d.2 :: chars.drop (k + 3) := by
  rw [hexByte_ok_iff]
  constructor
  · rintro ⟨d, hread1, hread2, hhex1, hhex2, hb⟩
    refine ⟨d, hhex1, hhex2, hb, ?_⟩
    rw [drop_eq_cons_iff.mp h, drop_eq_cons_iff.mp hread1, drop_eq_cons_iff.mp hread2]
  · rintro ⟨d, hhex1, hhex2, hb, hdrop⟩
    have hread1 := congrArg (fun m => m[1]?) hdrop
    have hread2 := congrArg (fun m => m[2]?) hdrop
    simp only [List.getElem?_drop] at hread1 hread2
    exact ⟨d, hread1, hread2, hhex1, hhex2, hb⟩

lemma octetLoop_ok_iff {left k k' : Nat} {octets octets' : List UInt8} :
    octetLoop chars left k octets = .ok (octets', k') ↔ k' = k + 3 * left ∧
      ∃ digits, digits.length = left ∧ (∀ d ∈ digits, isHex d.1 = true ∧ isHex d.2 = true ∧
        IsTail (digitsValue d)) ∧ chars.drop (k + 1) = triplets digits ++ chars.drop (k' + 1) ∧
        octets' = octets ++ digits.map fun d => UInt8.ofNat (digitsValue d) := by
  induction left generalizing k octets with
  | zero =>
    simp only [octetLoop, Except.ok.injEq, Prod.mk.injEq, length_eq_zero_iff]
    constructor
    · rintro ⟨rfl, rfl⟩
      exact ⟨rfl, [], rfl, by simp, rfl, by simp⟩
    · rintro ⟨rfl, digits, rfl, -, -, rfl⟩
      exact ⟨by simp, rfl⟩
  | succ left ih =>
    rw [octetLoop_succ_ok_iff]
    constructor
    · rintro ⟨hread, b, hb, htail, hrest⟩
      obtain ⟨d, hhex1, hhex2, rfl, hdrop⟩ := (hexByte_ok_iff_drop hread).mp hb
      obtain ⟨rfl, digits, rfl, hall, hdrop', rfl⟩ := ih.mp hrest
      refine ⟨by omega, d :: digits, rfl, ?_, ?_, ?_⟩
      · rw [forall_mem_cons]
        exact ⟨⟨hhex1, hhex2, htail⟩, hall⟩
      · rw [hdrop, hdrop']
        rfl
      · rw [map_cons, append_assoc]
        rfl
    · rintro ⟨rfl, digits, hlen, hall, hdrop, rfl⟩
      match digits with
      | [] => cases hlen
      | d :: digits =>
        rw [forall_mem_cons] at hall
        obtain ⟨⟨hhex1, hhex2, htail⟩, hall⟩ := hall
        have hlen : digits.length = left := Nat.succ.inj hlen
        have hdrop : chars.drop (k + 1) = percent :: d.1 :: d.2 ::
            (triplets digits ++ chars.drop (k + 3 * (left + 1) + 1)) := hdrop
        have hread : chars[k + 1]? = some percent := by
          have hhead := congrArg (fun m => m[0]?) hdrop
          simp only [List.getElem?_drop] at hhead
          exact hhead
        have hrest : chars.drop (k + 1 + 3) =
            triplets digits ++ chars.drop (k + 3 * (left + 1) + 1) := by
          have htail := congrArg (List.drop 3) hdrop
          rwa [drop_drop] at htail
        refine ⟨hread, digitsValue d, (hexByte_ok_iff_drop hread).mpr ⟨d, hhex1, hhex2, rfl, ?_⟩,
          htail, ih.mpr ⟨by omega, digits, hlen, hall, hrest, ?_⟩⟩
        · rw [hdrop, hrest]
        · rw [map_cons, append_assoc]
          rfl

/-- A reading does not go past the end where the lengths were checked. -/
lemma charAt_ne_pastEnd {k : Nat} (h : k < chars.length) :
    charAt chars k ≠ .error .pastEnd := by
  rw [charAt, List.getElem?_eq_getElem h]
  exact nofun

lemma hexByte_ne_pastEnd {k : Nat} (h : k + 2 < chars.length) :
    hexByte chars k ≠ .error .pastEnd := by
  refine bind_ne_error (charAt_ne_pastEnd (by omega)) fun h1 _ => ?_
  refine check_ne_error (by decide) fun _ => ?_
  refine bind_ne_error (charAt_ne_pastEnd h) fun h2 _ => ?_
  exact check_ne_error (by decide) fun _ => nofun

lemma octetLoop_ne_pastEnd {left k : Nat} (h : k + 3 * left < chars.length) (octets : List UInt8) :
    octetLoop chars left k octets ≠ .error .pastEnd := by
  induction left generalizing k octets with
  | zero => exact nofun
  | succ left ih =>
    refine bind_ne_error (charAt_ne_pastEnd (by omega)) fun c _ => ?_
    refine check_ne_error (by decide) fun _ => ?_
    refine bind_ne_error (hexByte_ne_pastEnd (by omega)) fun b _ => ?_
    exact check_ne_error (by decide) fun _ => ih (by omega) _

lemma decodeTriplets_ne_pastEnd (chars : List Jschar) (k : Nat) :
    decodeTriplets chars k ≠ .error .pastEnd := by
  refine check_ne_error (by decide) fun hlen => ?_
  refine bind_ne_error (hexByte_ne_pastEnd (by omega)) fun b _ => ?_
  by_cases hascii : b &&& 0x80 = 0
  · simp only [if_pos hascii]
    exact nofun
  simp only [if_neg hascii]
  refine check_ne_error (by decide) fun _ => ?_
  refine check_ne_error (by decide) fun hroom => ?_
  refine bind_ne_error (octetLoop_ne_pastEnd (by omega) _) fun r _ => ?_
  refine bind_ne_error ?_ fun u _ => nofun
  rw [splitUnit]
  split_ifs <;> exact nofun

/-- The unit of a character, and the one before it in a pair. -/
def lastUnit (v : Nat) : Jschar × List Jschar :=
  if 0x10000 ≤ v then
    (UInt16.ofNat (0xDC00 + (v - 0x10000) % 1024), [UInt16.ofNat (0xD800 + (v - 0x10000) / 1024)])
  else (UInt16.ofNat v, [])

lemma splitUnit_ok_iff {v : Nat} {u : Jschar × List Jschar} :
    splitUnit v = .ok u ↔ v < 0x110000 ∧ lastUnit v = u := by
  rw [splitUnit, lastUnit, and_ten, Nat.shiftRight_eq_div_pow, Nat.add_comm _ 0xDC00,
    Nat.add_comm _ 0xD800]
  by_cases hpair : 0x10000 ≤ v
  · rw [if_pos hpair, if_pos hpair]
    by_cases hbig : 0xFFFFF < v - 0x10000
    · rw [if_pos hbig]
      exact iff_of_false nofun fun h => by omega
    · rw [if_neg hbig, Except.ok.injEq]
      exact ⟨fun h => ⟨by omega, h⟩, fun h => h.2⟩
  · rw [if_neg hpair, if_neg hpair, Except.ok.injEq]
    exact ⟨fun h => ⟨by omega, h⟩, fun h => h.2⟩

lemma lastUnit_append (v : Nat) : (lastUnit v).2 ++ [(lastUnit v).1] = utf16Units v := by
  rw [lastUnit, utf16Units]
  by_cases hpair : 0x10000 ≤ v
  · rw [if_pos hpair, if_neg (Nat.not_lt_of_le hpair)]
    rfl
  · rw [if_neg hpair, if_pos (Nat.lt_of_not_le hpair)]
    rfl

/-- The byte of a triplet. -/
def byteOf (d : Jschar × Jschar) : UInt8 := UInt8.ofNat (digitsValue d)

lemma byteOf_toNat (h : isHex d.1 = true ∧ isHex d.2 = true) :
    (byteOf d).toNat = digitsValue d :=
  toNat_ofNat8 (digitsValue_lt h.1 h.2)

variable {digits : List (Jschar × Jschar)}

lemma isRun_ascii_iff {v : Nat} (hhex : isHex d.1 = true ∧ isHex d.2 = true)
    (hlead : digitsValue d < 0x80) :
    IsRun v (d :: digits) ↔ digits = [] ∧ v = digitsValue d := by
  have hd : (byteOf d).toNat = digitsValue d := byteOf_toNat hhex
  constructor
  · intro h
    have hbytes : byteOf d :: digits.map byteOf = utf8Bytes v := h.bytes
    by_cases hle : 0x80 ≤ v
    · obtain ⟨lead, x, tail, henc, -, hbig⟩ := encodedAs hle (lt_of_isValidChar h.valid)
      rw [henc.bytes] at hbytes
      injection hbytes with hhead
      rw [← hhead, hd] at hbig
      omega
    · rw [utf8Bytes, if_pos (Nat.lt_of_not_le hle)] at hbytes
      injection hbytes with hhead hnil
      refine ⟨map_eq_nil_iff.mp hnil, ?_⟩
      rw [← hd, hhead, toNat_ofNat8 (by omega)]
  · rintro ⟨rfl, rfl⟩
    refine ⟨?_, ?_, ?_⟩
    · rw [Nat.isValidChar]
      omega
    · simpa using hhex
    · rw [utf8Bytes, if_pos hlead]
      rfl

/-- What the decoder checks of a lead byte and those behind it. -/
lemma isRun_cons_iff {v : Nat} (hhex : ∀ e ∈ d :: digits, isHex e.1 = true ∧ isHex e.2 = true)
    (hlead : ¬ digitsValue d &&& 0x80 = 0) :
    IsRun v (d :: digits) ↔ leadLoop (digitsValue d) 7 1 = digits.length + 1 ∧
      ¬ (digits.length + 1 = 1 ∨ 4 < digits.length + 1) ∧
      (∀ e ∈ digits, IsTail (digitsValue e)) ∧
      utf8ToOneUcs4Char (byteOf d) (digits.map byteOf) = v ∧ v < 0x110000 := by
  have hhex' := forall_mem_cons.mp hhex
  have hd : (byteOf d).toNat = digitsValue d := byteOf_toNat hhex'.1
  have hbits (e : Jschar × Jschar) (he : e ∈ digits) :
      IsTail (digitsValue e) ↔ 0x80 ≤ (byteOf e).toNat ∧ (byteOf e).toNat < 0xC0 := by
    rw [byteOf_toNat (hhex'.2 e he), IsTail, isTail_iff]
    exact digitsValue_lt (hhex'.2 e he).1 (hhex'.2 e he).2
  constructor
  · intro h
    have hbytes : byteOf d :: digits.map byteOf = utf8Bytes v := h.bytes
    have hle : 0x80 ≤ v := by
      by_contra hlt
      rw [utf8Bytes, if_pos (Nat.lt_of_not_le hlt)] at hbytes
      injection hbytes with hhead
      rw [← hd, hhead, toNat_ofNat8 (by omega), highBit_iff _ (by omega)] at hlead
      omega
    obtain ⟨lead, x, tail, henc, hmax, -⟩ := encodedAs hle (lt_of_isValidChar h.valid)
    rw [henc.bytes] at hbytes
    injection hbytes with hhead htail
    have hlen : digits.length = tail.length + 1 := by
      rw [← length_map byteOf, htail, length_cons]
    refine ⟨?_, by omega, fun e he => ?_, ?_, lt_of_isValidChar h.valid⟩
    · rw [← hd, hhead, henc.length, hlen, length_cons]
    · rw [hbits e he]
      exact henc.tails _ (htail ▸ mem_map_of_mem he)
    · rw [hhead, htail, henc.utf8ToOneUcs4Char_eq, readAs,
        if_neg (not_surrogate_of_isValidChar h.valid)]
  · rintro ⟨hlen, hmax, htails, hv, hlt⟩
    have hread : readChar (byteOf d) (digits.map byteOf) 0 = .ok (digits.length + 1, v) := by
      rw [readChar, hd, if_neg hlead, hlen]
      simp only
      rw [if_neg (by simp), if_neg hmax, Nat.add_sub_cancel, take_of_length_le (by simp),
        if_pos, hv]
      rw [all_eq_true]
      intro y hy
      obtain ⟨e, he, rfl⟩ := mem_map.mp hy
      rw [decide_eq_true_eq, byteOf_toNat (hhex'.2 e he)]
      exact htails e he
    obtain ⟨hnot, tail, behind, hsplit, hbytes, hn⟩ := readChar_ok hread hlt
    refine ⟨?_, hhex, ?_⟩
    · rw [Nat.isValidChar]
      omega
    · have hsame : digits.map byteOf = tail := by
        have hbehind : behind = [] := by
          have hlens := congrArg List.length hsplit
          rw [length_map, length_append] at hlens
          exact length_eq_zero_iff.mp (by omega)
        rw [hsplit, hbehind, append_nil]
      rw [hbytes, ← hsame]
      rfl

lemma triplets_length (digits : List (Jschar × Jschar)) :
    (triplets digits).length = 3 * digits.length := by
  induction digits with
  | nil => rfl
  | cons d digits ih =>
    have hcons : triplets (d :: digits) = [percent, d.1, d.2] ++ triplets digits := rfl
    rw [hcons, length_append, ih, length_cons, length_cons, length_cons,
      length_cons, length_nil]
    omega

lemma IsRun.exists_cons {v : Nat} (h : IsRun v digits) :
    ∃ d rest, digits = d :: rest := by
  cases digits with
  | nil =>
    have hbytes := congrArg List.length h.bytes
    rw [map_nil, length_nil, utf8Bytes_length] at hbytes
    split_ifs at hbytes
  | cons d rest => exact ⟨d, rest, rfl⟩

/-- The triplets at `k` are read if they are the bytes of a character. -/
lemma decodeTriplets_ok_iff {chars high : List Jschar} {k k' : Nat} {c : Jschar}
    (hk : chars[k]? = some percent) :
    decodeTriplets chars k = .ok (c, high, k') ↔ ∃ v digits, IsRun v digits ∧
      chars.drop k = triplets digits ++ chars.drop (k' + 1) ∧ k' + 1 = k + 3 * digits.length ∧
      lastUnit v = (c, high) := by
  simp only [decodeTriplets, bind_eq_ok_iff, check_eq_ok_iff, Nat.not_le]
  constructor
  · rintro ⟨hlen, b, hb, h⟩
    obtain ⟨d, hhex1, hhex2, rfl, hdrop⟩ := (hexByte_ok_iff_drop hk).mp hb
    by_cases hascii : digitsValue d &&& 0x80 = 0
    · rw [if_pos hascii, pure_eq_ok_iff] at h
      rw [highBit_iff _ (digitsValue_lt hhex1 hhex2)] at hascii
      simp only [Prod.mk.injEq] at h
      obtain ⟨rfl, rfl, rfl⟩ := h
      refine ⟨digitsValue d, [d], (isRun_ascii_iff ⟨hhex1, hhex2⟩ hascii).mpr ⟨rfl, rfl⟩, hdrop,
        rfl, ?_⟩
      rw [lastUnit, if_neg (by omega)]
    · rw [if_neg hascii] at h
      simp only [check_eq_ok_iff, bind_eq_ok_iff] at h
      obtain ⟨hmax, hroom, ⟨octets, k2⟩, hloop, h⟩ := h
      obtain ⟨rfl, digits, hn, hall, hdrop', rfl⟩ := octetLoop_ok_iff.mp hloop
      have hpos : leadLoop (digitsValue d) 7 1 ≠ 0 := by
        rw [highBit_iff _ (digitsValue_lt hhex1 hhex2)] at hascii
        rw [leadLoop_eq _ (digitsValue_lt hhex1 hhex2) (by omega)]
        split_ifs <;> decide
      have hhex : ∀ e ∈ d :: digits, isHex e.1 = true ∧ isHex e.2 = true := by
        rw [forall_mem_cons]
        exact ⟨⟨hhex1, hhex2⟩, fun e he => ⟨(hall e he).1, (hall e he).2.1⟩⟩
      have hsource : chars.drop k = triplets (d :: digits) ++
          chars.drop (k + 2 + 3 * (leadLoop (digitsValue d) 7 1 - 1) + 1) := by
        rw [hdrop, hdrop']
        rfl
      have hrun (v : Nat) (hv : utf8ToOneUcs4Char (byteOf d) (digits.map byteOf) = v)
          (hlt : v < 0x110000) : IsRun v (d :: digits) :=
        (isRun_cons_iff hhex hascii).mpr ⟨by omega, by omega, fun e he => (hall e he).2.2, hv, hlt⟩
      obtain ⟨u, hu, hout⟩ := h
      rw [splitUnit_ok_iff] at hu
      simp only [pure_eq_ok_iff, Prod.mk.injEq] at hout
      obtain ⟨rfl, rfl, rfl⟩ := hout
      refine ⟨_, d :: digits, hrun _ rfl hu.1, hsource, ?_, hu.2⟩
      rw [length_cons]
      omega
  · rintro ⟨v, digits, hrun, hdrop, hlen, hunit⟩
    obtain ⟨d, digits, rfl⟩ := hrun.exists_cons
    have hhex := forall_mem_cons.mp hrun.hex
    rw [length_cons] at hlen
    have hfits : k + 3 * (digits.length + 1) ≤ chars.length := by
      have hlens := congrArg List.length hdrop
      rw [length_append, triplets_length, length_drop, length_cons] at hlens
      omega
    have hhead : chars.drop k = percent :: d.1 :: d.2 ::
        (triplets digits ++ chars.drop (k' + 1)) := hdrop
    have hrest : chars.drop (k + 3) = triplets digits ++ chars.drop (k' + 1) := by
      have htail := congrArg (List.drop 3) hhead
      rwa [drop_drop] at htail
    refine ⟨by omega, digitsValue d,
      (hexByte_ok_iff_drop hk).mpr ⟨d, hhex.1.1, hhex.1.2, rfl, hrest ▸ hhead⟩, ?_⟩
    by_cases hascii : digitsValue d &&& 0x80 = 0
    · rw [if_pos hascii, pure_eq_ok_iff]
      rw [highBit_iff _ (digitsValue_lt hhex.1.1 hhex.1.2)] at hascii
      obtain ⟨rfl, rfl⟩ := (isRun_ascii_iff hhex.1 hascii).mp hrun
      rw [lastUnit, if_neg (by omega)] at hunit
      injection hunit with hc hhigh
      rw [hc, hhigh]
      simp only [Prod.mk.injEq, true_and]
      exact (Nat.succ.inj hlen).symm
    · rw [if_neg hascii]
      simp only [check_eq_ok_iff, bind_eq_ok_iff]
      obtain ⟨hlead, hmax, htails, hv, hlt⟩ := (isRun_cons_iff hrun.hex hascii).mp hrun
      refine ⟨by omega, by omega, ⟨digits.map byteOf, k'⟩, ?_, (c, high), ?_, rfl⟩
      · exact octetLoop_ok_iff.mpr ⟨by omega, digits, by omega,
          fun e he => ⟨(hhex.2 e he).1, (hhex.2 e he).2, htails e he⟩, hrest, rfl⟩
      · rw [splitUnit_ok_iff]
        exact hv ▸ ⟨hlt, hunit⟩

/-! ## Decoding -/

variable {set : List Jschar}

/-- The unit that is looked up is a member if the character is. -/
lemma strchr_lastUnit (hset : IsUriSet set) {v : Nat} {c : Jschar} {high : List Jschar}
    (h : lastUnit v = (c, high)) :
    strchr set c = true ↔ v ∈ (members set).map UInt16.toNat := by
  rw [strchr_iff, mem_map]
  by_cases hpair : 0x10000 ≤ v
  · rw [lastUnit, if_pos hpair] at h
    injection h with hc
    refine iff_of_false (fun hmem => ?_) ?_
    · have hlow : c.toNat = 0xDC00 + (v - 0x10000) % 1024 := by
        rw [← hc]
        exact UInt16.toNat_ofNat_of_lt' (by
          change _ < 65536
          omega)
      have hascii := (hset c hmem).1
      omega
    · rintro ⟨u, -, rfl⟩
      exact absurd u.toNat_lt (Nat.not_lt_of_le hpair)
  · rw [lastUnit, if_neg hpair] at h
    injection h with hc
    have hval : c.toNat = v := by
      rw [← hc]
      exact UInt16.toNat_ofNat_of_lt' (Nat.lt_of_not_le hpair)
    constructor
    · intro hmem
      exact ⟨c, hmem, hval⟩
    · rintro ⟨u, hu, hv⟩
      rwa [UInt16.toNat_inj.mp (hval.trans hv.symm)]

/-- One iteration reads one piece. -/
lemma decodeStep_ok_iff (hset : IsUriSet set) {chars units : List Jschar} {k k' : Nat} :
    decodeStep chars set k = .ok (units, k') ↔ ∃ p : Piece, p.Valid ∧
      chars.drop k = p.source ++ chars.drop (k' + 1) ∧ k' + 1 = k + p.source.length ∧
      p.result set = units := by
  simp only [decodeStep, bind_eq_ok_iff, charAt_ok_iff]
  constructor
  · rintro ⟨c, hk, h⟩
    by_cases hpercent : c = percent
    · subst hpercent
      simp only [if_true, bind_eq_ok_iff] at h
      obtain ⟨⟨c, high, k2⟩, hread, h⟩ := h
      obtain ⟨v, digits, hrun, hdrop, hlen, hunit⟩ := (decodeTriplets_ok_iff hk).mp hread
      have hmem := strchr_lastUnit hset hunit
      refine ⟨.run v digits, hrun, ?_⟩
      simp only [Piece.source, Piece.result, triplets_length]
      by_cases hin : strchr set c = true
      · rw [if_pos (hmem.mp hin)]
        rw [if_pos hin, pure_eq_ok_iff] at h
        injection h with hunits hk'
        have hk' : k2 = k' := hk'
        subst hk'
        refine ⟨hdrop, hlen, ?_⟩
        have hhigh : high = [] := by
          obtain ⟨u, -, rfl⟩ := mem_map.mp (hmem.mp hin)
          rw [lastUnit, if_neg (Nat.not_le_of_lt u.toNat_lt)] at hunit
          exact (congrArg Prod.snd hunit).symm
        rw [← hunits, hhigh, nil_append, hdrop, take_left']
        rw [triplets_length]
        change 3 * digits.length = k2 - k + 1
        obtain ⟨d, rest, rfl⟩ := hrun.exists_cons
        rw [length_cons] at hlen ⊢
        omega
      · rw [if_neg fun hv => hin (hmem.mpr hv)]
        rw [if_neg hin, pure_eq_ok_iff] at h
        injection h with hunits hk'
        have hk' : k2 = k' := hk'
        subst hk'
        refine ⟨hdrop, hlen, ?_⟩
        rw [← hunits, ← lastUnit_append, hunit]
    · rw [if_neg hpercent, pure_eq_ok_iff] at h
      injection h with hunits hk'
      subst hunits hk'
      exact ⟨.plain c, hpercent, drop_eq_cons_iff.mp hk, rfl, rfl⟩
  · rintro ⟨p, hp, hdrop, hlen, hunits⟩
    cases p with
    | plain u =>
      have hk' : k' = k := Nat.succ.inj hlen
      subst hk'
      refine ⟨u, drop_eq_cons_iff.mpr hdrop, ?_⟩
      rw [if_neg hp, pure_eq_ok_iff, ← hunits]
      rfl
    | run v digits =>
      obtain ⟨d, digits, rfl⟩ := hp.exists_cons
      have hk : chars[k]? = some percent := by
        have hhead := congrArg (fun m => m[0]?) hdrop
        simp only [List.getElem?_drop] at hhead
        exact hhead
      rw [Piece.source, triplets_length] at hlen
      refine ⟨percent, hk, ?_⟩
      simp only [if_true, bind_eq_ok_iff]
      refine ⟨((lastUnit v).1, (lastUnit v).2, k'),
        (decodeTriplets_ok_iff hk).mpr ⟨v, _, hp, hdrop, hlen, rfl⟩, ?_⟩
      have hmem := strchr_lastUnit hset (rfl : lastUnit v = ((lastUnit v).1, (lastUnit v).2))
      rw [Piece.result] at hunits
      by_cases hin : strchr set (lastUnit v).1 = true
      · rw [if_pos (hmem.mp hin)] at hunits
        rw [if_pos hin, pure_eq_ok_iff]
        have hhigh : (lastUnit v).2 = [] := by
          obtain ⟨u, -, rfl⟩ := mem_map.mp (hmem.mp hin)
          rw [lastUnit, if_neg (Nat.not_le_of_lt u.toNat_lt)]
        rw [← hunits, hdrop, take_left', hhigh]
        · rfl
        · rw [Piece.source, triplets_length]
          change 3 * (d :: digits).length = k' - k + 1
          rw [length_cons] at hlen ⊢
          omega
      · rw [if_neg fun hv => hin (hmem.mpr hv)] at hunits
        rw [if_neg hin, pure_eq_ok_iff, ← hunits, lastUnit_append]

lemma decodeStep_ne_pastEnd {chars set : List Jschar} {k : Nat} (h : k < chars.length) :
    decodeStep chars set k ≠ .error .pastEnd := by
  refine bind_ne_error (charAt_ne_pastEnd h) fun c _ => ?_
  by_cases hpercent : c = percent
  · rw [if_pos hpercent]
    refine bind_ne_error (decodeTriplets_ne_pastEnd chars k) fun r _ => ?_
    by_cases hin : strchr set r.1 = true
    · simp only [if_pos hin]
      exact nofun
    · simp only [if_neg hin]
      exact nofun
  · rw [if_neg hpercent]
    exact nofun

lemma decodeLoop_ne_pastEnd (chars set : List Jschar) (fuel k : Nat) (sb : List Jschar) :
    decodeLoop chars set fuel k sb ≠ .error .pastEnd := by
  induction fuel generalizing k sb with
  | zero => exact nofun
  | succ fuel ih =>
    rw [decodeLoop]
    by_cases hk : k < chars.length
    · have hstep : decodeStep chars set k ≠ .error .pastEnd := decodeStep_ne_pastEnd hk
      rw [if_pos hk]
      cases hr : decodeStep chars set k with
      | error e =>
        rw [hr] at hstep
        exact fun h => hstep (congrArg Except.error (Except.error.inj h))
      | ok r => exact ih _ _
    · rw [if_neg hk]
      exact nofun

lemma Piece.Valid.source_length_pos {p : Piece} (h : p.Valid) : 0 < p.source.length := by
  cases p with
  | plain u => exact Nat.zero_lt_one
  | run v digits =>
    obtain ⟨d, rest, rfl⟩ := IsRun.exists_cons h
    exact Nat.succ_pos _

/-- The loop reads pieces up to the end. -/
lemma decodeLoop_ok_iff (hset : IsUriSet set) {chars out : List Jschar} {fuel k : Nat}
    (hfuel : chars.length ≤ fuel + k) (sb : List Jschar) :
    decodeLoop chars set fuel k sb = .ok out ↔ ∃ pieces : List Piece, (∀ p ∈ pieces, p.Valid) ∧
      chars.drop k = pieces.flatMap Piece.source ∧ out = sb ++ pieces.flatMap (Piece.result set) := by
  have hnil {k : Nat} {sb : List Jschar} (hk : chars.length ≤ k) :
      sb = out ↔ ∃ pieces : List Piece, (∀ p ∈ pieces, p.Valid) ∧
        chars.drop k = pieces.flatMap Piece.source ∧
        out = sb ++ pieces.flatMap (Piece.result set) := by
    rw [drop_of_length_le hk]
    constructor
    · rintro rfl
      exact ⟨[], by simp, rfl, by simp⟩
    · rintro ⟨pieces, hvalid, hsource, rfl⟩
      cases pieces with
      | nil => exact (append_nil _).symm
      | cons p pieces =>
        have hpos := (hvalid p mem_cons_self).source_length_pos
        have hlen := congrArg List.length hsource
        rw [flatMap_cons, length_append, length_nil] at hlen
        omega
  induction fuel generalizing k sb with
  | zero =>
    rw [decodeLoop, Except.ok.injEq]
    exact hnil (by omega)
  | succ fuel ih =>
    rw [decodeLoop]
    by_cases hk : k < chars.length
    · rw [if_pos hk]
      constructor
      · intro h
        cases hr : decodeStep chars set k with
        | error e =>
          rw [hr] at h
          cases h
        | ok r =>
          rw [hr] at h
          obtain ⟨p, hp, hdrop, hlen, hunits⟩ := (decodeStep_ok_iff hset).mp hr
          have hpos := hp.source_length_pos
          obtain ⟨pieces, hvalid, hsource, rfl⟩ := (ih (by omega) _).mp h
          refine ⟨p :: pieces, forall_mem_cons.mpr ⟨hp, hvalid⟩, ?_, ?_⟩
          · rw [hdrop, hsource, flatMap_cons]
          · rw [flatMap_cons, hunits, append_assoc]
      · rintro ⟨pieces, hvalid, hsource, rfl⟩
        cases pieces with
        | nil =>
          have hlen := congrArg List.length hsource
          rw [length_drop, flatMap_nil, length_nil] at hlen
          omega
        | cons p pieces =>
          rw [forall_mem_cons] at hvalid
          rw [flatMap_cons] at hsource
          have hpos := hvalid.1.source_length_pos
          have hnext : k + p.source.length - 1 + 1 = k + p.source.length := by omega
          have hrest : chars.drop (k + p.source.length) = pieces.flatMap Piece.source := by
            rw [← drop_drop, hsource, drop_left]
          have hstep : decodeStep chars set k = .ok (p.result set, k + p.source.length - 1) := by
            rw [decodeStep_ok_iff hset]
            exact ⟨p, hvalid.1, by rw [hnext, hrest, hsource], hnext, rfl⟩
          rw [hstep]
          refine (ih (by omega) _).mpr ⟨pieces, hvalid.2, by rw [hnext, hrest], ?_⟩
          rw [flatMap_cons, append_assoc]
    · rw [if_neg hk, Except.ok.injEq]
      exact hnil (Nat.le_of_not_lt hk)

/-- `Decode` succeeds on pieces. -/
lemma decode_ok_iff (hset : IsUriSet set) {chars out : List Jschar} :
    decode chars set = .ok out ↔ ∃ pieces : List Piece, (∀ p ∈ pieces, p.Valid) ∧
      chars = pieces.flatMap Piece.source ∧ out = pieces.flatMap (Piece.result set) := by
  have hloop : decode chars set = decodeLoop chars set chars.length 0 [] := by
    rw [decode]
    by_cases hempty : chars.length = 0
    · rw [if_pos hempty, hempty, decodeLoop]
    · rw [if_neg hempty]
  rw [hloop, decodeLoop_ok_iff hset (Nat.le_refl _)]
  rfl

lemma decode_ne_pastEnd (chars set : List Jschar) : decode chars set ≠ .error .pastEnd := by
  rw [decode]
  by_cases hempty : chars.length = 0
  · rw [if_pos hempty]
    exact nofun
  · rw [if_neg hempty]
    exact decodeLoop_ne_pastEnd _ _ _ _ _

end SpiderMonkey.Vm
