import SpiderMonkey.Vm.Escape
import SpiderMonkey.Vm.JsonTokens
import SpiderMonkey.Vm.UriSoundness

/-! # unescape follows the specification and undoes escape -/

namespace SpiderMonkey.Vm

open List Option

open SpiderMonkey.Json (isHex unHex HexDigit hexDigit_iff)

/-! ## ES5 B.2.2 -/

/-- So many hexadecimal digits at a position, and their value. -/
inductive HexAt (t : List Jschar) (k : Nat) : (n v : Nat) → Prop
  | zero : HexAt t k 0 0
  | succ {n v d c} (h : HexAt t k n v) (hc : t[k + n]? = some c) (hd : HexDigit c d) :
      HexAt t k (n + 1) (v * 16 + d)

/-- Steps 8 to 11: the form `%uXXXX` at a position. -/
structure UnicodeAt (t : List Jschar) (k v : Nat) : Prop where
  room : k + 6 ≤ t.length
  letter : t[k + 1]? = some 117
  digits : HexAt t (k + 2) 4 v

/-- Steps 14 to 16: the form `%XX`. -/
structure ByteAt (t : List Jschar) (k v : Nat) : Prop where
  room : k + 3 ≤ t.length
  digits : HexAt t (k + 1) 2 v

/-- Steps 6 to 19: what is appended at a position, and the next position. -/
inductive Es5Round (t : List Jschar) : (k : Nat) → (c : Jschar) → (k' : Nat) → Prop
  | plain {k c} (hc : t[k]? = some c) (hne : c ≠ 37) : Es5Round t k c (k + 1)
  | unicode {k v} (hc : t[k]? = some 37) (hu : UnicodeAt t k v) :
      Es5Round t k (UInt16.ofNat v) (k + 6)
  | byte {k v} (hc : t[k]? = some 37) (hu : ¬ ∃ v, UnicodeAt t k v) (hb : ByteAt t k v) :
      Es5Round t k (UInt16.ofNat v) (k + 3)
  | percent {k} (hc : t[k]? = some 37) (hu : ¬ ∃ v, UnicodeAt t k v) (hb : ¬ ∃ v, ByteAt t k v) :
      Es5Round t k 37 (k + 1)

/-- What the rounds from a position on append. -/
inductive Es5Unescape (t : List Jschar) : (k : Nat) → (r : List Jschar) → Prop
  | done : Es5Unescape t t.length []
  | round {k k' c r} (h : Es5Round t k c k') (hr : Es5Unescape t k' r) : Es5Unescape t k (c :: r)

/-! ## Hexadecimal digits -/

section Unescape

variable {chars : List Jschar} {k n v : Nat}

lemma hexAt_succ_iff : HexAt chars k (n + 1) v ↔
    ∃ w c, HexAt chars k n w ∧ chars[k + n]? = some c ∧ isHex c = true ∧
      v = w * 16 + (unHex c).toNat := by
  constructor
  · rintro (_ | ⟨h, hc, hd⟩)
    obtain ⟨hhex, rfl⟩ := (hexDigit_iff _ _).mp hd
    exact ⟨_, _, h, hc, hhex, rfl⟩
  · rintro ⟨w, c, h, hc, hhex, rfl⟩
    exact .succ h hc ((hexDigit_iff c _).mpr ⟨hhex, rfl⟩)

lemma hexAt_zero_iff : HexAt chars k 0 v ↔ v = 0 := by
  constructor
  · rintro ⟨⟩
    rfl
  · rintro rfl
    exact .zero

/-- `Unhex2` reads within the string and tells whether there are two digits. -/
lemma unhex2_spec (chars : List Jschar) (k : Nat) (h : k + 2 ≤ chars.length) :
    (∃ v, HexAt chars k 2 v ∧ unhex2 chars k = some (some (UInt16.ofNat v))) ∨
      (¬ ∃ v, HexAt chars k 2 v) ∧ unhex2 chars k = some none := by
  have ha : chars[k]? = some chars[k] := List.getElem?_eq_getElem (by omega)
  have hb : chars[k + 1]? = some chars[k + 1] := List.getElem?_eq_getElem (by omega)
  simp only [unhex2, hexAt_succ_iff, hexAt_zero_iff, Nat.add_zero, ha, hb, bind_eq_bind,
    bind_some, Option.some.injEq]
  by_cases hhex : (isHex chars[k] && isHex chars[k + 1]) = true
  · left
    obtain ⟨hhexa, hhexb⟩ := (Bool.and_eq_true _ _).mp hhex
    refine ⟨(unHex chars[k]).toNat * 16 + (unHex chars[k + 1]).toNat, ?_, by simp [hhex]⟩
    exact ⟨_, _, ⟨_, _, rfl, rfl, hhexa, rfl⟩, rfl, hhexb, by rw [Nat.zero_mul, Nat.zero_add]⟩
  · right
    refine ⟨?_, by simp [hhex]⟩
    rintro ⟨v, w, b, ⟨u, a, -, rfl, hhexa, -⟩, rfl, hhexb, -⟩
    exact hhex ((Bool.and_eq_true _ _).mpr ⟨hhexa, hhexb⟩)

/-- `Unhex4` likewise. -/
lemma unhex4_spec (chars : List Jschar) (k : Nat) (h : k + 4 ≤ chars.length) :
    (∃ v, HexAt chars k 4 v ∧ unhex4 chars k = some (some (UInt16.ofNat v))) ∨
      (¬ ∃ v, HexAt chars k 4 v) ∧ unhex4 chars k = some none := by
  have ha : chars[k]? = some chars[k] := List.getElem?_eq_getElem (by omega)
  have hb : chars[k + 1]? = some chars[k + 1] := List.getElem?_eq_getElem (by omega)
  have hc : chars[k + 2]? = some chars[k + 2] := List.getElem?_eq_getElem (by omega)
  have hd : chars[k + 3]? = some chars[k + 3] := List.getElem?_eq_getElem (by omega)
  simp only [unhex4, hexAt_succ_iff, hexAt_zero_iff, Nat.add_zero, ha, hb, hc, hd,
    bind_eq_bind, bind_some, Option.some.injEq]
  by_cases hhex : (isHex chars[k] && isHex chars[k + 1] && isHex chars[k + 2] &&
      isHex chars[k + 3]) = true
  · left
    obtain ⟨⟨⟨hhexa, hhexb⟩, hhexc⟩, hhexd⟩ :
        ((isHex chars[k] = true ∧ isHex chars[k + 1] = true) ∧ isHex chars[k + 2] = true) ∧
          isHex chars[k + 3] = true := by
      simpa only [Bool.and_eq_true] using hhex
    refine ⟨(((unHex chars[k]).toNat * 16 + (unHex chars[k + 1]).toNat) * 16 +
      (unHex chars[k + 2]).toNat) * 16 + (unHex chars[k + 3]).toNat, ?_, by simp [hhex]⟩
    exact ⟨_, _, ⟨_, _, ⟨_, _, ⟨_, _, rfl, rfl, hhexa, rfl⟩, rfl, hhexb, rfl⟩, rfl, hhexc, rfl⟩,
      rfl, hhexd, by rw [Nat.zero_mul, Nat.zero_add]⟩
  · right
    refine ⟨?_, by simp [hhex]⟩
    rintro ⟨v, w, d, ⟨w2, c, ⟨w3, b, ⟨w4, a, -, rfl, hhexa, -⟩, rfl, hhexb, -⟩, rfl, hhexc, -⟩,
      rfl, hhexd, -⟩
    apply hhex
    simp only [hhexa, hhexb, hhexc, hhexd, Bool.and_self]

/-! ## The state machine -/

variable (chars)

/-- What has been put together; until `building`, the code units passed over. -/
def Unescaping.result (s : Unescaping) : List Jschar :=
  match s.sb with
  | some sb => sb.chars
  | none => chars.take s.k

/-- No more than was passed over has been put together, and the whole length is reserved. -/
structure Unescaping.Sound (s : Unescaping) : Prop where
  bound : s.k ≤ chars.length
  fits : (s.result chars).length ≤ s.k
  reserved : ∀ sb, s.sb = some sb → sb.reserved = chars.length

variable {chars} {s : Unescaping}

lemma ensureBuilding_spec (hs : s.Sound chars) :
    ensureBuilding chars s = some ⟨s.result chars, chars.length⟩ := by
  obtain ⟨k, sb⟩ := s
  cases sb with
  | some sb =>
    have hres : sb.reserved = chars.length := hs.reserved sb rfl
    cases sb
    simp only at hres
    rw [hres]
    rfl
  | none =>
    have htake : ([] : List Jschar).length + (chars.take k).length ≤ chars.length := by
      rw [length_nil, Nat.zero_add]
      exact length_take_le' k chars
    simp only [ensureBuilding, ReservedBuffer.infallibleAppend, if_pos htake]
    rfl

/-- What is appended while building has been reserved. -/
lemma step18_building (chars : List Jschar) {r : List Jschar} {k : Nat} (c : Jschar) (hk : k < chars.length)
    (hr : r.length ≤ k) :
    ∃ s', step18 c k (some ⟨r, chars.length⟩) = some s' ∧ s'.k = k + 1 ∧ s'.Sound chars ∧
      s'.result chars = r ++ [c] := by
  have hfit : r.length + [c].length ≤ chars.length := by
    rw [length_singleton]
    omega
  refine ⟨⟨k + 1, some ⟨r ++ [c], chars.length⟩⟩, ?_, rfl, ⟨Nat.succ_le_of_lt hk, ?_, ?_⟩, rfl⟩
  · simp only [step18, ReservedBuffer.infallibleAppend, if_pos hfit]
    rfl
  · simpa [Unescaping.result] using hr
  · rintro _ ⟨⟩
    rfl

lemma step18_plain {c : Jschar} (hs : s.Sound chars) (hc : chars[s.k]? = some c) :
    ∃ s', step18 c s.k s.sb = some s' ∧ s'.k = s.k + 1 ∧ s'.Sound chars ∧
      s'.result chars = s.result chars ++ [c] := by
  obtain ⟨hk, hget⟩ := List.getElem?_eq_some_iff.mp hc
  obtain ⟨k, sb⟩ := s
  cases sb with
  | some sb =>
    have hres : sb.reserved = chars.length := hs.reserved sb rfl
    obtain ⟨r, res⟩ := sb
    simp only at hres
    subst hres
    exact step18_building chars c hk hs.fits
  | none =>
    have htake : chars.take (k + 1) = chars.take k ++ [c] := by
      rw [take_add_one, hc]
      rfl
    refine ⟨⟨k + 1, none⟩, rfl, rfl, ⟨hk, ?_, ?_⟩, htake⟩
    · simp only [Unescaping.result, length_take]
      omega
    · rintro _ ⟨⟩

/-- From `step_14` on. -/
lemma step14_spec (hs : s.Sound chars) (hc : chars[s.k]? = some 37)
    (hu : ¬ ∃ v, UnicodeAt chars s.k v) :
    ∃ s' c, step14 chars 37 s = some s' ∧ Es5Round chars s.k c s'.k ∧ s'.Sound chars ∧
      s'.result chars = s.result chars ++ [c] := by
  unfold step14
  by_cases hroom : (chars.length : Int) - 3 < s.k
  · -- too near the end for two digits
    rw [if_pos hroom]
    obtain ⟨s', hstep, hk, hs', hresult⟩ := step18_plain hs hc
    refine ⟨s', 37, hstep, ?_, hs', hresult⟩
    rw [hk]
    refine .percent hc hu ?_
    rintro ⟨v, hb⟩
    have := hb.room
    omega
  · rw [if_neg hroom]
    rcases unhex2_spec chars (s.k + 1) (by omega) with ⟨v, hv, heq⟩ | ⟨hno, heq⟩
    · obtain ⟨s', hstep, hk, hs', hresult⟩ := step18_building chars (k := s.k + 2)
        (UInt16.ofNat v) (by omega) (Nat.le_add_right_of_le hs.fits)
      refine ⟨s', UInt16.ofNat v, ?_, ?_, hs', hresult⟩
      · simp only [heq, bind_eq_bind, bind_some, ensureBuilding_spec hs, hstep]
      · rw [hk]
        exact .byte hc hu ⟨by omega, hv⟩
    · obtain ⟨s', hstep, hk, hs', hresult⟩ := step18_plain hs hc
      refine ⟨s', 37, ?_, ?_, hs', hresult⟩
      · simp only [heq, bind_eq_bind, bind_some, hstep]
      · rw [hk]
        refine .percent hc hu ?_
        rintro ⟨v, hb⟩
        exact hno ⟨v, hb.digits⟩

/-- A round of the loop is a round of the specification. -/
lemma unescapeStep_spec (hs : s.Sound chars) (hk : s.k < chars.length) :
    ∃ s' c, unescapeStep chars s = some s' ∧ Es5Round chars s.k c s'.k ∧ s'.Sound chars ∧
      s'.result chars = s.result chars ++ [c] := by
  have hc : chars[s.k]? = some chars[s.k] := List.getElem?_eq_getElem hk
  simp only [unescapeStep, hc, bind_eq_bind, bind_some]
  by_cases hpercent : chars[s.k] = 37
  case neg =>
    rw [if_pos hpercent]
    obtain ⟨s', hstep, hk', hs', hresult⟩ := step18_plain hs hc
    refine ⟨s', chars[s.k], hstep, ?_, hs', hresult⟩
    rw [hk']
    exact .plain hc hpercent
  rw [hpercent] at hc ⊢
  rw [if_neg (not_not_intro rfl)]
  by_cases hroom : (chars.length : Int) - 6 < s.k
  · rw [if_pos hroom]
    apply step14_spec hs hc
    rintro ⟨v, hu⟩
    have := hu.room
    omega
  rw [if_neg hroom]
  have hletter : chars[s.k + 1]? = some chars[s.k + 1] := List.getElem?_eq_getElem (by omega)
  rw [hletter, bind_some]
  by_cases hnotu : chars[s.k + 1] ≠ 117
  · rw [if_pos hnotu]
    apply step14_spec hs hc
    rintro ⟨v, hu⟩
    exact hnotu (Option.some.inj (hletter.symm.trans hu.letter))
  rw [if_neg hnotu]
  rcases unhex4_spec chars (s.k + 2) (by omega) with ⟨v, hv, heq⟩ | ⟨hno, heq⟩
  · obtain ⟨s', hstep, hk', hs', hresult⟩ := step18_building chars (k := s.k + 5)
      (UInt16.ofNat v) (by omega) (Nat.le_add_right_of_le hs.fits)
    refine ⟨s', UInt16.ofNat v, ?_, ?_, hs', hresult⟩
    · simp only [heq, bind_some, ensureBuilding_spec hs, hstep]
    · rw [hk']
      refine .unicode hc ⟨by omega, ?_, hv⟩
      rw [hletter, not_ne_iff.mp hnotu]
  · rw [heq]
    apply step14_spec hs hc
    rintro ⟨v, hu⟩
    exact hno ⟨v, hu.digits⟩

lemma Es5Round.lt {c : Jschar} {k' : Nat} (h : Es5Round chars k c k') : k < k' := by
  cases h <;> omega

/-- The rounds that are left for the specification, the loop makes too. -/
lemma unescapeLoop_spec (fuel : Nat) (hs : s.Sound chars) (hfuel : chars.length < s.k + fuel) :
    ∃ r, unescapeLoop chars fuel s = some (s.result chars ++ r) ∧ Es5Unescape chars s.k r := by
  induction fuel generalizing s with
  | zero =>
    have := hs.bound
    omega
  | succ fuel ih =>
    rw [unescapeLoop]
    by_cases hend : s.k = chars.length
    · rw [if_pos hend, hend]
      refine ⟨[], ?_, .done⟩
      obtain ⟨k, sb⟩ := s
      simp only at hend
      cases sb <;> simp [Unescaping.result, hend]
    · rw [if_neg hend]
      obtain ⟨s', c, hstep, hround, hs', hresult⟩ :=
        unescapeStep_spec hs (Nat.lt_of_le_of_ne hs.bound hend)
      have hlt := hround.lt
      obtain ⟨r, hloop, hrest⟩ := ih hs' (by omega)
      refine ⟨c :: r, ?_, .round hround hrest⟩
      simp only [hstep, bind_eq_bind, bind_some, hloop, hresult, append_assoc,
        singleton_append]

/-- From the start: the string that `str_unescape` returns is the one of the specification. -/
lemma strUnescape_spec (t : List Jschar) :
    ∃ r, strUnescape t = some r ∧ Es5Unescape t 0 r := by
  have hstart : Unescaping.Sound t ⟨0, none⟩ := by
    refine ⟨Nat.zero_le _, ?_, ?_⟩
    · simp [Unescaping.result]
    · rintro _ ⟨⟩
  obtain ⟨r, hloop, hr⟩ := unescapeLoop_spec (t.length + 1) hstart (by simp)
  exact ⟨r, by simpa [strUnescape, Unescaping.result] using hloop, hr⟩

/-! ## The specification leaves no choice -/

lemma HexAt.unique {w : Nat} (hv : HexAt chars k n v) (hw : HexAt chars k n w) : v = w := by
  induction hv generalizing w with
  | zero => exact (hexAt_zero_iff.mp hw).symm
  | succ h hc hd ih =>
    obtain ⟨u, c, hu, hc', hhex, rfl⟩ := hexAt_succ_iff.mp hw
    obtain rfl := Option.some.inj (hc.symm.trans hc')
    rw [ih hu, ((hexDigit_iff _ _).mp hd).2]

lemma Es5Round.unique {c c' : Jschar} {k1 k2 : Nat} (h : Es5Round chars k c k1)
    (h' : Es5Round chars k c' k2) : c = c' ∧ k1 = k2 := by
  cases h with
  | plain hc hne =>
    cases h' with
    | plain hc' _ => exact ⟨Option.some.inj (hc.symm.trans hc'), rfl⟩
    | unicode hc' _ => exact absurd (Option.some.inj (hc.symm.trans hc')) hne
    | byte hc' _ _ => exact absurd (Option.some.inj (hc.symm.trans hc')) hne
    | percent hc' _ _ => exact absurd (Option.some.inj (hc.symm.trans hc')) hne
  | unicode hc hu =>
    cases h' with
    | plain hc' hne => exact absurd (Option.some.inj (hc'.symm.trans hc)) hne
    | unicode _ hu' => exact ⟨congrArg UInt16.ofNat (hu.digits.unique hu'.digits), rfl⟩
    | byte _ hno _ => exact absurd ⟨_, hu⟩ hno
    | percent _ hno _ => exact absurd ⟨_, hu⟩ hno
  | byte hc hu hb =>
    cases h' with
    | plain hc' hne => exact absurd (Option.some.inj (hc'.symm.trans hc)) hne
    | unicode _ hu' => exact absurd ⟨_, hu'⟩ hu
    | byte _ _ hb' => exact ⟨congrArg UInt16.ofNat (hb.digits.unique hb'.digits), rfl⟩
    | percent _ _ hno => exact absurd ⟨_, hb⟩ hno
  | percent hc hu hb =>
    cases h' with
    | plain hc' hne => exact absurd (Option.some.inj (hc'.symm.trans hc)) hne
    | unicode _ hu' => exact absurd ⟨_, hu'⟩ hu
    | byte _ _ hb' => exact absurd ⟨_, hb'⟩ hb
    | percent _ _ _ => exact ⟨rfl, rfl⟩

lemma Es5Round.inside {c : Jschar} {k' : Nat} (h : Es5Round chars k c k') :
    k < chars.length := by
  cases h with
  | plain hc _ | unicode hc _ | byte hc _ _ | percent hc _ _ =>
    exact (List.getElem?_eq_some_iff.mp hc).1

lemma Es5Unescape.unique {r r' : List Jschar} (h : Es5Unescape chars k r)
    (h' : Es5Unescape chars k r') : r = r' := by
  induction h generalizing r' with
  | done =>
    cases h' with
    | done => rfl
    | round hround _ => exact absurd hround.inside (Nat.lt_irrefl _)
  | round hround hrest ih =>
    cases h' with
    | done => exact absurd hround.inside (Nat.lt_irrefl _)
    | round hround' hrest' =>
      obtain ⟨rfl, rfl⟩ := hround.unique hround'
      rw [ih hrest']

end Unescape

lemma strUnescape_eq_iff (t r : List Jschar) :
    strUnescape t = some r ↔ Es5Unescape t 0 r := by
  obtain ⟨r', heq, hr'⟩ := strUnescape_spec t
  rw [heq, Option.some.injEq]
  constructor
  · rintro rfl
    exact hr'
  · exact hr'.unique

/-! ## What escape writes -/

lemma escapedLength_eq (chars : List Jschar) :
    escapedLength chars = (strEscape chars).length := by
  have hpass : ∀ n, chars.foldl (fun newlength ch =>
      if passesThrough ch then newlength else newlength + if ch < 256 then 2 else 5)
        (n + chars.length) = n + (strEscape chars).length := by
    induction chars with
    | nil => exact fun _ => rfl
    | cons ch chars ih =>
      intro n
      have hunit : (if passesThrough ch then n + (ch :: chars).length
          else n + (ch :: chars).length + if ch < 256 then 2 else 5) =
          (n + (escapeChar ch).length) + chars.length := by
        rw [escapeChar]
        split_ifs <;> simp only [length_cons, length_nil] <;> omega
      rw [foldl_cons, hunit, ih, Nat.add_assoc, ← length_append]
      rfl
  have := hpass 0
  rwa [Nat.zero_add, Nat.zero_add] at this

lemma percent_not_passesThrough : passesThrough 37 = false := by decide

/-- The digits are read back, and none is the letter of the longer form. -/
lemma escapeDigit_spec {d : Jschar} (h : d.toNat < 16) :
    HexDigit (escapeDigit d) d.toNat ∧ escapeDigit d ≠ 117 := by
  have hletter : ∀ n < 16, hexDigits.getD n 0 ≠ 117 := by decide
  exact ⟨(hexDigit_iff _ _).mpr (hexDigits_read _ h), hletter _ h⟩

lemma toNat_highNibbles (ch : Jschar) :
    (ch >>> 12).toNat = ch.toNat / 4096 ∧ (ch >>> 4).toNat = ch.toNat / 16 := by
  constructor
  · rw [UInt16.toNat_shiftRight]
    exact Nat.shiftRight_eq_div_pow _ 12
  · rw [UInt16.toNat_shiftRight]
    exact Nat.shiftRight_eq_div_pow _ 4

lemma toNat_nibbles (ch : Jschar) :
    ((ch &&& 0xF00) >>> 8).toNat = ch.toNat / 256 % 16 ∧
      ((ch &&& 0xF0) >>> 4).toNat = ch.toNat / 16 % 16 ∧ (ch &&& 0xF).toNat = ch.toNat % 16 := by
  refine ⟨?_, ?_, ?_⟩
  · rw [UInt16.toNat_shiftRight, UInt16.toNat_and]
    change (ch.toNat &&& 0xF00) >>> 8 = _
    rw [Nat.shiftRight_and_distrib, Nat.shiftRight_eq_div_pow]
    exact Nat.and_two_pow_sub_one_eq_mod _ 4
  · rw [UInt16.toNat_shiftRight, UInt16.toNat_and]
    change (ch.toNat &&& 0xF0) >>> 4 = _
    rw [Nat.shiftRight_and_distrib, Nat.shiftRight_eq_div_pow]
    exact Nat.and_two_pow_sub_one_eq_mod _ 4
  · rw [UInt16.toNat_and]
    exact Nat.and_two_pow_sub_one_eq_mod _ 4

/-- A round over what was written for a code unit gives it back. -/
lemma es5Round_escapeChar (pre rest : List Jschar) (ch : Jschar) :
    Es5Round (pre ++ (escapeChar ch ++ rest)) pre.length ch
      (pre.length + (escapeChar ch).length) := by
  obtain ⟨h12, h4⟩ := toNat_highNibbles ch
  obtain ⟨hn8, hn4, hn0⟩ := toNat_nibbles ch
  have hlt := ch.toNat_lt
  rw [escapeChar]
  by_cases hpass : passesThrough ch = true
  · rw [if_pos hpass]
    refine .plain (by simp) ?_
    rintro rfl
    rw [percent_not_passesThrough] at hpass
    cases hpass
  rw [if_neg hpass]
  by_cases hshort : ch < 256
  · rw [if_pos hshort]
    have hsmall : ch.toNat < 256 := UInt16.lt_iff_toNat_lt.mp hshort
    obtain ⟨hhigh, hletter⟩ := escapeDigit_spec (d := ch >>> 4) (by omega)
    obtain ⟨hlow, -⟩ := escapeDigit_spec (d := ch &&& 0xF) (by omega)
    have hbyte : ByteAt (pre ++ ([37, escapeDigit (ch >>> 4), escapeDigit (ch &&& 0xF)] ++ rest))
        pre.length ((0 * 16 + (ch >>> 4).toNat) * 16 + (ch &&& 0xF).toNat) := by
      refine ⟨by simp, .succ (.succ .zero ?_ hhigh) ?_ hlow⟩ <;> simp [Nat.add_assoc]
    have hround := Es5Round.byte (by simp) ?_ hbyte
    · have hval : UInt16.ofNat ((0 * 16 + (ch >>> 4).toNat) * 16 + (ch &&& 0xF).toNat) = ch := by
        apply UInt16.toNat_inj.mp
        rw [UInt16.toNat_ofNat']
        omega
      rwa [hval] at hround
    · -- a digit stands where the letter of the longer form would
      rintro ⟨v, hu⟩
      have := hu.letter
      simp [hletter] at this
  · rw [if_neg hshort]
    obtain ⟨hd3, -⟩ := escapeDigit_spec (d := ch >>> 12) (by omega)
    obtain ⟨hd2, -⟩ := escapeDigit_spec (d := (ch &&& 0xF00) >>> 8) (by omega)
    obtain ⟨hd1, -⟩ := escapeDigit_spec (d := (ch &&& 0xF0) >>> 4) (by omega)
    obtain ⟨hd0, -⟩ := escapeDigit_spec (d := ch &&& 0xF) (by omega)
    have hunicode : UnicodeAt (pre ++ ([37, 117, escapeDigit (ch >>> 12),
        escapeDigit ((ch &&& 0xF00) >>> 8), escapeDigit ((ch &&& 0xF0) >>> 4),
        escapeDigit (ch &&& 0xF)] ++ rest)) pre.length
        ((((0 * 16 + (ch >>> 12).toNat) * 16 + ((ch &&& 0xF00) >>> 8).toNat) * 16 +
          ((ch &&& 0xF0) >>> 4).toNat) * 16 + (ch &&& 0xF).toNat) := by
      refine ⟨by simp, by simp, .succ (.succ (.succ (.succ .zero ?_ hd3) ?_ hd2) ?_ hd1)
        ?_ hd0⟩ <;> simp [Nat.add_assoc]
    have hround := Es5Round.unicode (by simp) hunicode
    have hval : UInt16.ofNat ((((0 * 16 + (ch >>> 12).toNat) * 16 +
        ((ch &&& 0xF00) >>> 8).toNat) * 16 + ((ch &&& 0xF0) >>> 4).toNat) * 16 +
        (ch &&& 0xF).toNat) = ch := by
      apply UInt16.toNat_inj.mp
      rw [UInt16.toNat_ofNat']
      omega
    rwa [hval] at hround

lemma es5Unescape_strEscape (pre s : List Jschar) :
    Es5Unescape (pre ++ strEscape s) pre.length s := by
  induction s generalizing pre with
  | nil =>
    have := Es5Unescape.done (t := pre)
    rwa [strEscape, flatMap_nil, append_nil]
  | cons ch s ih =>
    have hround := es5Round_escapeChar pre (strEscape s) ch
    have hrest := ih (pre ++ escapeChar ch)
    rw [append_assoc, length_append] at hrest
    exact .round hround hrest

/-! ## escape and unescape -/

/-- `unescape` gives back what was escaped, the first pass of `escape` finds the length that the
second writes, and `unescape` of any string returns, with no read beyond it and no append beyond
what it reserved, what the specification says. -/
theorem escape_unescape_exact (s t : List Jschar) :
    strUnescape (strEscape s) = some s ∧ escapedLength s = (strEscape s).length ∧
      (∃ r, strUnescape t = some r) ∧ ∀ r, strUnescape t = some r ↔ Es5Unescape t 0 r := by
  refine ⟨?_, escapedLength_eq s, ?_, strUnescape_eq_iff t⟩
  · exact (strUnescape_eq_iff _ s).mpr (es5Unescape_strEscape [] s)
  · obtain ⟨r, hr, -⟩ := strUnescape_spec t
    exact ⟨r, hr⟩

end SpiderMonkey.Vm
