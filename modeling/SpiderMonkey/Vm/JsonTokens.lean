import SpiderMonkey.Vm.JsonGrammar

/-! # The tokens of the JSON parser

Every token that is read has the text that the grammar gives it, and a text of the grammar is
read as its token.
-/

namespace SpiderMonkey.Json

open List UInt16 Bool

section

variable {δ : Type}

/-! ## White space -/

lemma isJSONWhitespace_iff (c : Jschar) :
    isJSONWhitespace c = true ↔ c = 9 ∨ c = 10 ∨ c = 13 ∨ c = 32 := by
  simp only [isJSONWhitespace, or_eq_true, decide_eq_true_iff]
  constructor
  · rintro (((h | h) | h) | h)
    · exact .inl h
    · exact .inr (.inr (.inl h))
    · exact .inr (.inl h)
    · exact .inr (.inr (.inr h))
  · rintro (h | h | h | h)
    · exact .inl (.inl (.inl h))
    · exact .inl (.inr h)
    · exact .inl (.inl (.inr h))
    · exact .inr h

lemma Ws.nil : Ws [] := by
  intro c hc
  exact absurd hc not_mem_nil

lemma Ws.append {w w' : List Jschar} (hw : Ws w) (hw' : Ws w') : Ws (w ++ w') := by
  intro c hc
  rcases mem_append.mp hc with hc | hc
  · exact hw c hc
  · exact hw' c hc

/-- The white space that is skipped. -/
lemma ws_takeWhile (rest : List Jschar) : Ws (rest.takeWhile isJSONWhitespace) := by
  intro c hc
  exact (isJSONWhitespace_iff c).mp (mem_takeWhile_imp hc)

lemma split_ws (rest : List Jschar) :
    rest = rest.takeWhile isJSONWhitespace ++ rest.dropWhile isJSONWhitespace :=
  takeWhile_append_dropWhile.symm

lemma dropWhile_ws {w t : List Jschar} (hw : Ws w) (ht : ∀ c ∈ t.head?, isJSONWhitespace c = false) :
    (w ++ t).dropWhile isJSONWhitespace = t := by
  rw [dropWhile_append_of_pos fun c hc => (isJSONWhitespace_iff c).mpr (hw c hc)]
  cases t with
  | nil => rfl
  | cons c t =>
    have hc := ht c rfl
    rw [dropWhile_cons_of_neg (by rw [hc]; exact false_ne_true)]

/-! ## Digits -/

lemma isDec_iff (c : Jschar) : isDec c = true ↔ DecimalDigit c := by
  simp only [isDec, DecimalDigit, and_eq_true, decide_eq_true_iff]

lemma toNat_letter {c lo : Jschar} (hlo : lo ≤ c) (hhi : c.toNat ≤ lo.toNat + 5) :
    (c - lo + 10).toNat = c.toNat - lo.toNat + 10 := by
  rw [UInt16.toNat_add, UInt16.toNat_sub_of_le _ _ hlo]
  simp only [UInt16.reduceToNat]
  exact Nat.mod_eq_of_lt (by omega)

variable {c : Jschar}

lemma unHex_decimal (hlo : 48 ≤ c) (hhi : c ≤ 57) :
    (unHex c).toNat = c.toNat - 48 := by
  rw [unHex, if_pos (by simp [isDec, hlo, hhi]), UInt16.toNat_sub_of_le _ _ hlo]
  rfl

lemma unHex_upper (hlo : 65 ≤ c) (hhi : c ≤ 70) :
    (unHex c).toNat = c.toNat - 65 + 10 := by
  have hlo' := le_iff_toNat_le.mp hlo
  have hhi' := le_iff_toNat_le.mp hhi
  simp only [UInt16.reduceToNat] at hlo' hhi'
  have hdec : ¬isDec c = true := by
    simp only [isDec, and_eq_true, decide_eq_true_iff, le_iff_toNat_le,
      UInt16.reduceToNat]
    omega
  have hlower : ¬97 ≤ c := by
    simp only [le_iff_toNat_le, UInt16.reduceToNat]
    omega
  rw [unHex, if_neg hdec, if_neg hlower, toNat_letter hlo hhi']
  rfl

lemma unHex_lower (hlo : 97 ≤ c) (hhi : c ≤ 102) :
    (unHex c).toNat = c.toNat - 97 + 10 := by
  have hlo' := le_iff_toNat_le.mp hlo
  have hhi' := le_iff_toNat_le.mp hhi
  simp only [UInt16.reduceToNat] at hlo' hhi'
  have hdec : ¬isDec c = true := by
    simp only [isDec, and_eq_true, decide_eq_true_iff, le_iff_toNat_le,
      UInt16.reduceToNat]
    omega
  rw [unHex, if_neg hdec, if_pos hlo, toNat_letter hlo hhi']
  rfl

lemma hexDigit_iff (c : Jschar) (d : Nat) :
    HexDigit c d ↔ isHex c = true ∧ (unHex c).toNat = d := by
  simp only [isHex, isDec, or_eq_true, and_eq_true, decide_eq_true_iff]
  constructor
  · intro h
    cases h with
    | decimal hlo hhi => exact ⟨.inl (.inl ⟨hlo, hhi⟩), unHex_decimal hlo hhi⟩
    | upper hlo hhi => exact ⟨.inl (.inr ⟨hlo, hhi⟩), unHex_upper hlo hhi⟩
    | lower hlo hhi => exact ⟨.inr ⟨hlo, hhi⟩, unHex_lower hlo hhi⟩
  · rintro ⟨(⟨hlo, hhi⟩ | ⟨hlo, hhi⟩) | ⟨hlo, hhi⟩, rfl⟩
    · rw [unHex_decimal hlo hhi]
      exact .decimal hlo hhi
    · rw [unHex_upper hlo hhi]
      exact .upper hlo hhi
    · rw [unHex_lower hlo hhi]
      exact .lower hlo hhi

lemma HexDigit.lt {d : Nat} (h : HexDigit c d) : d < 16 := by
  cases h with
  | decimal hlo hhi =>
    simp only [le_iff_toNat_le, UInt16.reduceToNat] at hlo hhi
    omega
  | upper hlo hhi =>
    simp only [le_iff_toNat_le, UInt16.reduceToNat] at hlo hhi
    omega
  | lower hlo hhi =>
    simp only [le_iff_toNat_le, UInt16.reduceToNat] at hlo hhi
    omega

/-- Four digits with no common bits. -/
lemma or_digits {a b c d : Nat} (hb : b < 16) (hc : c < 16) (hd : d < 16) :
    (a <<< 12 ||| b <<< 8) ||| c <<< 4 ||| d = 4096 * a + 256 * b + 16 * c + d := by
  have h1 : a <<< 12 ||| b <<< 8 = (16 * a + b) <<< 8 := by
    rw [← Nat.shiftLeft_add_eq_or_of_lt (by simp only [Nat.shiftLeft_eq]; omega)]
    simp only [Nat.shiftLeft_eq]
    omega
  have h2 : (16 * a + b) <<< 8 ||| c <<< 4 = (16 * (16 * a + b) + c) <<< 4 := by
    rw [← Nat.shiftLeft_add_eq_or_of_lt (by simp only [Nat.shiftLeft_eq]; omega)]
    simp only [Nat.shiftLeft_eq]
    omega
  rw [h1, h2, ← Nat.shiftLeft_add_eq_or_of_lt (by omega), Nat.shiftLeft_eq]
  omega

lemma unHex4_eq {h1 h2 h3 h4 : Jschar} {d1 d2 d3 d4 : Nat} (hh1 : HexDigit h1 d1)
    (hh2 : HexDigit h2 d2) (hh3 : HexDigit h3 d3) (hh4 : HexDigit h4 d4) :
    unHex4 h1 h2 h3 h4 = UInt16.ofNat (4096 * d1 + 256 * d2 + 16 * d3 + d4) := by
  have hl1 := hh1.lt
  have hl2 := hh2.lt
  have hl3 := hh3.lt
  have hl4 := hh4.lt
  rw [← or_digits hl2 hl3 hl4, ← UInt16.toNat_inj]
  have hor : ((d1 <<< 12 ||| d2 <<< 8) ||| d3 <<< 4 ||| d4) < 2 ^ 16 := by
    rw [or_digits hl2 hl3 hl4]
    omega
  rw [UInt16.toNat_ofNat_of_lt' hor]
  simp only [unHex4, UInt16.toNat_or, UInt16.toNat_shiftLeft, UInt16.reduceToNat,
    ((hexDigit_iff _ _).mp hh1).2, ((hexDigit_iff _ _).mp hh2).2, ((hexDigit_iff _ _).mp hh3).2,
    ((hexDigit_iff _ _).mp hh4).2]
  simp only [Nat.reduceMod, Nat.shiftLeft_eq, Nat.reducePow]
  rw [Nat.mod_eq_of_lt (a := d1 * 4096) (by omega), Nat.mod_eq_of_lt (a := d2 * 256) (by omega),
    Nat.mod_eq_of_lt (a := d3 * 16) (by omega)]

/-! ## Strings -/

lemma isPlain_iff (c : Jschar) :
    isPlain c = true ↔ 0x1F < c ∧ c ≠ quote ∧ c ≠ backslash := by
  simp only [isPlain, not_eq_true', or_eq_false_iff, decide_eq_false_iff_not,
    UInt16.not_le]
  constructor
  · rintro ⟨⟨hquote, hbackslash⟩, hcontrol⟩
    exact ⟨hcontrol, hquote, hbackslash⟩
  · rintro ⟨hcontrol, hquote, hbackslash⟩
    exact ⟨⟨hquote, hbackslash⟩, hcontrol⟩

lemma simpleEscape_iff (e c : Jschar) : simpleEscape e = some c ↔ SimpleEscape e c := by
  constructor
  · intro h
    unfold simpleEscape at h
    split_ifs at h with h1 h2 h3 h4 h5 h6 h7 h8
    · cases h
      rw [h1]
      exact .quote
    · cases h
      rw [h2]
      exact .slash
    · cases h
      rw [h3]
      exact .backslash
    · cases h
      rw [h4]
      exact .backspace
    · cases h
      rw [h5]
      exact .formFeed
    · cases h
      rw [h6]
      exact .lineFeed
    · cases h
      rw [h7]
      exact .carriageReturn
    · cases h
      rw [h8]
      exact .tab
  · intro h
    cases h <;> decide

lemma StringChars.append_plain {p s chars : List Jschar} (hp : p.all isPlain = true)
    (hs : StringChars s chars) : StringChars (p ++ s) (p ++ chars) := by
  induction p with
  | nil => exact hs
  | cons c p ih =>
    rw [all_cons, and_eq_true] at hp
    obtain ⟨hcontrol, hquote, hbackslash⟩ := (isPlain_iff c).mp hp.1
    exact .plain hcontrol hquote hbackslash (ih hp.2)

/-- The rest of a string whose first characters are in the buffer. -/
def slowFrom (atom : Bool) (buffer rest : List Jschar) : Token δ × List Jschar :=
  readEscaped atom (buffer ++ rest.takeWhile isPlain) (rest.dropWhile isPlain)

/-- What is read of a string is up to its closing quote. -/
def ReadsString (atom : Bool) (buffer rest : List Jschar) (token : Token δ)
    (rest' : List Jschar) : Prop :=
  (∃ s chars, StringChars s chars ∧ rest = s ++ quote :: rest' ∧
    token = .string (buffer ++ chars) atom) ∨
  ∃ s msg, rest = s ++ rest' ∧ token = .error msg

variable {token : Token δ} {rest' : List Jschar}

/-- One more piece of the string. -/
lemma ReadsString.prepend {atom : Bool} {buffer b rest : List Jschar}
    (h : ReadsString atom (buffer ++ b) rest token rest') (piece : List Jschar)
    (hpiece : ∀ s chars, StringChars s chars → StringChars (piece ++ s) (b ++ chars)) :
    ReadsString atom buffer (piece ++ rest) token rest' := by
  rcases h with ⟨s, chars, hs, hrest, htoken⟩ | ⟨s, msg, hrest, htoken⟩
  · refine .inl ⟨piece ++ s, b ++ chars, hpiece s chars hs, ?_, ?_⟩
    · rw [hrest, append_assoc]
    · rw [htoken, append_assoc]
  · refine .inr ⟨piece ++ s, msg, ?_, htoken⟩
    rw [hrest, append_assoc]

/-- The characters that stand for themselves. -/
lemma ReadsString.plain {atom : Bool} {buffer rest : List Jschar}
    (h : ReadsString atom (buffer ++ rest.takeWhile isPlain) (rest.dropWhile isPlain) token
      rest') : ReadsString atom buffer rest token rest' := by
  have hp := h.prepend (rest.takeWhile isPlain) fun s chars hs =>
    hs.append_plain all_takeWhile
  rwa [takeWhile_append_dropWhile] at hp

lemma readEscaped_spec (atom : Bool) (buffer rest : List Jschar) :
    ReadsString atom buffer rest (readEscaped (δ := δ) atom buffer rest).1
      (readEscaped (δ := δ) atom buffer rest).2 := by
  fun_induction readEscaped (δ := δ) atom buffer rest with
  | case1 buffer => exact .inr ⟨[], _, rfl, rfl⟩
  | case2 buffer rest => exact .inl ⟨[], [], .nil, rfl, by rw [append_nil]⟩
  | case3 buffer c rest => exact .inr ⟨[c], _, rfl, rfl⟩
  | case4 buffer c => exact .inr ⟨[c], _, rfl, rfl⟩
  | case5 buffer c hquote hbackslash e rest x he ih =>
    rw [Classical.not_not] at hbackslash
    have h := ReadsString.plain ih
    rw [hbackslash]
    exact h.prepend [backslash, e] fun s chars hs =>
      .escape ((simpleEscape_iff e x).mp he) hs
  | case6 buffer c hquote hbackslash h1 h2 h3 h4 rest hhex he ih =>
    rw [Classical.not_not] at hbackslash
    simp only [and_eq_true] at hhex
    obtain ⟨⟨⟨hh1, hh2⟩, hh3⟩, hh4⟩ := hhex
    have h := ReadsString.plain ih
    have hd1 := (hexDigit_iff h1 _).mpr ⟨hh1, rfl⟩
    have hd2 := (hexDigit_iff h2 _).mpr ⟨hh2, rfl⟩
    have hd3 := (hexDigit_iff h3 _).mpr ⟨hh3, rfl⟩
    have hd4 := (hexDigit_iff h4 _).mpr ⟨hh4, rfl⟩
    rw [hbackslash]
    refine h.prepend [backslash, 117, h1, h2, h3, h4] fun s chars hs => ?_
    rw [unHex4_eq hd1 hd2 hd3 hd4]
    exact .unicode hd1 hd2 hd3 hd4 hs
  | case7 buffer c hquote hbackslash h1 h2 h3 h4 rest hhex he =>
    exact .inr ⟨[c, 117, h1, h2, h3, h4], _, rfl, rfl⟩
  | case8 buffer c hquote hbackslash rest he hshort => exact .inr ⟨[c, 117], _, rfl, rfl⟩
  | case9 buffer c hquote hbackslash e rest he hu => exact .inr ⟨[c, e], _, rfl, rfl⟩

variable {rest : List Jschar}

lemma readString_spec {atom : Bool} (h : readString atom rest = some (token, rest')) :
    (∃ s chars, StringText s chars ∧ rest = s ++ rest' ∧ token = .string chars atom) ∨
      ∃ s msg, rest = s ++ rest' ∧ token = .error msg := by
  have hreads : ∀ {after}, rest = quote :: after → ReadsString atom [] after token rest' →
      (∃ s chars, StringText s chars ∧ rest = s ++ rest' ∧ token = .string chars atom) ∨
        ∃ s msg, rest = s ++ rest' ∧ token = .error msg := by
    intro after hrest hreads
    rcases hreads with ⟨s, chars, hs, hafter, htoken⟩ | ⟨s, msg, hafter, htoken⟩
    · exact .inl ⟨_, chars, .mk hs, by simp [hrest, hafter], htoken⟩
    · exact .inr ⟨quote :: s, msg, by simp [hrest, hafter], htoken⟩
  unfold readString at h
  split at h
  · exact absurd h (by simp)
  · rename_i c after
    split_ifs at h with hc
    rw [Classical.not_not] at hc
    subst hc
    apply hreads rfl
    split at h
    · cases h
      exact .inr ⟨[], _, rfl, rfl⟩
    · rename_i d more
      apply ReadsString.plain
      rw [nil_append]
      split at h
      · rename_i hdrop
        cases h
        rw [hdrop]
        exact .inr ⟨[], _, rfl, rfl⟩
      · rename_i e after hdrop
        rw [hdrop]
        split_ifs at h with hquote hbackslash
        · cases h
          rw [hquote]
          exact .inl ⟨[], [], .nil, rfl, by rw [append_nil]⟩
        · have hspec := readEscaped_spec (δ := δ) atom ((d :: more).takeWhile isPlain) (e :: after)
          rwa [Option.some.inj h] at hspec
        · cases h
          exact .inr ⟨[], _, rfl, rfl⟩

lemma slowFrom_plain (atom : Bool) (buffer : List Jschar) (rest : List Jschar)
    (hc : isPlain c = true) :
    slowFrom (δ := δ) atom buffer (c :: rest) = slowFrom atom (buffer ++ [c]) rest := by
  rw [slowFrom, takeWhile_cons_of_pos hc, dropWhile_cons_of_pos hc, slowFrom,
    append_assoc, singleton_append]

lemma readEscaped_quote (atom : Bool) (buffer rest : List Jschar) :
    readEscaped (δ := δ) atom buffer (quote :: rest) = (.string buffer atom, rest) := by
  rw [readEscaped.eq_def]
  rfl

lemma slowFrom_quote (atom : Bool) (buffer rest : List Jschar) :
    slowFrom (δ := δ) atom buffer (quote :: rest) = (.string buffer atom, rest) := by
  have hquote : ¬isPlain quote = true := by decide
  rw [slowFrom, takeWhile_cons_of_neg hquote, dropWhile_cons_of_neg hquote,
    append_nil, readEscaped_quote]

lemma slowFrom_escape (atom : Bool) (buffer : List Jschar) {e c : Jschar} (rest : List Jschar)
    (he : SimpleEscape e c) :
    slowFrom (δ := δ) atom buffer (backslash :: e :: rest) =
      slowFrom atom (buffer ++ [c]) rest := by
  have hbackslash : ¬isPlain backslash = true := by decide
  rw [slowFrom, takeWhile_cons_of_neg hbackslash, dropWhile_cons_of_neg hbackslash,
    append_nil, readEscaped.eq_def]
  simp only
  rw [if_neg (by decide), if_neg (by decide)]
  simp only [(simpleEscape_iff e c).mpr he, slowFrom]

lemma slowFrom_unicode (atom : Bool) (buffer : List Jschar) {h1 h2 h3 h4 : Jschar}
    {d1 d2 d3 d4 : Nat} (rest : List Jschar) (hh1 : HexDigit h1 d1) (hh2 : HexDigit h2 d2)
    (hh3 : HexDigit h3 d3) (hh4 : HexDigit h4 d4) :
    slowFrom (δ := δ) atom buffer (backslash :: 117 :: h1 :: h2 :: h3 :: h4 :: rest) =
      slowFrom atom (buffer ++ [UInt16.ofNat (4096 * d1 + 256 * d2 + 16 * d3 + d4)]) rest := by
  have hbackslash : ¬isPlain backslash = true := by decide
  have hu : simpleEscape 117 = none := by decide
  have hhex : (isHex h1 && isHex h2 && isHex h3 && isHex h4) = true := by
    rw [((hexDigit_iff _ _).mp hh1).1, ((hexDigit_iff _ _).mp hh2).1, ((hexDigit_iff _ _).mp hh3).1,
      ((hexDigit_iff _ _).mp hh4).1]
    rfl
  rw [slowFrom, takeWhile_cons_of_neg hbackslash, dropWhile_cons_of_neg hbackslash,
    append_nil, readEscaped.eq_def]
  simp only
  rw [if_neg (by decide), if_neg (by decide)]
  simp only [hu, hhex, if_true, slowFrom, unHex4_eq hh1 hh2 hh3 hh4]

lemma slowFrom_chars (atom : Bool) {s chars : List Jschar} (hs : StringChars s chars)
    (buffer rest : List Jschar) :
    slowFrom (δ := δ) atom buffer (s ++ quote :: rest) = (.string (buffer ++ chars) atom, rest) := by
  induction hs generalizing buffer with
  | nil => rw [nil_append, slowFrom_quote, append_nil]
  | plain hcontrol hquote hbackslash _ ih =>
    rw [cons_append, slowFrom_plain _ _ _ ((isPlain_iff _).mpr ⟨hcontrol, hquote, hbackslash⟩),
      ih, append_assoc, singleton_append]
  | escape he _ ih =>
    rw [cons_append, cons_append, slowFrom_escape _ _ _ he, ih, append_assoc,
      singleton_append]
  | unicode hh1 hh2 hh3 hh4 _ ih =>
    simp only [cons_append]
    rw [slowFrom_unicode _ _ _ hh1 hh2 hh3 hh4, ih, append_assoc, singleton_append]

/-- A string is read by the fast case or the slow one. -/
lemma readString_of_slowFrom {atom : Bool} {rest chars rest' : List Jschar}
    (h : slowFrom (δ := δ) atom [] rest = (.string chars atom, rest')) :
    readString (δ := δ) atom (quote :: rest) = some (.string chars atom, rest') := by
  cases hr : rest with
  | nil =>
    rw [hr, slowFrom, takeWhile_nil, dropWhile_nil, readEscaped] at h
    exact absurd h (by simp)
  | cons d more =>
    rw [← hr]
    unfold readString
    simp only [ne_eq, not_true_eq_false, if_false]
    rw [hr]
    simp only
    rw [← hr]
    rw [slowFrom, nil_append] at h
    cases hdrop : rest.dropWhile isPlain with
    | nil =>
      rw [hdrop, readEscaped] at h
      exact absurd h (by simp)
    | cons c after =>
      rw [hdrop] at h
      simp only
      by_cases hquote : c = quote
      · rw [hquote, readEscaped_quote] at h
        rw [if_pos hquote, h]
      · rw [if_neg hquote]
        by_cases hbackslash : c = backslash
        · rw [if_pos hbackslash, h]
        · rw [readEscaped.eq_def] at h
          simp only at h
          rw [if_neg hquote, if_pos hbackslash] at h
          exact absurd h (by simp)

lemma readString_text (atom : Bool) {s chars : List Jschar} (hs : StringText s chars)
    (rest : List Jschar) :
    readString (δ := δ) atom (s ++ rest) = some (.string chars atom, rest) := by
  cases hs with
  | mk hs =>
    rw [cons_append, append_assoc, singleton_append]
    exact readString_of_slowFrom (by rw [slowFrom_chars atom hs, nil_append])

/-! ## Numbers -/

lemma upTo_append (s rest : List Jschar) : upTo (s ++ rest) rest = s := by
  rw [upTo, length_append, Nat.add_sub_cancel, take_left]

lemma digits_takeWhile (rest : List Jschar) : ∀ c ∈ rest.takeWhile isDec, DecimalDigit c := by
  intro c hc
  exact (isDec_iff c).mp (mem_takeWhile_imp hc)

lemma dropWhile_digits {ds rest : List Jschar} (hds : ∀ c ∈ ds, DecimalDigit c)
    (hrest : ∀ c ∈ rest.head?, ¬DecimalDigit c) : (ds ++ rest).dropWhile isDec = rest := by
  rw [dropWhile_append_of_pos fun c hc => (isDec_iff c).mpr (hds c hc)]
  cases rest with
  | nil => rfl
  | cons c rest =>
    rw [dropWhile_cons_of_neg]
    rw [isDec_iff]
    exact hrest c rfl

lemma readFraction_spec {rest rest' : List Jschar} (h : readFraction rest = .ok rest') :
    ∃ f, Fraction f ∧ rest = f ++ rest' := by
  unfold readFraction at h
  split at h
  · cases h
    exact ⟨[], .none, rfl⟩
  · rename_i c after
    split_ifs at h with hdot
    · cases h
      exact ⟨[], .none, rfl⟩
    · rw [Classical.not_not] at hdot
      subst hdot
      split at h
      · cases h
      · rename_i d digits
        split_ifs at h with hd
        cases h
        refine ⟨dot :: d :: digits.takeWhile isDec, .digits ((isDec_iff d).mp hd)
          (digits_takeWhile digits), ?_⟩
        simp only [cons_append, takeWhile_append_dropWhile]

lemma readExponent_spec {rest rest' : List Jschar} (h : readExponent rest = .ok rest') :
    ∃ e, Exponent e ∧ rest = e ++ rest' := by
  unfold readExponent at h
  split at h
  · cases h
    exact ⟨[], .none, rfl⟩
  · rename_i c after
    by_cases hc : c ≠ 101 ∧ c ≠ 69
    · rw [if_pos hc] at h
      cases h
      exact ⟨[], .none, rfl⟩
    · rw [if_neg hc] at h
      have he : c = 101 ∨ c = 69 := by
        rcases Classical.em (c = 101) with h101 | h101
        · exact .inl h101
        · exact .inr (Classical.not_not.mp fun h69 => hc ⟨h101, h69⟩)
      cases after with
      | nil => cases h
      | cons s signed =>
        simp only at h
        by_cases hs : s = plus ∨ s = minus
        · rw [if_pos hs] at h
          cases signed with
          | nil => cases h
          | cons d digits =>
            simp only at h
            split_ifs at h with hd
            cases h
            refine ⟨c :: s :: d :: digits.takeWhile isDec, .signed he hs ((isDec_iff d).mp hd)
              (digits_takeWhile digits), ?_⟩
            simp only [cons_append, takeWhile_append_dropWhile]
        · rw [if_neg hs] at h
          simp only at h
          split_ifs at h with hd
          cases h
          refine ⟨c :: s :: signed.takeWhile isDec, .unsigned he ((isDec_iff s).mp hd)
            (digits_takeWhile signed), ?_⟩
          simp only [cons_append, takeWhile_append_dropWhile]

/-- What is left of the text does not go on with the number. -/
def Stops (rest : List Jschar) : Prop :=
  ∀ c ∈ rest.head?, ¬DecimalDigit c ∧ c ≠ dot ∧ c ≠ 101 ∧ c ≠ 69

lemma readFraction_text {f rest : List Jschar} (hf : Fraction f)
    (hrest : ∀ c ∈ rest.head?, ¬DecimalDigit c ∧ c ≠ dot) :
    readFraction (f ++ rest) = .ok rest := by
  cases hf with
  | none =>
    rw [nil_append]
    cases rest with
    | nil => rfl
    | cons c rest =>
      unfold readFraction
      simp only
      rw [if_pos (hrest c rfl).2]
  | digits hd hds =>
    rw [cons_append, cons_append, readFraction, if_neg (by decide)]
    rw [if_pos ((isDec_iff _).mpr hd), dropWhile_digits hds fun c hc => (hrest c hc).1]

lemma not_sign {d : Jschar} (hd : DecimalDigit d) : ¬(d = plus ∨ d = minus) := by
  rintro (rfl | rfl)
  · exact absurd hd (by unfold DecimalDigit; decide)
  · exact absurd hd (by unfold DecimalDigit; decide)

lemma readExponent_text {e rest : List Jschar} (he : Exponent e)
    (hrest : ∀ c ∈ rest.head?, ¬DecimalDigit c ∧ c ≠ 101 ∧ c ≠ 69) :
    readExponent (e ++ rest) = .ok rest := by
  cases he with
  | none =>
    rw [nil_append]
    cases rest with
    | nil => rfl
    | cons c rest =>
      unfold readExponent
      simp only
      rw [if_pos (hrest c rfl).2]
  | unsigned he hd hds =>
    rw [cons_append, cons_append, readExponent, if_neg (by
      rintro ⟨h101, h69⟩
      rcases he with he | he
      · exact h101 he
      · exact h69 he)]
    rw [if_neg (not_sign hd)]
    simp only
    rw [if_pos ((isDec_iff _).mpr hd), dropWhile_digits hds fun c hc => (hrest c hc).1]
  | signed he hs hd hds =>
    rw [cons_append, cons_append, cons_append, readExponent, if_neg (by
      rintro ⟨h101, h69⟩
      rcases he with he | he
      · exact h101 he
      · exact h69 he)]
    rw [if_pos hs]
    simp only
    rw [if_pos ((isDec_iff _).mpr hd), dropWhile_digits hds fun c hc => (hrest c hc).1]

/-- After the fraction comes the exponent, or what stops the number. -/
lemma Exponent.head {e rest : List Jschar} (he : Exponent e) (hrest : Stops rest) :
    ∀ c ∈ (e ++ rest).head?, ¬DecimalDigit c ∧ c ≠ dot := by
  have hindicator : ∀ {c : Jschar}, c = 101 ∨ c = 69 → ¬DecimalDigit c ∧ c ≠ dot := by
    rintro c (rfl | rfl)
    · exact ⟨by unfold DecimalDigit; decide, by decide⟩
    · exact ⟨by unfold DecimalDigit; decide, by decide⟩
  intro c hc
  cases he with
  | none => exact ⟨(hrest c hc).1, (hrest c hc).2.1⟩
  | unsigned he =>
    cases hc
    exact hindicator he
  | signed he =>
    cases hc
    exact hindicator he

/-- After the integer part comes no digit. -/
lemma Fraction.head {f rest : List Jschar} (hf : Fraction f)
    (hrest : ∀ c ∈ rest.head?, ¬DecimalDigit c ∧ c ≠ dot) :
    ∀ c ∈ (f ++ rest).head?, ¬DecimalDigit c := by
  intro c hc
  cases hf with
  | none => exact (hrest c hc).1
  | digits =>
    cases hc
    unfold DecimalDigit
    decide

variable (conv : Conversion δ)

/-- The integer part is what `readNumber` skips first. -/
lemma intPart_skipped {d : Jschar} (after : List Jschar) (hd : DecimalDigit d) :
    ∃ i, IntPart i ∧ d :: after = i ++ if d ≠ zero then after.dropWhile isDec else after := by
  by_cases hzero : d ≠ zero
  · rw [if_pos hzero]
    refine ⟨d :: after.takeWhile isDec, .digits hd hzero (digits_takeWhile after), ?_⟩
    rw [cons_append, takeWhile_append_dropWhile]
  · rw [if_neg hzero]
    rw [Classical.not_not] at hzero
    rw [hzero]
    exact ⟨[zero], .zero, rfl⟩

lemma IntPart.digits_only {i : List Jschar} (hi : IntPart i) :
    i.all isDec = true ∧ i ≠ [] := by
  cases hi with
  | zero => exact ⟨by decide, by decide⟩
  | digits hd _ hds =>
    refine ⟨?_, cons_ne_nil _ _⟩
    rw [all_cons, (isDec_iff _).mpr hd, Bool.true_and, all_eq_true]
    exact fun c hc => (isDec_iff c).mpr (hds c hc)

/-- A number that is an integer. -/
lemma IntPart.unsigned {i : List Jschar} (hi : IntPart i) : Unsigned i :=
  ⟨i, [], [], hi, .none, .none, by rw [append_nil, append_nil]⟩

lemma readUnsigned_spec {negative : Bool} {digitStart : List Jschar}
    (h : readUnsigned conv negative digitStart = (token, rest)) :
    (∃ u, Unsigned u ∧ digitStart = u ++ rest ∧
      token = numberToken conv negative (conv.toDouble u)) ∨
      ∃ s msg, digitStart = s ++ rest ∧ token = .error msg := by
  cases digitStart with
  | nil =>
    cases h
    exact .inr ⟨[], _, rfl, rfl⟩
  | cons d after =>
    unfold readUnsigned at h
    simp only at h
    by_cases hdigit : (!isDec d) = true
    · rw [if_pos hdigit] at h
      cases h
      exact .inr ⟨[], _, rfl, rfl⟩
    · rw [if_neg hdigit] at h
      have hd : DecimalDigit d := by
        rw [not_eq_true', not_eq_false] at hdigit
        exact (isDec_iff d).mp hdigit
      obtain ⟨i, hi, hskip⟩ := intPart_skipped after hd
      revert h hskip
      generalize (if d ≠ zero then after.dropWhile isDec else after) = afterInteger
      intro h hskip
      have hvalue := conv.getPrefixInteger_eq i hi.digits_only.1 hi.digits_only.2
      cases afterInteger with
      | nil =>
        cases h
        rw [append_nil] at hskip
        refine .inl ⟨i, hi.unsigned, ?_, ?_⟩
        · rw [hskip, append_nil]
        · rw [hskip, hvalue]
      | cons c more =>
        simp only at h
        split_ifs at h with hc
        · cases h
          refine .inl ⟨i, hi.unsigned, hskip, ?_⟩
          rw [hskip, upTo_append, hvalue]
        · cases hscan : readFraction (c :: more) >>= readExponent with
          | error msg =>
            rw [hscan] at h
            cases h
            exact .inr ⟨i, msg, hskip, rfl⟩
          | ok rest' =>
            rw [hscan] at h
            cases h
            cases hfraction : readFraction (c :: more) with
            | error msg =>
              rw [hfraction] at hscan
              cases hscan
            | ok afterFraction =>
              rw [hfraction] at hscan
              obtain ⟨f, hf, hfrest⟩ := readFraction_spec hfraction
              obtain ⟨e, he, herest⟩ := readExponent_spec hscan
              have hsplit : d :: after = (i ++ f ++ e) ++ rest := by
                rw [hskip, hfrest, herest, append_assoc, append_assoc]
              refine .inl ⟨i ++ f ++ e, ⟨i, f, e, hi, hf, he, rfl⟩, hsplit, ?_⟩
              rw [hsplit, upTo_append, conv.strtod_eq]

/-- The integer part of a number is all that is skipped of it. -/
lemma skip_intPart {i rest : List Jschar} (hi : IntPart i)
    (hrest : ∀ c ∈ rest.head?, ¬DecimalDigit c) :
    ∃ d after, i ++ rest = d :: after ∧ isDec d = true ∧
      (if d ≠ zero then after.dropWhile isDec else after) = rest := by
  cases hi with
  | zero => exact ⟨zero, rest, rfl, by decide, if_neg (by simp)⟩
  | digits hd hne hds =>
    refine ⟨_, _, cons_append, (isDec_iff _).mpr hd, ?_⟩
    rw [if_pos hne, dropWhile_digits hds hrest]

lemma readUnsigned_text (negative : Bool) {u rest : List Jschar} (hu : Unsigned u)
    (hrest : Stops rest) :
    readUnsigned conv negative (u ++ rest) =
      (numberToken conv negative (conv.toDouble u), rest) := by
  obtain ⟨i, f, e, hi, hf, he, rfl⟩ := hu
  have hhead := hf.head (he.head hrest)
  have hvalue := conv.getPrefixInteger_eq i hi.digits_only.1 hi.digits_only.2
  have hstart : i ++ f ++ e ++ rest = i ++ (f ++ (e ++ rest)) := by
    rw [append_assoc, append_assoc]
  obtain ⟨d, after, hcons, hd, hskip⟩ := skip_intPart hi hhead
  have hscan : readFraction (f ++ (e ++ rest)) >>= readExponent = .ok rest := by
    rw [readFraction_text hf (he.head hrest)]
    exact readExponent_text he fun c hc => ⟨(hrest c hc).1, (hrest c hc).2.2⟩
  rw [hstart, hcons, readUnsigned, hd]
  simp only [Bool.not_true, Bool.false_eq_true, if_false]
  rw [hskip, ← hcons]
  cases hafter : f ++ (e ++ rest) with
  | nil =>
    obtain ⟨rfl, herest⟩ := append_eq_nil_iff.mp hafter
    obtain ⟨rfl, rfl⟩ := append_eq_nil_iff.mp herest
    simp only [append_nil, hvalue]
  | cons c more =>
    rw [hafter] at hscan
    simp only
    by_cases hc : c ≠ dot ∧ c ≠ 101 ∧ c ≠ 69
    · rw [if_pos hc]
      -- the number has neither fraction nor exponent
      have hf' : f = [] := by
        cases hf with
        | none => rfl
        | digits =>
          cases hafter
          exact absurd rfl hc.1
      have he' : e = [] := by
        rw [hf', nil_append] at hafter
        cases he with
        | none => rfl
        | unsigned he =>
          cases hafter
          rcases he with he | he
          · exact absurd he hc.2.1
          · exact absurd he hc.2.2
        | signed he =>
          cases hafter
          rcases he with he | he
          · exact absurd he hc.2.1
          · exact absurd he hc.2.2
      rw [hf', he', nil_append, nil_append] at hafter
      rw [hf', he', hafter, upTo_append, hvalue, append_nil, append_nil]
    · rw [if_neg hc, hscan]
      simp only
      rw [← hafter, ← hstart, upTo_append, conv.strtod_eq]

lemma readNumber_spec (h : readNumber conv rest = some (token, rest')) :
    (∃ s d, NumberText conv s d ∧ rest = s ++ rest' ∧ token = .number d) ∨
      ∃ s msg, rest = s ++ rest' ∧ token = .error msg := by
  cases rest with
  | nil => cases h
  | cons c after =>
    unfold readNumber at h
    simp only at h
    by_cases hstart : (!(isDec c || c = minus)) = true
    · rw [if_pos hstart] at h
      cases h
    · rw [if_neg hstart] at h
      by_cases hminus : c = minus
      · rw [if_pos hminus] at h
        rcases readUnsigned_spec conv (Option.some.inj h) with
          ⟨u, hu, hrest, htoken⟩ | ⟨s, msg, hrest, htoken⟩
        · exact .inl ⟨minus :: u, _, .negative hu, by rw [hminus, hrest, cons_append], htoken⟩
        · exact .inr ⟨c :: s, msg, by rw [hrest, cons_append], htoken⟩
      · rw [if_neg hminus] at h
        rcases readUnsigned_spec conv (Option.some.inj h) with
          ⟨u, hu, hrest, htoken⟩ | ⟨s, msg, hrest, htoken⟩
        · exact .inl ⟨u, _, .unsigned hu, hrest, htoken⟩
        · exact .inr ⟨s, msg, hrest, htoken⟩

lemma readNumber_some (after : List Jschar) (hc : c = minus ∨ isDec c = true) :
    ∃ token rest', readNumber conv (c :: after) = some (token, rest') := by
  have hstart : ¬(!(isDec c || c = minus)) = true := by
    rcases hc with rfl | hc
    · decide
    · simp [hc]
  unfold readNumber
  simp only
  rw [if_neg hstart]
  by_cases hminus : c = minus
  · rw [if_pos hminus]
    exact ⟨_, _, rfl⟩
  · rw [if_neg hminus]
    exact ⟨_, _, rfl⟩

/-- A number without a sign starts with a digit. -/
lemma Unsigned.head {u : List Jschar} (hu : Unsigned u) : ∃ d after, u = d :: after ∧ isDec d = true := by
  obtain ⟨i, f, e, hi, _, _, rfl⟩ := hu
  cases hi with
  | zero => exact ⟨_, _, rfl, by decide⟩
  | digits hd => exact ⟨_, _, rfl, (isDec_iff _).mpr hd⟩

lemma readNumber_text {s : List Jschar} {d : δ} (hs : NumberText conv s d) (hrest : Stops rest) :
    readNumber conv (s ++ rest) = some (.number d, rest) := by
  cases hs with
  | unsigned hu =>
    have hread := readUnsigned_text conv false hu hrest
    obtain ⟨c, after, rfl, hc⟩ := hu.head
    have hminus : c ≠ minus := by
      rintro rfl
      exact absurd hc (by decide)
    rw [cons_append] at hread ⊢
    unfold readNumber
    simp only
    rw [if_neg (by simp [hc]), if_neg hminus, hread]
    rfl
  | negative hu =>
    have hread := readUnsigned_text conv true hu hrest
    rw [cons_append]
    unfold readNumber
    simp only
    rw [if_neg (by decide), if_pos trivial, hread]
    rfl

/-- A number starts with a digit or a minus sign. -/
lemma NumberText.head {s : List Jschar} {d : δ} (hs : NumberText conv s d) :
    ∃ c after, s = c :: after ∧ (c = minus ∨ isDec c = true) := by
  cases hs with
  | unsigned hu =>
    obtain ⟨c, after, rfl, hc⟩ := hu.head
    exact ⟨c, after, rfl, .inr hc⟩
  | negative hu => exact ⟨minus, _, rfl, .inl rfl⟩

/-! ## Tokens -/

/-- The text of a token; an error may have any. -/
inductive TokenText : Token δ → List Jschar → Prop
  | string {s chars} (atom : Bool) (hs : StringText s chars) : TokenText (.string chars atom) s
  | number {s d} (hs : NumberText conv s d) : TokenText (.number d) s
  | true : TokenText .true (asciiChars "true")
  | false : TokenText .false (asciiChars "false")
  | null : TokenText .null (asciiChars "null")
  | arrayOpen : TokenText .arrayOpen [openBracket]
  | arrayClose : TokenText .arrayClose [closeBracket]
  | objectOpen : TokenText .objectOpen [openBrace]
  | objectClose : TokenText .objectClose [closeBrace]
  | colon : TokenText .colon [Json.colon]
  | comma : TokenText .comma [Json.comma]
  | error (msg : String) (s : List Jschar) : TokenText (.error msg) s

/-- A token is read after white space. -/
def Lexes (rest : List Jschar) (token : Token δ) (rest' : List Jschar) : Prop :=
  ∃ w s, Ws w ∧ TokenText conv token s ∧ rest = w ++ s ++ rest'

variable {conv}

lemma TokenText.lexes {rest s rest' : List Jschar} (hs : TokenText conv token s)
    (hrest : rest.dropWhile isJSONWhitespace = s ++ rest') : Lexes conv rest token rest' := by
  refine ⟨rest.takeWhile isJSONWhitespace, s, ws_takeWhile rest, hs, ?_⟩
  rw [append_assoc, ← hrest]
  exact split_ws rest

lemma readString_lexes (atom : Bool) {rest after : List Jschar}
    (hrest : rest.dropWhile isJSONWhitespace = quote :: after) :
    ∃ token rest', readString (δ := δ) atom (quote :: after) = some (token, rest') ∧
      Lexes conv rest token rest' ∧
      ((∃ chars, token = .string chars atom) ∨ ∃ msg, token = .error msg) := by
  have hsome : ∃ r, readString (δ := δ) atom (quote :: after) = some r := by
    unfold readString
    simp only [ne_eq, not_true_eq_false, if_false]
    split
    · exact ⟨_, rfl⟩
    · split
      · exact ⟨_, rfl⟩
      · split_ifs
        · exact ⟨_, rfl⟩
        · exact ⟨_, rfl⟩
        · exact ⟨_, rfl⟩
  obtain ⟨⟨token, rest'⟩, hread⟩ := hsome
  refine ⟨token, rest', hread, ?_⟩
  rcases readString_spec hread with ⟨s, chars, hs, hsplit, rfl⟩ | ⟨s, msg, hsplit, rfl⟩
  · exact ⟨(TokenText.string atom hs).lexes (hrest.trans hsplit), .inl ⟨chars, rfl⟩⟩
  · exact ⟨(TokenText.error msg s).lexes (hrest.trans hsplit), .inr ⟨msg, rfl⟩⟩

lemma readNumber_lexes {rest after : List Jschar}
    (hrest : rest.dropWhile isJSONWhitespace = c :: after) (hc : c = minus ∨ isDec c = true) :
    ∃ token rest', readNumber conv (c :: after) = some (token, rest') ∧
      Lexes conv rest token rest' := by
  obtain ⟨token, rest', hread⟩ := readNumber_some conv after hc
  refine ⟨token, rest', hread, ?_⟩
  rcases readNumber_spec conv hread with ⟨s, d, hs, hsplit, rfl⟩ | ⟨s, msg, hsplit, rfl⟩
  · exact (TokenText.number hs).lexes (hrest.trans hsplit)
  · exact (TokenText.error msg s).lexes (hrest.trans hsplit)

lemma readKeyword_lexes {keyword : String} {rest after : List Jschar}
    (hrest : rest.dropWhile isJSONWhitespace = after)
    (htoken : TokenText conv token (asciiChars keyword)) :
    Lexes conv rest (readKeyword keyword token after).1 (readKeyword keyword token after).2 := by
  unfold readKeyword
  by_cases hkeyword : (asciiChars keyword).isPrefixOf after = true
  · rw [if_pos hkeyword]
    obtain ⟨rest', rfl⟩ := isPrefixOf_iff_prefix.mp hkeyword
    refine htoken.lexes ?_
    rw [hrest, drop_left]
  · rw [if_neg hkeyword]
    exact (TokenText.error _ []).lexes hrest

variable (conv)

lemma advance_spec (rest : List Jschar) :
    ∃ token rest', advance conv rest = some (token, rest') ∧ Lexes conv rest token rest' := by
  unfold advance
  cases hrest : rest.dropWhile isJSONWhitespace with
  | nil => exact ⟨_, _, rfl, (TokenText.error _ []).lexes hrest⟩
  | cons c after =>
    simp only
    by_cases h1 : c = quote
    · rw [if_pos h1]
      subst h1
      obtain ⟨token, rest', hread, hlexes, _⟩ := readString_lexes false hrest
      exact ⟨token, rest', hread, hlexes⟩
    rw [if_neg h1]
    by_cases h2 : (decide (c = minus) || isDec c) = true
    · rw [if_pos h2]
      rw [or_eq_true, decide_eq_true_iff] at h2
      exact readNumber_lexes hrest h2
    rw [if_neg h2]
    by_cases h3 : c = 116
    · rw [if_pos h3]
      exact ⟨_, _, rfl, readKeyword_lexes hrest .true⟩
    rw [if_neg h3]
    by_cases h4 : c = 102
    · rw [if_pos h4]
      exact ⟨_, _, rfl, readKeyword_lexes hrest .false⟩
    rw [if_neg h4]
    by_cases h5 : c = 110
    · rw [if_pos h5]
      exact ⟨_, _, rfl, readKeyword_lexes hrest .null⟩
    rw [if_neg h5]
    by_cases h6 : c = openBracket
    · rw [if_pos h6]
      exact ⟨_, _, rfl, TokenText.arrayOpen.lexes (by rw [hrest, h6]; rfl)⟩
    rw [if_neg h6]
    by_cases h7 : c = closeBracket
    · rw [if_pos h7]
      exact ⟨_, _, rfl, TokenText.arrayClose.lexes (by rw [hrest, h7]; rfl)⟩
    rw [if_neg h7]
    by_cases h8 : c = openBrace
    · rw [if_pos h8]
      exact ⟨_, _, rfl, TokenText.objectOpen.lexes (by rw [hrest, h8]; rfl)⟩
    rw [if_neg h8]
    by_cases h9 : c = closeBrace
    · rw [if_pos h9]
      exact ⟨_, _, rfl, TokenText.objectClose.lexes (by rw [hrest, h9]; rfl)⟩
    rw [if_neg h9]
    by_cases h10 : c = Json.comma
    · rw [if_pos h10]
      exact ⟨_, _, rfl, TokenText.comma.lexes (by rw [hrest, h10]; rfl)⟩
    rw [if_neg h10]
    by_cases h11 : c = Json.colon
    · rw [if_pos h11]
      exact ⟨_, _, rfl, TokenText.colon.lexes (by rw [hrest, h11]; rfl)⟩
    rw [if_neg h11]
    exact ⟨_, _, rfl, (TokenText.error _ []).lexes hrest⟩

variable {before : List Jschar}

variable {conv} in
/-- The functions for what may come in one place differ in what is before it and in the tokens. -/
lemma lexes_ahead {past : Bool} (hpast : past = true) {rest : List Jschar} {msg : String}
    {next : Jschar → List Jschar → Read δ} {Expected : Token δ → Prop}
    (herror : ∀ msg, Expected (.error msg))
    (hnext : ∀ c after, rest.dropWhile isJSONWhitespace = c :: after → ∃ token rest',
      next c after = some (token, rest') ∧ Lexes conv rest token rest' ∧ Expected token) :
    ∃ token rest', (if !past then none else
        match rest.dropWhile isJSONWhitespace with
        | [] => some (.error msg, [])
        | c :: after => next c after) = some (token, rest') ∧
      Lexes conv rest token rest' ∧ Expected token := by
  subst hpast
  simp only [Bool.not_true, Bool.false_eq_true, if_false]
  cases hrest : rest.dropWhile isJSONWhitespace with
  | nil => exact ⟨_, _, rfl, (TokenText.error _ []).lexes hrest, herror _⟩
  | cons c after => exact hnext c after hrest

/-- After an opening brace comes a property name or the closing brace. -/
lemma advanceAfterObjectOpen_spec (rest : List Jschar)
    (hbefore : before1 before openBrace = true) :
    ∃ token rest', advanceAfterObjectOpen before rest = some (token, rest') ∧
      Lexes conv rest token rest' ∧
      (token = .objectClose ∨ (∃ chars, token = .string chars true) ∨ ∃ msg, token = .error msg) := by
  refine lexes_ahead hbefore (fun _ => .inr (.inr ⟨_, rfl⟩)) fun c after hrest => ?_
  split_ifs with h1 h2
  · subst h1
    obtain ⟨token, rest', hread, hlexes, htoken⟩ := readString_lexes true hrest
    exact ⟨token, rest', hread, hlexes, .inr htoken⟩
  · exact ⟨_, _, rfl, TokenText.objectClose.lexes (by rw [hrest, h2]; rfl), .inl rfl⟩
  · exact ⟨_, _, rfl, (TokenText.error _ []).lexes hrest, .inr (.inr ⟨_, rfl⟩)⟩

/-- After an element comes a comma or the closing bracket. -/
lemma advanceAfterArrayElement_spec (rest : List Jschar) (hbefore : pastValue before = true) :
    ∃ token rest', advanceAfterArrayElement before rest = some (token, rest') ∧
      Lexes conv rest token rest' ∧
      (token = .comma ∨ token = .arrayClose ∨ ∃ msg, token = .error msg) := by
  refine lexes_ahead hbefore (fun _ => .inr (.inr ⟨_, rfl⟩)) fun c after hrest => ?_
  split_ifs with h1 h2
  · exact ⟨_, _, rfl, TokenText.comma.lexes (by rw [hrest, h1]; rfl), .inl rfl⟩
  · exact ⟨_, _, rfl, TokenText.arrayClose.lexes (by rw [hrest, h2]; rfl), .inr (.inl rfl)⟩
  · exact ⟨_, _, rfl, (TokenText.error _ []).lexes hrest, .inr (.inr ⟨_, rfl⟩)⟩

/-- After a comma in an object comes a property name or, in legacy mode, the closing brace. -/
lemma advancePropertyName_spec (legacy : Bool) (rest : List Jschar)
    (hbefore : before1 before comma = true) :
    ∃ token rest', advancePropertyName legacy before rest = some (token, rest') ∧
      Lexes conv rest token rest' ∧
      ((token = .objectClose ∧ legacy = true) ∨ (∃ chars, token = .string chars true) ∨
        ∃ msg, token = .error msg) := by
  refine lexes_ahead hbefore (fun _ => .inr (.inr ⟨_, rfl⟩)) fun c after hrest => ?_
  split_ifs with h1 h2
  · subst h1
    obtain ⟨token, rest', hread, hlexes, htoken⟩ := readString_lexes true hrest
    exact ⟨token, rest', hread, hlexes, .inr htoken⟩
  · rw [and_eq_true, decide_eq_true_iff] at h2
    exact ⟨_, _, rfl, TokenText.objectClose.lexes (by rw [hrest, h2.2]; rfl), .inl ⟨rfl, h2.1⟩⟩
  · exact ⟨_, _, rfl, (TokenText.error _ []).lexes hrest, .inr (.inr ⟨_, rfl⟩)⟩

/-- After a property name comes a colon. -/
lemma advancePropertyColon_spec (rest : List Jschar) (hbefore : before1 before quote = true) :
    ∃ token rest', advancePropertyColon before rest = some (token, rest') ∧
      Lexes conv rest token rest' ∧ (token = .colon ∨ ∃ msg, token = .error msg) := by
  refine lexes_ahead hbefore (fun _ => .inr ⟨_, rfl⟩) fun c after hrest => ?_
  split_ifs with h1
  · exact ⟨_, _, rfl, TokenText.colon.lexes (by rw [hrest, h1]; rfl), .inl rfl⟩
  · exact ⟨_, _, rfl, (TokenText.error _ []).lexes hrest, .inr ⟨_, rfl⟩⟩

/-- After a property comes a comma or the closing brace. -/
lemma advanceAfterProperty_spec (rest : List Jschar) (hbefore : pastValue before = true) :
    ∃ token rest', advanceAfterProperty before rest = some (token, rest') ∧
      Lexes conv rest token rest' ∧
      (token = .comma ∨ token = .objectClose ∨ ∃ msg, token = .error msg) := by
  refine lexes_ahead hbefore (fun _ => .inr (.inr ⟨_, rfl⟩)) fun c after hrest => ?_
  split_ifs with h1 h2
  · exact ⟨_, _, rfl, TokenText.comma.lexes (by rw [hrest, h1]; rfl), .inl rfl⟩
  · exact ⟨_, _, rfl, TokenText.objectClose.lexes (by rw [hrest, h2]; rfl), .inr (.inl rfl)⟩
  · exact ⟨_, _, rfl, (TokenText.error _ []).lexes hrest, .inr (.inr ⟨_, rfl⟩)⟩

/-! ## Reading a given text -/

variable {conv}

lemma dropWhile_ws_cons {w after : List Jschar} (hw : Ws w) (hc : isJSONWhitespace c = false) :
    (w ++ c :: after).dropWhile isJSONWhitespace = c :: after := by
  apply dropWhile_ws hw
  intro c' hc'
  cases hc'
  exact hc

lemma StringText.head {s chars : List Jschar} (hs : StringText s chars) :
    ∃ after, s = quote :: after := by
  cases hs with
  | mk => exact ⟨_, rfl⟩

lemma readKeyword_text (keyword : String) (token : Token δ) (rest : List Jschar) :
    readKeyword keyword token (asciiChars keyword ++ rest) = (token, rest) := by
  rw [readKeyword, if_pos ( isPrefixOf_iff_prefix.mpr (prefix_append _ _)),
    drop_left]

lemma advance_string {w s chars rest : List Jschar} (hw : Ws w) (hs : StringText s chars) :
    advance conv (w ++ s ++ rest) = some (.string chars false, rest) := by
  have hread := readString_text (δ := δ) false hs rest
  obtain ⟨after, rfl⟩ := hs.head
  rw [append_assoc, advance, cons_append, dropWhile_ws_cons hw (by decide)]
  exact hread

lemma advance_number {w s rest : List Jschar} {d : δ} (hw : Ws w) (hs : NumberText conv s d)
    (hrest : Stops rest) : advance conv (w ++ s ++ rest) = some (.number d, rest) := by
  have hread := readNumber_text conv hs hrest
  obtain ⟨c, after, rfl, hc⟩ := hs.head
  have hwhite : isJSONWhitespace c = false ∧ c ≠ quote := by
    rcases hc with rfl | hc
    · exact ⟨by decide, by decide⟩
    · constructor
      · rw [eq_false_iff]
        intro hwhite
        rcases (isJSONWhitespace_iff c).mp hwhite with rfl | rfl | rfl | rfl <;>
          exact absurd hc (by decide)
      · rintro rfl
        exact absurd hc (by decide)
  rw [append_assoc, advance, cons_append, dropWhile_ws_cons hw hwhite.1]
  simp only
  rw [if_neg hwhite.2, if_pos (by rw [or_eq_true, decide_eq_true_iff]; exact hc)]
  exact hread

variable {w : List Jschar}

lemma advance_true (rest : List Jschar) (hw : Ws w) :
    advance conv (w ++ asciiChars "true" ++ rest) = some (.true, rest) := by
  have hread := readKeyword_text "true" (.true : Token δ) rest
  have hcons : asciiChars "true" ++ rest = 116 :: 114 :: 117 :: 101 :: rest := rfl
  rw [hcons] at hread
  rw [append_assoc, hcons, advance, dropWhile_ws_cons hw (by decide)]
  exact congrArg some hread

lemma advance_false (rest : List Jschar) (hw : Ws w) :
    advance conv (w ++ asciiChars "false" ++ rest) = some (.false, rest) := by
  have hread := readKeyword_text "false" (.false : Token δ) rest
  have hcons : asciiChars "false" ++ rest = 102 :: 97 :: 108 :: 115 :: 101 :: rest := rfl
  rw [hcons] at hread
  rw [append_assoc, hcons, advance, dropWhile_ws_cons hw (by decide)]
  exact congrArg some hread

lemma advance_null (rest : List Jschar) (hw : Ws w) :
    advance conv (w ++ asciiChars "null" ++ rest) = some (.null, rest) := by
  have hread := readKeyword_text "null" (.null : Token δ) rest
  have hcons : asciiChars "null" ++ rest = 110 :: 117 :: 108 :: 108 :: rest := rfl
  rw [hcons] at hread
  rw [append_assoc, hcons, advance, dropWhile_ws_cons hw (by decide)]
  exact congrArg some hread

lemma advance_arrayOpen (rest : List Jschar) (hw : Ws w) :
    advance conv (w ++ openBracket :: rest) = some (.arrayOpen, rest) := by
  rw [advance, dropWhile_ws_cons hw (by decide)]
  rfl

lemma advance_arrayClose (rest : List Jschar) (hw : Ws w) :
    advance conv (w ++ closeBracket :: rest) = some (.arrayClose, rest) := by
  rw [advance, dropWhile_ws_cons hw (by decide)]
  rfl

lemma advance_objectOpen (rest : List Jschar) (hw : Ws w) :
    advance conv (w ++ openBrace :: rest) = some (.objectOpen, rest) := by
  rw [advance, dropWhile_ws_cons hw (by decide)]
  rfl

lemma advanceAfterObjectOpen_name (before : List Jschar) {w s chars rest : List Jschar}
    (hw : Ws w) (hs : StringText s chars) :
    advanceAfterObjectOpen (δ := δ) (openBrace :: before) (w ++ s ++ rest) =
      some (.string chars true, rest) := by
  have hread := readString_text (δ := δ) true hs rest
  obtain ⟨after, rfl⟩ := hs.head
  rw [append_assoc, advanceAfterObjectOpen, cons_append,
    dropWhile_ws_cons hw (by decide)]
  exact hread

lemma advanceAfterObjectOpen_close (before : List Jschar) (hw : Ws w) (rest : List Jschar) :
    advanceAfterObjectOpen (δ := δ) (openBrace :: before) (w ++ closeBrace :: rest) =
      some (.objectClose, rest) := by
  rw [advanceAfterObjectOpen, dropWhile_ws_cons hw (by decide)]
  rfl

lemma advanceAfterArrayElement_comma (hbefore : pastValue before = true) (hw : Ws w)
    (rest : List Jschar) :
    advanceAfterArrayElement (δ := δ) before (w ++ comma :: rest) = some (.comma, rest) := by
  rw [advanceAfterArrayElement, hbefore, dropWhile_ws_cons hw (by decide)]
  rfl

lemma advanceAfterArrayElement_close (hbefore : pastValue before = true) (hw : Ws w)
    (rest : List Jschar) :
    advanceAfterArrayElement (δ := δ) before (w ++ closeBracket :: rest) =
      some (.arrayClose, rest) := by
  rw [advanceAfterArrayElement, hbefore, dropWhile_ws_cons hw (by decide)]
  rfl

lemma advancePropertyName_name (legacy : Bool) (before : List Jschar)
    {w s chars rest : List Jschar} (hw : Ws w) (hs : StringText s chars) :
    advancePropertyName (δ := δ) legacy (comma :: before) (w ++ s ++ rest) =
      some (.string chars true, rest) := by
  have hread := readString_text (δ := δ) true hs rest
  obtain ⟨after, rfl⟩ := hs.head
  rw [append_assoc, advancePropertyName, cons_append, dropWhile_ws_cons hw (by decide)]
  exact hread

lemma advancePropertyName_close (before : List Jschar) (hw : Ws w) (rest : List Jschar) :
    advancePropertyName (δ := δ) true (comma :: before) (w ++ closeBrace :: rest) =
      some (.objectClose, rest) := by
  rw [advancePropertyName, dropWhile_ws_cons hw (by decide)]
  rfl

lemma advancePropertyColon_colon (before : List Jschar) (hw : Ws w) (rest : List Jschar) :
    advancePropertyColon (δ := δ) (quote :: before) (w ++ colon :: rest) =
      some (.colon, rest) := by
  rw [advancePropertyColon, dropWhile_ws_cons hw (by decide)]
  rfl

lemma advanceAfterProperty_comma (hbefore : pastValue before = true) (hw : Ws w)
    (rest : List Jschar) :
    advanceAfterProperty (δ := δ) before (w ++ comma :: rest) = some (.comma, rest) := by
  rw [advanceAfterProperty, hbefore, dropWhile_ws_cons hw (by decide)]
  rfl

lemma advanceAfterProperty_close (hbefore : pastValue before = true) (hw : Ws w)
    (rest : List Jschar) :
    advanceAfterProperty (δ := δ) before (w ++ closeBrace :: rest) =
      some (.objectClose, rest) := by
  rw [advanceAfterProperty, hbefore, dropWhile_ws_cons hw (by decide)]
  rfl

/-! ## The end of a value -/

/-- A number ends with a digit. -/
lemma Unsigned.digits_last {u : List Jschar} (hu : Unsigned u) :
    ∃ start d ds, u = start ++ d :: ds ∧ DecimalDigit d ∧ ∀ c ∈ ds, DecimalDigit c := by
  obtain ⟨i, f, e, hi, hf, he, rfl⟩ := hu
  cases he with
  | @unsigned e _ _ _ hd hds => exact ⟨i ++ f ++ [e], _, _, by simp, hd, hds⟩
  | @signed e s _ _ _ _ hd hds => exact ⟨i ++ f ++ [e, s], _, _, by simp, hd, hds⟩
  | none =>
    rw [append_nil]
    cases hf with
    | digits hd hds => exact ⟨i ++ [dot], _, _, by simp, hd, hds⟩
    | none =>
      rw [append_nil]
      cases hi with
      | zero => exact ⟨[], _, [], rfl, by unfold DecimalDigit; decide, by simp⟩
      | digits hd _ hds => exact ⟨[], _, _, rfl, hd, hds⟩

lemma pastValue_digits {start ds before : List Jschar} {d : Jschar} (hd : DecimalDigit d)
    (hds : ∀ c ∈ ds, DecimalDigit c) :
    pastValue ((start ++ d :: ds).reverse ++ before) = true := by
  have hhead : ∃ c more, (start ++ d :: ds).reverse ++ before = c :: more ∧ isDec c = true := by
    rw [reverse_append, reverse_cons]
    cases hrev : ds.reverse with
    | nil => exact ⟨d, _, rfl, (isDec_iff d).mpr hd⟩
    | cons c more =>
      refine ⟨c, _, rfl, (isDec_iff c).mpr (hds c ?_)⟩
      rw [← mem_reverse, hrev]
      exact mem_cons_self
  obtain ⟨c, more, heq, hc⟩ := hhead
  rw [heq, pastValue]
  simp only [hc, Bool.or_true]

lemma pastValue_head (hc : c = closeBrace ∨ c = closeBracket ∨ c = quote) :
    pastValue (c :: before) = true := by
  rcases hc with rfl | rfl | rfl
  · simp [pastValue, before1]
  · simp [pastValue, before1]
  · simp [pastValue, before1]

/-- The assertion of `AssertPastValue` holds after a value. -/
lemma pastValue_of_text {legacy : Bool} {s : List Jschar} {v : JsonValue δ}
    (hs : ValueText conv legacy s v) (before : List Jschar) :
    pastValue (s.reverse ++ before) = true := by
  cases hs with
  | null => simp [pastValue, asciiChars]
  | true => simp [pastValue, asciiChars]
  | false => simp [pastValue, asciiChars]
  | string hs =>
    cases hs with
    | mk =>
      rw [← cons_append, reverse_append]
      exact pastValue_head (.inr (.inr rfl))
  | number hs =>
    cases hs with
    | unsigned hu =>
      obtain ⟨start, d, ds, rfl, hd, hds⟩ := hu.digits_last
      exact pastValue_digits hd hds
    | negative hu =>
      obtain ⟨start, d, ds, rfl, hd, hds⟩ := hu.digits_last
      rw [← cons_append]
      exact pastValue_digits hd hds
  | emptyArray =>
    rw [← cons_append, reverse_append]
    exact pastValue_head (.inr (.inl rfl))
  | array =>
    rw [← cons_append, reverse_append]
    exact pastValue_head (.inr (.inl rfl))
  | arrayComma =>
    rw [← cons_append, ← cons_append, ← append_assoc, reverse_append]
    exact pastValue_head (.inr (.inl rfl))
  | emptyObject =>
    rw [← cons_append, reverse_append]
    exact pastValue_head (.inl rfl)
  | object =>
    rw [← cons_append, reverse_append]
    exact pastValue_head (.inl rfl)
  | objectComma =>
    rw [← cons_append, ← cons_append, ← append_assoc, reverse_append]
    exact pastValue_head (.inl rfl)

end

end SpiderMonkey.Json
