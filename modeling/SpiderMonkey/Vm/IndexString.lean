import SpiderMonkey.Vm.Chars

/-! # Strings that are indices

`JSFlatString::isIndexSlow` (`vm/String.cpp`) and `StringIsArrayIndex` (`jsarray.cpp`). A read that
is not of the string, or of its terminating zero, has no result.
-/

namespace SpiderMonkey.Vm

open List

/-- `charsZ`: the code units with the terminating zero. -/
def charsZ (s : List Jschar) : List Jschar := s ++ [0]

/-- The `while` loop of `isIndexSlow`; `cp` is what is left to read. -/
def indexLoop (index oldIndex c : UInt32) :
    (cp : List Jschar) → Option (UInt32 × UInt32 × UInt32 × List Jschar)
  | [] => none
  | ch :: cp =>
    if isDec ch then indexLoop (10 * index + unDec ch) index (unDec ch) cp
    else some (index, oldIndex, c, ch :: cp)

/-- `isIndexSlow`, which returns false, or true with the index. -/
def isIndexSlow (str : List Jschar) : Option (Option UInt32) :=
  match charsZ str with
  | [] => none
  | ch :: cp =>
    if !isDec ch then some none
    else if uint32CharBufferLength < str.length then some none
    else
      let index := unDec ch
      match if index ≠ 0 then indexLoop index 0 0 cp else some (index, 0, 0, cp) with
      | none => none
      | some (index, oldIndex, c, cp) =>
        -- `end` is where the terminating zero alone is left
        if cp.length ≠ 1 then some none
        else if oldIndex < 4294967295 / 10 ∨ oldIndex = 4294967295 / 10 ∧ c ≤ 4294967295 % 10 then
          some (some index)
        else some none

/-- `MAX_ARRAY_INDEX` -/
abbrev maxArrayIndex32 : UInt32 := 4294967294

/-- The loop of `StringIsArrayIndex`, with so many units to go; `none` inside is the `return false`
at what is no digit. -/
def arrayIndexLoop (str : List Jschar) :
    Nat → Nat → UInt32 → UInt32 → UInt32 → Option (Option (UInt32 × UInt32 × UInt32))
  | 0, _, index, previous, c => some (some (index, previous, c))
  | n + 1, s, index, _, _ =>
    match str[s]? with
    | none => none
    | some ch =>
      if !isDec ch then some none
      else arrayIndexLoop str n (s + 1) (10 * index + unDec ch) index (unDec ch)

/-- `StringIsArrayIndex` -/
def stringIsArrayIndex (str : List Jschar) : Option (Option UInt32) :=
  if str.length = 0 ∨ 10 < str.length then some none
  else
    match str[0]? with
    | none => none
    | some ch =>
      if !isDec ch then some none
      else
        let index := unDec ch
        if index = 0 ∧ str.length ≠ 1 then some none
        else
          match arrayIndexLoop str (str.length - 1) 1 index 0 0 with
          | none => none
          | some none => some none
          | some (some (index, previous, c)) =>
            if previous < maxArrayIndex32 / 10 ∨
                previous = maxArrayIndex32 / 10 ∧ c ≤ maxArrayIndex32 % 10 then
              some (some index)
            else some none

/-! ## Digits -/

/-- The number that digits denote, behind a number. -/
def decimalDigitsValue (v : Nat) (ds : List Jschar) : Nat :=
  ds.foldl (fun v d => 10 * v + (d.toNat - 48)) v

@[simp] lemma decimalDigitsValue_nil (v : Nat) : decimalDigitsValue v [] = v := rfl

lemma decimalDigitsValue_append (v : Nat) (ds es : List Jschar) :
    decimalDigitsValue v (ds ++ es) = decimalDigitsValue (decimalDigitsValue v ds) es :=
  foldl_append

lemma decimalDigitsValue_concat (v : Nat) (ds : List Jschar) (d : Jschar) :
    decimalDigitsValue v (ds ++ [d]) = 10 * decimalDigitsValue v ds + (d.toNat - 48) :=
  decimalDigitsValue_append v ds [d]

lemma isDec_iff_toNat {c : Jschar} : isDec c = true ↔ 48 ≤ c.toNat ∧ c.toNat ≤ 57 := by
  simp only [isDec, Bool.and_eq_true, decide_eq_true_eq, UInt16.le_iff_toNat_le]
  rfl

lemma unDec_toNat {c : Jschar} (h : isDec c = true) : (unDec c).toNat = c.toNat - 48 := by
  obtain ⟨hlo, hhi⟩ := isDec_iff_toNat.mp h
  have hle : (48 : Jschar) ≤ c := UInt16.le_iff_toNat_le.mpr hlo
  rw [unDec, UInt16.toNat_toUInt32, UInt16.toNat_sub_of_le _ _ hle]
  rfl

lemma digitChar_toNat {d : Nat} (hd : d < 10) : (digitChar d).toNat = 48 + d := by
  rw [digitChar, UInt16.toNat_ofNat']
  omega

lemma digitChar_unDec {c : Jschar} (h : isDec c = true) : digitChar (c.toNat - 48) = c := by
  obtain ⟨hlo, hhi⟩ := isDec_iff_toNat.mp h
  rw [← UInt16.toNat_inj, digitChar_toNat (by omega)]
  omega

lemma isDec_digitChar {d : Nat} (hd : d < 10) : isDec (digitChar d) = true := by
  rw [isDec_iff_toNat, digitChar_toNat hd]
  omega

variable {ds : List Jschar}

lemma decimalDigitsValue_lt (h : ∀ d ∈ ds, isDec d = true) :
    decimalDigitsValue 0 ds < 10 ^ ds.length := by
  induction ds using List.reverseRecOn with
  | nil => exact Nat.one_pos
  | append_singleton ds d ih =>
    have hrest := ih fun e he => h e (mem_append_left _ he)
    obtain ⟨hlo, hhi⟩ := isDec_iff_toNat.mp (h d (mem_append_right _ mem_cons_self))
    rw [decimalDigitsValue_concat, length_append, length_singleton, Nat.pow_succ]
    omega

/-! ## Canonical forms -/

/-- Digits with no zero in front, but for the number zero. -/
structure Canonical (s : List Jschar) : Prop where
  ne_nil : s ≠ []
  digits : ∀ d ∈ s, isDec d = true
  leading : s.head? = some 48 → s.length = 1

lemma backfill_eq (n : Nat) :
    backfillIndexInCharBuffer n =
      (if n < 10 then [] else backfillIndexInCharBuffer (n / 10)) ++ [digitChar (n % 10)] := by
  rw [backfillIndexInCharBuffer]
  split_ifs with h h'
  · omega
  · rfl
  · rfl
  · omega

lemma backfill_ne_nil (n : Nat) : backfillIndexInCharBuffer n ≠ [] := by
  rw [backfill_eq]
  exact append_ne_nil_of_right_ne_nil _ (cons_ne_nil _ _)

/-- The decimal form of a number is canonical, and denotes the number. -/
lemma backfill_canonical (n : Nat) :
    Canonical (backfillIndexInCharBuffer n) ∧
      decimalDigitsValue 0 (backfillIndexInCharBuffer n) = n ∧
      (n ≠ 0 → (backfillIndexInCharBuffer n).head? ≠ some 48) := by
  induction n using Nat.strongRecOn with
  | _ n ih =>
    have hmod : n % 10 < 10 := Nat.mod_lt n (by omega)
    rw [backfill_eq]
    split_ifs with hlt
    · have hhead : [digitChar (n % 10)].head? = some 48 → n = 0 := by
        intro h
        have h48 := congrArg UInt16.toNat (Option.some.inj h)
        rw [digitChar_toNat hmod, show (48 : Jschar).toNat = 48 from rfl] at h48
        omega
      refine ⟨⟨cons_ne_nil _ _, fun d hd => ?_, fun _ => rfl⟩, ?_, fun h hh => h (hhead hh)⟩
      · rw [mem_singleton.mp hd]
        exact isDec_digitChar hmod
      · rw [decimalDigitsValue_concat, decimalDigitsValue_nil, digitChar_toNat hmod]
        omega
    · obtain ⟨hcanonical, hvalue, hhead⟩ := ih (n / 10) (by omega)
      have hzero :
          (backfillIndexInCharBuffer (n / 10) ++ [digitChar (n % 10)]).head? ≠ some 48 := by
        rw [List.head?_append_of_ne_nil _ (backfill_ne_nil _)]
        exact hhead (by omega)
      refine ⟨⟨?_, fun d hd => ?_, fun h => absurd h hzero⟩, ?_, fun _ => hzero⟩
      · exact append_ne_nil_of_right_ne_nil _ (cons_ne_nil _ _)
      · rcases mem_append.mp hd with hd | hd
        · exact hcanonical.digits d hd
        · rw [mem_singleton.mp hd]
          exact isDec_digitChar hmod
      · rw [decimalDigitsValue_concat, hvalue, digitChar_toNat hmod]
        omega

variable {s : List Jschar}

/-- A canonical string is the decimal form of what it denotes. -/
lemma Canonical.backfill (h : Canonical s) :
    backfillIndexInCharBuffer (decimalDigitsValue 0 s) = s := by
  induction s using List.reverseRecOn with
  | nil => exact absurd rfl h.ne_nil
  | append_singleton ds d ih =>
    have hd : isDec d = true := h.digits d (mem_append_right _ mem_cons_self)
    obtain ⟨hlo, hhi⟩ := isDec_iff_toNat.mp hd
    rw [decimalDigitsValue_concat, backfill_eq]
    by_cases hnil : ds = []
    · subst hnil
      have hlt : d.toNat - 48 < 10 := by omega
      rw [decimalDigitsValue_nil, Nat.mul_zero, Nat.zero_add, if_pos hlt, Nat.mod_eq_of_lt hlt,
        digitChar_unDec hd]
    · have hhead : (ds ++ [d]).head? = ds.head? := List.head?_append_of_ne_nil _ hnil
      have hzero : ds.head? ≠ some 48 := by
        intro hh
        have hlength := h.leading (hhead.trans hh)
        rw [length_append, length_singleton] at hlength
        exact hnil (length_eq_zero_iff.mp (by omega))
      have hfront : Canonical ds :=
        ⟨hnil, fun e he => h.digits e (mem_append_left _ he), fun hh => absurd hh hzero⟩
      have hvalue := ih hfront
      -- what is in front of the last digit is not zero
      have hpos : decimalDigitsValue 0 ds ≠ 0 := by
        intro h0
        rw [h0, backfill_eq] at hvalue
        exact hzero (by rw [← hvalue]; rfl)
      have hdiv : (10 * decimalDigitsValue 0 ds + (d.toNat - 48)) / 10 =
          decimalDigitsValue 0 ds := by omega
      have hmod : (10 * decimalDigitsValue 0 ds + (d.toNat - 48)) % 10 = d.toNat - 48 := by omega
      rw [if_neg (by omega), hdiv, hmod, hvalue, digitChar_unDec hd]

lemma eq_backfill_iff {n : Nat} :
    s = backfillIndexInCharBuffer n ↔ Canonical s ∧ decimalDigitsValue 0 s = n := by
  constructor
  · rintro rfl
    exact ⟨(backfill_canonical n).1, (backfill_canonical n).2.1⟩
  · rintro ⟨h, rfl⟩
    exact h.backfill.symm

/-- With no zero in front, each digit counts. -/
lemma Canonical.pow_le (h : Canonical s) (hlong : s.length ≠ 1) :
    10 ^ (s.length - 1) ≤ decimalDigitsValue 0 s := by
  induction s using List.reverseRecOn with
  | nil => exact absurd rfl h.ne_nil
  | append_singleton ds d ih =>
    rw [length_append, length_singleton] at hlong ⊢
    have hnil : ds ≠ [] := by
      rintro rfl
      exact hlong rfl
    have hhead : (ds ++ [d]).head? = ds.head? := List.head?_append_of_ne_nil _ hnil
    have hzero : ds.head? ≠ some 48 := by
      intro hh
      have hlength := h.leading (hhead.trans hh)
      rw [length_append, length_singleton] at hlength
      exact hlong hlength
    have hfront : Canonical ds :=
      ⟨hnil, fun e he => h.digits e (mem_append_left _ he), fun hh => absurd hh hzero⟩
    rw [decimalDigitsValue_concat, Nat.add_sub_cancel]
    by_cases hone : ds.length = 1
    · obtain ⟨e, rfl⟩ := length_eq_one_iff.mp hone
      have he := isDec_iff_toNat.mp (hfront.digits e mem_cons_self)
      have hne : e.toNat ≠ 48 := fun h48 => hzero (congrArg some (UInt16.toNat_inj.mp h48))
      simp only [decimalDigitsValue, foldl_cons, foldl_nil, length_singleton]
      omega
    · have hrest := ih hfront hone
      have hpos := length_pos_iff.mpr hnil
      obtain ⟨k, hk⟩ : ∃ k, ds.length = k + 1 := ⟨ds.length - 1, by omega⟩
      rw [hk, Nat.add_sub_cancel] at hrest
      rw [hk, Nat.pow_succ]
      omega

/-! ## Accumulation -/

/-- The state of both loops behind some digits. -/
structure Accumulated (ds : List Jschar) (index previous c : UInt32) : Prop where
  index : index = UInt32.ofNat (decimalDigitsValue 0 ds)
  last : ∀ init d, ds = init ++ [d] → init ≠ [] →
    previous = UInt32.ofNat (decimalDigitsValue 0 init) ∧ c = UInt32.ofNat (d.toNat - 48)
  first : ds.length = 1 → previous = 0 ∧ c = 0

lemma Accumulated.one {d : Jschar} (h : isDec d = true) : Accumulated [d] (unDec d) 0 0 where
  index := by
    rw [← UInt32.toNat_inj, unDec_toNat h, UInt32.toNat_ofNat']
    have hd := (isDec_iff_toNat.mp h).2
    simp only [decimalDigitsValue, foldl_cons, foldl_nil]
    omega
  last init e heq hne := by
    have hlength := congrArg List.length heq
    rw [length_append, length_singleton, length_singleton] at hlength
    exact absurd (length_eq_zero_iff.mp (by omega)) hne
  first _ := ⟨rfl, rfl⟩

variable {index previous c : UInt32}

lemma Accumulated.next (h : Accumulated ds index previous c) (hne : ds ≠ []) {d : Jschar}
    (hd : isDec d = true) :
    Accumulated (ds ++ [d]) (10 * index + unDec d) index (unDec d) where
  index := by
    rw [h.index, decimalDigitsValue_concat, ← UInt32.toNat_inj, UInt32.toNat_add, UInt32.toNat_mul,
      unDec_toNat hd, UInt32.toNat_ofNat', UInt32.toNat_ofNat']
    rw [show (10 : UInt32).toNat = 10 from rfl]
    omega
  last init e heq _ := by
    obtain ⟨rfl, he⟩ := append_inj' heq rfl
    obtain rfl : d = e := List.cons.inj he |>.1
    refine ⟨h.index, ?_⟩
    rw [← UInt32.toNat_inj, unDec_toNat hd, UInt32.toNat_ofNat']
    have hle := (isDec_iff_toNat.mp hd).2
    omega
  first hlength := by
    rw [length_append, length_singleton] at hlength
    exact absurd (length_eq_zero_iff.mp (by omega)) hne

/-- The test of the last two values, for a bound with a last digit. -/
lemma Accumulated.fits (h : Accumulated ds index previous c) (hdigits : ∀ d ∈ ds, isDec d = true)
    (hne : ds ≠ []) (hlength : ds.length ≤ 10) {max : UInt32} (hmax : 10 ≤ max.toNat) :
    (previous < max / 10 ∨ previous = max / 10 ∧ c ≤ max % 10) ↔
      decimalDigitsValue 0 ds ≤ max.toNat := by
  have h10 : (10 : UInt32).toNat = 10 := rfl
  rw [UInt32.lt_iff_toNat_lt, ← UInt32.toNat_inj, UInt32.le_iff_toNat_le, UInt32.toNat_div,
    UInt32.toNat_mod, h10]
  obtain ⟨init, d, rfl⟩ : ∃ init d, ds = init ++ [d] :=
    ⟨ds.dropLast, ds.getLast hne, (dropLast_append_getLast hne).symm⟩
  have hd := isDec_iff_toNat.mp (hdigits d (mem_append_right _ mem_cons_self))
  rw [length_append, length_singleton] at hlength
  rw [decimalDigitsValue_concat]
  by_cases hinit : init = []
  · subst hinit
    obtain ⟨rfl, rfl⟩ := h.first rfl
    rw [UInt32.toNat_zero, decimalDigitsValue_nil]
    omega
  · obtain ⟨hprevious, hc⟩ := h.last init d rfl hinit
    have hlt := decimalDigitsValue_lt fun e he => hdigits e (mem_append_left _ he)
    have hpow : 10 ^ init.length ≤ 10 ^ 9 := Nat.pow_le_pow_right (by omega) (by omega)
    rw [hprevious, hc, UInt32.toNat_ofNat', UInt32.toNat_ofNat']
    omega

/-- What is returned for a canonical string of at most ten digits. -/
lemma Accumulated.result (h : Accumulated s index previous c) (hs : Canonical s)
    (hlength : s.length ≤ 10) (max : UInt32) (hmax : 10 ≤ max.toNat) :
    ∃ r, (if previous < max / 10 ∨ previous = max / 10 ∧ c ≤ max % 10 then some (some index)
        else some none) = some r ∧
      ∀ n : UInt32, r = some n ↔ n.toNat ≤ max.toNat ∧ s = backfillIndexInCharBuffer n.toNat := by
  have hfits := h.fits hs.digits hs.ne_nil hlength hmax
  have hmax' := max.toNat_lt
  split_ifs with hle
  · refine ⟨some index, rfl, fun n => ?_⟩
    have hvalue : index.toNat = decimalDigitsValue 0 s := by
      have hlt := hfits.mp hle
      rw [h.index, UInt32.toNat_ofNat']
      omega
    rw [Option.some.injEq, eq_backfill_iff]
    constructor
    · rintro rfl
      exact ⟨hvalue ▸ hfits.mp hle, hs, hvalue.symm⟩
    · rintro ⟨-, -, hn⟩
      exact UInt32.toNat_inj.mp (hvalue.trans hn)
  · refine ⟨none, rfl, fun n => ⟨nofun, fun hn => ?_⟩⟩
    exact absurd (hfits.mpr ((eq_backfill_iff.mp hn.2).2 ▸ hn.1)) hle

/-- What is no decimal form is not returned as one. -/
lemma none_spec {P : UInt32 → Prop} (h : ¬ (Canonical s ∧ s.length ≤ 10)) (n : UInt32) :
    (none : Option UInt32) = some n ↔ P n ∧ s = backfillIndexInCharBuffer n.toNat := by
  refine ⟨nofun, fun hn => absurd ?_ h⟩
  obtain ⟨hs, hvalue⟩ := eq_backfill_iff.mp hn.2
  refine ⟨hs, ?_⟩
  by_contra hlong
  have hpow := hs.pow_le (by omega)
  have hten : 10 ^ 10 ≤ 10 ^ (s.length - 1) := Nat.pow_le_pow_right (by omega) (by omega)
  have hlt := n.toNat_lt
  omega

lemma indexLoop_spec {index oldIndex c : UInt32} (h : Accumulated ds index oldIndex c)
    (hne : ds ≠ []) (es : List Jschar) {t : Jschar} (ts : List Jschar)
    (hes : ∀ e ∈ es, isDec e = true) (ht : isDec t = false) :
    ∃ index' oldIndex' c', indexLoop index oldIndex c (es ++ t :: ts) =
        some (index', oldIndex', c', t :: ts) ∧ Accumulated (ds ++ es) index' oldIndex' c' := by
  induction es generalizing ds index oldIndex c with
  | nil =>
    refine ⟨index, oldIndex, c, ?_, by rwa [append_nil]⟩
    rw [nil_append, indexLoop, ht, if_neg Bool.false_ne_true]
  | cons e es ih =>
    have he := hes e mem_cons_self
    have hnext := ih (h.next hne he) (append_ne_nil_of_left_ne_nil hne _)
      fun e' he' => hes e' (mem_cons_of_mem _ he')
    rw [append_assoc, singleton_append] at hnext
    rw [cons_append, indexLoop, if_pos he]
    exact hnext

lemma arrayIndexLoop_spec (h : Accumulated ds index previous c) (hne : ds ≠ [])
    (es : List Jschar) :
    ((∀ e ∈ es, isDec e = true) → ∃ index' previous' c',
        arrayIndexLoop (ds ++ es) es.length ds.length index previous c =
          some (some (index', previous', c')) ∧ Accumulated (ds ++ es) index' previous' c') ∧
      (¬ (∀ e ∈ es, isDec e = true) →
        arrayIndexLoop (ds ++ es) es.length ds.length index previous c = some none) := by
  induction es generalizing ds index previous c with
  | nil =>
    rw [append_nil]
    exact ⟨fun _ => ⟨index, previous, c, rfl, h⟩, fun hno => absurd (fun e he => nomatch he) hno⟩
  | cons e es ih =>
    have hget : (ds ++ e :: es)[ds.length]? = some e := by simp
    rw [length_cons, arrayIndexLoop, hget, forall_mem_cons]
    simp only
    cases he : isDec e with
    | false => exact ⟨fun hall => absurd hall.1 Bool.false_ne_true, fun _ => rfl⟩
    | true =>
      have hnext := ih (h.next hne he) (append_ne_nil_of_left_ne_nil hne _)
      rw [append_assoc, singleton_append, length_append, length_singleton]
        at hnext
      rw [Bool.not_true, if_neg Bool.false_ne_true]
      exact ⟨fun hall => hnext.1 hall.2, fun hno => hnext.2 fun hall => hno ⟨rfl, hall⟩⟩

/-! ## Both functions -/

lemma unDec_eq_zero_iff {ch : Jschar} (h : isDec ch = true) : unDec ch = 0 ↔ ch = 48 := by
  have hlo := (isDec_iff_toNat.mp h).1
  rw [← UInt32.toNat_inj, unDec_toNat h, ← UInt16.toNat_inj, UInt32.toNat_zero,
    show (48 : Jschar).toNat = 48 from rfl]
  omega

lemma isIndexSlow_spec (s : List Jschar) :
    ∃ r, isIndexSlow s = some r ∧ ∀ n : UInt32, r = some n ↔
      n.toNat ≤ (4294967295 : UInt32).toNat ∧ s = backfillIndexInCharBuffer n.toNat := by
  cases s with
  | nil => exact ⟨none, rfl, none_spec fun h => h.1.ne_nil rfl⟩
  | cons ch rest =>
  rw [isIndexSlow, charsZ, cons_append]
  simp only
  cases hch : isDec ch with
  | false =>
    refine ⟨none, rfl, none_spec fun h => ?_⟩
    exact Bool.false_ne_true (hch.symm.trans (h.1.digits ch mem_cons_self))
  | true =>
  by_cases hlong : uint32CharBufferLength < (ch :: rest).length
  · rw [Bool.not_true, if_neg Bool.false_ne_true, if_pos hlong]
    exact ⟨none, rfl, none_spec fun h => absurd h.2 (Nat.not_le.mpr hlong)⟩
  rw [Bool.not_true, if_neg Bool.false_ne_true, if_neg hlong]
  have hlength : (ch :: rest).length ≤ 10 := Nat.not_lt.mp hlong
  by_cases hzero : unDec ch = 0
  · rw [if_neg (not_not.mpr hzero)]
    simp only [length_append, length_singleton]
    cases rest with
    | nil =>
      have hcanonical : Canonical [ch] :=
        ⟨cons_ne_nil _ _, fun d hd => mem_singleton.mp hd ▸ hch, fun _ => rfl⟩
      exact (Accumulated.one hch).result hcanonical hlength 4294967295 (by decide)
    | cons e es =>
      rw [if_pos (by simp)]
      refine ⟨none, rfl, none_spec fun h => ?_⟩
      have hone := h.1.leading (congrArg some ((unDec_eq_zero_iff hch).mp hzero))
      simp at hone
  · rw [if_pos hzero]
    have htail : ∃ t ts, rest.dropWhile isDec ++ [0] = t :: ts ∧ isDec t = false := by
      cases hdrop : rest.dropWhile isDec with
      | nil => exact ⟨0, [], rfl, rfl⟩
      | cons t ts =>
        refine ⟨t, ts ++ [0], rfl, ?_⟩
        have hhead := List.head?_dropWhile_not isDec rest
        rw [hdrop] at hhead
        simpa using hhead
    obtain ⟨t, ts, htail, ht⟩ := htail
    obtain ⟨index, oldIndex, c, hloop, hacc⟩ := indexLoop_spec (Accumulated.one hch)
      (cons_ne_nil _ _) (rest.takeWhile isDec) ts
      (fun e he => all_eq_true.mp (all_takeWhile) e he) ht
    rw [← htail, ← append_assoc, takeWhile_append_dropWhile] at hloop
    rw [hloop]
    simp only [length_append, length_singleton]
    cases hdrop : rest.dropWhile isDec with
    | nil =>
      have hall : rest.takeWhile isDec = rest := by
        have happend := takeWhile_append_dropWhile (p := isDec) (l := rest)
        rwa [hdrop, append_nil] at happend
      have hdigits : ∀ d ∈ ch :: rest, isDec d = true := by
        intro d hd
        rcases mem_cons.mp hd with rfl | hd
        · exact hch
        · rw [← hall] at hd
          exact all_eq_true.mp all_takeWhile d hd
      have hcanonical : Canonical (ch :: rest) := by
        refine ⟨cons_ne_nil _ _, hdigits, fun hh => ?_⟩
        exact absurd ((unDec_eq_zero_iff hch).mpr (Option.some.inj hh)) hzero
      rw [hall] at hacc
      rw [if_neg (by simp)]
      exact hacc.result hcanonical hlength 4294967295 (by decide)
    | cons u us =>
      rw [if_pos (by simp)]
      refine ⟨none, rfl, none_spec fun h => ?_⟩
      have hu := List.head?_dropWhile_not isDec rest
      rw [hdrop] at hu
      have hmem : u ∈ rest := by
        rw [← takeWhile_append_dropWhile (p := isDec) (l := rest), hdrop]
        exact mem_append_right _ mem_cons_self
      have hdec := h.1.digits u (mem_cons_of_mem _ hmem)
      simp [hdec] at hu

lemma stringIsArrayIndex_spec (s : List Jschar) :
    ∃ r, stringIsArrayIndex s = some r ∧ ∀ n : UInt32, r = some n ↔
      n.toNat ≤ maxArrayIndex32.toNat ∧ s = backfillIndexInCharBuffer n.toNat := by
  cases s with
  | nil => exact ⟨none, rfl, none_spec fun h => h.1.ne_nil rfl⟩
  | cons ch rest =>
  rw [stringIsArrayIndex]
  by_cases hlong : (ch :: rest).length = 0 ∨ 10 < (ch :: rest).length
  · rw [if_pos hlong]
    refine ⟨none, rfl, none_spec fun h => ?_⟩
    rcases hlong with hnil | hlong
    · cases hnil
    · exact absurd h.2 (Nat.not_le.mpr hlong)
  rw [if_neg hlong]
  simp only [List.getElem?_cons_zero]
  cases hch : isDec ch with
  | false =>
    refine ⟨none, rfl, none_spec fun h => ?_⟩
    exact Bool.false_ne_true (hch.symm.trans (h.1.digits ch mem_cons_self))
  | true =>
  rw [Bool.not_true, if_neg Bool.false_ne_true]
  by_cases hzero : unDec ch = 0 ∧ (ch :: rest).length ≠ 1
  · rw [if_pos hzero]
    refine ⟨none, rfl, none_spec fun h => ?_⟩
    exact hzero.2 (h.1.leading (congrArg some ((unDec_eq_zero_iff hch).mp hzero.1)))
  rw [if_neg hzero]
  have hloop := arrayIndexLoop_spec (Accumulated.one hch) (cons_ne_nil _ _) rest
  rw [singleton_append, length_singleton] at hloop
  rw [length_cons, Nat.add_sub_cancel]
  by_cases hall : ∀ e ∈ rest, isDec e = true
  · obtain ⟨index, previous, c, heq, hacc⟩ := hloop.1 hall
    rw [heq]
    have hcanonical : Canonical (ch :: rest) := by
      refine ⟨cons_ne_nil _ _, forall_mem_cons.mpr ⟨hch, hall⟩, fun hh => ?_⟩
      by_contra hone
      exact hzero ⟨(unDec_eq_zero_iff hch).mpr (Option.some.inj hh), hone⟩
    exact hacc.result hcanonical (by omega) maxArrayIndex32 (by decide)
  · rw [hloop.2 hall]
    refine ⟨none, rfl, none_spec fun h => hall fun e he => ?_⟩
    exact h.1.digits e (mem_cons_of_mem _ he)

lemma backfill_max : backfillIndexInCharBuffer 4294967295 = asciiChars "4294967295" := by
  have hdigits : ∀ d ∈ asciiChars "4294967295", isDec d = true := all_eq_true.mp rfl
  exact (eq_backfill_iff.mpr ⟨⟨by decide, hdigits, by decide⟩, rfl⟩).symm

/-- Both return the number that a string is the decimal form of, in their ranges, and read nothing
behind the terminating zero. -/
theorem index_strings_exact (s : List Jschar) :
    (∃ r, isIndexSlow s = some r ∧
        ∀ n : UInt32, r = some n ↔ s = backfillIndexInCharBuffer n.toNat) ∧
      (∃ r, stringIsArrayIndex s = some r ∧ ∀ n : UInt32, r = some n ↔
        n.toNat ≤ 2 ^ 32 - 2 ∧ s = backfillIndexInCharBuffer n.toNat) ∧
      (isIndexSlow s = stringIsArrayIndex s ↔ s ≠ asciiChars "4294967295") := by
  obtain ⟨r, hr, hspec⟩ := isIndexSlow_spec s
  obtain ⟨r', hr', hspec'⟩ := stringIsArrayIndex_spec s
  have hindex : ∀ n : UInt32, r = some n ↔ s = backfillIndexInCharBuffer n.toNat := by
    intro n
    rw [hspec]
    exact and_iff_right (Nat.le_of_lt_succ n.toNat_lt)
  refine ⟨⟨r, hr, hindex⟩, ⟨r', hr', hspec'⟩, ?_⟩
  rw [hr, hr', Option.some.injEq, ← backfill_max]
  constructor
  · rintro rfl hs
    have hmax := (hindex 4294967295).mpr hs
    exact absurd ((hspec' _).mp hmax).1 (by decide)
  · intro hs
    refine Option.ext fun n => ?_
    rw [hindex, hspec']
    refine ⟨fun h => ⟨?_, h⟩, And.right⟩
    by_contra hlarge
    have hn : n.toNat = 4294967295 := by
      have hlt := n.toNat_lt
      have hbound : maxArrayIndex32.toNat = 4294967294 := rfl
      omega
    exact hs (hn ▸ h)

end SpiderMonkey.Vm
