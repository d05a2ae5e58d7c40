import SpiderMonkey.Vm.Split
import SpiderMonkey.Vm.CloneReader
import SpiderMonkey.Vm.StringMatchSoundness

/-! # split follows the specification

The specification tries a match at each position, the code jumps to the next one.
-/

namespace SpiderMonkey.Vm

open SpiderMonkey.Lib List
open SpiderMonkey.StructuredClone (maxStringLength)

/-! ## ES5 15.5.4.14 -/

/-- `SplitMatch` of the specification: at a position, the end of a match there and its captures. -/
abbrev MatchAt := Nat → Option (Nat × List SplitPiece)

/-- `SplitMatch` of a string separator. -/
def stringSplitMatch (str sep : List Jschar) : MatchAt := fun q =>
  if q + sep.length ≤ str.length ∧ sep <+: str.drop q then some (q + sep.length, []) else none

/-- The substring from `p` to `q`. -/
def substring (str : List Jschar) (p q : Nat) : List Jschar := (str.drop p).take (q - p)

/-- Step 13 and what follows, from the values of `q`, `p` and `A`. -/
inductive Es5SplitFrom (str : List Jschar) (lim : Nat) (splitMatch : MatchAt) :
    (q p : Nat) → (A result : List SplitPiece) → Prop
  | rest {p A} : Es5SplitFrom str lim splitMatch str.length p A
      (A ++ [some (substring str p str.length)])
  | failure {q p A r} (hq : q < str.length) (hz : splitMatch q = none)
      (hr : Es5SplitFrom str lim splitMatch (q + 1) p A r) :
      Es5SplitFrom str lim splitMatch q p A r
  | same {q p A r cap} (hq : q < str.length) (hz : splitMatch q = some (p, cap))
      (hr : Es5SplitFrom str lim splitMatch (q + 1) p A r) :
      Es5SplitFrom str lim splitMatch q p A r
  | limit {q p A e cap} (hq : q < str.length) (hz : splitMatch q = some (e, cap)) (he : e ≠ p)
      (hlim : lim ≤ (A ++ some (substring str p q) :: cap).length) :
      Es5SplitFrom str lim splitMatch q p A ((A ++ some (substring str p q) :: cap).take lim)
  | cut {q p A r e cap} (hq : q < str.length) (hz : splitMatch q = some (e, cap)) (he : e ≠ p)
      (hlim : (A ++ some (substring str p q) :: cap).length < lim)
      (hr : Es5SplitFrom str lim splitMatch e e (A ++ some (substring str p q) :: cap) r) :
      Es5SplitFrom str lim splitMatch q p A r

/-- Steps 11 to 16. -/
inductive Es5Split (str : List Jschar) (lim : Nat) (splitMatch : MatchAt) :
    (result : List SplitPiece) → Prop
  | emptyMatch {z} (hs : str = []) (hz : splitMatch 0 = some z) : Es5Split str lim splitMatch []
  | emptyFailure (hs : str = []) (hz : splitMatch 0 = none) :
      Es5Split str lim splitMatch [some str]
  | nonempty {r} (hs : str ≠ []) (hr : Es5SplitFrom str lim splitMatch 0 0 [] r) :
      Es5Split str lim splitMatch r

/-! ## Matchers -/

/-- A match ends within the string, and not before its start. -/
def Bounded (str : List Jschar) (matchAt : MatchAt) : Prop :=
  ∀ q e cap, matchAt q = some (e, cap) → q ≤ e ∧ e ≤ str.length

/-- What a matcher that looks ahead reports: the leftmost match from an index on. -/
inductive Leftmost (str : List Jschar) (matchAt : MatchAt) (index : Nat) :
    Option SplitMatchResult → Prop
  | failure (h : ∀ q, index ≤ q → q ≤ str.length → matchAt q = none) :
      Leftmost str matchAt index none
  | found {m e cap} (hle : index ≤ m) (hm : matchAt m = some (e, cap))
      (h : ∀ q, index ≤ q → q < m → matchAt q = none) :
      Leftmost str matchAt index (some ⟨e - m, e, cap⟩)

/-- It does so wherever it is asked. -/
def IsLeftmost (str : List Jschar) (matchAt : MatchAt) (splitMatch : SplitMatcher) : Prop :=
  ∀ index, index = 0 ∨ index < str.length →
    ∃ result, splitMatch index = some result ∧ Leftmost str matchAt index result

variable {str : List Jschar} {lim : Nat} {matchAt : MatchAt} {splitMatch : SplitMatcher}
  {q p : Nat} {A r : List SplitPiece}

/-! ## The loop -/

/-- Positions without a match are passed over. -/
lemma Es5SplitFrom.skip {m : Nat} (hr : Es5SplitFrom str lim matchAt m p A r) (hqm : q ≤ m)
    (hm : m ≤ str.length) (hnone : ∀ j, q ≤ j → j < m → matchAt j = none) :
    Es5SplitFrom str lim matchAt q p A r := by
  induction hd : m - q generalizing q with
  | zero =>
    have : q = m := by omega
    rwa [this]
  | succ d ih =>
    refine .failure (by omega) (hnone q (Nat.le_refl q) (by omega)) ?_
    exact ih (by omega) (fun j hj => hnone j (by omega)) (by omega)

lemma newDependentString_eq {start length : Nat} (h : start + length ≤ str.length) :
    newDependentString str start length = some (substring str start (start + length)) := by
  rw [newDependentString, if_pos h, substring, Nat.add_sub_cancel_left]

lemma splitRest_eq (hp : p ≤ str.length) :
    splitRest str p A = some (A ++ [some (substring str p str.length)]) := by
  rw [splitRest, newDependentString_eq (by omega), Nat.add_sub_cancel' hp]
  rfl

/-- The captures are appended up to the limit. -/
lemma appendCaptures_eq (cap : List SplitPiece) (hlim : A.length < lim) :
    appendCaptures lim cap A = if lim ≤ (A ++ cap).length then ((A ++ cap).take lim, true)
      else (A ++ cap, false) := by
  induction cap generalizing A with
  | nil =>
    rw [appendCaptures, append_nil, if_neg (by omega)]
  | cons c cap ih =>
    have happ : A ++ c :: cap = (A ++ [c]) ++ cap := by simp
    rw [appendCaptures, happ]
    by_cases hfull : (A ++ [c]).length = lim
    · have htake : ((A ++ [c]) ++ cap).take lim = A ++ [c] := take_left' hfull
      rw [if_pos hfull, if_pos (by rw [length_append]; omega), htake]
    · rw [if_neg hfull]
      apply ih
      rw [length_append, length_singleton] at hfull ⊢
      omega

/-- From wherever the loop stands it does what is left of the specification. -/
lemma splitLoop_spec (hbound : Bounded str matchAt)
    (hleft : IsLeftmost str matchAt splitMatch) (fuel : Nat) (hq : q ≤ str.length) (hp : p ≤ q)
    (hA : A.length < lim)
    (hfuel : 2 * (str.length - q) + (if q = p then 0 else 1) < fuel) :
    ∃ r, splitLoop str lim splitMatch fuel q p A = some r ∧
      Es5SplitFrom str lim matchAt q p A r := by
  induction fuel generalizing q p A with
  | zero => omega
  | succ fuel ih =>
    rw [splitLoop]
    by_cases hend : q < str.length
    case neg =>
      rw [if_neg hend, splitRest_eq (by omega)]
      obtain rfl : q = str.length := by omega
      exact ⟨_, rfl, .rest⟩
    rw [if_pos hend]
    obtain ⟨result, heq, hresult⟩ := hleft q (.inr hend)
    rw [heq]
    cases hresult with
    | failure hnone =>
      -- no match: the rest of the string is one piece
      refine ⟨_, splitRest_eq (by omega), Es5SplitFrom.rest.skip hq (Nat.le_refl _) ?_⟩
      exact fun j hj hlt => hnone j hj (Nat.le_of_lt hlt)
    | @found m e cap hle hm hnone =>
      obtain ⟨hme, hes⟩ := hbound m e cap hm
      dsimp only
      by_cases hatEnd : e - m = 0 ∧ e = str.length
      · -- the only match is empty and at the end, where the specification does not look
        rw [if_pos hatEnd]
        refine ⟨_, splitRest_eq (by omega), Es5SplitFrom.rest.skip hq (Nat.le_refl _) ?_⟩
        exact fun j hj hlt => hnone j hj (by omega)
      rw [if_neg hatEnd]
      have hmlt : m < str.length := by omega
      by_cases hsame : e = p
      · -- an empty match at the cut
        rw [if_pos hsame]
        obtain rfl : m = q := by omega
        obtain rfl : m = p := by omega
        rw [if_pos rfl] at hfuel
        subst hsame
        obtain ⟨r, hloop, hr⟩ := ih (q := e + 1) (p := e) (A := A) (by omega) (by omega) hA
          (by rw [if_neg (by omega)]; omega)
        exact ⟨r, hloop, .same hmlt hm hr⟩
      rw [if_neg hsame, if_pos (by omega)]
      have hsub : p + (e - (e - m) - p) = m := by omega
      rw [newDependentString_eq (by omega), hsub]
      dsimp only
      have happ : A ++ some (substring str p m) :: cap =
          (A ++ [some (substring str p m)]) ++ cap := by simp
      have hlen : (A ++ [some (substring str p m)]).length = A.length + 1 := by simp
      by_cases hone : (A ++ [some (substring str p m)]).length = lim
      · rw [if_pos hone]
        refine ⟨_, rfl, Es5SplitFrom.skip ?_ hle (by omega) hnone⟩
        have hstop : Es5SplitFrom str lim matchAt m p A _ :=
          .limit hmlt hm hsame (by rw [happ, length_append]; omega)
        rwa [happ, take_left' hone] at hstop
      rw [if_neg hone, appendCaptures_eq cap (by omega)]
      by_cases hmany : lim ≤ ((A ++ [some (substring str p m)]) ++ cap).length
      · rw [if_pos hmany]
        refine ⟨_, rfl, Es5SplitFrom.skip ?_ hle (by omega) hnone⟩
        have hstop : Es5SplitFrom str lim matchAt m p A _ :=
          .limit hmlt hm hsame (by rw [happ]; exact hmany)
        rwa [happ] at hstop
      · rw [if_neg hmany]
        have hmore : 2 * (str.length - e) + 0 < fuel := by
          split_ifs at hfuel <;> omega
        obtain ⟨r, hloop, hr⟩ := ih (q := e) (p := e)
          (A := (A ++ [some (substring str p m)]) ++ cap) hes (Nat.le_refl e) (by omega)
          (by rw [if_pos rfl]; exact hmore)
        refine ⟨r, hloop, Es5SplitFrom.skip ?_ hle (by omega) hnone⟩
        rw [← happ] at hr hmany
        exact .cut hmlt hm hsame (by omega) hr

/-! ## The specification leaves no choice -/

lemma Es5SplitFrom.unique {r' : List SplitPiece} (h : Es5SplitFrom str lim matchAt q p A r)
    (h' : Es5SplitFrom str lim matchAt q p A r') : r = r' := by
  induction h generalizing r' with
  | rest =>
    cases h' with
    | rest => rfl
    | failure hq _ _ | same hq _ _ | limit hq _ _ _ | cut hq _ _ _ _ =>
      exact absurd hq (Nat.lt_irrefl _)
  | failure hq hz _ ih =>
    cases h' with
    | rest => exact absurd hq (Nat.lt_irrefl _)
    | failure _ _ hr => exact ih hr
    | same _ hz' _ | limit _ hz' _ _ | cut _ hz' _ _ _ => cases hz.symm.trans hz'
  | same hq hz _ ih =>
    cases h' with
    | rest => exact absurd hq (Nat.lt_irrefl _)
    | failure _ hz' _ => cases hz.symm.trans hz'
    | same _ _ hr => exact ih hr
    | limit _ hz' he _ | cut _ hz' he _ _ =>
      cases hz.symm.trans hz'
      exact absurd rfl he
  | limit hq hz he hlim =>
    cases h' with
    | rest => exact absurd hq (Nat.lt_irrefl _)
    | failure _ hz' _ => cases hz.symm.trans hz'
    | same _ hz' _ =>
      cases hz.symm.trans hz'
      exact absurd rfl he
    | limit _ hz' _ _ =>
      cases hz.symm.trans hz'
      rfl
    | cut _ hz' _ hlim' _ =>
      cases hz.symm.trans hz'
      omega
  | cut hq hz he hlim _ ih =>
    cases h' with
    | rest => exact absurd hq (Nat.lt_irrefl _)
    | failure _ hz' _ => cases hz.symm.trans hz'
    | same _ hz' _ =>
      cases hz.symm.trans hz'
      exact absurd rfl he
    | limit _ hz' _ hlim' =>
      cases hz.symm.trans hz'
      omega
    | cut _ hz' _ _ hr =>
      cases hz.symm.trans hz'
      exact ih hr

lemma Es5Split.unique {r' : List SplitPiece} (h : Es5Split str lim matchAt r)
    (h' : Es5Split str lim matchAt r') : r = r' := by
  cases h with
  | emptyMatch hs hz =>
    cases h' with
    | emptyMatch _ _ => rfl
    | emptyFailure _ hz' => cases hz.symm.trans hz'
    | nonempty hs' _ => exact absurd hs hs'
  | emptyFailure hs hz =>
    cases h' with
    | emptyMatch _ hz' => cases hz.symm.trans hz'
    | emptyFailure _ _ => rfl
    | nonempty hs' _ => exact absurd hs hs'
  | nonempty hs hr =>
    cases h' with
    | emptyMatch hs' _ | emptyFailure hs' _ => exact absurd hs' hs
    | nonempty _ hr' => exact hr.unique hr'

/-- With a matcher that finds the leftmost match, the helper does what the specification says. -/
lemma splitHelper_spec (hbound : Bounded str matchAt)
    (hleft : IsLeftmost str matchAt splitMatch) (hlim : 0 < lim) :
    ∃ r, splitHelper str lim splitMatch = some r ∧ Es5Split str lim matchAt r := by
  rw [splitHelper]
  by_cases hempty : str.length = 0
  · rw [if_pos hempty]
    have hnil : str = [] := length_eq_zero_iff.mp hempty
    obtain ⟨result, heq, hresult⟩ := hleft 0 (.inl rfl)
    rw [heq]
    cases hresult with
    | failure hnone => exact ⟨_, rfl, .emptyFailure hnil (hnone 0 (Nat.le_refl 0) (Nat.zero_le _))⟩
    | @found m e cap hle hm hnone =>
      obtain ⟨hme, hes⟩ := hbound m e cap hm
      obtain rfl : m = 0 := by omega
      exact ⟨_, rfl, .emptyMatch hnil hm⟩
  · rw [if_neg hempty]
    have hne : str ≠ [] := fun h => hempty (length_eq_zero_iff.mpr h)
    obtain ⟨r, hloop, hr⟩ := splitLoop_spec (q := 0) (p := 0) (A := []) hbound hleft
      (2 * str.length + 1) (Nat.zero_le _) (Nat.le_refl 0) hlim (by simp)
    exact ⟨r, hloop, .nonempty hne hr⟩

/-! ## A string separator -/

variable {sep : List Jschar}

lemma stringSplitMatch_bounded : Bounded str (stringSplitMatch str sep) := by
  intro q e cap h
  rw [stringSplitMatch] at h
  split_ifs at h with hmatch
  obtain ⟨rfl, rfl⟩ := Prod.mk.inj (Option.some.inj h)
  exact ⟨Nat.le_add_right q _, hmatch.1⟩

/-- An occurrence in what is left of the string is one in the string. -/
lemma occursAt_drop_iff (index i : Nat) :
    OccursAt sep (str.drop index) i ↔ OccursAt sep str (index + i) := by
  rw [OccursAt, drop_drop, OccursAt]

lemma splitStringMatcher_isLeftmost (platform : Platform) :
    IsLeftmost str (stringSplitMatch str sep) (splitStringMatcher platform str sep) := by
  intro index hindex
  obtain ⟨m, hmatch, hfinds⟩ := stringMatch_finds platform (str.drop index) sep
  rw [splitStringMatcher, if_pos hindex, hmatch]
  cases hfinds with
  | absent hno =>
    refine ⟨none, rfl, .failure fun q hq _ => ?_⟩
    rw [stringSplitMatch, if_neg]
    rintro ⟨-, hocc⟩
    apply hno (q - index)
    rw [occursAt_drop_iff, Nat.add_sub_cancel' hq]
    exact hocc
  | found i hocc hbefore =>
    have hne : (i : Int) ≠ -1 := by omega
    have hend : ((index : Int) + i + sep.length).toNat = index + i + sep.length := by omega
    have hlen := List.IsPrefix.length_le hocc
    rw [length_drop, length_drop] at hlen
    have hroom : index + i + sep.length ≤ str.length := by
      -- an empty separator is found at once
      rcases Nat.eq_zero_or_pos i with rfl | hi
      · omega
      · have hpat : sep ≠ [] := by
          rintro rfl
          exact hbefore 0 hi nil_prefix
        have := hocc.length_le hpat
        rw [length_drop] at this
        have := length_pos_iff.mpr hpat
        omega
    refine ⟨some ⟨index + i + sep.length - (index + i), index + i + sep.length, []⟩, ?_,
      .found (Nat.le_add_right index i) ?_ ?_⟩
    · simp only [if_neg hne, hend, Nat.add_sub_cancel_left]
    · rw [stringSplitMatch, if_pos ⟨hroom, (occursAt_drop_iff index i).mp hocc⟩]
    · intro q hq hlt
      rw [stringSplitMatch, if_neg]
      rintro ⟨-, hocc'⟩
      apply hbefore (q - index) (by omega)
      rw [occursAt_drop_iff, Nat.add_sub_cancel' hq]
      exact hocc'

/-! ## Joining the pieces -/

/-- A last piece with a separator in it may be cut there. -/
lemma intercalate_cut (pieces : List (List Jschar)) (front back : List Jschar) :
    sep.intercalate (pieces ++ [front, back]) =
      sep.intercalate (pieces ++ [front ++ sep ++ back]) := by
  induction pieces with
  | nil => simp [List.intercalate]
  | cons a pieces ih =>
    cases pieces with
    | nil => simp [List.intercalate]
    | cons b pieces =>
      simp only [List.intercalate, cons_append, intersperse_cons_cons, flatten_cons,
        append_cancel_left_eq] at ih ⊢
      exact ih

lemma substring_append {m : Nat} (hpm : p ≤ m) :
    substring str p m ++ str.drop m = str.drop p := by
  have hdrop : str.drop m = (str.drop p).drop (m - p) := by
    rw [drop_drop, Nat.add_sub_cancel' hpm]
  rw [substring, hdrop, take_append_drop]

/-- With room for all pieces, what has been cut off and the rest join to the string throughout. -/
lemma Es5SplitFrom.join (h : Es5SplitFrom str lim (stringSplitMatch str sep) q p A r)
    (hlim : str.length + 1 < lim) (pieces : List (List Jschar)) (hA : A = pieces.map some)
    (hcount : pieces.length ≤ p) (hpq : p ≤ q)
    (hjoin : sep.intercalate (pieces ++ [str.drop p]) = str) :
    ∃ pieces, r = pieces.map some ∧ sep.intercalate pieces = str := by
  induction h generalizing pieces with
  | @rest p A =>
    refine ⟨pieces ++ [substring str p str.length], by simp [hA], ?_⟩
    have hrest : substring str p str.length ++ str.drop str.length = str.drop p :=
      substring_append hpq
    rw [drop_length, append_nil] at hrest
    rwa [hrest]
  | failure _ _ _ ih => exact ih pieces hA hcount (by omega) hjoin
  | same _ _ _ ih => exact ih pieces hA hcount (by omega) hjoin
  | @limit q p A e cap hq hz he hfull =>
    -- there is room for one piece at each position
    have hlen : A.length = pieces.length := by rw [hA, length_map]
    rw [stringSplitMatch] at hz
    split_ifs at hz
    obtain ⟨-, rfl⟩ := Prod.mk.inj (Option.some.inj hz)
    rw [length_append, length_singleton] at hfull
    omega
  | @cut q p A r e cap hq hz he _ _ ih =>
    rw [stringSplitMatch] at hz
    split_ifs at hz with hmatch
    obtain ⟨rfl, rfl⟩ := Prod.mk.inj (Option.some.inj hz)
    obtain ⟨hroom, back, hback⟩ := hmatch
    have hdrop : str.drop (q + sep.length) = back := by
      rw [← drop_drop, ← hback, drop_left]
    apply ih (pieces ++ [substring str p q]) (by simp [hA]) ?_ (Nat.le_refl _)
    · rw [append_assoc, hdrop]
      change sep.intercalate (pieces ++ [substring str p q, back]) = str
      rw [intercalate_cut, append_assoc, hback, substring_append hpq, hjoin]
    · rw [length_append, length_singleton]
      omega

lemma Es5Split.join (h : Es5Split str lim (stringSplitMatch str sep) r)
    (hlim : str.length + 1 < lim) :
    ∃ pieces, r = pieces.map some ∧ sep.intercalate pieces = str := by
  cases h with
  | emptyMatch hs _ => exact ⟨[], rfl, by simp [hs, List.intercalate]⟩
  | emptyFailure hs _ => exact ⟨[str], rfl, by simp [List.intercalate]⟩
  | nonempty _ hr =>
    refine hr.join hlim [] rfl (Nat.le_refl 0) (Nat.le_refl 0) ?_
    simp [List.intercalate]

/-! ## The helper -/

/-- `UINT32_MAX`, the limit of a call without one. -/
def noLimit : Nat := 2 ^ 32 - 1

/-- For a matcher that finds the leftmost match, and for every string separator, the helper
returns, with all its assertions holding, what the specification says, and nothing else is what it
says; without a limit the pieces between the separators join to the string. -/
theorem splitHelper_exact (str : List Jschar) (platform : Platform) {limit : Nat}
    (hlimit : 0 < limit) :
    (∀ matchAt splitMatch, Bounded str matchAt → IsLeftmost str matchAt splitMatch →
        ∃ r, splitHelper str limit splitMatch = some r ∧
          ∀ r', Es5Split str limit matchAt r' ↔ r' = r) ∧
      ∀ sep, (∃ r, splitHelper str limit (splitStringMatcher platform str sep) = some r ∧
          ∀ r', Es5Split str limit (stringSplitMatch str sep) r' ↔ r' = r) ∧
        (str.length ≤ maxStringLength →
          ∃ pieces, splitHelper str noLimit (splitStringMatcher platform str sep) =
            some (pieces.map some) ∧ sep.intercalate pieces = str) := by
  have hgeneral : ∀ matchAt splitMatch, Bounded str matchAt → IsLeftmost str matchAt splitMatch →
      ∃ r, splitHelper str limit splitMatch = some r ∧
        ∀ r', Es5Split str limit matchAt r' ↔ r' = r := by
    intro matchAt splitMatch hbound hleft
    obtain ⟨r, heq, hr⟩ := splitHelper_spec hbound hleft hlimit
    refine ⟨r, heq, fun r' => ⟨fun h => h.unique hr, ?_⟩⟩
    rintro rfl
    exact hr
  refine ⟨hgeneral, fun sep => ⟨?_, fun hlength => ?_⟩⟩
  · exact hgeneral _ _ stringSplitMatch_bounded (splitStringMatcher_isLeftmost platform)
  · have hmany : str.length + 1 < noLimit := by
      rw [maxStringLength] at hlength
      rw [noLimit]
      omega
    obtain ⟨r, heq, hr⟩ :
        ∃ r, splitHelper str noLimit (splitStringMatcher platform str sep) = some r ∧
          Es5Split str noLimit (stringSplitMatch str sep) r :=
      splitHelper_spec stringSplitMatch_bounded (splitStringMatcher_isLeftmost platform)
        (by decide)
    obtain ⟨pieces, rfl, hjoin⟩ := hr.join hmany
    exact ⟨pieces, heq, hjoin⟩

/-- An expression that matches the empty string everywhere. -/
theorem splitHelper_exact_empty :
    ∃ r, splitHelper [97, 98] 5 (fun index => some (some ⟨0, index, []⟩)) = some r ∧
      ∀ r', Es5Split [97, 98] 5 (fun q => if q ≤ 2 then some (q, []) else none) r' ↔ r' = r := by
  refine (splitHelper_exact [97, 98] ⟨false, false⟩ (by decide)).1 _ _ ?_ ?_
  · intro q e cap h
    dsimp only at h
    split_ifs at h with hq
    obtain ⟨rfl, rfl⟩ := Prod.mk.inj (Option.some.inj h)
    exact ⟨Nat.le_refl q, hq⟩
  · intro index hindex
    have hle : index ≤ 2 := by
      rcases hindex with rfl | h
      · decide
      · exact Nat.le_of_lt h
    refine ⟨_, rfl, ?_⟩
    have hfound : Leftmost [97, 98] (fun q => if q ≤ 2 then some (q, []) else none) index
        (some ⟨index - index, index, []⟩) :=
      .found (Nat.le_refl index) (if_pos hle) fun q hq hlt => absurd hlt (Nat.not_lt.mpr hq)
    rwa [Nat.sub_self] at hfound

example : splitHelper [97, 98] 5 (fun index => some (some ⟨0, index, []⟩)) =
    some [some [97], some [98]] := by
  decide

end SpiderMonkey.Vm
