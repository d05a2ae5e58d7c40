import SpiderMonkey.Vm.CloneReader
import SpiderMonkey.Vm.Replace

/-! # The dollars of a replacement

A replacement string is a list of tokens: code units that stand for themselves, and dollars with
what follows them. Both expanders are compared with that.
-/

namespace SpiderMonkey.Vm

open List Option

open SpiderMonkey.StructuredClone (maxStringLength)

/-! ## Tokens -/

inductive DollarToken where
  | unit (c : Jschar)
  | dollar
  | lastMatch
  | lastParen
  | leftContext
  | rightContext
  | paren (num : Nat)
  deriving DecidableEq, Repr

/-- The number of a capture, of one digit or of two, and what follows it. -/
def parenAt (parenCount : Nat) (d : Jschar) (rest : List Jschar) : Option (Nat × List Jschar) :=
  let one := (unDec d).toNat
  if parenCount < one then none
  else
    match rest with
    | [] => if one = 0 then none else some (one, [])
    | e :: rest =>
      let two := 10 * one + (unDec e).toNat
      if isDec e ∧ two ≤ parenCount then if two = 0 then none else some (two, rest)
      else if one = 0 then none else some (one, e :: rest)

/-- The token that begins with `c`, and what follows it. -/
def tokenAt (parenCount : Nat) (c : Jschar) (rest : List Jschar) : DollarToken × List Jschar :=
  if c ≠ 36 then (.unit c, rest)
  else
    match rest with
    | [] => (.unit 36, [])
    | d :: rest =>
      if isDec d then
        match parenAt parenCount d rest with
        | none => (.unit 36, d :: rest)
        | some (num, rest) => (.paren num, rest)
      else if d = 36 then (.dollar, rest)
      else if d = 38 then (.lastMatch, rest)
      else if d = 43 then (.lastParen, rest)
      else if d = 96 then (.leftContext, rest)
      else if d = 39 then (.rightContext, rest)
      else (.unit 36, d :: rest)

lemma parenAt_length {parenCount num : Nat} {d : Jschar} {rest rest' : List Jschar}
    (h : parenAt parenCount d rest = some (num, rest')) : rest'.length ≤ rest.length := by
  unfold parenAt at h
  cases rest with
  | nil =>
    dsimp only at h
    split_ifs at h
    obtain ⟨-, rfl⟩ := Prod.mk.inj (Option.some.inj h)
    exact Nat.le_refl _
  | cons e rest =>
    dsimp only at h
    split_ifs at h <;> obtain ⟨-, rfl⟩ := Prod.mk.inj (Option.some.inj h) <;> simp

lemma tokenAt_length (parenCount : Nat) (c : Jschar) (rest : List Jschar) :
    (tokenAt parenCount c rest).2.length ≤ rest.length := by
  unfold tokenAt
  cases rest with
  | nil => split_ifs <;> exact Nat.le_refl _
  | cons d rest =>
    dsimp only
    cases hparen : parenAt parenCount d rest with
    | none => split_ifs <;> simp
    | some found =>
      have := parenAt_length hparen
      split_ifs <;> (simp; try omega)

def tokenize (parenCount : Nat) : List Jschar → List DollarToken
  | [] => []
  | c :: rest =>
    (tokenAt parenCount c rest).1 :: tokenize parenCount (tokenAt parenCount c rest).2
termination_by l => l.length
decreasing_by exact Nat.lt_succ_of_le (tokenAt_length parenCount c rest)

lemma tokenize_cons {parenCount : Nat} {c : Jschar} {rest rest' : List Jschar} {t : DollarToken}
    (h : tokenAt parenCount c rest = (t, rest')) :
    tokenize parenCount (c :: rest) = t :: tokenize parenCount rest' := by
  rw [tokenize, h]

/-- What a token stands for after a match. -/
def DollarToken.text (res : RegExpStatics) : DollarToken → List Jschar
  | .unit c => [c]
  | .dollar => [36]
  | .lastMatch => res.getLastMatch
  | .lastParen => res.getLastParen.getD []
  | .leftContext => res.getLeftContext
  | .rightContext => res.getRightContext
  | .paren num => (res.getParen num).getD []

def expansion (res : RegExpStatics) (repstr : List Jschar) : List Jschar :=
  (tokenize res.parenCount repstr).flatMap (·.text res)

/-! ## InterpretDollar -/

section Expansion

variable {res : RegExpStatics}

lemma expansion_nil : expansion res [] = [] := by
  rw [expansion, tokenize, flatMap_nil]

lemma expansion_cons (c : Jschar) (rest : List Jschar) :
    expansion res (c :: rest) = (tokenAt res.parenCount c rest).1.text res ++
      expansion res (tokenAt res.parenCount c rest).2 := by
  rw [expansion, tokenize, flatMap_cons, ← expansion]

/-- A pair of a capture is there for every number up to the count. -/
lemma getParen_isSome {num : Nat} (hpos : num ≠ 0) (hle : num ≤ res.parenCount) :
    ∃ out, res.getParen num = some out := by
  have hlen : num < res.matchPairs.length := by
    rw [RegExpStatics.parenCount] at hle
    omega
  rw [RegExpStatics.getParen, if_pos (by omega), List.getElem?_eq_getElem hlen]
  cases res.matchPairs[num] with
  | none => exact ⟨[], rfl⟩
  | some pair => exact ⟨_, rfl⟩

lemma getLastParen_isSome (res : RegExpStatics) : ∃ out, res.getLastParen = some out := by
  rw [RegExpStatics.getLastParen]
  by_cases hone : res.matchPairs.length ≤ 1
  · exact ⟨[], if_pos hone⟩
  · rw [if_neg hone]
    exact getParen_isSome (by omega) (Nat.le_refl _)

/-- What the code finds at a dollar: that it stands for itself, or the token and its length. -/
inductive Interpreted (res : RegExpStatics) (rest : List Jschar) : DollarToken × List Jschar → Prop
  | unit (h : interpretDollar res (36 :: rest) = some none) : Interpreted res rest (.unit 36, rest)
  | token {t rest'} (skip : Nat) (hskip : 2 ≤ skip) (hsmall : skip ≤ 3)
      (hlen : skip ≤ rest.length + 1) (hdrop : (36 :: rest).drop skip = rest')
      (h : interpretDollar res (36 :: rest) = some (some (t.text res, skip))) :
      Interpreted res rest (t, rest')

lemma interpretDollar_isDec {d : Jschar} (hdec : isDec d = true) (rest : List Jschar) {one : Nat}
    (hone : (unDec d).toNat = one) : interpretDollar res (36 :: d :: rest) =
    if res.parenCount < one then some none
    else
      let (num, skip) :=
        match rest with
        | [] => (one, 2)
        | dc :: _ =>
          if isDec dc then
            if 10 * one + (unDec dc).toNat ≤ res.parenCount then
              (10 * one + (unDec dc).toNat, 3)
            else (one, 2)
          else (one, 2)
      if num = 0 then some none
      else if num ≤ res.parenCount then do
        let out ← res.getParen num
        return some (out, skip)
      else none := by
  subst hone
  rw [interpretDollar, if_neg (not_not_intro rfl)]
  exact if_pos hdec

lemma interpretDollar_digit {d : Jschar} (hdec : isDec d = true) (rest : List Jschar) :
    Interpreted res (d :: rest)
      (match parenAt res.parenCount d rest with
        | none => (.unit 36, d :: rest)
        | some (num, rest) => (.paren num, rest)) := by
  have htoken : ∀ {num skip : Nat} {rest' : List Jschar}, num ≠ 0 → num ≤ res.parenCount →
      2 ≤ skip → skip ≤ 3 → skip ≤ (d :: rest).length + 1 →
      (36 :: d :: rest).drop skip = rest' →
      (interpretDollar res (36 :: d :: rest) = do
        let out ← res.getParen num
        return some (out, skip)) → Interpreted res (d :: rest) (.paren num, rest') := by
    intro num skip rest' hnum hle h2 h3 hlen hdrop heq
    obtain ⟨out, hout⟩ := getParen_isSome hnum hle
    refine .token skip h2 h3 hlen hdrop ?_
    rw [heq, hout, DollarToken.text, hout]
    rfl
  have hcode : interpretDollar res (36 :: d :: rest) = _ := interpretDollar_isDec hdec rest rfl
  unfold parenAt
  generalize (unDec d).toNat = one at hcode ⊢
  by_cases hmany : res.parenCount < one
  · rw [if_pos hmany] at hcode ⊢
    exact .unit hcode
  rw [if_neg hmany] at hcode ⊢
  cases rest with
  | nil =>
    dsimp only at hcode ⊢
    by_cases hzero : one = 0
    · rw [if_pos hzero] at hcode ⊢
      exact .unit hcode
    · rw [if_neg hzero, if_pos (by omega)] at hcode
      rw [if_neg hzero]
      exact htoken hzero (by omega) (by decide) (by decide) (by simp) rfl hcode
  | cons e rest =>
    dsimp only at hcode ⊢
    by_cases htwo : isDec e = true ∧ 10 * one + (unDec e).toNat ≤ res.parenCount
    · rw [if_pos htwo.1, if_pos htwo.2] at hcode
      rw [if_pos htwo]
      dsimp only at hcode
      by_cases hzero : 10 * one + (unDec e).toNat = 0
      · rw [if_pos hzero] at hcode ⊢
        exact .unit hcode
      · rw [if_neg hzero, if_pos htwo.2] at hcode
        rw [if_neg hzero]
        exact htoken hzero htwo.2 (by decide) (by decide) (by simp) rfl hcode
    · have hone : (if isDec e = true then
            if 10 * one + (unDec e).toNat ≤ res.parenCount then (10 * one + (unDec e).toNat, 3)
            else (one, 2)
          else (one, 2)) = (one, 2) := by
        split_ifs with hdec' hle
        · exact absurd ⟨hdec', hle⟩ htwo
        · rfl
        · rfl
      rw [hone] at hcode
      rw [if_neg htwo]
      dsimp only at hcode
      by_cases hzero : one = 0
      · rw [if_pos hzero] at hcode ⊢
        exact .unit hcode
      · rw [if_neg hzero, if_pos (by omega)] at hcode
        rw [if_neg hzero]
        exact htoken hzero (by omega) (by decide) (by decide) (by simp) rfl hcode

lemma interpretDollar_spec (res : RegExpStatics) (rest : List Jschar) :
    Interpreted res rest (tokenAt res.parenCount 36 rest) := by
  unfold tokenAt
  rw [if_neg (not_not_intro rfl)]
  cases rest with
  | nil => exact .unit rfl
  | cons d rest =>
    dsimp only
    by_cases hdec : isDec d = true
    · rw [if_pos hdec]
      exact interpretDollar_digit hdec rest
    rw [if_neg hdec]
    have hcode : interpretDollar res (36 :: d :: rest) =
        if d = 36 then some (some ([36], 2))
        else if d = 38 then some (some (res.getLastMatch, 2))
        else if d = 43 then do
          let out ← res.getLastParen
          return some (out, 2)
        else if d = 96 then some (some (res.getLeftContext, 2))
        else if d = 39 then some (some (res.getRightContext, 2))
        else some none := by
      rw [interpretDollar, if_neg (not_not_intro rfl)]
      exact if_neg hdec
    obtain ⟨last, hlast⟩ := getLastParen_isSome res
    split_ifs at hcode ⊢ with h1 h2 h3 h4 h5
    · exact .token 2 (by decide) (by decide) (by simp) rfl hcode
    · exact .token 2 (by decide) (by decide) (by simp) rfl hcode
    · refine .token 2 (by decide) (by decide) (by simp) rfl ?_
      rw [hcode, hlast, DollarToken.text, hlast]
      rfl
    · exact .token 2 (by decide) (by decide) (by simp) rfl hcode
    · exact .token 2 (by decide) (by decide) (by simp) rfl hcode
    · exact .unit hcode

/-! ## The length pass and the append pass -/

lemma tokenAt_unit (parenCount : Nat) {c : Jschar} (hc : c ≠ 36) (rest : List Jschar) :
    tokenAt parenCount c rest = (.unit c, rest) := by
  unfold tokenAt
  rw [if_pos hc]

/-- Up to the first dollar everything stands for itself. -/
lemma expansion_append {pre : List Jschar} (hpre : 36 ∉ pre) (s : List Jschar) :
    expansion res (pre ++ s) = pre ++ expansion res s := by
  induction pre with
  | nil => rfl
  | cons c pre ih =>
    rw [mem_cons, not_or] at hpre
    rw [cons_append, expansion_cons, tokenAt_unit _ (Ne.symm hpre.1), ih hpre.2]
    rfl

/-- What is left from a pointer on; nothing if it is null. -/
def leftFrom (dp : Option (List Jschar)) : List Jschar := dp.getD []

/-- Before what `js_strchr_limit` points at there is no dollar. -/
lemma strchrLimit_split (s : List Jschar) :
    ∃ pre, 36 ∉ pre ∧ s = pre ++ leftFrom (strchrLimit 36 s) := by
  induction s with
  | nil => exact ⟨[], not_mem_nil, rfl⟩
  | cons a s ih =>
    rw [strchrLimit]
    by_cases ha : a = 36
    · rw [if_pos ha]
      exact ⟨[], not_mem_nil, rfl⟩
    · obtain ⟨pre, hpre, hs⟩ := ih
      rw [if_neg ha]
      refine ⟨a :: pre, by simp [hpre, Ne.symm ha], ?_⟩
      rw [cons_append, ← hs]

/-- A pointer that is not null points at a dollar. -/
def AtDollar (dp : Option (List Jschar)) : Prop := ∀ s, dp = some s → ∃ rest, s = 36 :: rest

lemma atDollar_strchrLimit (s : List Jschar) : AtDollar (strchrLimit 36 s) := by
  induction s with
  | nil => exact nofun
  | cons a s ih =>
    rw [strchrLimit]
    by_cases ha : a = 36
    · rw [if_pos ha]
      rintro d ⟨⟩
      exact ⟨s, by rw [ha]⟩
    · rw [if_neg ha]
      exact ih

lemma expansion_strchrLimit (res : RegExpStatics) (s : List Jschar) :
    ∃ pre, s = pre ++ leftFrom (strchrLimit 36 s) ∧
      expansion res s = pre ++ expansion res (leftFrom (strchrLimit 36 s)) := by
  obtain ⟨pre, hpre, hs⟩ := strchrLimit_split s
  refine ⟨pre, hs, ?_⟩
  rw [← expansion_append hpre, ← hs]

lemma length_leftFrom_le (s : List Jschar) :
    (leftFrom (strchrLimit 36 s)).length ≤ s.length := by
  obtain ⟨pre, -, hs⟩ := strchrLimit_split s
  have := congrArg List.length hs
  rw [length_append] at this
  omega

/-- Two appends are the append of both. -/
lemma infallibleAppend_append (sb : ReservedBuffer) (a b : List Jschar) :
    (do let sb ← sb.infallibleAppend a; sb.infallibleAppend b) = sb.infallibleAppend (a ++ b) := by
  simp only [ReservedBuffer.infallibleAppend, length_append, ← Nat.add_assoc]
  by_cases ha : sb.chars.length + a.length ≤ sb.reserved
  · rw [if_pos ha]
    simp only [bind_eq_bind, bind_some, length_append, append_assoc]
  · rw [if_neg ha, if_neg (by omega)]
    rfl

/-- The append pass appends the expansion. -/
lemma doReplaceLoop_spec (fuel : Nat) (lit : List Jschar) {dp : Option (List Jschar)}
    (hdp : AtDollar dp) (hfuel : (leftFrom dp).length < fuel) (sb : ReservedBuffer) :
    doReplaceLoop res fuel (lit ++ leftFrom dp) dp sb =
      sb.infallibleAppend (lit ++ expansion res (leftFrom dp)) := by
  induction fuel generalizing lit dp sb with
  | zero => omega
  | succ fuel ih =>
    cases dp with
    | none =>
      rw [doReplaceLoop, leftFrom, getD_none, expansion_nil]
    | some d =>
      obtain ⟨rest, rfl⟩ := hdp d rfl
      have htake : (lit ++ 36 :: rest).take
          ((lit ++ 36 :: rest).length - (36 :: rest).length) = lit := by
        rw [length_append, Nat.add_sub_cancel, take_left]
      rw [doReplaceLoop]
      simp only [leftFrom, getD_some, length_cons] at hfuel ⊢
      simp only [length_cons] at htake
      rw [htake, expansion_cons]
      have hspec := interpretDollar_spec res rest
      revert hspec
      cases tokenAt res.parenCount 36 rest with
      | mk t rest' =>
        rintro (hcode | ⟨skip, h2, h3, hlen, hdrop, hcode⟩)
        · -- the dollar stays with the code units that are appended later
          obtain ⟨pre, hs, hexp⟩ := expansion_strchrLimit res rest
          have hnext := ih (36 :: pre) (atDollar_strchrLimit rest)
            (by have := length_leftFrom_le rest; omega)
          rw [cons_append, ← hs, cons_append, ← hexp] at hnext
          simp only [hcode, bind_eq_bind, bind_some, drop_succ_cons,
            drop_zero, hnext]
          exact infallibleAppend_append sb lit _
        · obtain ⟨pre, hs, hexp⟩ := expansion_strchrLimit res rest'
          have hshort := congrArg List.length hdrop
          rw [length_drop, length_cons] at hshort
          have hnext := ih pre (atDollar_strchrLimit rest')
            (by have := length_leftFrom_le rest'; omega)
          rw [← hs, ← hexp] at hnext
          simp only [hcode, bind_eq_bind, bind_some, hdrop, hnext]
          rw [← infallibleAppend_append sb lit]
          simp only [bind_eq_bind, ← infallibleAppend_append _ (t.text res)]

/-- The append pass from the start. -/
lemma doReplace_eq (repstr : List Jschar) (sb : ReservedBuffer) :
    doReplace res repstr sb = sb.infallibleAppend (expansion res repstr) := by
  obtain ⟨pre, hs, hexp⟩ := expansion_strchrLimit res repstr
  have hloop : doReplaceLoop res (repstr.length + 1)
      (pre ++ leftFrom (strchrLimit 36 repstr)) (strchrLimit 36 repstr) sb = _ :=
    doReplaceLoop_spec _ pre (atDollar_strchrLimit repstr)
      (Nat.lt_succ_of_le (length_leftFrom_le repstr)) sb
  rwa [← hs, ← hexp] at hloop

/-- The length pass counts the expansion, as far as a `size_t` can. -/
lemma findLengthLoop_spec (res : RegExpStatics) (fuel : Nat) {w replen : Nat} (hw : 2 ≤ w)
    {dp : Option (List Jschar)}
    (hdp : AtDollar dp) (hfuel : (leftFrom dp).length < fuel) (hreplen : replen < 2 ^ w) :
    ∃ n, findLengthLoop res w fuel dp replen = some n ∧ n < 2 ^ w ∧
      n + (leftFrom dp).length ≡ replen + (expansion res (leftFrom dp)).length [MOD 2 ^ w] := by
  induction fuel generalizing dp replen with
  | zero => omega
  | succ fuel ih =>
    cases dp with
    | none =>
      refine ⟨replen, by rw [findLengthLoop], hreplen, ?_⟩
      rw [leftFrom, getD_none, expansion_nil]
    | some d =>
      obtain ⟨rest, rfl⟩ := hdp d rfl
      rw [findLengthLoop]
      simp only [leftFrom, getD_some, length_cons] at hfuel ⊢
      rw [expansion_cons]
      have hspec := interpretDollar_spec res rest
      revert hspec
      cases tokenAt res.parenCount 36 rest with
      | mk t rest' =>
        rintro (hcode | ⟨skip, h2, h3, hlen, hdrop, hcode⟩)
        · obtain ⟨pre, hs, hexp⟩ := expansion_strchrLimit res rest
          obtain ⟨n, heq, hlt, hmod⟩ := ih (atDollar_strchrLimit rest)
            (by have := length_leftFrom_le rest; omega) hreplen
          refine ⟨n, ?_, hlt, ?_⟩
          · simp only [hcode, bind_eq_bind, bind_some, drop_succ_cons,
              drop_zero, heq]
          · have hlens := congrArg List.length hs
            have hlene := congrArg List.length hexp
            rw [length_append] at hlens hlene
            have h1 : n + (rest.length + 1) =
                n + (leftFrom (strchrLimit 36 rest)).length + (pre.length + 1) := by omega
            have h2 : replen + ([36] ++ expansion res rest).length = replen +
                (expansion res (leftFrom (strchrLimit 36 rest))).length + (pre.length + 1) := by
              rw [length_append, length_singleton]
              omega
            change _ ≡ replen + ([36] ++ expansion res rest).length [MOD 2 ^ w]
            rw [h1, h2]
            exact hmod.add_right _
        · obtain ⟨pre, hs, hexp⟩ := expansion_strchrLimit res rest'
          have hshort := congrArg List.length hdrop
          rw [length_drop, length_cons] at hshort
          obtain ⟨n, heq, hlt, hmod⟩ := ih (atDollar_strchrLimit rest')
            (by have := length_leftFrom_le rest'; omega)
            (Nat.mod_lt (replen + ((t.text res).length + (2 ^ w - skip))) (Nat.two_pow_pos w))
          refine ⟨n, ?_, hlt, ?_⟩
          · simp only [hcode, bind_eq_bind, bind_some, hdrop, heq]
          · have hlens := congrArg List.length hs
            have hlene := congrArg List.length hexp
            rw [length_append] at hlens hlene
            have hpow : skip ≤ 2 ^ w :=
              Nat.le_trans (Nat.le_trans h3 (by decide)) (Nat.pow_le_pow_right (by decide) hw)
            have hsum : n + (rest.length + 1) =
                n + (leftFrom (strchrLimit 36 rest')).length + (skip + pre.length) := by omega
            have hsub : replen + ((t.text res).length + (2 ^ w - skip)) + skip =
                replen + (t.text res).length + 2 ^ w := by omega
            rw [length_append, hsum, hlene]
            calc n + (leftFrom (strchrLimit 36 rest')).length + (skip + pre.length)
                ≡ replen + ((t.text res).length + (2 ^ w - skip)) +
                    (expansion res (leftFrom (strchrLimit 36 rest'))).length +
                    (skip + pre.length) [MOD 2 ^ w] :=
                  (hmod.trans ((Nat.mod_modEq _ _).add_right _)).add_right _
              _ = replen + ((t.text res).length +
                    (pre.length + (expansion res (leftFrom (strchrLimit 36 rest'))).length)) +
                    2 ^ w := by omega
              _ ≡ _ [MOD 2 ^ w] := Nat.add_modEq_right

/-- The length pass from the start. -/
lemma findReplaceLength_spec {w : Nat} (hw : 2 ≤ w) {repstr : List Jschar}
    (hlen : repstr.length < 2 ^ w) :
    findReplaceLength res w repstr = some ((expansion res repstr).length % 2 ^ w) := by
  obtain ⟨pre, hs, hexp⟩ := expansion_strchrLimit res repstr
  obtain ⟨n, heq, hlt, hmod⟩ := findLengthLoop_spec res (repstr.length + 1) hw
    (atDollar_strchrLimit repstr) (Nat.lt_succ_of_le (length_leftFrom_le repstr)) hlen
  have hlens := congrArg List.length hs
  have hlene := congrArg List.length hexp
  rw [length_append] at hlens hlene
  have hsum : repstr.length + (expansion res (leftFrom (strchrLimit 36 repstr))).length =
      (expansion res repstr).length + (leftFrom (strchrLimit 36 repstr)).length := by omega
  rw [hsum] at hmod
  have hmod' : n ≡ (expansion res repstr).length [MOD 2 ^ w] := hmod.add_right_cancel' _
  rw [findReplaceLength, heq, ← Nat.mod_eq_of_lt hlt, hmod']

/-! ## The callback -/

lemma newDependentString_some_iff {base sub : List Jschar} {start length : Nat} :
    newDependentString base start length = some sub ↔
      start + length ≤ base.length ∧ (base.drop start).take length = sub := by
  rw [newDependentString, ite_none_right_eq_some, Option.some.injEq]

/-- The skipped part of the input. -/
def leftPart (res : RegExpStatics) (leftIndex : Nat) : List Jschar :=
  (res.matchPairsInput.drop leftIndex).take (res.matchStart - leftIndex)

lemma whole_valid (res : RegExpStatics) :
    res.matchStart ≤ res.matchLimit ∧ res.matchLimit ≤ res.matchPairsInput.length :=
  res.valid _ _ (mem_of_getElem? res.first)

lemma leftPart_length {leftIndex : Nat} (hleft : leftIndex ≤ res.matchStart) :
    (leftPart res leftIndex).length = res.matchStart - leftIndex := by
  have hvalid := whole_valid res
  rw [leftPart, length_take, length_drop]
  omega

/-- The callback appends the skipped part and the expansion, if it has reserved enough. -/
lemma replaceRegExpCallback_eq {w leftIndex : Nat} (hw : 2 ≤ w) {repstr : List Jschar}
    (hlen : repstr.length < 2 ^ w) (hleft : leftIndex ≤ res.matchStart) (sb : ReservedBuffer) :
    replaceRegExpCallback res w repstr leftIndex sb =
      (sb.reserve ((sb.chars.length + ((res.matchStart - leftIndex +
          (expansion res repstr).length % 2 ^ w) % 2 ^ w)) % 2 ^ w)).infallibleAppend
        (leftPart res leftIndex ++ expansion res repstr) := by
  have hvalid := whole_valid res
  have hsub : newDependentString res.matchPairsInput leftIndex (res.matchStart - leftIndex) =
      some (leftPart res leftIndex) :=
    newDependentString_some_iff.mpr ⟨by omega, rfl⟩
  rw [replaceRegExpCallback, if_neg (by omega)]
  simp only [findReplaceLength_spec hw hlen, bind_eq_bind, bind_some, hsub,
    doReplace_eq]
  exact infallibleAppend_append _ _ _

lemma infallibleAppend_some_iff {sb sb' : ReservedBuffer} {cs : List Jschar} :
    sb.infallibleAppend cs = some sb' ↔
      sb.chars.length + cs.length ≤ sb.reserved ∧ ⟨sb.chars ++ cs, sb.reserved⟩ = sb' := by
  rw [ReservedBuffer.infallibleAppend, ite_none_right_eq_some, Option.some.injEq]

lemma replaceRegExpCallback_chars {w leftIndex : Nat} (hw : 2 ≤ w) {repstr : List Jschar}
    (hlen : repstr.length < 2 ^ w) (hleft : leftIndex ≤ res.matchStart) {sb sb' : ReservedBuffer}
    (h : replaceRegExpCallback res w repstr leftIndex sb = some sb') :
    sb'.chars = sb.chars ++ leftPart res leftIndex ++ expansion res repstr := by
  rw [replaceRegExpCallback_eq hw hlen hleft] at h
  obtain ⟨-, rfl⟩ := infallibleAppend_some_iff.mp h
  exact (append_assoc _ _ _).symm

/-- It succeeds exactly if a `size_t` can count what the buffer comes to hold. -/
lemma replaceRegExpCallback_iff {w leftIndex : Nat} (hw : 2 ≤ w) {repstr : List Jschar}
    (hlen : repstr.length < 2 ^ w) (hleft : leftIndex ≤ res.matchStart) {sb : ReservedBuffer}
    (hsb : sb.reserved < 2 ^ w) :
    (∃ sb', replaceRegExpCallback res w repstr leftIndex sb = some sb') ↔
      sb.chars.length + (res.matchStart - leftIndex) + (expansion res repstr).length < 2 ^ w := by
  have hpart := leftPart_length hleft
  rw [replaceRegExpCallback_eq hw hlen hleft]
  constructor
  · rintro ⟨sb', heq⟩
    obtain ⟨hfit, -⟩ := infallibleAppend_some_iff.mp heq
    simp only [ReservedBuffer.reserve, length_append, hpart] at hfit
    -- no more than a `size_t` says can have been reserved
    have hmod := Nat.mod_lt (sb.chars.length + ((res.matchStart - leftIndex +
      (expansion res repstr).length % 2 ^ w) % 2 ^ w)) (Nat.two_pow_pos w)
    omega
  · intro hfit
    rw [Nat.mod_eq_of_lt (a := (expansion res repstr).length) (by omega),
      Nat.mod_eq_of_lt (a := res.matchStart - leftIndex + _) (by omega),
      Nat.mod_eq_of_lt (by omega)]
    refine ⟨_, infallibleAppend_some_iff.mpr ⟨?_, rfl⟩⟩
    simp only [ReservedBuffer.reserve, length_append, hpart]
    omega

end Expansion

/-! ## Both expanders -/

/-- What the statics say after a match without captures. -/
def RegExpStatics.flat (text : List Jschar) (matchStart patternLength : Nat)
    (h : matchStart + patternLength ≤ text.length) : RegExpStatics where
  matchPairsInput := text
  matchPairs := [some (matchStart, matchStart + patternLength)]
  whole := (matchStart, matchStart + patternLength)
  first := rfl
  valid := by
    intro start limit hmem
    rw [mem_singleton, Option.some.injEq, Prod.mk.injEq] at hmem
    omega

section Flat

variable {text : List Jschar} {matchStart patternLength : Nat}
  (h : matchStart + patternLength ≤ text.length)

/-- What the expander for string patterns makes of a token: a `$+` stays as it is. -/
def DollarToken.flatText (res : RegExpStatics) : DollarToken → List Jschar
  | .lastParen => [36, 43]
  | t => t.text res

/-- Without captures there is no token for one. -/
lemma parenAt_zero (d : Jschar) (rest : List Jschar) : parenAt 0 d rest = none := by
  unfold parenAt
  by_cases hpos : 0 < (unDec d).toNat
  · exact if_pos hpos
  · have hzero : (unDec d).toNat = 0 := Nat.eq_zero_of_not_pos hpos
    cases rest with
    | nil => simp [hzero]
    | cons e rest =>
      dsimp only
      rw [if_neg hpos, hzero]
      by_cases htwo : isDec e = true ∧ 10 * 0 + (unDec e).toNat ≤ 0
      · rw [if_pos htwo, if_pos (Nat.le_zero.mp htwo.2)]
      · rw [if_neg htwo, if_pos rfl]

/-- The expander for string patterns reads the same tokens. -/
lemma dollarLoop_eq (l : List Jschar) :
    dollarLoop text matchStart (matchStart + patternLength) l =
      (tokenize 0 l).flatMap (·.flatText (.flat text matchStart patternLength h)) := by
  induction l using dollarLoop.induct with
  | case1 => rw [dollarLoop, tokenize, flatMap_nil]
  | case2 c =>
    have htoken : tokenAt 0 c [] = (.unit c, []) := by
      unfold tokenAt
      split_ifs with hc
      · rfl
      · rw [not_ne_iff.mp hc]
    rw [dollarLoop, tokenize_cons htoken, tokenize]
    rfl
  | case3 c d it hc ih =>
    rw [dollarLoop, if_pos hc, ih, tokenize_cons (tokenAt_unit 0 hc _), flatMap_cons]
    rfl
  | case4 c it hc ih =>
    obtain rfl := not_ne_iff.mp hc
    rw [dollarLoop, if_neg hc, if_pos rfl, ih, tokenize_cons (t := .dollar) rfl]
    rfl
  | case5 c it hc _ ih =>
    obtain rfl := not_ne_iff.mp hc
    rw [dollarLoop, if_neg hc, if_neg (by decide), if_pos rfl, ih,
      tokenize_cons (t := .lastMatch) rfl]
    rfl
  | case6 c it hc _ _ ih =>
    obtain rfl := not_ne_iff.mp hc
    rw [dollarLoop, if_neg hc, if_neg (by decide), if_neg (by decide), if_pos rfl, ih,
      tokenize_cons (t := .leftContext) rfl]
    rfl
  | case7 c it hc _ _ _ ih =>
    obtain rfl := not_ne_iff.mp hc
    rw [dollarLoop, if_neg hc, if_neg (by decide), if_neg (by decide), if_neg (by decide),
      if_pos rfl, ih, tokenize_cons (t := .rightContext) rfl]
    rfl
  | case8 c d it hc h36 h38 h96 h39 ih =>
    obtain rfl := not_ne_iff.mp hc
    rw [dollarLoop, if_neg hc, if_neg h36, if_neg h38, if_neg h96, if_neg h39, ih]
    by_cases hplus : d = 43
    · -- the dollar is written, and then the plus
      subst hplus
      have hplus : tokenize 0 (36 :: 43 :: it) = .lastParen :: tokenize 0 it := tokenize_cons rfl
      rw [hplus, tokenize_cons (tokenAt_unit 0 (by decide) it)]
      rfl
    · have htoken : tokenAt 0 36 (d :: it) = (.unit 36, d :: it) := by
        unfold tokenAt
        rw [if_neg hc]
        dsimp only
        rw [parenAt_zero, if_neg h36, if_neg h38, if_neg hplus, if_neg h96, if_neg h39]
        exact ite_self _
      rw [tokenize_cons htoken]
      rfl

/-- Each `$+` makes a difference of two code units. -/
lemma flatText_length (tokens : List DollarToken) :
    (tokens.flatMap (·.flatText (.flat text matchStart patternLength h))).length =
      (tokens.flatMap (·.text (.flat text matchStart patternLength h))).length +
        2 * tokens.count .lastParen := by
  induction tokens with
  | nil => rfl
  | cons t tokens ih =>
    rw [flatMap_cons, flatMap_cons, length_append, length_append, ih,
      count_cons]
    cases t with
    | lastParen =>
      have hlast : (DollarToken.lastParen.text (.flat text matchStart patternLength h)) = [] := rfl
      rw [hlast, if_pos (by decide)]
      simp only [DollarToken.flatText, length_cons, length_nil]
      omega
    | unit _ | dollar | lastMatch | leftContext | rightContext | paren _ =>
      rw [if_neg (by simp)]
      simp only [DollarToken.flatText]
      omega

lemma flatText_eq_of_not_mem {tokens : List DollarToken} (hno : .lastParen ∉ tokens) :
    tokens.flatMap (·.flatText (.flat text matchStart patternLength h)) =
      tokens.flatMap (·.text (.flat text matchStart patternLength h)) := by
  refine flatMap_congr fun t ht => ?_
  cases t with
  | lastParen => exact absurd ht hno
  | unit _ | dollar | lastMatch | leftContext | rightContext | paren _ => rfl

/-- The expansions agree exactly if no token is a `$+`. -/
lemma dollarLoop_eq_expansion_iff (repstr : List Jschar) :
    dollarLoop text matchStart (matchStart + patternLength) repstr =
        expansion (.flat text matchStart patternLength h) repstr ↔
      .lastParen ∉ tokenize 0 repstr := by
  rw [dollarLoop_eq h]
  constructor
  · intro heq hmem
    have hlen := congrArg List.length heq
    have hexp : expansion (.flat text matchStart patternLength h) repstr =
        (tokenize 0 repstr).flatMap (·.text (.flat text matchStart patternLength h)) := rfl
    rw [flatText_length, hexp] at hlen
    have hpos := count_pos_iff.mpr hmem
    omega
  · exact flatText_eq_of_not_mem h

include h in
lemma dollarLoop_append {pre : List Jschar} (hpre : 36 ∉ pre) (s : List Jschar) :
    dollarLoop text matchStart (matchStart + patternLength) (pre ++ s) =
      pre ++ dollarLoop text matchStart (matchStart + patternLength) s := by
  rw [dollarLoop_eq h, dollarLoop_eq h]
  induction pre with
  | nil => rfl
  | cons c pre ih =>
    rw [mem_cons, not_or] at hpre
    rw [cons_append, tokenize_cons (tokenAt_unit 0 (Ne.symm hpre.1) _), flatMap_cons,
      ih hpre.2]
    rfl

include h in
/-- The expander for string patterns returns, and what. -/
lemma buildDollarReplacement_eq {textstr : RopeString} (htext : textstr.chars = text)
    {repstr dollar : List Jschar} (hdollar : strchrLimit 36 repstr = some dollar) :
    buildDollarReplacement true textstr repstr dollar matchStart patternLength =
      .ok (text.take matchStart ++ dollarLoop text matchStart (matchStart + patternLength) repstr ++
        text.drop (matchStart + patternLength)) := by
  obtain ⟨pre, hpre, hs⟩ := strchrLimit_split repstr
  rw [hdollar] at hs
  change repstr = pre ++ dollar at hs
  have htake : repstr.take (repstr.length - dollar.length) = pre := by
    rw [hs, length_append, Nat.add_sub_cancel, take_left]
  have hfit : ([] : List Jschar).length + pre.length ≤
      text.length - patternLength + repstr.length := by
    rw [hs, length_append, length_nil]
    omega
  have hleft : newDependentString text 0 matchStart = some (text.take matchStart) :=
    newDependentString_some_iff.mpr ⟨by omega, by rw [drop_zero]⟩
  have hright : newDependentString text (matchStart + patternLength)
      (text.length - (matchStart + patternLength)) =
        some (text.drop (matchStart + patternLength)) := by
    refine newDependentString_some_iff.mpr ⟨by omega, take_of_length_le ?_⟩
    rw [length_drop]
  have hloop : dollarLoop text matchStart (matchStart + patternLength) repstr =
      pre ++ dollarLoop text matchStart (matchStart + patternLength) dollar := by
    rw [← dollarLoop_append h hpre, ← hs]
  rw [buildDollarReplacement, htext, htake, hloop]
  simp only [Bool.not_true, Bool.false_eq_true, if_false, ReservedBuffer.infallibleAppend,
    if_pos hfit, assertSome, bind, Except.bind, hleft, hright, if_neg (Nat.not_lt.mpr h),
    nil_append]
  rfl

/-- The regular expression's result, where there is one. -/
lemma strReplaceRegExp_iff {w : Nat} (hw : 2 ≤ w) {repstr r : List Jschar}
    (hlen : repstr.length < 2 ^ w) :
    strReplaceRegExp (.flat text matchStart patternLength h) w repstr = some r ↔
      matchStart + (expansion (.flat text matchStart patternLength h) repstr).length < 2 ^ w ∧
        text.take matchStart ++ expansion (.flat text matchStart patternLength h) repstr ++
          text.drop (matchStart + patternLength) = r := by
  have hiff : (∃ sb', replaceRegExpCallback (.flat text matchStart patternLength h) w repstr 0
      ⟨[], 0⟩ = some sb') ↔ _ :=
    replaceRegExpCallback_iff hw hlen (Nat.zero_le _) (Nat.two_pow_pos w)
  rw [length_nil, Nat.zero_add, Nat.sub_zero] at hiff
  change _ ↔ matchStart + _ < 2 ^ w at hiff
  rw [← hiff, strReplaceRegExp]
  cases hcall :
    replaceRegExpCallback (.flat text matchStart patternLength h) w repstr 0 ⟨[], 0⟩ with
  | none => simp
  | some sb =>
    have hchars := replaceRegExpCallback_chars hw hlen (Nat.zero_le _) hcall
    rw [nil_append] at hchars
    have hleft : leftPart (.flat text matchStart patternLength h) 0 = text.take matchStart := rfl
    rw [hleft] at hchars
    simp only [bind_eq_bind, bind_some, hchars]
    constructor
    · intro heq
      exact ⟨⟨sb, rfl⟩, Option.some.inj heq⟩
    · rintro ⟨-, rfl⟩
      rfl

end Flat

/-! ## The length of an expansion -/

lemma subString_length_le (res : RegExpStatics) (pair : Nat × Nat) :
    (res.subString pair).length ≤ res.matchPairsInput.length := by
  rw [RegExpStatics.subString, length_drop, length_take]
  omega

lemma getParen_length_le (res : RegExpStatics) (num : Nat) :
    ((res.getParen num).getD []).length ≤ res.matchPairsInput.length := by
  rw [RegExpStatics.getParen]
  split_ifs
  · cases res.matchPairs[num]? with
    | none => exact Nat.zero_le _
    | some found =>
      cases found with
      | none => exact Nat.zero_le _
      | some pair => exact subString_length_le res pair
  · exact Nat.zero_le _

lemma DollarToken.text_length_le (res : RegExpStatics) (t : DollarToken) :
    (t.text res).length ≤ res.matchPairsInput.length + 1 := by
  cases t with
  | unit _ | dollar => exact Nat.le_add_left 1 _
  | lastMatch => exact Nat.le_add_right_of_le (subString_length_le res _)
  | lastParen =>
    rw [DollarToken.text, RegExpStatics.getLastParen]
    split_ifs
    · exact Nat.zero_le _
    · exact Nat.le_add_right_of_le (getParen_length_le res _)
  | leftContext => exact Nat.le_add_right_of_le (length_take_le' _ _)
  | rightContext =>
    rw [DollarToken.text, RegExpStatics.getRightContext, length_drop]
    omega
  | paren num => exact Nat.le_add_right_of_le (getParen_length_le res num)

lemma tokenize_length_le (parenCount : Nat) (l : List Jschar) :
    (tokenize parenCount l).length ≤ l.length := by
  induction l using tokenize.induct parenCount with
  | case1 =>
    rw [tokenize]
    exact Nat.le_refl 0
  | case2 c rest ih =>
    have hshort := tokenAt_length parenCount c rest
    rw [tokenize, length_cons, length_cons]
    omega

lemma expansion_length_le (res : RegExpStatics) (repstr : List Jschar) :
    (expansion res repstr).length ≤ repstr.length * (res.matchPairsInput.length + 1) := by
  have htokens : ∀ tokens : List DollarToken, (tokens.flatMap (·.text res)).length ≤
      tokens.length * (res.matchPairsInput.length + 1) := by
    intro tokens
    induction tokens with
    | nil => exact Nat.zero_le _
    | cons t tokens ih =>
      have ht := t.text_length_le res
      rw [flatMap_cons, length_append, length_cons, Nat.succ_mul]
      omega
  exact Nat.le_trans (htokens _) (Nat.mul_le_mul_right _ (tokenize_length_le _ _))

/-! ## The claim -/

/-- With a `size_t` of `w` bits: both expanders give one result for one match without captures
exactly if no token of the replacement is a `$+` and the result before the rest of the text can be
counted; after a match with any captures the append pass appends what the length pass computed, and
no more than was reserved, exactly if the buffer's length can be counted. An expansion has at most
`2 ^ 56` code units, so that 64 bits count it. -/
theorem dollarExpanders_exact {w : Nat} (hw : 32 ≤ w) {repstr : List Jschar}
    (hlen : repstr.length ≤ maxStringLength) :
    (∀ (textstr : RopeString) (matchStart patternLength : Nat)
        (h : matchStart + patternLength ≤ textstr.chars.length) (dollar : List Jschar),
        strchrLimit 36 repstr = some dollar →
      ((∃ r, buildDollarReplacement true textstr repstr dollar matchStart patternLength = .ok r ∧
          strReplaceRegExp (.flat textstr.chars matchStart patternLength h) w repstr = some r) ↔
        .lastParen ∉ tokenize 0 repstr ∧ matchStart +
          (expansion (.flat textstr.chars matchStart patternLength h) repstr).length < 2 ^ w)) ∧
    (∀ (res : RegExpStatics) (leftIndex : Nat) (sb : ReservedBuffer),
        leftIndex ≤ res.matchStart → sb.reserved < 2 ^ w →
      ((∃ n sb', findReplaceLength res w repstr = some n ∧
          replaceRegExpCallback res w repstr leftIndex sb = some sb' ∧
          sb'.chars.length = sb.chars.length + (res.matchStart - leftIndex) + n) ↔
        sb.chars.length + (res.matchStart - leftIndex) +
          (expansion res repstr).length < 2 ^ w)) ∧
    ∀ res : RegExpStatics, res.matchPairsInput.length ≤ maxStringLength →
      (expansion res repstr).length ≤ 2 ^ 56 := by
  have hw2 : 2 ≤ w := by omega
  have hlen2 : repstr.length < 2 ^ w := by
    have hpow : 2 ^ 32 ≤ 2 ^ w := Nat.pow_le_pow_right (by decide) hw
    have hmax : maxStringLength < 2 ^ 32 := by decide
    omega
  refine ⟨?_, ?_, ?_⟩
  · intro textstr matchStart patternLength h dollar hdollar
    rw [buildDollarReplacement_eq h rfl hdollar, ← dollarLoop_eq_expansion_iff h]
    constructor
    · rintro ⟨r, hbuild, hregexp⟩
      obtain rfl := Except.ok.inj hbuild
      obtain ⟨hfit, heq⟩ := (strReplaceRegExp_iff h hw2 hlen2).mp hregexp
      have hsame := append_cancel_left (append_cancel_right heq)
      exact ⟨hsame.symm, hfit⟩
    · rintro ⟨hsame, hfit⟩
      refine ⟨_, rfl, (strReplaceRegExp_iff h hw2 hlen2).mpr ⟨hfit, ?_⟩⟩
      rw [hsame]
  · intro res leftIndex sb hleft hsb
    constructor
    · rintro ⟨n, sb', -, hcall, -⟩
      exact (replaceRegExpCallback_iff hw2 hlen2 hleft hsb).mp ⟨sb', hcall⟩
    · intro hfit
      obtain ⟨sb', hcall⟩ := (replaceRegExpCallback_iff hw2 hlen2 hleft hsb).mpr hfit
      refine ⟨_, sb', findReplaceLength_spec hw2 hlen2, hcall, ?_⟩
      rw [replaceRegExpCallback_chars hw2 hlen2 hleft hcall, length_append,
        length_append, leftPart_length hleft, Nat.mod_eq_of_lt (by omega)]
  · intro res hinput
    have hmax : maxStringLength * (maxStringLength + 1) ≤ 2 ^ 56 := by decide
    exact Nat.le_trans (expansion_length_le res repstr)
      (Nat.le_trans (Nat.mul_le_mul hlen (Nat.succ_le_succ hinput)) hmax)

/-- Replacing `a` in `ab` by a doubled dollar, and after a match with one capture. -/
theorem dollarExpanders_exact_dollar :
    (∃ r, buildDollarReplacement true (.linear [97, 98]) [36, 36] [36, 36] 0 1 = .ok r ∧
        strReplaceRegExp (.flat [97, 98] 0 1 (by decide)) 64 [36, 36] = some r) ↔
      .lastParen ∉ tokenize 0 [36, 36] ∧ 0 +
        (expansion (.flat [97, 98] 0 1 (by decide)) [36, 36]).length < 2 ^ 64 :=
  (@dollarExpanders_exact 64 (by decide) [36, 36] (by decide)).1
    (.linear [97, 98]) 0 1 (by decide) [36, 36] (by decide)

/-- A `$+` in place of the `a` in `ab` stays for the string pattern, and goes for the expression. -/
theorem dollarExpanders_plus :
    buildDollarReplacement true (.linear [97, 98]) [36, 43] [36, 43] 0 1 = .ok [36, 43, 98] ∧
      strReplaceRegExp (.flat [97, 98] 0 1 (by decide)) 64 [36, 43] = some [98] := by
  decide

end SpiderMonkey.Vm
