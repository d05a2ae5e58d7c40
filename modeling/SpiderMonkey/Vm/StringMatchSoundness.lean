import SpiderMonkey.Lib.Occurrence
import SpiderMonkey.Vm.StringMatch

/-! # All searches find the first occurrence -/

namespace SpiderMonkey.Vm

open SpiderMonkey.Lib List

variable {text pat : List Jschar}

/-! ## js_BoyerMooreHorspool -/

/-- The table after the first `i` units of the pattern, all of them Latin-1: a shift is one unit at
least, and reaches no further than to the last of these units that is the one it is for. -/
structure SkipFilled (pat : List Jschar) (skip : List UInt8) (i : Nat) : Prop where
  length : skip.length = bmhCharSetSize
  pos : ∀ c < bmhCharSetSize, 0 < (skip.getD c 0).toNat
  le : ∀ c < bmhCharSetSize, (skip.getD c 0).toNat ≤ pat.length
  latin : ∀ j < i, ∀ c, pat[j]? = some c → c.toNat < bmhCharSetSize
  exact : ∀ (c : Jschar) (j : Nat), c.toNat < bmhCharSetSize → j < i → pat[j]? = some c →
    (skip.getD c.toNat 0).toNat ≤ pat.length - 1 - j

lemma skipFilled_zero (hpat : pat ≠ []) (hmax : pat.length ≤ bmhPatLenMax) :
    SkipFilled pat (List.replicate bmhCharSetSize (UInt8.ofNat pat.length)) 0 := by
  have hlen := length_pos_iff.mpr hpat
  have hval : (UInt8.ofNat pat.length).toNat = pat.length :=
    UInt8.toNat_ofNat_of_lt' (Nat.lt_succ_of_le hmax)
  have hget (c : Nat) (hc : c < bmhCharSetSize) :
      (List.replicate bmhCharSetSize (UInt8.ofNat pat.length)).getD c 0 =
        UInt8.ofNat pat.length := by
    rw [getD_eq_getElem?_getD, List.getElem?_replicate, if_pos hc, Option.getD_some]
  refine ⟨length_replicate, fun c hc => ?_, fun c hc => ?_, nofun, fun _ _ _ hj => nomatch hj⟩
  · rw [hget c hc, hval]
    exact hlen
  · exact Nat.le_of_eq (by rw [hget c hc, hval])

lemma SkipFilled.set {skip : List UInt8} {i : Nat} {c : Jschar} (h : SkipFilled pat skip i)
    (hmax : pat.length ≤ bmhPatLenMax) (hi : i < pat.length - 1) (hc : pat[i]? = some c)
    (hlatin : c.toNat < bmhCharSetSize) :
    SkipFilled pat (skip.set c.toNat (UInt8.ofNat (pat.length - 1 - i))) (i + 1) := by
  have hval : (UInt8.ofNat (pat.length - 1 - i)).toNat = pat.length - 1 - i :=
    UInt8.toNat_ofNat_of_lt' (by
      change _ < 256
      simp only [bmhPatLenMax] at hmax
      omega)
  have hsame : (skip.set c.toNat (UInt8.ofNat (pat.length - 1 - i))).getD c.toNat 0 =
      UInt8.ofNat (pat.length - 1 - i) := by
    rw [getD_eq_getElem?_getD, List.getElem?_set_self (h.length ▸ hlatin), Option.getD_some]
  have hother {d : Nat} (hd : c.toNat ≠ d) :
      (skip.set c.toNat (UInt8.ofNat (pat.length - 1 - i))).getD d 0 = skip.getD d 0 := by
    rw [getD_eq_getElem?_getD, List.getElem?_set_ne hd, ← getD_eq_getElem?_getD]
  refine ⟨(length_set ..).trans h.length, fun d hd => ?_, fun d hd => ?_, fun j hj d hd => ?_,
    fun d j hd hj hget => ?_⟩
  · by_cases heq : c.toNat = d
    · rw [← heq, hsame, hval]
      omega
    · rw [hother heq]
      exact h.pos d hd
  · by_cases heq : c.toNat = d
    · rw [← heq, hsame, hval]
      omega
    · rw [hother heq]
      exact h.le d hd
  · rcases Nat.lt_succ_iff_lt_or_eq.mp hj with hlt | rfl
    · exact h.latin j hlt d hd
    · rw [hc, Option.some.injEq] at hd
      exact hd ▸ hlatin
  · by_cases heq : c.toNat = d.toNat
    · rw [← heq, hsame, hval]
      omega
    · rw [hother heq]
      rcases Nat.lt_succ_iff_lt_or_eq.mp hj with hlt | rfl
      · exact h.exact d j hd hlt hget
      · rw [hc, Option.some.injEq] at hget
        exact absurd (congrArg UInt16.toNat hget) heq

/-- The loop gives up, or it has filled the table. -/
lemma skipLoop_filled (hmax : pat.length ≤ bmhPatLenMax) {rest : List Jschar} {i : Nat}
    {skip skip' : List UInt8} (hrest : rest = (pat.take (pat.length - 1)).drop i)
    (h : SkipFilled pat skip i) (hle : i ≤ pat.length - 1)
    (hrun : skipLoop (pat.length - 1) rest i skip = some skip') :
    SkipFilled pat skip' (pat.length - 1) := by
  induction rest generalizing i skip with
  | nil =>
    rw [skipLoop, Option.some.injEq] at hrun
    have hlen := congrArg List.length hrest
    rw [length_nil, length_drop, length_take] at hlen
    have hi : i = pat.length - 1 := by omega
    rw [← hrun, ← hi]
    exact h
  | cons c rest ih =>
    rw [skipLoop] at hrun
    have hlen := congrArg List.length hrest
    rw [length_cons, length_drop, length_take] at hlen
    have hi : i < pat.length - 1 := by omega
    have hc : pat[i]? = some c := by
      have hhead := congrArg (fun l => l[0]?) hrest
      simp only [List.getElem?_drop, List.getElem?_take, Nat.add_zero, if_pos hi] at hhead
      exact hhead.symm
    have htail : rest = (pat.take (pat.length - 1)).drop (i + 1) := by
      rw [← drop_drop, ← hrest]
      rfl
    by_cases hlatin : bmhCharSetSize ≤ c.toNat
    · rw [if_pos hlatin] at hrun
      cases hrun
    · rw [if_neg hlatin] at hrun
      exact ih htail (h.set hmax hi hc (Nat.lt_of_not_le hlatin)) hi hrun

/-- The comparison goes down from `pat[j]`, with `text[i + j]` under it. -/
lemma compareDown_eq (j i : Nat) : compareDown text pat j (i + j) =
    if ∀ k ≤ j, text[i + k]? = pat[k]? then some i else none := by
  induction j with
  | zero =>
    rw [compareDown]
    by_cases h : text[i]? = pat[0]?
    · rw [Nat.add_zero, if_neg (not_not_intro h), if_pos]
      intro k hk
      rw [Nat.le_zero.mp hk]
      exact h
    · rw [Nat.add_zero, if_pos h, if_neg]
      exact fun hall => h (hall 0 (Nat.le_refl 0))
  | succ j ih =>
    rw [compareDown, ← Nat.add_assoc, Nat.add_sub_cancel, ih]
    by_cases h : text[i + j + 1]? = pat[j + 1]?
    · rw [if_neg (not_not_intro h)]
      refine if_congr ⟨fun hall k hk => ?_, fun hall k hk => hall k (Nat.le_succ_of_le hk)⟩ rfl rfl
      rcases Nat.le_succ_iff.mp hk with hle | rfl
      · exact hall k hle
      · exact h
    · rw [if_pos h, if_neg]
      exact fun hall => h (hall (j + 1) (Nat.le_refl _))

/-- From a place before which the pattern does not stand, the loop finds the first. -/
lemma bmhLoop_finds {skip : List UInt8} (hpat : pat ≠ [])
    (hskip : SkipFilled pat skip (pat.length - 1)) {fuel k : Nat} (hpositive : 0 < fuel)
    (hfuel : text.length < fuel + k) (hk : pat.length - 1 ≤ k) (h : NoneBefore pat text (k - (pat.length - 1))) :
    ∃ r, bmhLoop text pat skip fuel k = some r ∧ FindsFirst pat text r ∧ r ≠ bmhBadPattern := by
  have hpos := length_pos_iff.mpr hpat
  induction fuel generalizing k with
  | zero => exact absurd hpositive (Nat.lt_irrefl 0)
  | succ fuel ih =>
    rw [bmhLoop]
    by_cases hend : k < text.length
    case neg =>
      rw [if_neg hend]
      exact ⟨-1, rfl, .absent (h.absent hpat (by omega)), by decide⟩
    rw [if_pos hend]
    obtain ⟨i, rfl⟩ : ∃ i, k = i + (pat.length - 1) := ⟨k - (pat.length - 1), by omega⟩
    rw [Nat.add_sub_cancel] at h
    have hoccurs : (∀ j ≤ pat.length - 1, text[i + j]? = pat[j]?) ↔ OccursAt pat text i := by
      rw [occursAt_iff]
      exact forall_congr' fun j => imp_congr_left (by omega)
    rw [compareDown_eq]
    by_cases hhere : OccursAt pat text i
    · rw [if_pos (hoccurs.mpr hhere)]
      refine ⟨i, rfl, .found i hhere h, ?_⟩
      simp only [bmhBadPattern]
      omega
    rw [if_neg fun hall => hhere (hoccurs.mp hall)]
    simp only
    generalize hshift : bmhShift skip pat.length (text.getD (i + (pat.length - 1)) 0) = shift
    have hc : text[i + (pat.length - 1)]? = some (text.getD (i + (pat.length - 1)) 0) := by
      rw [getD_eq_getElem?_getD, List.getElem?_eq_getElem hend, Option.getD_some]
    generalize text.getD (i + (pat.length - 1)) 0 = c at hshift hc
    -- The shift moves on, and passes over no unit of the pattern that is `c`.
    have hbounds : 0 < shift ∧ shift ≤ pat.length ∧
        ∀ j < pat.length - 1, some c = pat[j]? → shift ≤ pat.length - 1 - j := by
      rw [← hshift, bmhShift]
      by_cases hlatin : bmhCharSetSize ≤ c.toNat
      · rw [if_pos hlatin]
        refine ⟨hpos, Nat.le_refl _, fun j hj hget => ?_⟩
        exact absurd (hskip.latin j hj c hget.symm) (Nat.not_lt_of_le hlatin)
      · rw [if_neg hlatin]
        have hlt := Nat.lt_of_not_le hlatin
        exact ⟨hskip.pos _ hlt, hskip.le _ hlt, fun j hj hget => hskip.exact c j hlt hj hget.symm⟩
    obtain ⟨hmoves, hle, hpasses⟩ := hbounds
    refine ih (by omega) (by omega) (by omega) ?_
    refine NoneBefore.shift hpat ?_ (by omega) hle fun j hj hget => hpasses j hj (hc ▸ hget)
    have hnext : i + (pat.length - 1) + 1 - (pat.length - 1) = i + 1 := by omega
    rw [hnext]
    exact h.succ hhere

lemma boyerMooreHorspool_finds (text : List Jschar) (hpat : pat ≠ []) (hmax : pat.length ≤ bmhPatLenMax) :
    ∃ r, boyerMooreHorspool text pat = some r ∧ (r = bmhBadPattern ∨ FindsFirst pat text r) := by
  rw [boyerMooreHorspool]
  cases hfill : skipLoop (pat.length - 1) (pat.take (pat.length - 1)) 0
      (List.replicate bmhCharSetSize (UInt8.ofNat pat.length)) with
  | none => exact ⟨_, rfl, .inl rfl⟩
  | some skip =>
    have hskip := skipLoop_filled hmax drop_zero.symm (skipFilled_zero hpat hmax)
      (Nat.zero_le _) hfill
    have hfuel : text.length < text.length + 1 + (pat.length - 1) := by omega
    obtain ⟨r, hr, hfirst, -⟩ := bmhLoop_finds hpat hskip (Nat.succ_pos _) hfuel
      (Nat.le_refl _) (by
      rw [Nat.sub_self]
      exact noneBefore_zero)
    exact ⟨r, hr, .inr hfirst⟩

/-! ## UnrolledMatch -/

/-- Either comparison tells whether the rest of the pattern stands there. -/
def IsInnerMatch (inner : List Jschar → List Jschar → Bool) : Prop :=
  ∀ p t, inner p t = true ↔ p <+: t

lemma isInnerMatch_memCmp : IsInnerMatch memCmpMatch := by
  intro p t
  rw [memCmpMatch, beq_iff_eq, prefix_iff_eq_take]
  exact eq_comm

lemma isInnerMatch_manualCmp : IsInnerMatch manualCmpMatch := by
  intro p t
  fun_induction manualCmpMatch p t with
  | case1 => simp
  | case2 => simp
  | case3 a p b t hne =>
    rw [cons_prefix_cons]
    exact iff_of_false nofun fun h => hne h.1
  | case4 a p b t heq ih =>
    rw [cons_prefix_cons, ih]
    exact ⟨fun h => ⟨not_not.mp heq, h⟩, fun h => h.2⟩

/-- What a run of tests has found: the first occurrence, or none among the places it has tested. -/
inductive Tested (pat text : List Jschar) (textend : Nat) : Resume → Prop
  | found (i : Nat) : OccursAt pat text i → NoneBefore pat text i → Tested pat text textend (.found i)
  | goOn : NoneBefore pat text textend → Tested pat text textend (.goOn textend)

section Unrolled

variable {inner : List Jschar → List Jschar → Bool}

lemma occursAt_iff_inner (hinner : IsInnerMatch inner) (hpat : pat ≠ []) (t : Nat) :
    OccursAt pat text t ↔ text[t]? = pat[0]? ∧ inner pat.tail (text.drop (t + 1)) = true := by
  obtain ⟨a, rest, rfl⟩ := exists_cons_of_ne_nil hpat
  rw [occursAt_cons_iff, hinner]
  rfl

lemma fixupLoop_tested (hinner : IsInnerMatch inner) (hpat : pat ≠ []) (fixup : Nat) {t : Nat}
    (h : NoneBefore pat text t) : Tested pat text (t + fixup) (fixupLoop inner text pat fixup t) := by
  have hiff (t : Nat) : OccursAt pat text t ↔ _ := occursAt_iff_inner hinner hpat t
  induction fixup generalizing t with
  | zero => exact .goOn h
  | succ fixup ih =>
    rw [fixupLoop]
    have hnext (hno : ¬ OccursAt pat text t) :
        Tested pat text (t + (fixup + 1)) (fixupLoop inner text pat fixup (t + 1)) := by
      have htested := ih (h.succ hno)
      rwa [Nat.add_assoc, Nat.add_comm 1] at htested
    by_cases hfirst : text[t]? = pat[0]?
    · rw [if_pos hfirst]
      by_cases hrest : inner pat.tail (text.drop (t + 1)) = true
      · rw [if_pos hrest]
        exact .found t ((hiff t).mpr ⟨hfirst, hrest⟩) h
      · rw [if_neg hrest]
        exact hnext fun hoccurs => hrest ((hiff t).mp hoccurs).2
    · rw [if_neg hfirst]
      exact hnext fun hoccurs => hfirst ((hiff t).mp hoccurs).1

/-- The tests and the `do` loop that a hit jumps into test as many places as the run was to. -/
lemma unrolledTests_tested (hinner : IsInnerMatch inner) (hpat : pat ≠ []) (count : Nat) {t : Nat}
    (h : NoneBefore pat text t) :
    Tested pat text (t + count) (unrolledTests inner text pat count t) := by
  have hiff (t : Nat) : OccursAt pat text t ↔ _ := occursAt_iff_inner hinner hpat t
  rw [unrolledTests]
  induction count generalizing t with
  | zero => exact .goOn h
  | succ count ih =>
    rw [scan]
    by_cases hfirst : text[t]? = pat[0]?
    · rw [if_pos hfirst]
      simp only
      by_cases hrest : inner pat.tail (text.drop (t + 1)) = true
      · rw [if_pos hrest]
        exact .found t ((hiff t).mpr ⟨hfirst, hrest⟩) h
      · rw [if_neg hrest, Nat.add_sub_cancel]
        have htested := fixupLoop_tested hinner hpat count
          (h.succ fun hoccurs => hrest ((hiff t).mp hoccurs).2)
        rwa [Nat.add_assoc, Nat.add_comm 1] at htested
    · rw [if_neg hfirst]
      have htested := ih (h.succ fun hoccurs => hfirst ((hiff t).mp hoccurs).1)
      rwa [Nat.add_assoc, Nat.add_comm 1] at htested

/-- The pointer comes to the end, as the tests left are a multiple of eight. -/
lemma unrolledLoop_finds (hinner : IsInnerMatch inner) (hpat : pat ≠ []) {textend : Nat}
    (hend : text.length < textend + pat.length) {fuel t rounds : Nat} (hfuel : rounds < fuel)
    (hrounds : textend = t + 8 * rounds) (h : NoneBefore pat text t) :
    ∃ r, unrolledLoop inner text pat textend fuel t = some r ∧ FindsFirst pat text r := by
  induction fuel generalizing t rounds with
  | zero => exact absurd hfuel (Nat.not_lt_zero _)
  | succ fuel ih =>
    rw [unrolledLoop]
    by_cases hdone : t = textend
    · rw [if_pos hdone]
      exact ⟨-1, rfl, .absent (h.absent hpat (by omega))⟩
    · rw [if_neg hdone]
      have htested := unrolledTests_tested hinner hpat 8 h
      cases hrun : unrolledTests inner text pat 8 t with
      | found i =>
        rw [hrun] at htested
        cases htested with
        | found i hoccurs hnone => exact ⟨i, rfl, .found i hoccurs hnone⟩
      | goOn t' =>
        rw [hrun] at htested
        cases htested with
        | goOn hnone =>
          have hleft : textend = t + 8 + 8 * (rounds - 1) := by omega
          exact ih (by omega) hleft hnone

lemma unrolledMatch_finds (hinner : IsInnerMatch inner) (hpat : pat ≠ [])
    (hlen : pat.length ≤ text.length) :
    ∃ r, unrolledMatch inner text pat = some r ∧ FindsFirst pat text r := by
  have hpos := length_pos_iff.mpr hpat
  rw [unrolledMatch]
  have hmod : text.length - (pat.length - 1) &&& 7 = (text.length - (pat.length - 1)) % 8 :=
    Nat.and_two_pow_sub_one_eq_mod _ 3
  rw [hmod]
  generalize htextend : text.length - (pat.length - 1) = textend
  generalize hentry : (if textend % 8 = 0 then 8 else textend % 8) = entry
  have hrounds : ∃ rounds, textend = entry + 8 * rounds := by
    refine ⟨(textend - entry) / 8, ?_⟩
    split_ifs at hentry <;> omega
  obtain ⟨rounds, hrounds⟩ := hrounds
  have hnone : NoneBefore pat text 0 := noneBefore_zero
  have htested := unrolledTests_tested hinner hpat entry hnone
  cases hrun : unrolledTests inner text pat entry 0 with
  | found i =>
    rw [hrun] at htested
    cases htested with
    | found i hoccurs hnone => exact ⟨i, rfl, .found i hoccurs hnone⟩
  | goOn t' =>
    rw [hrun] at htested
    cases htested with
    | goOn hnone =>
      have hfuel : rounds < textend + 1 := by omega
      exact unrolledLoop_finds hinner hpat (by omega) hfuel (by omega) hnone

end Unrolled

/-! ## StringMatch -/

lemma findIdx?_finds (text : List Jschar) (a : Jschar) :
    ∃ r, (match text.findIdx? fun c => some c == some a with
      | some i => some (i : Int)
      | none => some (-1)) = some r ∧ FindsFirst [a] text r := by
  have hiff (i : Nat) : OccursAt [a] text i ↔ text[i]? = some a := by
    rw [occursAt_cons_iff]
    exact and_iff_left nil_prefix
  cases hfind : text.findIdx? fun c => some c == some a with
  | none =>
    refine ⟨-1, rfl, .absent fun i hi => ?_⟩
    have hmem := mem_of_getElem? ((hiff i).mp hi)
    have hne := List.findIdx?_eq_none_iff.mp hfind a hmem
    simp at hne
  | some i =>
    obtain ⟨hlt, heq, hbefore⟩ := List.findIdx?_eq_some_iff_getElem.mp hfind
    refine ⟨i, rfl, .found i ?_ fun j hj hoccurs => ?_⟩
    · rw [hiff, List.getElem?_eq_getElem hlt]
      simpa using heq
    · rw [hiff, List.getElem?_eq_some_iff] at hoccurs
      obtain ⟨_, hget⟩ := hoccurs
      have hne := hbefore j hj
      simp [hget] at hne

lemma unrolledSearch_finds (platform : Platform) (hpat : pat ≠ [])
    (hlen : pat.length ≤ text.length) :
    ∃ r, unrolledSearch platform text pat = some r ∧ FindsFirst pat text r := by
  rw [unrolledSearch]
  split_ifs
  · exact unrolledMatch_finds isInnerMatch_memCmp hpat hlen
  · exact unrolledMatch_finds isInnerMatch_manualCmp hpat hlen

/-- Whichever search is selected, the first occurrence is found. -/
lemma stringMatch_finds (platform : Platform) (text pat : List Jschar) :
    ∃ r, stringMatch platform text pat = some r ∧ FindsFirst pat text r := by
  rw [stringMatch]
  by_cases hempty : pat.length = 0
  · rw [if_pos hempty, length_eq_zero_iff.mp hempty]
    exact ⟨0, rfl, .found 0 nil_prefix noneBefore_zero⟩
  have hpat : pat ≠ [] := fun h => hempty (length_eq_zero_iff.mpr h)
  rw [if_neg hempty]
  by_cases hshort : text.length < pat.length
  · rw [if_pos hshort]
    exact ⟨-1, rfl, .absent (noneBefore_zero.absent hpat (by omega))⟩
  rw [if_neg hshort]
  have hlen : pat.length ≤ text.length := Nat.le_of_not_lt hshort
  by_cases hone : platform.i386 ∧ pat.length = 1
  · rw [if_pos hone]
    obtain ⟨a, rfl⟩ := length_eq_one_iff.mp hone.2
    exact findIdx?_finds text a
  rw [if_neg hone]
  by_cases hbmh : 512 ≤ text.length ∧ 11 ≤ pat.length ∧ pat.length ≤ bmhPatLenMax
  · rw [if_pos hbmh]
    obtain ⟨index, hindex, hfinds⟩ := boyerMooreHorspool_finds text hpat hbmh.2.2
    rw [hindex]
    by_cases hbad : index = bmhBadPattern
    · simp only [if_neg (not_not_intro hbad)]
      exact unrolledSearch_finds platform hpat hlen
    · simp only [if_pos hbad]
      exact ⟨index, rfl, hfinds.resolve_left hbad⟩
  · rw [if_neg hbmh]
    exact unrolledSearch_finds platform hpat hlen

end SpiderMonkey.Vm
