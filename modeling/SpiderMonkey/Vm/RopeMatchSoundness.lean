import SpiderMonkey.Vm.StringMatchSoundness

/-! # A rope is searched as its text -/

namespace SpiderMonkey.Vm

open SpiderMonkey.Lib List Option

/-! ## StringSegmentRange -/

/-- The text that a range has still to yield. -/
def SegmentRange.rest (r : SegmentRange) : List Jschar :=
  r.cur.getD [] ++ r.stack.flatMap RopeString.chars

/-- A range that is at its end has nothing left on its stack. -/
def SegmentRange.Ok (r : SegmentRange) : Prop := r.cur = none → r.stack = []

lemma SegmentRange.settle_rest {stackOk : Nat → Bool} {str : RopeString}
    {stack : List RopeString} {appends : Nat} {r : SegmentRange}
    (h : settle stackOk str stack appends = some r) :
    r.cur.isSome ∧ r.rest = str.chars ++ stack.flatMap RopeString.chars := by
  induction str generalizing stack appends with
  | linear chars =>
    rw [settle, some.injEq] at h
    subst h
    exact ⟨rfl, rfl⟩
  | rope left right ihleft ihright =>
    rw [settle] at h
    by_cases hok : stackOk appends = true
    · rw [if_pos hok] at h
      obtain ⟨hcur, hrest⟩ := ihleft h
      refine ⟨hcur, ?_⟩
      rw [hrest, flatMap_cons, RopeString.chars, append_assoc]
    · rw [if_neg hok] at h
      cases h

lemma SegmentRange.settle_isSome {stackOk : Nat → Bool} (hok : ∀ i, stackOk i = true)
    (str : RopeString) (stack : List RopeString) (appends : Nat) :
    (settle stackOk str stack appends).isSome := by
  induction str generalizing stack appends with
  | linear chars => rfl
  | rope left right ihleft ihright =>
    rw [settle, if_pos (hok appends)]
    exact ihleft _ _

lemma SegmentRange.popFront_rest {stackOk : Nat → Bool} {r r' : SegmentRange} {chars : List Jschar}
    (hcur : r.cur = some chars) (h : r.popFront stackOk = some r') :
    r'.Ok ∧ r.rest = chars ++ r'.rest := by
  rw [popFront] at h
  rw [SegmentRange.rest, hcur, Option.getD_some]
  cases hstack : r.stack with
  | nil =>
    rw [hstack, some.injEq] at h
    subst h
    exact ⟨fun _ => rfl, rfl⟩
  | cons str stack =>
    rw [hstack] at h
    obtain ⟨hsome, hrest⟩ := settle_rest h
    refine ⟨fun hnone => ?_, ?_⟩
    · rw [hnone] at hsome
      cases hsome
    · rw [hrest]
      rfl

/-- The leaves are the text, in order. -/
lemma collectLeaves_flatten {alloc : RopeAlloc} {threshold : Nat} {r : SegmentRange}
    {strs strs' : List (List Jschar)} (hr : r.Ok)
    (h : collectLeaves alloc threshold r strs = .leaves strs') :
    strs'.flatten = strs.flatten ++ r.rest := by
  induction threshold generalizing r strs with
  | zero =>
    rw [collectLeaves] at h
    cases hcur : r.cur with
    | none =>
      rw [hcur] at h
      cases h
      rw [SegmentRange.rest, hcur, hr hcur]
      exact (append_nil _).symm
    | some chars =>
      rw [hcur] at h
      cases h
  | succ threshold ih =>
    rw [collectLeaves] at h
    cases hcur : r.cur with
    | none =>
      rw [hcur] at h
      cases h
      rw [SegmentRange.rest, hcur, hr hcur]
      exact (append_nil _).symm
    | some chars =>
      rw [hcur] at h
      simp only at h
      by_cases hfails : (!alloc.strsOk strs.length) = true
      · rw [if_pos hfails] at h
        cases h
      rw [if_neg hfails] at h
      cases hpop : r.popFront alloc.stackOk with
      | none =>
        rw [hpop] at h
        cases h
      | some r' =>
        rw [hpop] at h
        obtain ⟨hok, hrest⟩ := SegmentRange.popFront_rest hcur hpop
        rw [ih hok h, hrest, flatten_append, flatten_singleton, append_assoc]

lemma collectLeaves_ne_outOfMemory {alloc : RopeAlloc} (hok : ∀ i, alloc.stackOk i = true)
    (threshold : Nat) (r : SegmentRange) (strs : List (List Jschar)) :
    collectLeaves alloc threshold r strs ≠ .outOfMemory := by
  induction threshold generalizing r strs with
  | zero =>
    rw [collectLeaves]
    cases r.cur <;> exact nofun
  | succ threshold ih =>
    rw [collectLeaves]
    cases r.cur with
    | none => exact nofun
    | some chars =>
      simp only
      by_cases hfails : (!alloc.strsOk strs.length) = true
      · rw [if_pos hfails]
        exact nofun
      rw [if_neg hfails]
      have hpop : (r.popFront alloc.stackOk).isSome := by
        rw [SegmentRange.popFront]
        cases r.stack with
        | nil => rfl
        | cons str stack => exact SegmentRange.settle_isSome hok _ _ _
      obtain ⟨r', hr'⟩ := Option.isSome_iff_exists.mp hpop
      rw [hr']
      exact ih _ _

/-! ## Matches that run over leaves -/

variable {pat : List Jschar}

/-- The comparison is with the text of the leaves; it runs out of that text only where the text ends
before the pattern. -/
lemma matchAcross_spec (pp tt : List Jschar) (strs : List (List Jschar)) :
    (matchAcross pp tt strs = .matched ↔ pp <+: tt ++ strs.flatten) ∧
      (matchAcross pp tt strs = .ranOut → (tt ++ strs.flatten).length < pp.length) := by
  fun_induction matchAcross pp tt strs with
  | case1 => simp
  | case2 => simp
  | case3 p pp inner strs ih => exact ih
  | case4 p pp c tt strs hne =>
    rw [cons_append, cons_prefix_cons]
    exact ⟨iff_of_false nofun fun h => hne h.1, nofun⟩
  | case5 p pp c tt strs heq ih =>
    rw [cons_append, cons_prefix_cons, length_cons, length_cons]
    refine ⟨ih.1.trans ⟨fun h => ⟨not_not.mp heq, h⟩, fun h => h.2⟩, fun h => ?_⟩
    exact Nat.succ_lt_succ (ih.2 h)

/-- What the search in the end of a leaf tells of the text from that leaf on. -/
inductive Started (pat text : List Jschar) (len : Nat) : Start → Prop
  | found (t : Nat) : OccursAt pat text t → NoneBefore pat text t → Started pat text len (.found t)
  | ranOut : (∀ i, ¬ OccursAt pat text i) → Started pat text len .ranOut
  | goOn : NoneBefore pat text len → Started pat text len .goOn

lemma startsIn_started (hpat : pat ≠ []) {outer : List Jschar} (strs : List (List Jschar))
    {t : Nat} (ht : t ≤ outer.length) (h : NoneBefore pat (outer ++ strs.flatten) t) :
    Started pat (outer ++ strs.flatten) outer.length (startsIn pat strs (outer.drop t) t) := by
  obtain ⟨a, rest, rfl⟩ := exists_cons_of_ne_nil hpat
  generalize htt : outer.drop t = tt
  induction tt generalizing t with
  | nil =>
    have hlen := congrArg List.length htt
    rw [length_drop, length_nil] at hlen
    have heq : t = outer.length := by omega
    rw [heq] at h
    exact .goOn h
  | cons c tt ih =>
    have hlt : t < outer.length := by
      have hlen := congrArg List.length htt
      rw [length_drop, length_cons] at hlen
      omega
    have hget : (outer ++ strs.flatten)[t]? = some c := by
      have hhead := congrArg (fun l => l[0]?) htt
      simp only [List.getElem?_drop, Nat.add_zero] at hhead
      rw [List.getElem?_append_left hlt]
      exact hhead
    have hdrop : outer.drop (t + 1) = tt := by
      rw [← drop_drop, htt]
      rfl
    have hbehind : (outer ++ strs.flatten).drop (t + 1) = tt ++ strs.flatten := by
      rw [drop_append_of_le_length hlt, hdrop]
    have hoccurs : OccursAt (a :: rest) (outer ++ strs.flatten) t ↔
        c = a ∧ rest <+: tt ++ strs.flatten := by
      rw [occursAt_cons_iff, hget, hbehind, some.injEq]
    have hnext (hno : ¬ OccursAt (a :: rest) (outer ++ strs.flatten) t) :=
      ih hlt (h.succ hno) hdrop
    rw [startsIn]
    by_cases hfirst : c = a
    · rw [if_neg (by simpa using hfirst)]
      obtain ⟨hmatched, hranOut⟩ := matchAcross_spec rest tt strs
      rw [tail_cons]
      cases hacross : matchAcross rest tt strs with
      | matched => exact .found t (hoccurs.mpr ⟨hfirst, hmatched.mp hacross⟩) h
      | mismatched =>
        refine hnext fun hhere => ?_
        rw [hmatched.mpr (hoccurs.mp hhere).2] at hacross
        cases hacross
      | ranOut =>
        -- No later place leaves more text.
        have hshort := hranOut hacross
        have hlen := congrArg List.length hbehind
        rw [length_drop] at hlen
        refine .ranOut (h.absent (cons_ne_nil _ _) ?_)
        rw [length_cons]
        omega
    · rw [if_pos (by simpa using hfirst)]
      exact hnext fun hhere => hfirst (hoccurs.mp hhere).1

/-! ## RopeMatch -/

/-- The loop finds the first occurrence in the text of the leaves. -/
lemma leafLoop_finds (platform : Platform) (hpat : pat ≠ []) (strs : List (List Jschar))
    (pos : Nat) :
    ∃ r, leafLoop platform pat strs pos = some (offsetBy pos r) ∧
      FindsFirst pat strs.flatten r := by
  have hpos := length_pos_iff.mpr hpat
  induction strs generalizing pos with
  | nil =>
    have hend : ([] : List Jschar).length < 0 + pat.length := by
      rw [Nat.zero_add]
      exact hpos
    exact ⟨-1, rfl, .absent (noneBefore_zero.absent hpat hend)⟩
  | cons outer strs ih =>
    rw [leafLoop, flatten_cons]
    obtain ⟨r, hr, hfirst⟩ := stringMatch_finds platform outer pat
    rw [hr]
    -- Where the pattern cannot stand within the leaf, it does not begin there.
    have hwithin {n : Nat} (hnone : NoneBefore pat outer n) (hn : n + pat.length ≤ outer.length + 1) :
        NoneBefore pat (outer ++ strs.flatten) n := by
      intro i hi hoccurs
      exact hnone i hi ((occursAt_append_iff (by omega)).mp hoccurs)
    cases hfirst with
    | found i hoccurs hnone =>
      have hle := hoccurs.length_le hpat
      have hne : (i : Int) ≠ -1 := by omega
      refine ⟨i, ?_, .found i ((occursAt_append_iff hle).mpr hoccurs) (hwithin hnone (by omega))⟩
      simp only [bind_eq_bind, bind_some, hne, ne_eq, not_false_eq_true, if_true]
      rw [offsetBy, if_neg hne]
      rfl
    | absent habsent =>
      simp only [bind_eq_bind, bind_some, ne_eq, not_true_eq_false, if_false]
      generalize htext : (if outer.length < pat.length then 0
        else outer.length - pat.length + 1) = text
      have hbounds : text ≤ outer.length ∧ NoneBefore pat (outer ++ strs.flatten) text := by
        split_ifs at htext with hshort
        · exact htext ▸ ⟨Nat.zero_le _, noneBefore_zero⟩
        · exact htext ▸ ⟨by omega, hwithin (fun i _ => habsent i) (by omega)⟩
      have hstarted := startsIn_started hpat strs hbounds.1 hbounds.2
      cases hstart : startsIn pat strs (outer.drop text) text with
      | found t =>
        rw [hstart] at hstarted
        cases hstarted with
        | found t hoccurs hnone =>
          refine ⟨t, ?_, .found t hoccurs hnone⟩
          rw [offsetBy_natCast]
          rfl
      | ranOut =>
        rw [hstart] at hstarted
        cases hstarted with
        | ranOut hnone => exact ⟨-1, rfl, .absent hnone⟩
      | goOn =>
        rw [hstart] at hstarted
        cases hstarted with
        | goOn hnone =>
          obtain ⟨r, hrest, hfinds⟩ := ih (pos + outer.length)
          refine ⟨offsetBy outer.length r, ?_, hfinds.append hnone⟩
          rw [offsetBy_offsetBy _ _ hfinds]
          exact hrest

/-- A rope without enough memory fails; it is searched as its text otherwise. -/
lemma ropeMatch_eq (platform : Platform) (alloc : RopeAlloc) (textstr : RopeString)
    (pat : List Jschar) :
    ropeMatch platform alloc textstr pat = .outOfMemory ∨
      ropeMatch platform alloc textstr pat = .matched (stringMatch platform textstr.chars pat) := by
  rw [ropeMatch]
  by_cases hempty : pat.length = 0
  · rw [if_pos hempty, stringMatch, if_pos hempty]
    exact .inr rfl
  by_cases hshort : textstr.chars.length < pat.length
  · rw [if_neg hempty, if_pos hshort, stringMatch, if_neg hempty, if_pos hshort]
    exact .inr rfl
  rw [if_neg hempty, if_neg hshort]
  have hpat : pat ≠ [] := fun h => hempty (length_eq_zero_iff.mpr h)
  cases hsettle : SegmentRange.settle alloc.stackOk textstr [] 0 with
  | none => exact .inl rfl
  | some r =>
    obtain ⟨hcur, hrest⟩ := SegmentRange.settle_rest hsettle
    simp only
    cases hcollect : collectLeaves alloc (textstr.chars.length >>> 5) r [] with
    | outOfMemory => exact .inl rfl
    | flatten =>
      simp only
      split_ifs
      · exact .inr rfl
      · exact .inl rfl
    | leaves strs =>
      have hok : r.Ok := fun hnone => by
        rw [hnone] at hcur
        cases hcur
      have hflatten : strs.flatten = textstr.chars := by
        rw [collectLeaves_flatten hok hcollect, hrest]
        simp
      obtain ⟨index, hloop, hfinds⟩ := leafLoop_finds platform hpat strs 0
      obtain ⟨index', hmatch, hfinds'⟩ := stringMatch_finds platform textstr.chars pat
      rw [hflatten] at hfinds
      have hzero : offsetBy 0 index = index := by
        rw [offsetBy]
        split_ifs with h
        · exact h.symm
        · simp
      simp only
      rw [hloop, hmatch, hzero, hfinds.unique hfinds']
      exact .inr rfl

lemma ropeMatch_ne_outOfMemory (platform : Platform) {alloc : RopeAlloc}
    (hstack : ∀ i, alloc.stackOk i = true) (hflatten : alloc.flattenOk = true)
    (textstr : RopeString) (pat : List Jschar) :
    ropeMatch platform alloc textstr pat ≠ .outOfMemory := by
  rw [ropeMatch]
  split_ifs
  · exact nofun
  · exact nofun
  obtain ⟨r, hr⟩ := Option.isSome_iff_exists.mp (SegmentRange.settle_isSome hstack textstr [] 0)
  rw [hr]
  simp only
  cases hcollect : collectLeaves alloc (textstr.chars.length >>> 5) r [] with
  | outOfMemory => exact absurd hcollect (collectLeaves_ne_outOfMemory hstack _ _ _)
  | flatten => exact nofun
  | leaves strs => exact nofun

/-- What the searches return: the least index at which the pattern stands, or -1, for a string and
for a rope; a rope fails only if an allocation has failed. -/
structure SearchesAgree (platform : Platform) (pat : List Jschar) : Prop where
  string : ∀ text, ∃ r, stringMatch platform text pat = some r ∧ FindsFirst pat text r
  unrolled : ∀ text, pat ≠ [] → pat.length ≤ text.length →
    ∃ r, unrolledSearch platform text pat = some r ∧ FindsFirst pat text r
  horspool : ∀ text, pat ≠ [] → pat.length ≤ bmhPatLenMax →
    ∃ r, boyerMooreHorspool text pat = some r ∧ (r = bmhBadPattern ∨ FindsFirst pat text r)
  rope : ∀ alloc textstr, ropeMatch platform alloc textstr pat = .outOfMemory ∨
    ropeMatch platform alloc textstr pat = .matched (stringMatch platform textstr.chars pat)
  rope_succeeds : ∀ alloc textstr, (∀ i, alloc.stackOk i = true) → alloc.flattenOk = true →
    ropeMatch platform alloc textstr pat = .matched (stringMatch platform textstr.chars pat)

/-- All substring searches agree. -/
theorem searches_agree (platform : Platform) (pat : List Jschar) : SearchesAgree platform pat where
  string text := stringMatch_finds platform text pat
  unrolled _ hpat hlen := unrolledSearch_finds platform hpat hlen
  horspool text hpat hmax := boyerMooreHorspool_finds text hpat hmax
  rope alloc textstr := ropeMatch_eq platform alloc textstr pat
  rope_succeeds alloc textstr hstack hflatten :=
    (ropeMatch_eq platform alloc textstr pat).resolve_left
      (ropeMatch_ne_outOfMemory platform hstack hflatten textstr pat)

end SpiderMonkey.Vm
