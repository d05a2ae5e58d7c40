import SpiderMonkey.Vm.Replace
import SpiderMonkey.Vm.RopeMatchSoundness

/-! # A flat replacement does not depend on the rope, but for the empty pattern -/

namespace SpiderMonkey.Vm

open SpiderMonkey.Lib List

/-- The text with the first occurrence of the pattern replaced. -/
inductive Replaces (text pat repstr : List Jschar) : List Jschar → Prop
  | found {i} (hocc : OccursAt pat text i) (hfirst : NoneBefore pat text i) :
      Replaces text pat repstr (text.take i ++ repstr ++ text.drop (i + pat.length))
  | absent (hno : ∀ i, ¬ OccursAt pat text i) : Replaces text pat repstr text

def RopeString.IsRope : RopeString → Prop
  | .linear _ => False
  | .rope _ _ => True

variable {text pat repstr : List Jschar} {matchStart matchEnd pos : Nat}

/-! ## A leaf -/

/-- The result for what stands before `pos`. -/
def replacedUpTo (text repstr : List Jschar) (matchStart matchEnd pos : Nat) : List Jschar :=
  if pos ≤ matchStart then text.take pos
  else text.take matchStart ++ repstr ++ (text.take pos).drop matchEnd

lemma take_leaf {str rest : List Jschar} (hdrop : text.drop pos = str ++ rest) (m : Nat)
    (hm : m ≤ str.length) : text.take (pos + m) = text.take pos ++ str.take m := by
  rw [take_add, hdrop, take_append_of_le_length hm]

lemma newDependentString_ok {base : List Jschar} {start length : Nat}
    (h : start + length ≤ base.length) :
    newDependentString base start length = some ((base.drop start).take length) :=
  if_pos h

/-- What a leaf has behind the match. -/
lemma drop_leaf {str rest : List Jschar} (hdrop : text.drop pos = str ++ rest)
    (hpos : pos ≤ text.length) (hend : pos ≤ matchEnd) :
    (text.take (pos + str.length)).drop matchEnd = str.drop (matchEnd - pos) := by
  have hlen : (text.take pos).length = pos := length_take_of_le hpos
  rw [take_leaf hdrop str.length (Nat.le_refl _), take_length, drop_append, hlen,
    drop_eq_nil_of_le (by omega), nil_append]

/-- Once a leaf reaches into the match, the builder has the text before it and the
replacement. -/
lemma appendLeftSide_eq {str rest : List Jschar} (hdrop : text.drop pos = str ++ rest)
    (hbefore : pos < matchEnd) (hbehind : matchStart < pos + str.length) :
    appendLeftSide repstr matchStart pos str
      (replacedUpTo text repstr matchStart matchEnd pos) =
        some (text.take matchStart ++ repstr) := by
  rw [appendLeftSide]
  by_cases hstart : pos ≤ matchStart
  · have htake := take_leaf hdrop (matchStart - pos) (by omega)
    rw [Nat.add_sub_cancel' hstart] at htake
    rw [if_pos hstart, newDependentString_ok (by omega), replacedUpTo, if_pos hstart,
      drop_zero, htake]
    rfl
  · rw [if_neg hstart, replacedUpTo, if_neg hstart,
      drop_eq_nil_of_le (Nat.le_trans (length_take_le _ _) (Nat.le_of_lt hbefore)),
      append_nil]

lemma appendRightSide_eq {str builder : List Jschar} (hbefore : pos < matchEnd) :
    appendRightSide matchEnd pos str builder = some (builder ++ str.drop (matchEnd - pos)) := by
  rw [appendRightSide]
  by_cases hrest : matchEnd < pos + str.length
  · have hlen : (str.drop (matchEnd - pos)).length ≤ pos + str.length - matchEnd := by
      rw [length_drop]
      omega
    rw [if_pos hrest, newDependentString_ok (by omega), take_of_length_le hlen]
    rfl
  · rw [if_neg hrest, drop_eq_nil_of_le (by omega), append_nil]

/-- A leaf is appended, cut where it overlaps with the match. -/
lemma replaceLeaf_spec {str rest : List Jschar} (hmatch : matchStart < matchEnd)
    (hdrop : text.drop pos = str ++ rest) (hpos : pos ≤ text.length) :
    replaceLeaf repstr matchStart matchEnd pos str
      (replacedUpTo text repstr matchStart matchEnd pos) =
        some (replacedUpTo text repstr matchStart matchEnd (pos + str.length)) := by
  rw [replaceLeaf]
  by_cases hoverlap : pos < matchEnd ∧ matchStart < pos + str.length
  · obtain ⟨hbefore, hbehind⟩ := hoverlap
    rw [if_pos ⟨hbefore, hbehind⟩, appendLeftSide_eq hdrop hbefore hbehind]
    change appendRightSide matchEnd pos str (text.take matchStart ++ repstr) = _
    rw [appendRightSide_eq hbefore, replacedUpTo, if_neg (Nat.not_le.mpr hbehind),
      drop_leaf hdrop hpos (Nat.le_of_lt hbefore)]
  · rw [if_neg hoverlap]
    congr 1
    have htake := take_leaf hdrop str.length (Nat.le_refl _)
    rw [take_length] at htake
    by_cases hend : pos + str.length ≤ matchStart
    · rw [replacedUpTo, if_pos (by omega), replacedUpTo, if_pos hend, htake]
    · -- the whole leaf stands behind the match
      have hlen : (text.take pos).length = pos := length_take_of_le hpos
      rw [replacedUpTo, if_neg (by omega), replacedUpTo, if_neg hend, htake,
        drop_append_of_le_length (by omega), append_assoc]

/-- With an empty pattern no leaf overlaps with the match. -/
lemma replaceLeaf_empty (str builder : List Jschar) :
    replaceLeaf repstr matchStart 0 pos str builder = some (builder ++ str) := by
  rw [replaceLeaf, if_neg fun h => Nat.not_lt_zero pos h.1]

/-! ## The leaves -/

/-- The leaves that a range has still to yield. -/
def SegmentRange.count (r : SegmentRange) : Nat :=
  (if r.cur.isSome then 1 else 0) + (r.stack.map RopeString.leafCount).sum

lemma SegmentRange.settle_count {stackOk : Nat → Bool} {str : RopeString}
    {stack : List RopeString} {appends : Nat} {r : SegmentRange}
    (h : settle stackOk str stack appends = some r) :
    r.count = str.leafCount + (stack.map RopeString.leafCount).sum := by
  induction str generalizing stack appends with
  | linear chars =>
    rw [settle, Option.some.injEq] at h
    subst h
    rfl
  | rope left right ihleft ihright =>
    rw [settle] at h
    split_ifs at h
    rw [ihleft h, map_cons, sum_cons, RopeString.leafCount, Nat.add_assoc]

lemma SegmentRange.popFront_count {stackOk : Nat → Bool} {r r' : SegmentRange}
    {chars : List Jschar} (hcur : r.cur = some chars) (h : r.popFront stackOk = some r') :
    r.count = r'.count + 1 := by
  rw [popFront] at h
  rw [count, hcur, Option.isSome_some, if_pos rfl]
  cases hstack : r.stack with
  | nil =>
    rw [hstack, Option.some.injEq] at h
    subst h
    simp [count]
  | cons str stack =>
    rw [hstack] at h
    rw [settle_count h, map_cons, sum_cons, Nat.add_comm]

lemma SegmentRange.popFront_ne_none {stackOk : Nat → Bool} (hok : ∀ i, stackOk i = true)
    (r : SegmentRange) : r.popFront stackOk ≠ none := by
  rw [popFront]
  cases r.stack with
  | nil => exact Option.some_ne_none _
  | cons str stack =>
    intro hnone
    have hsome := settle_isSome hok str stack r.appends
    simp only [hnone, Option.isSome_none, Bool.false_eq_true] at hsome

/-- The loop goes through the leaves if each is dealt with as `out` says. -/
lemma replaceLeaves_spec (rangeOk : Nat → Bool) {out : Nat → List Jschar}
    (hleaf : ∀ {pos str rest}, text.drop pos = str ++ rest → pos ≤ text.length →
      replaceLeaf repstr matchStart matchEnd pos str (out pos) = some (out (pos + str.length)))
    (fuel pos : Nat) {r : SegmentRange} (hok : r.Ok) (hrest : r.rest = text.drop pos)
    (hpos : pos ≤ text.length) (hfuel : r.count < fuel) :
    (replaceLeaves rangeOk repstr matchStart matchEnd fuel r pos (out pos) =
        .error .outOfMemory ∧ ¬ ∀ i, rangeOk i = true) ∨
      replaceLeaves rangeOk repstr matchStart matchEnd fuel r pos (out pos) =
        .ok (out text.length) := by
  induction fuel generalizing r pos with
  | zero => omega
  | succ fuel ih =>
    rw [replaceLeaves]
    cases hcur : r.cur with
    | none =>
      right
      rw [SegmentRange.rest, hcur, hok hcur] at hrest
      have hend : text.length ≤ pos := drop_eq_nil_iff.mp hrest.symm
      rw [Nat.le_antisymm hpos hend]
      rfl
    | some str =>
      have hall : ∃ rest, text.drop pos = str ++ rest := by
        refine ⟨r.stack.flatMap RopeString.chars, ?_⟩
        rw [← hrest, SegmentRange.rest, hcur]
        rfl
      obtain ⟨rest, hdrop⟩ := hall
      simp only [hleaf hdrop hpos, assertSome, bind, Except.bind]
      cases hpop : r.popFront rangeOk with
      | none =>
        exact .inl ⟨rfl, fun hrange => SegmentRange.popFront_ne_none hrange r hpop⟩
      | some r' =>
        obtain ⟨hok', hrest'⟩ := SegmentRange.popFront_rest hcur hpop
        have hcount := SegmentRange.popFront_count hcur hpop
        have hlen := congrArg List.length hdrop
        rw [length_drop, length_append] at hlen
        refine ih _ hok' ?_ (by omega) (by omega)
        have happ : str ++ r'.rest = str ++ rest := by rw [← hrest', hrest, hdrop]
        rw [← drop_drop, hdrop, drop_left, append_cancel_left happ]

/-! ## The two branches -/

/-- The loop over all leaves of a rope. -/
lemma buildFlatReplacement_rope (rangeOk : Nat → Bool) (repstr : List Jschar)
    (matchStart patternLength : Nat) {textstr : RopeString} (hrope : textstr.IsRope)
    (out : Nat → List Jschar) (hzero : out 0 = [])
    (hleaf : ∀ {pos str rest}, textstr.chars.drop pos = str ++ rest →
      pos ≤ textstr.chars.length →
      replaceLeaf repstr matchStart (matchStart + patternLength) pos str (out pos) =
        some (out (pos + str.length))) :
    (buildFlatReplacement rangeOk repstr matchStart patternLength textstr =
        .error .outOfMemory ∧ ¬ ∀ i, rangeOk i = true) ∨
      buildFlatReplacement rangeOk repstr matchStart patternLength textstr =
        .ok (out textstr.chars.length) := by
  cases textstr with
  | linear chars => exact absurd hrope id
  | rope left right =>
    rw [buildFlatReplacement]
    cases hsettle : SegmentRange.settle rangeOk (.rope left right) [] 0 with
    | none =>
      refine .inl ⟨rfl, fun hrange => ?_⟩
      have hsome := SegmentRange.settle_isSome hrange (.rope left right) [] 0
      simp only [hsettle, Option.isSome_none, Bool.false_eq_true] at hsome
    | some r =>
      obtain ⟨hcur, hrest⟩ := SegmentRange.settle_rest hsettle
      have hcount := SegmentRange.settle_count hsettle
      have hok : r.Ok := fun hnone => by
        rw [hnone] at hcur
        cases hcur
      rw [flatMap_nil, append_nil] at hrest
      have hloop := replaceLeaves_spec rangeOk hleaf ((RopeString.rope left right).leafCount + 1)
        0 hok hrest (Nat.zero_le _) (by rw [hcount]; simp)
      rwa [hzero] at hloop

lemma buildFlatReplacement_linear {rangeOk : Nat → Bool} {patternLength : Nat}
    (h : matchStart + patternLength ≤ text.length) :
    buildFlatReplacement rangeOk repstr matchStart patternLength (.linear text) =
      .ok (text.take matchStart ++ repstr ++ text.drop (matchStart + patternLength)) := by
  have hlen : (text.drop (matchStart + patternLength)).length ≤
      text.length - matchStart - patternLength := by
    rw [length_drop]
    omega
  rw [buildFlatReplacement, newDependentString_ok (by omega), newDependentString_ok (by omega),
    take_of_length_le hlen, drop_zero]
  rfl

/-! ## The match -/

lemma ropeMatchText_cases (alloc : RopeAlloc) (textstr : RopeString) (pat : List Jschar) :
    ropeMatchText alloc textstr pat = textstr ∨
      pat ≠ [] ∧ ropeMatchText alloc textstr pat = .linear textstr.chars := by
  rw [ropeMatchText]
  by_cases hearly : pat.length = 0 ∨ textstr.chars.length < pat.length
  · exact .inl (if_pos hearly)
  · rw [if_neg hearly]
    have hpat : pat ≠ [] := fun h => hearly (.inl (length_eq_zero_iff.mpr h))
    cases SegmentRange.settle alloc.stackOk textstr [] 0 with
    | none => exact .inl rfl
    | some r =>
      dsimp only
      cases collectLeaves alloc (textstr.chars.length >>> 5) r [] with
      | outOfMemory | leaves _ => exact .inl rfl
      | flatten => exact .inr ⟨hpat, rfl⟩

/-- The match is of the text, whatever becomes of the rope. -/
lemma tryFlatMatch_spec (platform : Platform) (alloc : RopeAlloc) (textstr : RopeString)
    (pat : List Jschar) :
    (tryFlatMatch platform alloc pat textstr = .error .outOfMemory ∧ textstr.IsRope ∧
        ropeMatch platform alloc textstr pat = .outOfMemory) ∨
      ∃ index textstr', tryFlatMatch platform alloc pat textstr = .ok (index, textstr') ∧
        FindsFirst pat textstr.chars index ∧
        (textstr' = textstr ∨ pat ≠ [] ∧ textstr' = .linear textstr.chars) := by
  obtain ⟨index, hmatch, hfinds⟩ := stringMatch_finds platform textstr.chars pat
  cases textstr with
  | linear chars =>
    refine .inr ⟨index, .linear chars, ?_, hfinds, .inl rfl⟩
    rw [RopeString.chars] at hmatch
    rw [tryFlatMatch, hmatch]
    rfl
  | rope left right =>
    rw [tryFlatMatch]
    rcases ropeMatch_eq platform alloc (.rope left right) pat with hoom | heq
    · rw [hoom]
      exact .inl ⟨rfl, trivial, rfl⟩
    · rw [heq, hmatch]
      exact .inr ⟨index, _, rfl, hfinds, ropeMatchText_cases alloc _ pat⟩

/-! ## Replacing -/

lemma strchrLimit_eq_none {c : Jschar} {s : List Jschar} (h : c ∉ s) :
    strchrLimit c s = none := by
  induction s with
  | nil => rfl
  | cons a s ih =>
    rw [mem_cons, not_or] at h
    rw [strchrLimit, if_neg (Ne.symm h.1), ih h.2]

/-- Whether the allocations succeed. -/
structure ReplaceAlloc.Succeeds (alloc : ReplaceAlloc) : Prop where
  stack : ∀ i, alloc.ropeMatch.stackOk i = true
  flatten : alloc.ropeMatch.flattenOk = true
  range : ∀ i, alloc.rangeOk i = true

/-- With no dollar in the replacement, a string or a rope is replaced in alike, but for an empty
pattern in a rope, where the text stays as it is. -/
lemma strReplace_flat (platform : Platform) (alloc : ReplaceAlloc) (textstr : RopeString)
    (pat : List Jschar) (hrepl : 36 ∉ repstr) :
    (strReplace platform alloc textstr pat repstr = .error .outOfMemory ∧ ¬ alloc.Succeeds) ∨
      ∃ r, strReplace platform alloc textstr pat repstr = .ok r ∧
        ((textstr.IsRope ∧ pat = [] ∧ r = textstr.chars) ∨
          (¬ (textstr.IsRope ∧ pat = []) ∧ Replaces textstr.chars pat repstr r)) := by
  rw [strReplace]
  rcases tryFlatMatch_spec platform alloc.ropeMatch textstr pat with
    ⟨hoom, -, hrope⟩ | ⟨index, textstr', htry, hfinds, htext⟩
  · rw [hoom]
    refine .inl ⟨rfl, fun halloc => ?_⟩
    exact ropeMatch_ne_outOfMemory platform halloc.stack halloc.flatten textstr pat hrope
  rw [htry]
  simp only [bind, Except.bind, strchrLimit_eq_none hrepl]
  cases hfinds with
  | absent hno =>
    right
    rw [if_pos (by decide)]
    have hne : pat ≠ [] := fun hnil => hno 0 (hnil ▸ nil_prefix)
    have hchars : textstr'.chars = textstr.chars := by
      rcases htext with rfl | ⟨-, rfl⟩ <;> rfl
    refine ⟨textstr'.chars, rfl, .inr ⟨fun h => hne h.2, ?_⟩⟩
    rw [hchars]
    exact .absent hno
  | found i hocc hfirst =>
    rw [if_neg (by omega), Int.toNat_natCast]
    have hroom : i + pat.length ≤ textstr.chars.length := by
      rcases eq_nil_or_concat pat with rfl | ⟨front, last, hpat⟩
      · -- an empty pattern is found at once
        rcases Nat.eq_zero_or_pos i with rfl | hi
        · exact Nat.zero_le _
        · exact absurd nil_prefix (hfirst 0 hi)
      · exact hocc.length_le (by simp [hpat])
    have hreplaced : Replaces textstr.chars pat repstr
        (textstr.chars.take i ++ repstr ++ textstr.chars.drop (i + pat.length)) :=
      .found hocc hfirst
    have hlinear : ∀ chars, chars = textstr.chars →
        ¬ (textstr.IsRope ∧ pat = []) →
        ∃ r, buildFlatReplacement alloc.rangeOk repstr i pat.length (.linear chars) = .ok r ∧
          ((textstr.IsRope ∧ pat = [] ∧ r = textstr.chars) ∨
            (¬ (textstr.IsRope ∧ pat = []) ∧ Replaces textstr.chars pat repstr r)) := by
      rintro chars rfl hnot
      exact ⟨_, buildFlatReplacement_linear hroom, .inr ⟨hnot, hreplaced⟩⟩
    rcases htext with rfl | ⟨hne, rfl⟩
    · cases textstr' with
      | linear chars => exact .inr (hlinear chars rfl fun h => h.1)
      | rope left right =>
        by_cases hpat : pat = []
        · -- no leaf overlaps with an empty match
          have hzero : i = 0 := by
            by_contra hi
            exact hfirst 0 (Nat.pos_of_ne_zero hi) (hpat ▸ nil_prefix)
          subst hpat hzero
          have hrope : (RopeString.rope left right).IsRope := trivial
          rcases buildFlatReplacement_rope alloc.rangeOk repstr 0 0 hrope
            (fun pos => (RopeString.rope left right).chars.take pos) take_zero
            (fun hdrop hpos => by
              have htake := take_leaf hdrop _ (Nat.le_refl _)
              rw [take_length] at htake
              rw [replaceLeaf_empty, htake]) with ⟨hoom, hfail⟩ | heq
          · exact .inl ⟨hoom, fun h => hfail h.range⟩
          · refine .inr ⟨_, heq, .inl ⟨trivial, rfl, take_length⟩⟩
        · have hpos := length_pos_iff.mpr hpat
          have hrope : (RopeString.rope left right).IsRope := trivial
          rcases buildFlatReplacement_rope alloc.rangeOk repstr i pat.length hrope
            (replacedUpTo (RopeString.rope left right).chars repstr i (i + pat.length))
            (by rw [replacedUpTo, if_pos (Nat.zero_le _), take_zero])
            (fun hdrop hpos => replaceLeaf_spec (by omega) hdrop hpos) with ⟨hoom, hfail⟩ | heq
          · exact .inl ⟨hoom, fun h => hfail h.range⟩
          · refine .inr ⟨_, heq, .inr ⟨fun h => hpat h.2, ?_⟩⟩
            rw [replacedUpTo, if_neg (by omega), take_length]
            exact hreplaced
    · exact .inr (hlinear _ rfl fun h => hne h.2)

lemma Replaces.length_empty {r : List Jschar} (h : Replaces text [] repstr r) :
    r.length = repstr.length + text.length := by
  cases h with
  | @found i hocc hfirst =>
    simp only [length_append, length_take, length_drop, length_nil]
    omega
  | absent hno => exact absurd nil_prefix (hno 0)

/-- An allocator that never fails. -/
def ReplaceAlloc.always : ReplaceAlloc :=
  ⟨⟨fun _ => true, fun _ => true, true⟩, fun _ => true, true⟩

lemma ReplaceAlloc.always_succeeds : ReplaceAlloc.always.Succeeds :=
  ⟨fun _ => rfl, rfl, fun _ => rfl⟩

/-- A replacement without dollars is put in at the first occurrence, whether the text is a rope or
not and whatever its shape, unless memory runs out: exactly if not an empty pattern is replaced in
a rope by more than nothing. -/
theorem strReplace_flat_exact (platform : Platform) (textstr : RopeString)
    (pat repstr : List Jschar) (hrepl : 36 ∉ repstr) :
    ((∀ alloc, (strReplace platform alloc textstr pat repstr = .error .outOfMemory ∧
          ¬ alloc.Succeeds) ∨
        ∃ r, strReplace platform alloc textstr pat repstr = .ok r ∧
          Replaces textstr.chars pat repstr r) ↔
      ¬ (textstr.IsRope ∧ pat = [] ∧ repstr ≠ [])) := by
  constructor
  · rintro hall ⟨hrope, rfl, hne⟩
    rcases hall .always with ⟨-, hfail⟩ | ⟨r, heq, hr⟩
    · exact hfail ReplaceAlloc.always_succeeds
    rcases strReplace_flat platform .always textstr [] hrepl with
      ⟨-, hfail⟩ | ⟨r', heq', ⟨-, -, hr'⟩ | ⟨hnot, -⟩⟩
    · exact hfail ReplaceAlloc.always_succeeds
    · -- the text has stayed as it was, which is too short
      have hlen := hr.length_empty
      obtain rfl : r = r' := Except.ok.inj (heq.symm.trans heq')
      rw [hr'] at hlen
      have := length_pos_iff.mpr hne
      omega
    · exact hnot ⟨hrope, rfl⟩
  · intro hnot alloc
    rcases strReplace_flat platform alloc textstr pat hrepl with
      hoom | ⟨r, heq, ⟨hrope, hpat, rfl⟩ | ⟨-, hr⟩⟩
    · exact .inl hoom
    · refine .inr ⟨_, heq, ?_⟩
      have hrepstr : repstr = [] := by
        by_contra hne
        exact hnot ⟨hrope, hpat, hne⟩
      subst hrepstr hpat
      have hr : Replaces textstr.chars [] [] (textstr.chars.take 0 ++ [] ++ textstr.chars.drop 0) :=
        .found nil_prefix noneBefore_zero
      simpa using hr
    · exact .inr ⟨r, heq, hr⟩

/-- A string of two code units, and `z` in place of the empty pattern. -/
theorem strReplace_flat_exact_string :
    (∀ alloc, (strReplace ⟨false, false⟩ alloc (.linear [120, 121]) [] [122] =
          .error .outOfMemory ∧ ¬ alloc.Succeeds) ∨
        ∃ r, strReplace ⟨false, false⟩ alloc (.linear [120, 121]) [] [122] = .ok r ∧
          Replaces [120, 121] [] [122] r) ↔
      ¬ (RopeString.IsRope (.linear [120, 121]) ∧ ([] : List Jschar) = [] ∧
        ([122] : List Jschar) ≠ []) :=
  strReplace_flat_exact ⟨false, false⟩ (.linear [120, 121]) [] [122] (by decide)

/-- The rope of the same code units stays without the `z`. -/
theorem strReplace_empty_rope :
    strReplace ⟨false, false⟩ .always (.rope (.linear [120]) (.linear [121])) [] [122] =
        .ok [120, 121] ∧
      ¬ Replaces [120, 121] [] [122] [120, 121] := by
  refine ⟨by decide, fun h => ?_⟩
  have hlen := h.length_empty
  simp at hlen

end SpiderMonkey.Vm
