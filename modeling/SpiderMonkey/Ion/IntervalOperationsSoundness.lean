import SpiderMonkey.Ion.IntervalOperations

/-! # Live intervals are sets of positions

Each operation of an interval is one of sets, whatever range was looked at last: the ranges that
are skipped end before the position in question.
-/

namespace SpiderMonkey.Ion.LinearScan

open SpiderMonkey.Lib List Option Function

/-! ## Changes of the ranges -/

section

variable {rs : List (HalfOpen Nat)} {r new : HalfOpen Nat} {p n : Nat}

lemma le_of_covers (hfrom : ∀ r ∈ rs, n ≤ r.fromPos) (h : Covers rs p) : n ≤ p := by
  obtain ⟨r, hr, hmem⟩ := h
  exact le_trans (hfrom r hr) hmem.1

lemma lt_of_covers (hto : ∀ r ∈ rs, r.toPos ≤ n) (h : Covers rs p) : p < n := by
  obtain ⟨r, hr, hmem⟩ := h
  exact lt_of_lt_of_le hmem.2 (hto r hr)

lemma covers_coalesce_iff (hfrom : ∀ r ∈ rs, new.fromPos ≤ r.fromPos) :
    Covers (coalesce rs new) p ↔ p ∈ new ∨ Covers rs p := by
  refine ⟨fun h => ?_, covers_coalesce hfrom⟩
  induction rs generalizing new with
  | nil => simpa [coalesce] using h
  | cons i rest ih =>
    rw [coalesce] at h
    rw [covers_cons]
    have hle := hfrom i mem_cons_self
    split_ifs at h with hbefore
    · rw [covers_cons, covers_cons] at h
      exact h
    · have hlt : new.fromPos < max new.toPos i.toPos := lt_of_lt_of_le new.lt (le_max_left _ _)
      have hfrom' : ∀ r ∈ rest,
          (⟨new.fromPos, max new.toPos i.toPos, hlt⟩ : HalfOpen Nat).fromPos ≤ r.fromPos :=
        fun r hr => hfrom r (mem_cons_of_mem i hr)
      have hcovers := ih hfrom' h
      rw [HalfOpen.mem_iff] at hcovers ⊢
      rw [HalfOpen.mem_iff]
      simp only at hcovers
      rcases hcovers with hmem | hrest
      · omega
      · exact .inr (.inr hrest)

lemma covers_addRange_iff (hordered : Ordered rs) :
    Covers (addRange rs new) p ↔ p ∈ new ∨ Covers rs p := by
  refine ⟨fun h => ?_, covers_addRange hordered⟩
  induction rs with
  | nil => simpa [addRange] using h
  | cons i rest ih =>
    rw [ordered_cons] at hordered
    rw [addRange] at h
    rw [covers_cons]
    split_ifs at h with hafter
    · rw [covers_cons] at h
      rcases h with h | h
      · exact .inr (.inl h)
      · exact (ih hordered.2 h).imp_right .inr
    · have hfrom : ∀ r ∈ i :: rest, min i.fromPos new.fromPos ≤ r.fromPos := by
        intro r hr
        have hlt := i.lt
        rcases mem_cons.1 hr with rfl | hr
        · exact min_le_left _ _
        · have hle := hordered.1 r hr
          omega
      have hcovers := (covers_coalesce_iff hfrom).mp h
      rw [covers_cons, HalfOpen.mem_iff, HalfOpen.mem_iff] at hcovers
      rw [HalfOpen.mem_iff, HalfOpen.mem_iff]
      simp only at hcovers
      rcases hcovers with hmem | hmem | hrest
      · have hlt := new.lt
        omega
      · exact .inr (.inl hmem)
      · exact .inr (.inr hrest)

lemma ordered_addRange (hordered : Ordered rs) : Ordered (addRange rs new) :=
  (addRange_spec hordered (fun _ _ => Nat.zero_le _) (Nat.zero_le _)).1

/-- Where a range may be added at the head: in reach of the first range, and not beyond the start
of the second. -/
def FitsAtHead (rs : List (HalfOpen Nat)) (r : HalfOpen Nat) : Prop :=
  match rs with
  | [] => True
  | first :: rest =>
    (r.toPos ≤ first.fromPos ∨ r.fromPos < first.toPos) ∧ ∀ r' ∈ rest, r.toPos ≤ r'.fromPos

lemma covers_addRangeAtHead_iff (h : FitsAtHead rs r) :
    Covers (addRangeAtHead rs r) p ↔ p ∈ r ∨ Covers rs p := by
  refine ⟨fun hcovers => ?_, covers_addRangeAtHead⟩
  cases rs with
  | nil => simpa [addRangeAtHead] using hcovers
  | cons first rest =>
    obtain ⟨hreach, -⟩ := h
    have hlt := r.lt
    have hlt' := first.lt
    rw [addRangeAtHead] at hcovers
    rw [covers_cons]
    split_ifs at hcovers with hbefore htouch
    · rwa [covers_cons, covers_cons] at hcovers
    · rw [covers_cons, HalfOpen.mem_iff] at hcovers
      rw [HalfOpen.mem_iff, HalfOpen.mem_iff]
      simp only at hcovers
      rcases hcovers with hmem | hrest
      · omega
      · exact .inr (.inr hrest)
    · rw [covers_cons, HalfOpen.mem_iff] at hcovers
      rw [HalfOpen.mem_iff, HalfOpen.mem_iff]
      simp only at hcovers
      rcases hcovers with hmem | hrest
      · omega
      · exact .inr (.inr hrest)

lemma ordered_addRangeAtHead (hordered : Ordered rs) (h : FitsAtHead rs r) :
    Ordered (addRangeAtHead rs r) := by
  cases rs with
  | nil => exact pairwise_singleton _ _
  | cons first rest =>
    obtain ⟨-, hsecond⟩ := h
    have hrest := ordered_cons.1 hordered
    rw [addRangeAtHead]
    split_ifs with hbefore htouch
    · refine ordered_cons.2 ⟨fun r' hr' => ?_, hordered⟩
      rcases mem_cons.1 hr' with rfl | hr'
      · exact le_of_lt hbefore
      · exact hsecond r' hr'
    · exact ordered_cons.2 hrest
    · refine ordered_cons.2 ⟨fun r' hr' => ?_, hrest.2⟩
      exact max_le (hsecond r' hr') (hrest.1 r' hr')

lemma ordered_setFrom (hordered : Ordered rs) (pos : Nat) : Ordered (setFrom rs pos) := by
  induction rs with
  | nil => exact hordered
  | cons r rest ih =>
    have hrest := ordered_cons.1 hordered
    rw [setFrom]
    split_ifs
    · exact ih hrest.2
    · exact hrest.2
    · exact ordered_cons.2 hrest
    · exact hrest.2

/-- The positions of a set from one on. If neither it nor the one before it is in the set, what
remains starts with it. -/
def startFrom (S : Set Nat) (pos : Nat) : Set Nat :=
  {p | pos ≤ p ∧ (p ∈ S ∨ pos - 1 ∉ S ∧ ∃ q, IsLeast {x ∈ S | pos ≤ x} q ∧ p < q)}

lemma covers_setFrom_iff (hordered : Ordered rs) (pos : Nat) :
    Covers (setFrom rs pos) p ↔ p ∈ startFrom {x | Covers rs x} pos := by
  induction rs with
  | nil =>
    refine iff_of_false (covers_nil p) ?_
    rintro ⟨-, hmem | ⟨-, q, hq, -⟩⟩
    · exact covers_nil p hmem
    · exact covers_nil q hq.1.1
  | cons r rest ih =>
    have hlt := r.lt
    have hrest := ordered_cons.1 hordered
    have hbehind : ∀ x, Covers rest x → r.toPos ≤ x := fun x => le_of_covers hrest.1
    rw [setFrom]
    simp only [startFrom, Set.mem_ofPred_eq, covers_cons, HalfOpen.mem_iff] at ih ⊢
    split_ifs with hbefore htouch hin
    · -- the first range ends before the one before the position
      rw [ih hrest.2]
      have hfirst : ∀ x, pos - 1 ≤ x → (((r.fromPos ≤ x ∧ x < r.toPos) ∨ Covers rest x) ↔
          Covers rest x) := fun x hx => or_iff_right fun hmem => by omega
      have hset : {x | ((r.fromPos ≤ x ∧ x < r.toPos) ∨ Covers rest x) ∧ pos ≤ x} =
          {x | Covers rest x ∧ pos ≤ x} := by
        ext x
        refine and_congr_left fun hx => hfirst x (by omega)
      rw [hset, hfirst (pos - 1) le_rfl]
      exact and_congr_right fun hp => by rw [hfirst p (by omega)]
    · subst htouch
      have hprev : r.fromPos ≤ r.toPos - 1 ∧ r.toPos - 1 < r.toPos := by omega
      constructor
      · exact fun h => ⟨hbehind p h, .inl (.inr h)⟩
      · rintro ⟨hp, (hmem | h) | ⟨hnot, -⟩⟩
        · omega
        · exact h
        · exact absurd (.inl hprev) hnot
    · rw [covers_cons, HalfOpen.mem_iff]
      simp only
      constructor
      · rintro (hmem | h)
        · refine ⟨hmem.1, ?_⟩
          by_cases hfrom : r.fromPos ≤ p
          · exact .inl (.inl ⟨hfrom, hmem.2⟩)
          · refine .inr ⟨?_, r.fromPos, ⟨⟨.inl ⟨le_rfl, hlt⟩, by omega⟩, ?_⟩, by omega⟩
            · rintro (hprev | hprev)
              · omega
              · have hle := hbehind _ hprev
                omega
            · rintro x ⟨hmem' | hx, -⟩
              · exact hmem'.1
              · have hle := hbehind _ hx
                omega
        · have hle := hbehind p h
          exact ⟨by omega, .inl (.inr h)⟩
      · rintro ⟨hp, (hmem | h) | ⟨-, q, hq, hpq⟩⟩
        · exact .inl ⟨hp, hmem.2⟩
        · exact .inr h
        · -- the least position that remains is in the first range
          by_cases hfrom : r.fromPos ≤ pos
          · have hle := hq.2 ⟨.inl ⟨hfrom, hin⟩, le_rfl⟩
            omega
          · have hle := hq.2 ⟨.inl ⟨le_rfl, hlt⟩, by omega⟩
            exact .inl ⟨hp, by omega⟩
    · omega

end

namespace LiveInterval

/-! ## Splits -/

section

variable {pos : Nat}

/-- Both parts of a split, from the ranges that have been passed and those that have not. -/
lemma splitRanges_spec {earlier rs : List (HalfOpen Nat)} (hordered : Ordered (earlier ++ rs))
    (hearlier : ∀ r ∈ earlier, r.toPos ≤ pos) (hlater : ∃ r ∈ rs, pos < r.toPos) :
    Ordered (splitRanges pos earlier rs).1 ∧ Ordered (splitRanges pos earlier rs).2 ∧
      (∀ p, Covers (splitRanges pos earlier rs).1 p ↔ Covers (earlier ++ rs) p ∧ p < pos) ∧
      ∀ p, Covers (splitRanges pos earlier rs).2 p ↔ Covers (earlier ++ rs) p ∧ pos ≤ p := by
  induction rs generalizing earlier with
  | nil =>
    obtain ⟨r, hr, -⟩ := hlater
    cases hr
  | cons r rest ih =>
    have hsplit := ordered_append.1 hordered
    have hrest := ordered_cons.1 hsplit.2.1
    have hbefore : ∀ p, Covers earlier p → p < pos := fun p => lt_of_covers hearlier
    have hbehind : ∀ p, Covers rest p → r.toPos ≤ p := fun p => le_of_covers hrest.1
    rw [splitRanges]
    split_ifs with hto hfrom
    · have happend : earlier ++ r :: rest = (earlier ++ [r]) ++ rest := by
        rw [append_assoc, singleton_append]
      rw [happend] at hordered ⊢
      refine ih hordered ?_ ?_
      · intro r' hr'
        rcases mem_append.1 hr' with hr' | hr'
        · exact hearlier r' hr'
        · rw [mem_singleton.1 hr']
          exact hto
      · obtain ⟨r', hr', hlt⟩ := hlater
        rcases mem_cons.1 hr' with rfl | hr'
        · omega
        · exact ⟨r', hr', hlt⟩
    · -- the range is split
      refine ⟨?_, ordered_cons.2 hrest, fun p => ?_, fun p => ?_⟩
      · refine ordered_append.2 ⟨hsplit.1, pairwise_singleton _ _, fun r' hr' x hx => ?_⟩
        rw [mem_singleton.1 hx]
        exact hsplit.2.2 r' hr' r mem_cons_self
      · rw [covers_append, covers_append, covers_cons, covers_cons, HalfOpen.mem_iff,
          HalfOpen.mem_iff]
        simp only [covers_nil, or_false]
        constructor
        · rintro (h | h)
          · exact ⟨.inl h, hbefore p h⟩
          · exact ⟨.inr (.inl ⟨h.1, by omega⟩), h.2⟩
        · rintro ⟨h | h | h, hp⟩
          · exact .inl h
          · exact .inr ⟨h.1, hp⟩
          · have hle := hbehind p h
            omega
      · rw [covers_append, covers_cons, covers_cons, HalfOpen.mem_iff, HalfOpen.mem_iff]
        simp only
        constructor
        · rintro (h | h)
          · exact ⟨.inr (.inl ⟨by omega, h.2⟩), h.1⟩
          · have hle := hbehind p h
            exact ⟨.inr (.inr h), by omega⟩
        · rintro ⟨h | h | h, hp⟩
          · have hlt := hbefore p h
            omega
          · exact .inl ⟨hp, h.2⟩
          · exact .inr h
    · -- the split is between two ranges
      have hstart : ∀ p, Covers (r :: rest) p → pos ≤ p := fun p hp =>
        le_trans (not_lt.1 hfrom) (hsplit.2.1.head_le hp)
      refine ⟨hsplit.1, hsplit.2.1, fun p => ?_, fun p => ?_⟩
      · rw [covers_append]
        constructor
        · exact fun h => ⟨.inl h, hbefore p h⟩
        · rintro ⟨h | h, hp⟩
          · exact h
          · exact absurd (hstart p h) (not_le.2 hp)
      · rw [covers_append]
        constructor
        · exact fun h => ⟨.inr h, hstart p h⟩
        · rintro ⟨h | h, hp⟩
          · exact absurd (hbefore p h) (not_lt.2 hp)
          · exact h

end

/-! ## Queries -/

section

variable {live other : LiveInterval} {pos : Nat}

/-- What is before the range with an index does not matter from its start on. -/
lemma rangesFrom_spec (hordered : Ordered live.ranges) {i : Nat} {r : HalfOpen Nat}
    {rest : List (HalfOpen Nat)} (h : live.rangesFrom i = r :: rest) :
    Ordered (r :: rest) ∧
      ∀ p, r.fromPos ≤ p → (Covers live.ranges p ↔ Covers (r :: rest) p) := by
  have happend := take_append_drop (live.ranges.length - 1 - i) live.ranges
  have hdrop : live.ranges.drop (live.ranges.length - 1 - i) = r :: rest := h
  rw [hdrop] at happend
  rw [← happend] at hordered ⊢
  obtain ⟨-, hsuffix, hbetween⟩ := ordered_append.1 hordered
  refine ⟨hsuffix, fun p hp => ?_⟩
  rw [covers_append]
  refine or_iff_right ?_
  intro hskipped
  have hlt : p < r.fromPos :=
    lt_of_covers (fun r' hr' => hbetween r' hr' r mem_cons_self) hskipped
  omega

/-- The search begins at a range that starts in time, whatever the index has become. -/
lemma lastProcessedRangeIfValid_spec {start : Nat} (hstart : live.start? = some start)
    (hle : start ≤ pos) :
    ∃ r rest, live.rangesFrom (live.lastProcessedRangeIfValid pos) = r :: rest ∧
      r.fromPos ≤ pos := by
  rw [lastProcessedRangeIfValid]
  split_ifs with hvalid
  · cases hranges : live.rangesFrom live.lastProcessedRange with
    | nil =>
      rw [hranges] at hvalid
      exact absurd hvalid.2 Bool.false_ne_true
    | cons r rest =>
      rw [hranges] at hvalid
      exact ⟨r, rest, rfl, of_decide_eq_true hvalid.2⟩
  · cases hranges : live.ranges with
    | nil =>
      rw [start?, hranges] at hstart
      cases hstart
    | cons r rest =>
      rw [start?, hranges] at hstart
      cases hstart
      refine ⟨r, rest, ?_, hle⟩
      unfold rangesFrom
      rw [hranges, Nat.sub_self, drop_zero]

lemma start?_least {start : Nat} (hordered : Ordered live.ranges)
    (hstart : live.start? = some start) :
    Covers live.ranges start ∧ ∀ p, Covers live.ranges p → start ≤ p := by
  cases hranges : live.ranges with
  | nil =>
    rw [start?, hranges] at hstart
    cases hstart
  | cons r rest =>
    rw [start?, hranges] at hstart
    cases hstart
    rw [hranges] at hordered
    exact ⟨(covers_cons r rest _).mpr (.inl r.fromPos_mem), fun p => hordered.head_le⟩

lemma lt_end? {stop : Nat} (hordered : Ordered live.ranges) (hstop : live.end? = some stop)
    {p : Nat} (hp : Covers live.ranges p) : p < stop := by
  have hne : live.ranges ≠ [] := by
    intro hnil
    rw [hnil] at hp
    exact covers_nil p hp
  rw [end?, List.getLast?_eq_getLast_of_ne_nil hne] at hstop
  cases hstop
  exact hordered.lt_getLast hne hp

lemma coversLoop_fst (rs : List (HalfOpen Nat)) (last : Nat) :
    (coversLoop pos rs last).1 = coversFrom rs pos := by
  induction rs generalizing last with
  | nil => rfl
  | cons r rest ih =>
    rw [coversLoop, coversFrom]
    split_ifs
    · rfl
    · rfl
    · exact ih _

lemma covers_spec (hordered : Ordered live.ranges) {b : Bool} {live' : LiveInterval}
    (h : live.covers pos = some (b, live')) :
    (b = true ↔ Covers live.ranges pos) ∧ live'.ranges = live.ranges ∧ live'.uses = live.uses := by
  simp only [covers, bind_eq_bind, bind_eq_some_iff] at h
  obtain ⟨start, hstart, stop, hstop, h⟩ := h
  split_ifs at h with hout
  · cases h
    refine ⟨iff_of_false Bool.false_ne_true fun hcovers => ?_, rfl, rfl⟩
    have hle := (start?_least hordered hstart).2 pos hcovers
    have hlt := lt_end? hordered hstop hcovers
    omega
  · cases h
    refine ⟨?_, rfl, rfl⟩
    obtain ⟨r, rest, hranges, hfrom⟩ := lastProcessedRangeIfValid_spec hstart (by omega : start ≤ pos)
    obtain ⟨hsuffix, hcovers⟩ := rangesFrom_spec hordered hranges
    rw [coversLoop_fst, hranges, hcovers pos hfrom]
    exact coversFrom_iff hsuffix pos

/-- The search from the last range on, with the ranges that have been passed. -/
lemma nextCoveredLoop_spec {earlier later : List (HalfOpen Nat)}
    (hordered : Ordered (earlier.reverse ++ later)) (hlater : ∀ r ∈ later, pos < r.fromPos)
    (hstart : ∃ p ≤ pos, Covers (earlier.reverse ++ later) p) :
    IsLeast {p | Covers (earlier.reverse ++ later) p ∧ pos ≤ p}
        (nextCoveredLoop pos later.head? earlier) ∨
      nextCoveredLoop pos later.head? earlier = minPosition ∧
        ∀ p, Covers (earlier.reverse ++ later) p → p < pos := by
  induction earlier generalizing later with
  | nil =>
    obtain ⟨p, hp, r, hr, hmem⟩ := hstart
    have hlt := hlater r hr
    have hle := hmem.1
    omega
  | cons r rest ih =>
    rw [reverse_cons, append_assoc, singleton_append] at hordered hstart ⊢
    obtain ⟨-, hsuffix, hbetween⟩ := ordered_append.1 hordered
    have hbefore : ∀ p, Covers rest.reverse p → p < r.fromPos :=
      fun p => lt_of_covers fun r' hr' => hbetween r' hr' r mem_cons_self
    have hlt := r.lt
    rw [nextCoveredLoop.eq_def]
    simp only
    split_ifs with hto hfrom
    · cases later with
      | nil =>
        refine .inr ⟨rfl, fun p hp => ?_⟩
        rw [covers_append, covers_cons] at hp
        rcases hp with hp | hp | hp
        · have hbefore := hbefore p hp
          omega
        · exact lt_of_lt_of_le hp.2 hto
        · exact absurd hp (covers_nil p)
      | cons r' rest' =>
        have hr' := hlater r' mem_cons_self
        refine .inl ⟨⟨?_, le_of_lt hr'⟩, ?_⟩
        · rw [covers_append, covers_cons, covers_cons]
          exact .inr (.inr (.inl r'.fromPos_mem))
        · rintro p ⟨hp, hle⟩
          rw [covers_append, covers_cons] at hp
          rcases hp with hp | hp | hp
          · have hbefore := hbefore p hp
            omega
          · have hlt' := hp.2
            omega
          · exact (ordered_cons.1 hsuffix).2.head_le hp
    · refine .inl ⟨⟨?_, le_rfl⟩, fun p hp => hp.2⟩
      rw [covers_append, covers_cons]
      exact .inr (.inl ⟨hfrom, not_le.1 hto⟩)
    · have hrest : ∀ r' ∈ r :: later, pos < r'.fromPos := by
        intro r' hr'
        rcases mem_cons.1 hr' with rfl | hr'
        · exact not_le.1 hfrom
        · exact hlater r' hr'
      exact ih hordered hrest hstart

lemma nextCoveredAfter_spec (hordered : Ordered live.ranges)
    (hstart : ∃ p ≤ pos, Covers live.ranges p) :
    IsLeast {p | Covers live.ranges p ∧ pos ≤ p} (live.nextCoveredAfter pos) ∨
      live.nextCoveredAfter pos = minPosition ∧ ∀ p, Covers live.ranges p → p < pos := by
  have hranges : live.ranges.reverse.reverse ++ [] = live.ranges := by
    rw [reverse_reverse, append_nil]
  have hspec := nextCoveredLoop_spec (hranges.symm ▸ hordered)
    (fun r hr => absurd hr not_mem_nil) (hranges.symm ▸ hstart)
  rw [hranges] at hspec
  exact hspec

/-- The first position that two lists of ranges have in common, or none. -/
def Meets (rs1 rs2 : List (HalfOpen Nat)) (pos : Nat) : Prop :=
  IsLeast {p | Covers rs1 p ∧ Covers rs2 p} pos ∨
    pos = minPosition ∧ ∀ p, ¬ (Covers rs1 p ∧ Covers rs2 p)

lemma Meets.symm {rs1 rs2 : List (HalfOpen Nat)} (h : Meets rs1 rs2 pos) :
    Meets rs2 rs1 pos := by
  unfold Meets
  simp only [and_comm (a := Covers rs2 _)]
  exact h

lemma Meets.congr {rs1 rs1' rs2 : List (HalfOpen Nat)} (h : Meets rs1 rs2 pos)
    (hsame : ∀ p, Covers rs2 p → (Covers rs1' p ↔ Covers rs1 p)) : Meets rs1' rs2 pos := by
  have hiff : ∀ p, Covers rs1' p ∧ Covers rs2 p ↔ Covers rs1 p ∧ Covers rs2 p :=
    fun p => and_congr_left (hsame p)
  unfold Meets
  simp only [hiff]
  exact h

/-- A range that ends before the other list goes on can be left out. -/
lemma Meets.cons {r : HalfOpen Nat} {rs1 rs2 : List (HalfOpen Nat)} (h : Meets rs1 rs2 pos)
    (hend : ∀ p, Covers rs2 p → r.toPos ≤ p) : Meets (r :: rs1) rs2 pos := by
  refine h.congr fun p hp => ?_
  rw [covers_cons]
  exact or_iff_right fun hmem => absurd (hend p hp) (not_le.2 hmem.2)

/-- The first range starts no earlier than that of the other list, and before its end. -/
lemma meets_head {r1 r2 : HalfOpen Nat} {rest1 rest2 : List (HalfOpen Nat)}
    (h2 : Ordered (r2 :: rest2)) (hle : r1.fromPos ≤ r2.fromPos) (hlt : r2.fromPos < r1.toPos) :
    Meets (r1 :: rest1) (r2 :: rest2) r2.fromPos :=
  .inl ⟨⟨(covers_cons ..).mpr (.inl ⟨hle, hlt⟩), (covers_cons ..).mpr (.inl r2.fromPos_mem)⟩,
    fun _ hp => h2.head_le hp.2⟩

/-- The two lists do not meet if one of them ends and the other one goes on behind its end. -/
lemma meets_none {r1 : HalfOpen Nat} {rest1 rs2 : List (HalfOpen Nat)} {stop : Nat}
    (h1 : Ordered (r1 :: rest1)) (hend : ∀ p, Covers rs2 p → r1.toPos ≤ p)
    (hstop : ∀ p, Covers rs2 p → p < stop)
    (hnext : ¬ rest1.head?.any (fun r => r.fromPos ≤ stop) = true) :
    Meets (r1 :: rest1) rs2 minPosition := by
  refine .inr ⟨rfl, ?_⟩
  rintro p ⟨hp1, hp2⟩
  rcases (covers_cons ..).mp hp1 with hmem | hrest
  · exact absurd (hend p hp2) (not_le.2 hmem.2)
  · cases rest1 with
    | nil => exact covers_nil p hrest
    | cons r rest =>
      have hfrom : stop < r.fromPos := by simpa using hnext
      have hle := (ordered_cons.1 h1).2.head_le hrest
      have hlt := hstop p hp2
      omega

lemma intersectLoop_spec (otherStart thisEnd otherEnd : Nat) (rs1 rs2 : List (HalfOpen Nat))
    (last : Nat) (h1 : Ordered rs1) (h2 : Ordered rs2) (hne1 : rs1 ≠ []) (hne2 : rs2 ≠ [])
    (hend1 : ∀ p, Covers rs1 p → p < thisEnd) (hend2 : ∀ p, Covers rs2 p → p < otherEnd) :
    Meets rs1 rs2 (intersectLoop otherStart thisEnd otherEnd rs1 rs2 last).1 := by
  induction hsize : rs1.length + rs2.length generalizing rs1 rs2 last with
  | zero =>
    exact absurd (length_eq_zero_iff.mp (by omega)) hne1
  | succ size ih =>
    cases rs1 with
    | nil => exact absurd rfl hne1
    | cons r1 rest1 =>
    cases rs2 with
    | nil => exact absurd rfl hne2
    | cons r2 rest2 =>
    simp only [length_cons] at hsize
    rw [intersectLoop]
    simp only
    generalize (if r1.fromPos ≤ otherStart then rest1.length else last) = last'
    split_ifs with hle hin hnext hin hnext
    · exact meets_head h2 hle hin
    · -- the first list goes on
      have hpass : ∀ p, Covers (r2 :: rest2) p → r1.toPos ≤ p :=
        fun p hp => le_trans (not_lt.1 hin) (h2.head_le hp)
      have hne : rest1 ≠ [] := by
        rintro rfl
        exact Bool.false_ne_true hnext
      refine Meets.cons ?_ hpass
      refine ih rest1 (r2 :: rest2) last' (ordered_cons.1 h1).2 h2 hne hne2 ?_ hend2 ?_
      · exact fun p hp => hend1 p ((covers_cons ..).mpr (.inr hp))
      · simp only [length_cons]
        omega
    · exact meets_none h1 (fun p hp => le_trans (not_lt.1 hin) (h2.head_le hp)) hend2 hnext
    · exact (meets_head h1 (le_of_lt (not_le.1 hle)) hin).symm
    · have hpass : ∀ p, Covers (r1 :: rest1) p → r2.toPos ≤ p :=
        fun p hp => le_trans (not_lt.1 hin) (h1.head_le hp)
      have hne : rest2 ≠ [] := by
        rintro rfl
        exact Bool.false_ne_true hnext
      refine (Meets.cons (Meets.symm ?_) hpass).symm
      refine ih (r1 :: rest1) rest2 last h1 (ordered_cons.1 h2).2 hne1 hne hend1 ?_ ?_
      · exact fun p hp => hend2 p ((covers_cons ..).mpr (.inr hp))
      · simp only [length_cons]
        omega
    · exact (meets_none h2 (fun p hp => le_trans (not_lt.1 hin) (h1.head_le hp)) hend1 hnext).symm

lemma intersectFrom_spec (h1 : Ordered live.ranges) (h2 : Ordered other.ranges)
    {start otherStart : Nat} (hstart : live.start? = some start)
    (hotherStart : other.start? = some otherStart) (hle : start ≤ otherStart) {live' : LiveInterval}
    (h : live.intersectFrom other = some (pos, live')) :
    Meets live.ranges other.ranges pos ∧ live'.ranges = live.ranges ∧ live'.uses = live.uses := by
  simp only [intersectFrom, bind_eq_bind, bind_eq_some_iff] at h
  obtain ⟨otherStart', hotherStart', stop, hstop, otherStop, hotherStop, h⟩ := h
  cases hotherStart.symm.trans hotherStart'
  cases h
  refine ⟨?_, rfl, rfl⟩
  obtain ⟨r, rest, hranges, hfrom⟩ := lastProcessedRangeIfValid_spec hstart hle
  obtain ⟨hsuffix, hcovers⟩ := rangesFrom_spec h1 hranges
  have hother := start?_least h2 hotherStart
  have hne : other.ranges ≠ [] := by
    intro hnil
    rw [hnil] at hother
    exact covers_nil _ hother.1
  rw [hranges]
  -- the other interval starts behind the start of the first range that is looked at
  refine (intersectLoop_spec otherStart stop otherStop (r :: rest) other.ranges _ hsuffix h2
    (cons_ne_nil r rest) hne ?_ fun p => lt_end? h2 hotherStop).congr ?_
  · intro p hp
    refine lt_end? h1 hstop ((hcovers p ?_).mpr hp)
    exact hsuffix.head_le hp
  · intro p hp
    exact hcovers p (le_trans hfrom (hother.2 p hp))

lemma intersect_spec (h1 : Ordered live.ranges) (h2 : Ordered other.ranges)
    {live' other' : LiveInterval} (h : live.intersect other = some (pos, live', other')) :
    Meets live.ranges other.ranges pos ∧
      (live'.ranges = live.ranges ∧ live'.uses = live.uses) ∧
      other'.ranges = other.ranges ∧ other'.uses = other.uses := by
  simp only [intersect, bind_eq_bind, bind_eq_some_iff] at h
  obtain ⟨start, hstart, otherStart, hotherStart, h⟩ := h
  split_ifs at h with hlt
  · obtain ⟨⟨pos', other''⟩, hfrom, heq⟩ := bind_eq_some_iff.mp h
    cases heq
    obtain ⟨hmeets, hsame⟩ :=
      intersectFrom_spec h2 h1 hotherStart hstart (le_of_lt hlt) hfrom
    exact ⟨hmeets.symm, ⟨rfl, rfl⟩, hsame⟩
  · obtain ⟨⟨pos', live''⟩, hfrom, heq⟩ := bind_eq_some_iff.mp h
    cases heq
    obtain ⟨hmeets, hsame⟩ :=
      intersectFrom_spec h1 h2 hstart hotherStart (not_lt.1 hlt) hfrom
    exact ⟨hmeets, hsame, rfl, rfl⟩

end

end LiveInterval

/-! ## Uses -/

/-- The uses of an interval are in ascending order. -/
def UsesSorted (uses : List UsePosition) : Prop := uses.Pairwise fun u u' => u.pos ≤ u'.pos

lemma addUse_perm (uses : List UsePosition) (use : UsePosition) :
    (addUse uses use).Perm (use :: uses) := by
  induction uses with
  | nil => exact .refl _
  | cons u rest ih =>
    rw [addUse]
    split_ifs
    · exact .refl _
    · exact (ih.cons u).trans (.swap use u rest)

lemma usesSorted_addUse {uses : List UsePosition} (h : UsesSorted uses) (use : UsePosition) :
    UsesSorted (addUse uses use) := by
  induction uses with
  | nil => exact pairwise_singleton _ _
  | cons u rest ih =>
    have hrest := pairwise_cons.mp h
    rw [addUse]
    split_ifs with hle
    · refine pairwise_cons.mpr ⟨fun u' hu' => ?_, h⟩
      rcases mem_cons.1 hu' with rfl | hu'
      · exact hle
      · exact le_trans hle (hrest.1 u' hu')
    · refine pairwise_cons.mpr ⟨fun u' hu' => ?_, ih hrest.2⟩
      rcases mem_cons.1 ((addUse_perm rest use).mem_iff.mp hu') with rfl | hu'
      · exact le_of_lt (not_le.1 hle)
      · exact hrest.1 u' hu'

/-- In ascending order, the uses up to a position come first. -/
lemma split_uses {uses : List UsePosition} (h : UsesSorted uses) (pos : Nat) :
    uses.takeWhile (fun u => u.pos ≤ pos) = uses.filter (fun u => u.pos ≤ pos) ∧
      uses.dropWhile (fun u => u.pos ≤ pos) = uses.filter (fun u => pos < u.pos) := by
  induction uses with
  | nil => exact ⟨rfl, rfl⟩
  | cons u rest ih =>
    have hrest := pairwise_cons.mp h
    by_cases hle : u.pos ≤ pos
    · obtain ⟨htake, hdrop⟩ := ih hrest.2
      have hnot : ¬ pos < u.pos := not_lt.2 hle
      constructor
      · simp only [takeWhile_cons, filter_cons, hle, decide_true, if_true, htake]
      · simp only [dropWhile_cons, filter_cons, hle, hnot, decide_true, decide_false,
          Bool.false_eq_true, if_true, if_false, hdrop]
    · have hlater : ∀ u' ∈ u :: rest, pos < u'.pos := by
        intro u' hu'
        rcases mem_cons.1 hu' with rfl | hu'
        · exact not_le.1 hle
        · exact lt_of_lt_of_le (not_le.1 hle) (hrest.1 u' hu')
      constructor
      · have hfilter : (u :: rest).filter (fun u => u.pos ≤ pos) = [] :=
          filter_eq_nil_iff.mpr fun u' hu' => by simpa using hlater u' hu'
        rw [hfilter]
        simp only [takeWhile_cons, hle, decide_false, Bool.false_eq_true, if_false]
      · have hfilter : (u :: rest).filter (fun u => pos < u.pos) = u :: rest :=
          filter_eq_self.mpr fun u' hu' => decide_eq_true (hlater u' hu')
        rw [hfilter]
        simp only [dropWhile_cons, hle, decide_false, Bool.false_eq_true, if_false]

/-! ## Runs -/

namespace Intervals

/-- The positions of each interval. -/
def members (s : Intervals) (k : Nat) : Set Nat := {p | Covers (s k).ranges p}

def uses (s : Intervals) (k : Nat) : List UsePosition := (s k).uses

variable {s : Intervals} {k : Nat} {live : LiveInterval}

lemma members_update (s : Intervals) (k : Nat) (live : LiveInterval) :
    members (Function.update s k live) =
      Function.update s.members k {p | Covers live.ranges p} := by
  funext j
  by_cases hj : j = k
  · subst hj
    simp only [members, update_self]
  · simp only [members, update_of_ne hj]

lemma uses_update (s : Intervals) (k : Nat) (live : LiveInterval) :
    uses (Function.update s k live) = Function.update s.uses k live.uses := by
  funext j
  by_cases hj : j = k
  · subst hj
    simp only [uses, update_self]
  · simp only [uses, update_of_ne hj]

/-- Nothing is seen of an index. -/
lemma update_same (hranges : live.ranges = (s k).ranges) (huses : live.uses = (s k).uses) :
    members (Function.update s k live) = s.members ∧ uses (Function.update s k live) = s.uses := by
  rw [members_update, uses_update, hranges, huses]
  exact ⟨update_eq_self k s.members, update_eq_self k s.uses⟩

end Intervals

/-- What a call does to the sets of positions and to the uses, and what it returns. -/
def Does (S : Nat → Set Nat) (U : Nat → List UsePosition) :
    IntervalOp → IntervalResult → (Nat → Set Nat) → (Nat → List UsePosition) → Prop
  | .addRange k r, .done, S', U' => S' = Function.update S k {p | p ∈ r ∨ p ∈ S k} ∧ U' = U
  | .addRangeAtHead k r, .done, S', U' => S' = Function.update S k {p | p ∈ r ∨ p ∈ S k} ∧ U' = U
  | .setFrom k pos, .done, S', U' => S' = Function.update S k (startFrom (S k) pos) ∧ U' = U
  | .addUse k use, .done, S', U' =>
    S' = S ∧ ∃ us, us.Perm (use :: U k) ∧ U' = Function.update U k us
  | .splitFrom k pos after, .done, S', U' =>
    S' = Function.update (Function.update S after {p ∈ S k | pos ≤ p}) k {p ∈ S k | p < pos} ∧
      U' = Function.update (Function.update U after ((U k).filter fun u => pos < u.pos)) k
        ((U k).filter fun u => u.pos ≤ pos)
  | .covers k pos, .covered b, S', U' => (b = true ↔ pos ∈ S k) ∧ S' = S ∧ U' = U
  | .nextCoveredAfter k pos, .position q, S', U' =>
    ((∃ p ≤ pos, p ∈ S k) →
      IsLeast {p ∈ S k | pos ≤ p} q ∨ q = minPosition ∧ ∀ p ∈ S k, p < pos) ∧ S' = S ∧ U' = U
  | .intersect k other, .position q, S', U' =>
    (IsLeast {p | p ∈ S k ∧ p ∈ S other} q ∨
      q = minPosition ∧ ∀ p, ¬ (p ∈ S k ∧ p ∈ S other)) ∧ S' = S ∧ U' = U
  | _, _, _, _ => False

/-- What the caller answers for: a range that is added at the head does not reach beyond the start
of the second range. -/
def Called (s : Intervals) : IntervalOp → Prop
  | .addRangeAtHead k r => ∀ second, (s k).ranges[1]? = some second → r.toPos ≤ second.fromPos
  | _ => True

/-- The intervals that calls make of empty ones. -/
inductive Reachable : Intervals → Prop
  | new : Reachable fun _ => .new
  | step {s s' : Intervals} {op : IntervalOp} {r : IntervalResult} :
      Reachable s → Called s op → intervalStep s op = some (r, s') → Reachable s'

/-- The ranges and the uses are in order. -/
def Sorted (s : Intervals) : Prop := ∀ k, Ordered (s k).ranges ∧ UsesSorted (s k).uses

section

variable {s s' : Intervals}

lemma Sorted.update (h : Sorted s) {k : Nat} {live : LiveInterval} (hranges : Ordered live.ranges)
    (huses : UsesSorted live.uses) : Sorted (Function.update s k live) := by
  intro j
  by_cases hj : j = k
  · subst hj
    rw [update_self]
    exact ⟨hranges, huses⟩
  · rw [update_of_ne hj]
    exact h j

/-- Other ranges, with the positions of a set. -/
lemma Sorted.setRanges (h : Sorted s) (k : Nat) {rs : List (HalfOpen Nat)} {S : Set Nat}
    (hordered : Ordered rs) (hcovers : ∀ p, Covers rs p ↔ p ∈ S) :
    let s' : Intervals := Function.update s k { s k with ranges := rs }
    Sorted s' ∧ s'.members = Function.update s.members k S ∧ s'.uses = s.uses := by
  refine ⟨h.update hordered (h k).2, ?_, ?_⟩
  · rw [Intervals.members_update]
    exact congrArg _ (Set.ext hcovers)
  · rw [Intervals.uses_update]
    exact update_eq_self k s.uses

/-- In order, the second range is the one to be looked at. -/
lemma fitsAtHead {live live' : LiveInterval} {r : HalfOpen Nat} (hordered : Ordered live.ranges)
    (hcalled : ∀ second, live.ranges[1]? = some second → r.toPos ≤ second.fromPos)
    (h : live.addRangeAtHead r = some live') :
    FitsAtHead live.ranges r ∧
      live' = { live with ranges := addRangeAtHead live.ranges r } := by
  unfold LiveInterval.addRangeAtHead at h
  cases hranges : live.ranges with
  | nil =>
    simp only [hranges] at h
    exact ⟨trivial, (Option.some.inj h).symm⟩
  | cons first rest =>
    simp only [hranges] at h
    split_ifs at h with hassert
    refine ⟨⟨by omega, fun r' hr' => ?_⟩, (Option.some.inj h).symm⟩
    rw [hranges] at hordered hcalled
    cases rest with
    | nil => cases hr'
    | cons second rest =>
      have hcovers : Covers (second :: rest) r'.fromPos := ⟨r', hr', r'.fromPos_mem⟩
      exact le_trans (hcalled second rfl) ((ordered_cons.1 hordered).2.head_le hcovers)

/-- A call keeps the order, and does to the sets what it says. -/
lemma intervalStep_spec (h : Sorted s) {op : IntervalOp} {r : IntervalResult}
    (hcalled : Called s op) (hstep : intervalStep s op = some (r, s')) :
    Sorted s' ∧ Does s.members s.uses op r s'.members s'.uses := by
  cases op with
  | addRange k x =>
    cases hstep
    exact h.setRanges k (ordered_addRange (h k).1) fun p => covers_addRange_iff (h k).1
  | addRangeAtHead k x =>
    obtain ⟨live, hadd, heq⟩ := bind_eq_some_iff.mp hstep
    cases heq
    obtain ⟨hfits, rfl⟩ := fitsAtHead (h k).1 hcalled hadd
    exact h.setRanges k (ordered_addRangeAtHead (h k).1 hfits)
      fun p => covers_addRangeAtHead_iff hfits
  | setFrom k pos =>
    cases hstep
    exact h.setRanges k (ordered_setFrom (h k).1 pos) fun p => covers_setFrom_iff (h k).1 pos
  | addUse k use =>
    cases hstep
    refine ⟨h.update (h k).1 (usesSorted_addUse (h k).2 use), ?_, _, addUse_perm (s k).uses use,
      Intervals.uses_update ..⟩
    rw [Intervals.members_update]
    exact update_eq_self k s.members
  | splitFrom k pos after =>
    obtain ⟨⟨live, behind⟩, hsplit, heq⟩ := bind_eq_some_iff.mp hstep
    cases heq
    simp only [LiveInterval.splitFrom, bind_eq_bind, bind_eq_some_iff] at hsplit
    obtain ⟨start, hstart, stop, hstop, hsplit⟩ := hsplit
    split_ifs at hsplit with hout hempty
    cases hsplit
    have hlater : ∃ x ∈ (s k).ranges, pos < x.toPos := by
      rw [LiveInterval.end?, map_eq_some_iff] at hstop
      obtain ⟨x, hx, rfl⟩ := hstop
      exact ⟨x, mem_of_getLast? hx, by omega⟩
    have hordered : Ordered ([] ++ (s k).ranges) := (h k).1
    obtain ⟨hbefore, hbehind, hcovers, hcovers'⟩ := LiveInterval.splitRanges_spec hordered
      (fun x hx => absurd hx not_mem_nil) hlater
    obtain ⟨htake, hdrop⟩ := split_uses (h k).2 pos
    refine ⟨(h.update hbehind ?_).update hbefore ?_, ?_, ?_⟩
    · exact (h k).2.sublist (dropWhile_sublist _)
    · exact (h k).2.sublist (takeWhile_sublist _)
    · rw [Intervals.members_update, Intervals.members_update]
      have hafter : {p | Covers (LiveInterval.splitRanges pos [] (s k).ranges).2 p} =
          {p ∈ s.members k | pos ≤ p} := Set.ext hcovers'
      have hkept : {p | Covers (LiveInterval.splitRanges pos [] (s k).ranges).1 p} =
          {p ∈ s.members k | p < pos} := Set.ext hcovers
      rw [hafter, hkept]
    · rw [Intervals.uses_update, Intervals.uses_update]
      rw [htake, hdrop]
      rfl
  | covers k pos =>
    obtain ⟨⟨b, live⟩, hcovers, heq⟩ := bind_eq_some_iff.mp hstep
    cases heq
    obtain ⟨hb, hranges, huses⟩ := LiveInterval.covers_spec (h k).1 hcovers
    refine ⟨h.update (hranges ▸ (h k).1) (huses ▸ (h k).2), hb, ?_⟩
    exact Intervals.update_same hranges huses
  | nextCoveredAfter k pos =>
    cases hstep
    exact ⟨h, LiveInterval.nextCoveredAfter_spec (h k).1, rfl, rfl⟩
  | intersect k other =>
    obtain ⟨⟨pos, live, live'⟩, hintersect, heq⟩ := bind_eq_some_iff.mp hstep
    cases heq
    obtain ⟨hmeets, ⟨hranges, huses⟩, hranges', huses'⟩ :=
      LiveInterval.intersect_spec (h k).1 (h other).1 hintersect
    have hother := Intervals.update_same hranges' huses'
    have hsorted : Sorted (Function.update s other live') :=
      h.update (hranges' ▸ (h other).1) (huses' ▸ (h other).2)
    have hk : (Function.update s other live' k).ranges = (s k).ranges ∧
        (Function.update s other live' k).uses = (s k).uses := by
      by_cases hsame : k = other
      · subst hsame
        rw [update_self]
        exact ⟨hranges', huses'⟩
      · rw [update_of_ne hsame]
        exact ⟨rfl, rfl⟩
    have hboth := Intervals.update_same (hranges.trans hk.1.symm) (huses.trans hk.2.symm)
    refine ⟨hsorted.update (hranges ▸ (h k).1) (huses ▸ (h k).2), hmeets, ?_, ?_⟩
    · exact hboth.1.trans hother.1
    · exact hboth.2.trans hother.2

lemma Reachable.sorted (h : Reachable s) : Sorted s := by
  induction h with
  | new => exact fun k => ⟨List.Pairwise.nil, List.Pairwise.nil⟩
  | step _ hcalled hstep ih => exact (intervalStep_spec ih hcalled hstep).1

/-- Where the assertions of a call hold, it returns. -/
def Asserted (s : Intervals) : IntervalOp → Prop
  | .addRangeAtHead k r =>
    ∀ first ∈ (s k).ranges.head?, first.fromPos < r.toPos → r.fromPos < first.toPos
  | .splitFrom k pos after =>
    (∃ p ≤ pos, p ∈ s.members k) ∧ (∃ p, pos ≤ p ∧ p ∈ s.members k) ∧ (s after).ranges = [] ∧
      (s after).uses = []
  | .covers k _ => (s k).ranges ≠ []
  | .intersect k other => (s k).ranges ≠ [] ∧ (s other).ranges ≠ []
  | _ => True

lemma start?_isSome {live : LiveInterval} (h : live.ranges ≠ []) : ∃ p, live.start? = some p := by
  rw [LiveInterval.start?, List.head?_eq_some_head h]
  exact ⟨_, rfl⟩

lemma end?_isSome {live : LiveInterval} (h : live.ranges ≠ []) : ∃ p, live.end? = some p := by
  rw [LiveInterval.end?, List.getLast?_eq_getLast_of_ne_nil h]
  exact ⟨_, rfl⟩

lemma intersectFrom_isSome {live other : LiveInterval} (h : live.ranges ≠ [])
    (hother : other.ranges ≠ []) : ∃ pos live', live.intersectFrom other = some (pos, live') := by
  obtain ⟨start, hstart⟩ := start?_isSome hother
  obtain ⟨stop, hstop⟩ := end?_isSome h
  obtain ⟨otherStop, hotherStop⟩ := end?_isSome hother
  simp only [LiveInterval.intersectFrom, hstart, hstop, hotherStop, bind_eq_bind,
    bind_some]
  exact ⟨_, _, rfl⟩

lemma intervalStep_isSome (h : Sorted s) {op : IntervalOp} (hasserted : Asserted s op) :
    ∃ r s', intervalStep s op = some (r, s') := by
  cases op with
  | addRange k x => exact ⟨_, _, rfl⟩
  | setFrom k pos => exact ⟨_, _, rfl⟩
  | addUse k use => exact ⟨_, _, rfl⟩
  | nextCoveredAfter k pos => exact ⟨_, _, rfl⟩
  | addRangeAtHead k x =>
    rw [intervalStep, LiveInterval.addRangeAtHead.eq_def]
    cases hranges : (s k).ranges with
    | nil => exact ⟨_, _, rfl⟩
    | cons first rest =>
      have hreach := hasserted first (by rw [hranges]; rfl)
      simp only
      rw [if_neg fun hassert => absurd (hreach hassert.1) (not_lt.2 hassert.2)]
      exact ⟨_, _, rfl⟩
  | splitFrom k pos after =>
    obtain ⟨⟨p, hp, hmem⟩, ⟨q, hq, hmem'⟩, hranges, huses⟩ := hasserted
    have hne : (s k).ranges ≠ [] := by
      intro hnil
      have hmem : Covers (s k).ranges p := hmem
      rw [hnil] at hmem
      exact covers_nil p hmem
    obtain ⟨start, hstart⟩ := start?_isSome hne
    obtain ⟨stop, hstop⟩ := end?_isSome hne
    have hle := (LiveInterval.start?_least (h k).1 hstart).2 p hmem
    have hlt := LiveInterval.lt_end? (h k).1 hstop hmem'
    have hin : ¬ (pos < start ∨ stop ≤ pos) := by omega
    have hempty : ¬ ((s after).ranges ≠ [] ∨ (s after).uses ≠ []) := by
      rw [hranges, huses]
      simp
    simp only [intervalStep, LiveInterval.splitFrom, hstart, hstop, bind_eq_bind,
      bind_some, if_neg hin, if_neg hempty]
    exact ⟨_, _, rfl⟩
  | covers k pos =>
    obtain ⟨start, hstart⟩ := start?_isSome hasserted
    obtain ⟨stop, hstop⟩ := end?_isSome hasserted
    simp only [intervalStep, LiveInterval.covers, hstart, hstop, bind_eq_bind,
      bind_some]
    split_ifs
    · exact ⟨_, _, rfl⟩
    · exact ⟨_, _, rfl⟩
  | intersect k other =>
    obtain ⟨hk, hother⟩ := hasserted
    obtain ⟨start, hstart⟩ := start?_isSome hk
    obtain ⟨otherStart, hotherStart⟩ := start?_isSome hother
    simp only [intervalStep, LiveInterval.intersect, hstart, hotherStart, bind_eq_bind,
      bind_some]
    split_ifs
    · obtain ⟨pos, live', hfrom⟩ := intersectFrom_isSome hother hk
      rw [hfrom]
      exact ⟨_, _, rfl⟩
    · obtain ⟨pos, live', hfrom⟩ := intersectFrom_isSome hk hother
      rw [hfrom]
      exact ⟨_, _, rfl⟩

end

/-- All intervals that calls make of empty ones: their ranges and uses are in order, a call whose
assertions hold returns, and it does to the sets of positions and to the uses what it says, whatever
ranges have been looked at before. -/
theorem liveInterval_sets {s : Intervals} (h : Reachable s) :
    Sorted s ∧ (∀ op, Asserted s op → ∃ r s', intervalStep s op = some (r, s')) ∧
      ∀ op r s', Called s op → intervalStep s op = some (r, s') →
        Does s.members s.uses op r s'.members s'.uses :=
  ⟨h.sorted, fun _ => intervalStep_isSome h.sorted,
    fun _ _ _ hcalled hstep => (intervalStep_spec h.sorted hcalled hstep).2⟩

/-- An interval of one range. -/
def oneRange : Intervals :=
  Function.update (fun _ => .new) 0 (LiveInterval.new.addRange ⟨5, 8, by decide⟩)

lemma reachable_oneRange : Reachable oneRange := by
  have hstep : intervalStep (fun _ => .new) (.addRange 0 ⟨5, 8, by decide⟩) =
      some (.done, oneRange) := rfl
  exact .step .new (show Called _ (.addRange 0 ⟨5, 8, by decide⟩) from trivial) hstep

/-- `setFrom` adds the positions before the interval. -/
theorem setFrom_adds : ∃ s r s', Reachable s ∧ intervalStep s (.setFrom 0 3) = some (r, s') ∧
    4 ∉ s.members 0 ∧ 4 ∈ s'.members 0 :=
  ⟨oneRange, _, _, reachable_oneRange, rfl, (by decide : ¬ Covers (oneRange 0).ranges 4),
    (by decide : Covers (setFrom (oneRange 0).ranges 3) 4)⟩

theorem liveInterval_sets_oneRange :
    Sorted oneRange ∧ (∀ op, Asserted oneRange op → ∃ r s', intervalStep oneRange op = some (r, s')) ∧
      ∀ op r s', Called oneRange op → intervalStep oneRange op = some (r, s') →
        Does oneRange.members oneRange.uses op r s'.members s'.uses :=
  liveInterval_sets reachable_oneRange

end SpiderMonkey.Ion.LinearScan
