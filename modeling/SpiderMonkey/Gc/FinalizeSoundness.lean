import SpiderMonkey.Gc.HeapSoundness

/-! # `Arena::finalize`

The new list of spans is written into the arena while the old one is still read. What is written is
always behind the thing that the loop looks at, and what is still to be read is not.
-/

namespace SpiderMonkey.Gc

open SpiderMonkey.Lib ThingKind

variable {k : ThingKind} {isMarked : Nat → Bool} {arena i p tail : Nat} {rs : List (Nat × Nat)}
  {s s' : FinalizeState}

namespace FinalizeState

/-- The span that the tail points at. -/
def tailSpan (k : ThingKind) (s : FinalizeState) : Option Nat → FreeSpan
  | none => s.newListHead
  | some addr => k.spanAt s.words addr

/-- After the loop, with the last span written. -/
def finish (k : ThingKind) (arena : Nat) (s : FinalizeState) : FinalizeState :=
  s.setTail k
    ⟨if s.newFreeSpanStart ≠ 0 then s.newFreeSpanStart else s.nextFree.first,
      arena + k.arenaSize - 1⟩

lemma tailSpan_setTail (s : FinalizeState) (span : FreeSpan) :
    (s.setTail k span).tailSpan k s.newListTail = span := by
  rw [setTail]
  cases s.newListTail with
  | none => rfl
  | some addr => exact spanAt_putSpan addr span

lemma setTail_head {addr : Nat} (h : s.newListTail = some addr) (span : FreeSpan) :
    (s.setTail k span).newListHead = s.newListHead := by
  rw [setTail, h]

lemma setTail_words {span : FreeSpan} {x : Nat}
    (h : ∀ addr, s.newListTail = some addr → x < addr ∨ addr + k.thingSize ≤ x) :
    (s.setTail k span).words x = s.words x := by
  rw [setTail]
  cases htail : s.newListTail with
  | none => rfl
  | some addr => exact putSpan_frame (h addr htail)

lemma setTail_finalized (s : FinalizeState) (span : FreeSpan) :
    (s.setTail k span).finalized = s.finalized := by
  rw [setTail]
  cases s.newListTail <;> rfl

end FinalizeState

/-- The loop is at the thing `i`; the runs of the old list from there on are `rs` and `tail`, and the
things from `p` on are free in the new list but not in a span of it yet. -/
structure LoopInv (k : ThingKind) (arena i p : Nat) (rs : List (Nat × Nat)) (tail : Nat)
    (s : FinalizeState) : Prop where
  thing : s.thing = k.thing arena i
  nextFree : s.nextFree = k.spanOf arena rs tail
  runs : RunsFrom k.thingsPerArena i rs tail
  linked : k.Linked s.words arena rs tail
  start : s.newFreeSpanStart = if p < i then k.thing arena p else 0
  le : p ≤ i
  behind : ∀ addr, s.newListTail = some addr → addr + k.thingSize ≤ k.thing arena p

/-- What the rest of the loop does, from `s` to `s'`. -/
structure LoopResult (k : ThingKind) (isMarked : Nat → Bool) (arena i p : Nat)
    (rs : List (Nat × Nat)) (tail : Nat) (s s' : FinalizeState) : Prop where
  finalized : ∃ things, s'.finalized = s.finalized ++ things ∧ things.Pairwise (· < ·) ∧
    ∀ c, c ∈ things ↔ ∃ j, i ≤ j ∧ j < k.thingsPerArena ∧ ¬ FreeAt k.thingsPerArena rs tail j ∧
      isMarked (k.thing arena j) = false ∧ c = k.thing arena j
  allClear : s'.allClear = true ↔ s.allClear = true ∧ ∀ j, i ≤ j → j < k.thingsPerArena →
    ¬ FreeAt k.thingsPerArena rs tail j → isMarked (k.thing arena j) = false
  /-- Where all is clear no span was written. -/
  clear : s'.allClear = true → s'.newListTail = s.newListTail
  runs : ∃ rs' tail', RunsFrom k.thingsPerArena p rs' tail' ∧
    (s'.finish k arena).tailSpan k s.newListTail = k.spanOf arena rs' tail' ∧
    k.Linked (s'.finish k arena).words arena rs' tail' ∧
    ∀ j, FreeAt k.thingsPerArena rs' tail' j ↔ (p ≤ j ∧ j < i) ∨ (i ≤ j ∧ j < k.thingsPerArena ∧
      (FreeAt k.thingsPerArena rs tail j ∨ isMarked (k.thing arena j) = false))
  head : ∀ addr, s.newListTail = some addr → (s'.finish k arena).newListHead = s.newListHead
  words : ∀ x, x < k.thing arena p ∨ arena + k.arenaSize ≤ x →
    (∀ addr, s.newListTail = some addr → x < addr ∨ addr + k.thingSize ≤ x) →
    (s'.finish k arena).words x = s.words x

namespace LoopInv

lemma openSpan_start (h : LoopInv k arena i p rs tail s) :
    s.openSpan.newFreeSpanStart = k.thing arena p := by
  have hpos := thing_pos (k := k) arena p
  rw [FinalizeState.openSpan]
  dsimp only
  rw [h.start, h.thing]
  by_cases hlt : p < i
  · rw [if_pos hlt, if_neg (Nat.ne_of_gt hpos)]
  · rw [if_neg hlt, if_pos rfl, Nat.le_antisymm h.le (Nat.le_of_not_lt hlt)]

/-- The thing is not the first of the old list: it is not free. -/
lemma runs_succ (h : LoopInv k arena i p rs tail s) (hne : s.thing ≠ s.nextFree.first) :
    RunsFrom k.thingsPerArena (i + 1) rs tail := by
  rw [h.thing, h.nextFree] at hne
  have hruns := h.runs
  cases rs with
  | nil =>
    have hi : i ≠ tail := fun heq => hne (congrArg _ heq)
    exact ⟨Nat.lt_of_le_of_ne hruns.1 hi, hruns.2⟩
  | cons r rs =>
    have hi : i ≠ r.1 := fun heq => hne (congrArg _ heq)
    exact ⟨Nat.lt_of_le_of_ne hruns.1 hi, hruns.2⟩

/-- The old list ends here. -/
lemma nil_of_last (h : LoopInv k arena i p rs tail s) (heq : s.thing = s.nextFree.first)
    (hlast : s.nextFree.last = arena + k.arenaSize - 1) : rs = [] ∧ tail = i := by
  have hsize := k.thingSize_ge
  rw [h.thing, h.nextFree] at heq
  rw [h.nextFree] at hlast
  cases rs with
  | nil => exact ⟨rfl, (thing_inj.mp heq).symm⟩
  | cons r rs =>
    have hin := last_spanOf_cons arena h.runs (List.mem_cons_self ..)
    change k.thing arena r.2 = _ at hlast
    omega

/-- A run of the old list starts here. -/
lemma cons_of_first (h : LoopInv k arena i p rs tail s) (heq : s.thing = s.nextFree.first)
    (hlast : s.nextFree.last ≠ arena + k.arenaSize - 1) : ∃ j rs', rs = (i, j) :: rs' := by
  rw [h.thing, h.nextFree] at heq
  rw [h.nextFree] at hlast
  cases rs with
  | nil => exact absurd rfl hlast
  | cons r rs =>
    have hi : i = r.1 := thing_inj.mp heq
    exact ⟨r.2, rs, by rw [hi]⟩

/-- The loop ends. -/
lemma result_last (h : LoopInv k arena i p [] i s) :
    LoopResult k isMarked arena i p [] i s s := by
  have hpos := thing_pos (k := k) arena p
  have hfirst : (if s.newFreeSpanStart ≠ 0 then s.newFreeSpanStart else s.nextFree.first) =
      k.thing arena p := by
    rw [h.start, h.nextFree]
    by_cases hlt : p < i
    · rw [if_pos hlt, if_pos (Nat.ne_of_gt hpos)]
    · rw [if_neg hlt, if_neg (fun hne => hne rfl), Nat.le_antisymm h.le (Nat.le_of_not_lt hlt)]
      rfl
  have hfinish : s.finish k arena = s.setTail k (k.spanOf arena [] p) := by
    rw [FinalizeState.finish, hfirst]
    rfl
  constructor
  case finalized =>
    refine ⟨[], (List.append_nil _).symm, .nil, fun c => ?_⟩
    simp only [List.not_mem_nil, false_iff]
    rintro ⟨j, hij, hj, hfree, -⟩
    exact hfree ⟨hij, hj⟩
  case allClear =>
    refine ⟨fun hclear => ⟨hclear, fun j hij hj hfree => ?_⟩, fun hclear => hclear.1⟩
    exact absurd ⟨hij, hj⟩ hfree
  case clear => exact fun _ => rfl
  case runs =>
    refine ⟨[], p, ⟨Nat.le_refl _, Nat.le_trans h.le h.runs.2⟩, ?_, trivial, fun j => ?_⟩
    · rw [hfinish]
      exact s.tailSpan_setTail _
    · have hle := h.le
      have hn := h.runs.2
      simp only [FreeAt]
      constructor
      · intro hj
        by_cases hij : j < i
        · exact .inl ⟨hj.1, hij⟩
        · exact .inr ⟨Nat.le_of_not_lt hij, hj.2, .inl ⟨Nat.le_of_not_lt hij, hj.2⟩⟩
      · rintro (hj | hj)
        · exact ⟨hj.1, Nat.lt_of_lt_of_le hj.2 hn⟩
        · exact ⟨Nat.le_trans hle hj.1, hj.2.1⟩
  case head =>
    intro addr haddr
    rw [hfinish]
    exact s.setTail_head haddr _
  case words =>
    intro x _ hx
    rw [hfinish]
    exact s.setTail_words hx

/-! ## A run of the old list -/

/-- The state after a run of the old list. -/
def skip (k : ThingKind) (s : FinalizeState) : FinalizeState :=
  { s.openSpan with
    nextFree := k.spanAt s.words s.nextFree.last
    thing := s.nextFree.last + k.thingSize }

lemma step_skip {j : Nat} (h : LoopInv k arena i p ((i, j) :: rs) tail s) :
    LoopInv k arena (j + 1) p rs tail (skip k s) := by
  have hlast : s.nextFree.last = k.thing arena j := by
    rw [h.nextFree]
    rfl
  have hle : p < j + 1 := Nat.lt_succ_of_le (Nat.le_trans h.le h.runs.2.1)
  constructor
  case thing =>
    rw [skip, hlast, thing_succ]
  case nextFree =>
    rw [skip, hlast]
    exact h.linked.1
  case runs => exact h.runs.2.2
  case linked => exact h.linked.2
  case start =>
    rw [if_pos hle]
    exact h.openSpan_start
  case le => exact Nat.le_of_lt hle
  case behind => exact h.behind

lemma result_skip {j : Nat} (h : LoopInv k arena i p ((i, j) :: rs) tail s)
    (hr : LoopResult k isMarked arena (j + 1) p rs tail (skip k s) s') :
    LoopResult k isMarked arena i p ((i, j) :: rs) tail s s' := by
  have hij : i ≤ j := h.runs.2.1
  have hjn : j < k.thingsPerArena := h.runs.2.2.le
  -- from `j + 1` on the free things of the old list are those of the later runs
  have hfree (x : Nat) : ¬ FreeAt k.thingsPerArena ((i, j) :: rs) tail x ∧ i ≤ x ↔
      ¬ FreeAt k.thingsPerArena rs tail x ∧ j + 1 ≤ x := by
    constructor
    · rintro ⟨hx, hix⟩
      exact ⟨fun hx' => hx (.inr hx'), Nat.lt_of_not_le fun hxj => hx (.inl ⟨hix, hxj⟩)⟩
    · rintro ⟨hx, hjx⟩
      refine ⟨?_, Nat.le_trans hij (Nat.le_of_succ_le hjx)⟩
      rintro (hx' | hx')
      · exact absurd hx'.2 (Nat.not_le_of_lt hjx)
      · exact hx hx'
  constructor
  case finalized =>
    obtain ⟨things, happ, hsorted, hmem⟩ := hr.finalized
    refine ⟨things, happ, hsorted, fun c => (hmem c).trans ⟨?_, ?_⟩⟩
    · rintro ⟨x, hjx, hxn, hx, hrest⟩
      obtain ⟨hx', hix⟩ := (hfree x).mpr ⟨hx, hjx⟩
      exact ⟨x, hix, hxn, hx', hrest⟩
    · rintro ⟨x, hix, hxn, hx, hrest⟩
      obtain ⟨hx', hjx⟩ := (hfree x).mp ⟨hx, hix⟩
      exact ⟨x, hjx, hxn, hx', hrest⟩
  case allClear =>
    rw [hr.allClear]
    refine and_congr_right fun _ => ⟨fun hall x hix hxn hx => ?_, fun hall x hjx hxn hx => ?_⟩
    · obtain ⟨hx', hjx⟩ := (hfree x).mp ⟨hx, hix⟩
      exact hall x hjx hxn hx'
    · obtain ⟨hx', hix⟩ := (hfree x).mpr ⟨hx, hjx⟩
      exact hall x hix hxn hx'
  case clear => exact hr.clear
  case runs =>
    obtain ⟨rs', tail', hruns, hspan, hlinked, hmem⟩ := hr.runs
    refine ⟨rs', tail', hruns, hspan, hlinked, fun x => (hmem x).trans ?_⟩
    have hcons : FreeAt k.thingsPerArena ((i, j) :: rs) tail x ↔
        (i ≤ x ∧ x ≤ j) ∨ FreeAt k.thingsPerArena rs tail x := Iff.rfl
    have hp := h.le
    constructor
    · rintro (hx | ⟨hjx, hxn, hx⟩)
      · by_cases hxi : x < i
        · exact .inl ⟨hx.1, hxi⟩
        · have hxj : i ≤ x ∧ x ≤ j := by omega
          exact .inr ⟨hxj.1, Nat.lt_of_le_of_lt hxj.2 hjn, .inl (.inl hxj)⟩
      · exact .inr ⟨by omega, hxn, hx.imp_left .inr⟩
    · rintro (hx | ⟨hix, hxn, hx⟩)
      · exact .inl (by omega)
      · by_cases hxj : x ≤ j
        · exact .inl (by omega)
        · refine .inr ⟨Nat.lt_of_not_le hxj, hxn, hx.imp_left fun hx' => ?_⟩
          exact (hcons.mp hx').resolve_left fun hrun => hxj hrun.2
  case head => exact hr.head
  case words => exact hr.words

/-! ## A thing that is not free and not marked -/

/-- The state after a thing that is finalized. -/
def sweep (k : ThingKind) (finalizer : Finalizer k) (s : FinalizeState) : FinalizeState :=
  { s.openSpan with
    words := finalizer.run s.words s.thing
    finalized := s.finalized ++ [s.thing]
    thing := s.thing + k.thingSize }

lemma step_sweep (finalizer : Finalizer k) (h : LoopInv k arena i p rs tail s)
    (hne : s.thing ≠ s.nextFree.first) :
    LoopInv k arena (i + 1) p rs tail (sweep k finalizer s) := by
  have hruns := h.runs_succ hne
  have hle : p < i + 1 := Nat.lt_succ_of_le h.le
  constructor
  case thing => rw [sweep, h.thing, thing_succ]
  case nextFree => exact h.nextFree
  case runs => exact hruns
  case linked =>
    refine h.linked.frame hruns fun j hj x hx _ => finalizer.frame _ _ _ (.inr ?_)
    have hlt := thing_lt k arena (hruns.bounds hj).1
    rw [h.thing]
    exact Nat.le_trans hlt hx
  case start =>
    rw [if_pos hle]
    exact h.openSpan_start
  case le => exact Nat.le_of_lt hle
  case behind => exact h.behind

lemma result_sweep (finalizer : Finalizer k) (h : LoopInv k arena i p rs tail s)
    (hne : s.thing ≠ s.nextFree.first) (hmark : isMarked s.thing = false)
    (hr : LoopResult k isMarked arena (i + 1) p rs tail (sweep k finalizer s) s') :
    LoopResult k isMarked arena i p rs tail s s' := by
  have hruns := h.runs_succ hne
  have hfree : ¬ FreeAt k.thingsPerArena rs tail i := hruns.not_free (Nat.lt_succ_self i)
  have hi : i < k.thingsPerArena := hruns.le
  rw [h.thing] at hmark
  constructor
  case finalized =>
    obtain ⟨things, happ, hsorted, hmem⟩ := hr.finalized
    refine ⟨k.thing arena i :: things, ?_, List.pairwise_cons.mpr ⟨fun c hc => ?_, hsorted⟩,
      fun c => ?_⟩
    · rw [happ, sweep, h.thing, List.append_assoc]
      rfl
    · obtain ⟨x, hix, -, -, -, rfl⟩ := (hmem c).mp hc
      exact thing_lt_iff.mpr hix
    · rw [List.mem_cons, hmem]
      constructor
      · rintro (rfl | ⟨x, hix, hrest⟩)
        · exact ⟨i, Nat.le_refl _, hi, hfree, hmark, rfl⟩
        · exact ⟨x, Nat.le_of_succ_le hix, hrest⟩
      · rintro ⟨x, hix, hxn, hx, hunmarked, rfl⟩
        rcases Nat.lt_or_eq_of_le hix with hlt | rfl
        · exact .inr ⟨x, hlt, hxn, hx, hunmarked, rfl⟩
        · exact .inl rfl
  case allClear =>
    rw [hr.allClear]
    refine and_congr_right fun _ => ⟨fun hall x hix hxn hx => ?_,
      fun hall x hix hxn hx => hall x (Nat.le_of_succ_le hix) hxn hx⟩
    rcases Nat.lt_or_eq_of_le hix with hlt | rfl
    · exact hall x hlt hxn hx
    · exact hmark
  case clear => exact hr.clear
  case runs =>
    obtain ⟨rs', tail', hruns', hspan, hlinked, hmem⟩ := hr.runs
    refine ⟨rs', tail', hruns', hspan, hlinked, fun x => (hmem x).trans ?_⟩
    have hp := h.le
    constructor
    · rintro (hx | ⟨hix, hx⟩)
      · by_cases hxi : x < i
        · exact .inl ⟨hx.1, hxi⟩
        · have heq : x = i := by omega
          subst heq
          exact .inr ⟨Nat.le_refl _, hi, .inr hmark⟩
      · exact .inr ⟨Nat.le_of_succ_le hix, hx⟩
    · rintro (hx | ⟨hix, hx⟩)
      · exact .inl ⟨hx.1, Nat.lt_succ_of_lt hx.2⟩
      · rcases Nat.lt_or_eq_of_le hix with hlt | rfl
        · exact .inr ⟨hlt, hx⟩
        · exact .inl ⟨hp, Nat.lt_succ_self _⟩
  case head => exact hr.head
  case words =>
    intro x hx hbehind
    rw [hr.words x hx hbehind]
    refine finalizer.frame _ _ _ ?_
    rw [h.thing]
    refine hx.imp (fun hlt => Nat.lt_of_lt_of_le hlt (thing_le k arena h.le)) fun hge => ?_
    exact Nat.le_trans (thing_inside k arena hi).2 hge

/-! ## A marked thing -/

/-- The state after a marked thing. -/
def keep (k : ThingKind) (s : FinalizeState) : FinalizeState :=
  { s.closeSpan k with allClear := false, thing := s.thing + k.thingSize }

/-- The part of the result that does not depend on whether a span was closed. -/
lemma finalized_keep (h : LoopInv k arena i p rs tail s) (hmark : isMarked s.thing = true)
    {s₁ : FinalizeState} (hfinalized : s₁.finalized = s.finalized) {p' : Nat}
    (hr : LoopResult k isMarked arena (i + 1) p' rs tail s₁ s') :
    ∃ things, s'.finalized = s.finalized ++ things ∧ things.Pairwise (· < ·) ∧
      ∀ c, c ∈ things ↔ ∃ j, i ≤ j ∧ j < k.thingsPerArena ∧ ¬ FreeAt k.thingsPerArena rs tail j ∧
        isMarked (k.thing arena j) = false ∧ c = k.thing arena j := by
  rw [h.thing] at hmark
  obtain ⟨things, happ, hsorted, hmem⟩ := hr.finalized
  refine ⟨things, by rw [happ, hfinalized], hsorted, fun c => (hmem c).trans ⟨?_, ?_⟩⟩
  · rintro ⟨x, hix, hrest⟩
    exact ⟨x, Nat.le_of_succ_le hix, hrest⟩
  · rintro ⟨x, hix, hxn, hx, hunmarked, hc⟩
    rcases Nat.lt_or_eq_of_le hix with hlt | rfl
    · exact ⟨x, hlt, hxn, hx, hunmarked, hc⟩
    · exact absurd (hmark.symm.trans hunmarked) (by decide)

lemma allClear_keep (h : LoopInv k arena i p rs tail s) (hne : s.thing ≠ s.nextFree.first)
    (hmark : isMarked s.thing = true) {p' : Nat}
    (hr : LoopResult k isMarked arena (i + 1) p' rs tail (keep k s) s') :
    s'.allClear = true ↔ s.allClear = true ∧ ∀ j, i ≤ j → j < k.thingsPerArena →
      ¬ FreeAt k.thingsPerArena rs tail j → isMarked (k.thing arena j) = false := by
  have hruns := h.runs_succ hne
  rw [h.thing] at hmark
  rw [hr.allClear]
  constructor
  · rintro ⟨hclear, -⟩
    cases hclear
  · rintro ⟨-, hall⟩
    have hunmarked := hall i (Nat.le_refl _) hruns.le (hruns.not_free (Nat.lt_succ_self i))
    exact absurd (hmark.symm.trans hunmarked) (by decide)

lemma closeSpan_pending (h : LoopInv k arena i p rs tail s) {q : Nat} (hi : i = q + 1)
    (hq : p ≤ q) : s.closeSpan k =
      { s.setTail k ⟨k.thing arena p, k.thing arena q⟩ with
        newListTail := some (k.thing arena q), newFreeSpanStart := 0 } := by
  have hpos := thing_pos (k := k) arena p
  have hstart : s.newFreeSpanStart = k.thing arena p := by
    rw [h.start, if_pos (by omega)]
  have hprev : s.thing - k.thingSize = k.thing arena q := by
    rw [h.thing, hi, thing_succ, Nat.add_sub_cancel]
  rw [FinalizeState.closeSpan, hstart, if_pos (Nat.ne_of_gt hpos), hprev]

lemma closeSpan_none (h : LoopInv k arena i i rs tail s) : s.closeSpan k = s := by
  have hstart : s.newFreeSpanStart = 0 := by
    rw [h.start, if_neg (Nat.lt_irrefl _)]
  rw [FinalizeState.closeSpan, hstart, if_neg fun hne => hne rfl]

lemma setTail_nextFree (s : FinalizeState) (span : FreeSpan) :
    (s.setTail k span).nextFree = s.nextFree := by
  rw [FinalizeState.setTail]
  cases s.newListTail <;> rfl

lemma step_keep (h : LoopInv k arena i p rs tail s) (hne : s.thing ≠ s.nextFree.first) :
    LoopInv k arena (i + 1) (i + 1) rs tail (keep k s) := by
  have hruns := h.runs_succ hne
  have hthing : (keep k s).thing = k.thing arena (i + 1) := by
    rw [keep, h.thing, thing_succ]
  have hstart : (if i + 1 < i + 1 then k.thing arena (i + 1) else 0) = 0 :=
    if_neg (Nat.lt_irrefl _)
  rcases Nat.lt_or_eq_of_le h.le with hlt | rfl
  · obtain ⟨q, hi⟩ : ∃ q, i = q + 1 := ⟨i - 1, by omega⟩
    have hq : p ≤ q := by omega
    have hclose := h.closeSpan_pending hi hq
    constructor
    case thing => exact hthing
    case nextFree =>
      rw [keep, hclose]
      exact (setTail_nextFree s _).trans h.nextFree
    case runs => exact hruns
    case linked =>
      refine h.linked.frame hruns fun j hj x hx _ => ?_
      have hle : k.thing arena p ≤ k.thing arena j :=
        thing_le k arena (Nat.le_trans (Nat.le_succ_of_le h.le) (hruns.bounds hj).1)
      rw [keep, hclose]
      exact s.setTail_words fun addr haddr =>
        .inr (Nat.le_trans (h.behind addr haddr) (Nat.le_trans hle hx))
    case start =>
      rw [keep, hclose, hstart]
    case le => exact Nat.le_refl _
    case behind =>
      intro addr haddr
      rw [keep, hclose] at haddr
      rw [← Option.some.inj haddr]
      exact thing_lt k arena (by omega)
  · have hclose := h.closeSpan_none
    constructor
    case thing => exact hthing
    case nextFree =>
      rw [keep, hclose]
      exact h.nextFree
    case runs => exact hruns
    case linked =>
      rw [keep, hclose]
      exact h.linked
    case start =>
      rw [keep, hclose, hstart, h.start, if_neg (Nat.lt_irrefl _)]
    case le => exact Nat.le_refl _
    case behind =>
      intro addr haddr
      rw [keep, hclose] at haddr
      exact Nat.le_trans (h.behind addr haddr) (thing_le k arena (Nat.le_succ _))

/-- No span was open: the runs that come later are all. -/
lemma result_keep_none (h : LoopInv k arena i i rs tail s) (hne : s.thing ≠ s.nextFree.first)
    (hmark : isMarked s.thing = true)
    (hr : LoopResult k isMarked arena (i + 1) (i + 1) rs tail (keep k s) s') :
    LoopResult k isMarked arena i i rs tail s s' := by
  have hruns := h.runs_succ hne
  have hfree : ¬ FreeAt k.thingsPerArena rs tail i := hruns.not_free (Nat.lt_succ_self i)
  have hclose : keep k s = { s with allClear := false, thing := s.thing + k.thingSize } := by
    rw [keep, h.closeSpan_none]
  have htail : (keep k s).newListTail = s.newListTail := by rw [hclose]
  constructor
  case finalized => exact h.finalized_keep hmark (by rw [hclose]) hr
  case allClear => exact h.allClear_keep hne hmark hr
  case clear => exact fun hclear => absurd (hr.allClear.mp hclear).1 Bool.false_ne_true
  case runs =>
    obtain ⟨rs', tail', hruns', hspan, hlinked, hmem⟩ := hr.runs
    rw [htail] at hspan
    rw [h.thing] at hmark
    refine ⟨rs', tail', hruns'.mono (Nat.le_succ _), hspan, hlinked, fun x => (hmem x).trans ?_⟩
    constructor
    · rintro (hx | ⟨hix, hx⟩)
      · exact absurd hx.2 (Nat.not_lt_of_le hx.1)
      · exact .inr ⟨Nat.le_of_succ_le hix, hx⟩
    · rintro (hx | ⟨hix, hxn, hx⟩)
      · exact absurd hx.2 (Nat.not_lt_of_le hx.1)
      · rcases Nat.lt_or_eq_of_le hix with hlt | rfl
        · exact .inr ⟨hlt, hxn, hx⟩
        · rcases hx with hx | hx
          · exact absurd hx hfree
          · exact absurd (hmark.symm.trans hx) (by decide)
  case head =>
    intro addr haddr
    rw [hr.head addr (htail.trans haddr), hclose]
  case words =>
    intro x hx hbehind
    rw [hr.words x (hx.imp_left fun hlt => Nat.lt_of_lt_of_le hlt (thing_le k arena (Nat.le_succ _)))
      fun addr haddr => hbehind addr (htail.symm.trans haddr), hclose]

/-- The span from `p` to the thing before comes before the runs that come later. -/
lemma result_keep_pending (h : LoopInv k arena i p rs tail s) (hne : s.thing ≠ s.nextFree.first)
    (hmark : isMarked s.thing = true) {q : Nat} (hi : i = q + 1) (hq : p ≤ q)
    (hr : LoopResult k isMarked arena (i + 1) (i + 1) rs tail (keep k s) s') :
    LoopResult k isMarked arena i p rs tail s s' := by
  have hruns := h.runs_succ hne
  have hfree : ¬ FreeAt k.thingsPerArena rs tail i := hruns.not_free (Nat.lt_succ_self i)
  have hclose : keep k s =
      { s.setTail k ⟨k.thing arena p, k.thing arena q⟩ with
        newListTail := some (k.thing arena q), newFreeSpanStart := 0, allClear := false,
        thing := s.thing + k.thingSize } := by
    rw [keep, h.closeSpan_pending hi hq]
  have htail : (keep k s).newListTail = some (k.thing arena q) := by rw [hclose]
  have hkeepWords : (keep k s).words = (s.setTail k ⟨k.thing arena p, k.thing arena q⟩).words := by
    rw [hclose]
  have hqi : k.thing arena q + k.thingSize ≤ k.thing arena (i + 1) := thing_lt k arena (by omega)
  have hpq : k.thing arena p ≤ k.thing arena q := thing_le k arena hq
  -- what is behind the span that was just closed stays
  have hbefore (x : Nat) (hx : x < k.thing arena p) :
      (s'.finish k arena).words x = (keep k s).words x := by
    refine hr.words x (.inl (by omega)) fun addr haddr => .inl ?_
    rw [← Option.some.inj (htail.symm.trans haddr)]
    exact Nat.lt_of_lt_of_le hx hpq
  constructor
  case finalized =>
    refine h.finalized_keep hmark ?_ hr
    rw [hclose]
    exact s.setTail_finalized _
  case allClear => exact h.allClear_keep hne hmark hr
  case clear => exact fun hclear => absurd (hr.allClear.mp hclear).1 Bool.false_ne_true
  case runs =>
    obtain ⟨rs', tail', hruns', hspan, hlinked, hmem⟩ := hr.runs
    rw [htail] at hspan
    rw [h.thing] at hmark
    refine ⟨(p, q) :: rs', tail', ⟨Nat.le_refl _, hq, hruns'.mono (by dsimp only; omega)⟩, ?_,
      ⟨hspan, hlinked⟩, fun x => ?_⟩
    · have hset := s.tailSpan_setTail (k := k) ⟨k.thing arena p, k.thing arena q⟩
      cases hsTail : s.newListTail with
      | none =>
        rw [hsTail] at hset
        rw [FinalizeState.tailSpan, hr.head _ htail, hclose]
        exact hset
      | some addr =>
        rw [hsTail, FinalizeState.tailSpan, ← hkeepWords] at hset
        have hle := h.behind addr hsTail
        rw [FinalizeState.tailSpan, spanAt_eq fun x _ hx => hbefore x (by omega)]
        exact hset
    · have hcons : FreeAt k.thingsPerArena ((p, q) :: rs') tail' x ↔
          (p ≤ x ∧ x ≤ q) ∨ FreeAt k.thingsPerArena rs' tail' x := Iff.rfl
      rw [hcons, hmem]
      constructor
      · rintro (hx | hx | ⟨hix, hx⟩)
        · exact .inl ⟨hx.1, by omega⟩
        · exact absurd hx.2 (Nat.not_lt_of_le hx.1)
        · exact .inr ⟨Nat.le_of_succ_le hix, hx⟩
      · rintro (hx | ⟨hix, hxn, hx⟩)
        · exact .inl ⟨hx.1, by omega⟩
        · rcases Nat.lt_or_eq_of_le hix with hlt | rfl
          · exact .inr (.inr ⟨hlt, hxn, hx⟩)
          · rcases hx with hx | hx
            · exact absurd hx hfree
            · exact absurd (hmark.symm.trans hx) (by decide)
  case head =>
    intro addr haddr
    rw [hr.head _ htail, hclose]
    exact s.setTail_head haddr _
  case words =>
    intro x hx hbehind
    have hlater : (s'.finish k arena).words x = (keep k s).words x := by
      rcases hx with hlt | hge
      · exact hbefore x hlt
      · refine hr.words x (.inr hge) fun addr haddr => .inr ?_
        have hqn : q < k.thingsPerArena := by
          have hin := hruns.le
          omega
        have hin := thing_inside k arena hqn
        rw [← Option.some.inj (htail.symm.trans haddr)]
        omega
    rw [hlater, hkeepWords]
    exact s.setTail_words hbehind

lemma result_keep (h : LoopInv k arena i p rs tail s) (hne : s.thing ≠ s.nextFree.first)
    (hmark : isMarked s.thing = true)
    (hr : LoopResult k isMarked arena (i + 1) (i + 1) rs tail (keep k s) s') :
    LoopResult k isMarked arena i p rs tail s s' := by
  rcases Nat.lt_or_eq_of_le h.le with hlt | rfl
  · exact h.result_keep_pending hne hmark (q := i - 1) (by omega) (by omega) hr
  · exact h.result_keep_none hne hmark hr

end LoopInv

/-- The loop ends, wherever it is, and does what it should. -/
lemma finalizeLoop_spec (isMarked : Nat → Bool) (finalizer : Finalizer k) {fuel : Nat}
    (hfuel : k.thingsPerArena + 1 - i ≤ fuel) (h : LoopInv k arena i p rs tail s) :
    ∃ s', finalizeLoop k finalizer isMarked (arena + k.arenaSize - 1) fuel s = some s' ∧
      LoopResult k isMarked arena i p rs tail s s' := by
  induction fuel generalizing i p rs tail s with
  | zero =>
    have hle := h.runs.le
    omega
  | succ fuel ih =>
    rw [finalizeLoop]
    by_cases heq : s.thing = s.nextFree.first
    · rw [if_pos heq]
      by_cases hlast : s.nextFree.last = arena + k.arenaSize - 1
      · obtain ⟨rfl, rfl⟩ := h.nil_of_last heq hlast
        rw [if_pos hlast]
        exact ⟨s, rfl, h.result_last⟩
      · obtain ⟨j, rs', rfl⟩ := h.cons_of_first heq hlast
        rw [if_neg hlast]
        have hij := h.runs.2.1
        obtain ⟨s', hs', hr⟩ := ih (by dsimp only at hij; omega) h.step_skip
        exact ⟨s', hs', h.result_skip hr⟩
    · rw [if_neg heq]
      cases hmark : isMarked s.thing with
      | true =>
        rw [if_pos rfl]
        obtain ⟨s', hs', hr⟩ := ih (by omega) (h.step_keep heq)
        exact ⟨s', hs', h.result_keep heq hmark hr⟩
      | false =>
        rw [if_neg Bool.false_ne_true]
        obtain ⟨s', hs', hr⟩ := ih (by omega) (h.step_sweep finalizer heq)
        exact ⟨s', hs', h.result_sweep finalizer heq hmark hr⟩

/-! ## The arena -/

/-- The list of spans that starts with `span` is in order in the arena, and its things are the free
ones. -/
def Describes (k : ThingKind) (words : Words) (arena : Nat) (span : FreeSpan) (free : Nat → Prop) :
    Prop :=
  ∃ rs tail, RunsFrom k.thingsPerArena 0 rs tail ∧ span = k.spanOf arena rs tail ∧
    k.Linked words arena rs tail ∧ ∀ i < k.thingsPerArena, FreeAt k.thingsPerArena rs tail i ↔ free i

/-- What `Arena::finalize` does to an arena, by the things that are free before. -/
structure FinalizedArena (k : ThingKind) (isMarked : Nat → Bool) (words : Words) (arena : Nat)
    (free : Nat → Prop) (r : Finalized) : Prop where
  sorted : r.finalized.Pairwise (· < ·)
  finalized : ∀ c, c ∈ r.finalized ↔ ∃ i < k.thingsPerArena, ¬ free i ∧
    isMarked (k.thing arena i) = false ∧ c = k.thing arena i
  words : ∀ x, x < arena + k.firstThingOffset ∨ arena + k.arenaSize ≤ x → r.words x = words x
  released : r.firstFreeSpanOffsets = none → ∀ i < k.thingsPerArena, ¬ free i →
    isMarked (k.thing arena i) = false
  kept : ∀ offsets, r.firstFreeSpanOffsets = some offsets →
    (∃ i < k.thingsPerArena, ¬ free i ∧ isMarked (k.thing arena i) = true) ∧
    Describes k r.words arena (decodeOffsets arena offsets)
      (fun i => free i ∨ isMarked (k.thing arena i) = false) ∧
    (offsets = k.fullArenaOffsets ↔
      ∀ i < k.thingsPerArena, ¬ (free i ∨ isMarked (k.thing arena i) = false))

lemma thingsPerArena_lt (k : ThingKind) : k.thingsPerArena < k.arenaSize := by
  have hsize := k.thingSize_ge
  have hsum := k.arenaSize_eq
  have hle : k.thingsPerArena * 1 ≤ k.thingsPerArena * k.thingSize :=
    Nat.mul_le_mul_left _ (by omega)
  have hpos := k.offset_pos
  omega

lemma loopInv_start {words : Words} {offsets : Nat} {free : Nat → Prop}
    (hd : Describes k words arena (decodeOffsets arena offsets) free) :
    ∃ rs tail, LoopInv k arena 0 0 rs tail
        ⟨words, arena + k.firstThingOffset, decodeOffsets arena offsets, ⟨0, 0⟩, none, 0, true, []⟩ ∧
      ∀ i < k.thingsPerArena, FreeAt k.thingsPerArena rs tail i ↔ free i := by
  obtain ⟨rs, tail, hruns, hspan, hlinked, hfree⟩ := hd
  have hthing : arena + k.firstThingOffset = k.thing arena 0 := by
    rw [thing, Nat.zero_mul, Nat.add_zero]
  refine ⟨rs, tail, ?_, hfree⟩
  exact ⟨hthing, hspan, hruns, hlinked, (if_neg (Nat.lt_irrefl 0)).symm, Nat.le_refl 0,
    fun addr haddr => by cases haddr⟩

lemma finalize_spec (isMarked : Nat → Bool) (finalizer : Finalizer k) (ha : k.arenaSize ∣ arena)
    {words : Words} {offsets : Nat} {free : Nat → Prop}
    (hd : Describes k words arena (decodeOffsets arena offsets) free) :
    ∃ r, k.finalize finalizer isMarked words arena offsets = some r ∧
      FinalizedArena k isMarked words arena free r := by
  obtain ⟨rs, tail, hinv, hfree⟩ := loopInv_start hd
  have hfuel : k.thingsPerArena + 1 - 0 ≤ k.arenaSize := thingsPerArena_lt k
  obtain ⟨s, hs, hr⟩ := finalizeLoop_spec isMarked finalizer hfuel hinv
  have hthing : arena + k.firstThingOffset = k.thing arena 0 := by
    rw [thing, Nat.zero_mul, Nat.add_zero]
  have hwords (x : Nat) (hx : x < arena + k.firstThingOffset ∨ arena + k.arenaSize ≤ x) :
      (s.finish k arena).words x = words x := by
    rw [hthing] at hx
    exact hr.words x hx fun addr haddr => by cases haddr
  obtain ⟨things, happ, hsorted, hmem⟩ := hr.finalized
  have happ : s.finalized = things := happ
  have hthings (c : Nat) : c ∈ things ↔ ∃ i < k.thingsPerArena, ¬ free i ∧
      isMarked (k.thing arena i) = false ∧ c = k.thing arena i := by
    rw [hmem]
    constructor
    · rintro ⟨i, -, hi, hnot, hrest⟩
      exact ⟨i, hi, fun hfi => hnot ((hfree i hi).mpr hfi), hrest⟩
    · rintro ⟨i, hi, hnot, hrest⟩
      exact ⟨i, Nat.zero_le _, hi, fun hfi => hnot ((hfree i hi).mp hfi), hrest⟩
  rw [finalize]
  dsimp only
  rw [hs]
  dsimp only
  cases hclear : s.allClear with
  | true =>
    have htail : s.newListTail = none := hr.clear hclear
    have hfinish : (s.finish k arena).words = s.words := by
      rw [FinalizeState.finish, FinalizeState.setTail, htail]
    have hall := (hr.allClear.mp hclear).2
    refine ⟨_, if_pos rfl, ⟨?_, ?_, ?_, ?_, ?_⟩⟩
    · rw [happ]
      exact hsorted
    · rw [happ]
      exact hthings
    · intro x hx
      rw [← hfinish]
      exact hwords x hx
    · intro _ i hi hnot
      exact hall i (Nat.zero_le _) hi fun hfi => hnot ((hfree i hi).mp hfi)
    · intro o ho
      cases ho
  | false =>
    obtain ⟨rs', tail', hruns, hspan, hlinked, hfree'⟩ := hr.runs
    have hspan : (s.finish k arena).newListHead = k.spanOf arena rs' tail' := hspan
    have hnew (i : Nat) (hi : i < k.thingsPerArena) : FreeAt k.thingsPerArena rs' tail' i ↔
        free i ∨ isMarked (k.thing arena i) = false := by
      rw [hfree', hfree i hi]
      constructor
      · rintro (⟨-, hlt⟩ | ⟨-, -, h⟩)
        · exact absurd hlt (Nat.not_lt_zero i)
        · exact h
      · exact fun h => .inr ⟨Nat.zero_le _, hi, h⟩
    have hmarked : ∃ i < k.thingsPerArena, ¬ free i ∧ isMarked (k.thing arena i) = true := by
      by_contra hnone
      have htrue : s.allClear = true := by
        refine hr.allClear.mpr ⟨rfl, fun i _ hi hnot => Bool.not_eq_true _ ▸ fun hm => hnone ?_⟩
        exact ⟨i, hi, fun hfi => hnot ((hfree i hi).mpr hfi), hm⟩
      exact Bool.false_ne_true (hclear.symm.trans htrue)
    refine ⟨_, if_neg Bool.false_ne_true, ⟨?_, ?_, hwords, ?_, ?_⟩⟩
    · rw [FinalizeState.setTail_finalized, happ]
      exact hsorted
    · rw [FinalizeState.setTail_finalized, happ]
      exact hthings
    · intro hnone
      cases hnone
    · intro o ho
      have ho : k.encodeAsOffsets (s.finish k arena).newListHead = o := Option.some.inj ho
      rw [hspan] at ho
      refine ⟨hmarked, ⟨rs', tail', hruns, ?_, hlinked, hnew⟩, ?_⟩
      · rw [← ho]
        exact decode_encodeAsOffsets ha (inArena_spanOf arena hruns)
      · rw [← ho, encodeAsOffsets_eq_full_iff ha hruns]
        constructor
        · exact fun hfull i hi hfi => hfull i ((hnew i hi).mpr hfi)
        · exact fun hfull i hfi => hfull i (hruns.bounds hfi).2 ((hnew i (hruns.bounds hfi).2).mp hfi)

end SpiderMonkey.Gc
