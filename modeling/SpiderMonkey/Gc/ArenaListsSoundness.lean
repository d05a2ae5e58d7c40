import SpiderMonkey.Gc.ArenaLists
import SpiderMonkey.Gc.FinalizeSoundness

/-! # Allocation and collection

Every thing of the arenas of a kind is either allocated or in a list of spans, over runs of
allocations, collections and what comes between them.
-/

namespace SpiderMonkey.Gc

open SpiderMonkey.Lib ThingKind List

variable {k : ThingKind}

/-! ## Arenas apart -/

lemma arena_unique {a b x : Nat} (ha : k.arenaSize ∣ a) (hb : k.arenaSize ∣ b)
    (hxa : a ≤ x ∧ x < a + k.arenaSize) (hxb : b ≤ x ∧ x < b + k.arenaSize) : a = b := by
  obtain ⟨p, rfl⟩ := ha
  obtain ⟨q, rfl⟩ := hb
  have hpq (p q : Nat) (hle : k.arenaSize * p ≤ x) (hlt : x < k.arenaSize * q + k.arenaSize) :
      p ≤ q := by
    rw [← Nat.mul_succ] at hlt
    exact Nat.le_of_lt_succ (Nat.lt_of_mul_lt_mul_left (Nat.lt_of_le_of_lt hle hlt))
  rw [Nat.le_antisymm (hpq p q hxa.1 hxb.2) (hpq q p hxb.1 hxa.2)]

lemma thing_mem {a i : Nat} (hi : i < k.thingsPerArena) {x : Nat} (hx : k.thing a i ≤ x)
    (hx' : x < k.thing a i + k.thingSize) : a ≤ x ∧ x < a + k.arenaSize := by
  have hin := thing_inside k a hi
  omega

lemma thing_unique {a b i j : Nat} (ha : k.arenaSize ∣ a) (hb : k.arenaSize ∣ b)
    (hi : i < k.thingsPerArena) (hj : j < k.thingsPerArena) (h : k.thing a i = k.thing b j) :
    a = b ∧ i = j := by
  have hsize := k.thingSize_ge
  have hab : a = b := by
    refine arena_unique ha hb (thing_mem hi (Nat.le_refl _) (by omega)) ?_
    rw [h]
    exact thing_mem hj (Nat.le_refl _) (by omega)
  subst hab
  exact ⟨rfl, thing_inj.mp h⟩

variable {a : Nat} {words : Words} {span : FreeSpan}

lemma Describes.congr {free free' : Nat → Prop} (h : Describes k words a span free)
    (hfree : ∀ i < k.thingsPerArena, free i ↔ free' i) :
    Describes k words a span free' := by
  obtain ⟨rs, tail, hruns, hspan, hlinked, hd⟩ := h
  exact ⟨rs, tail, hruns, hspan, hlinked, fun i hi => (hd i hi).trans (hfree i hi)⟩

lemma Describes.frame {words words' : Words} {free : Nat → Prop}
    (h : Describes k words a span free)
    (hwords : ∀ i < k.thingsPerArena, free i → ∀ x, k.thing a i ≤ x →
      x < k.thing a i + k.thingSize → words' x = words x) : Describes k words' a span free := by
  obtain ⟨rs, tail, hruns, hspan, hlinked, hd⟩ := h
  refine ⟨rs, tail, hruns, hspan, hlinked.frame hruns fun i hi x hx hx' => ?_, hd⟩
  have hlt := (hruns.bounds hi).2
  exact hwords i hlt ((hd i hlt).mp hi) x hx hx'

/-! ## The things in a list of spans -/

/-- A walk along the list of spans comes to the thing. -/
inductive InSpans (k : ThingKind) (words : Words) : FreeSpan → Nat → Prop
  | here {span : FreeSpan} {c : Nat} : span.first ≤ c → c ≤ span.last →
      k.thingSize ∣ c - span.first → InSpans k words span c
  | next {span : FreeSpan} {c : Nat} : span.hasNext = true →
      InSpans k words (k.spanAt words span.last) c → InSpans k words span c

lemma eight_dvd_arenaSize (k : ThingKind) : 8 ∣ k.arenaSize := by
  have hsize := k.thingSize_ge
  have hle : k.thingSize ≤ 2 ^ k.arenaShift - k.firstThingOffset :=
    Nat.le_of_dvd (Nat.sub_pos_of_lt k.offset_lt) k.things_end
  have hpos := k.offset_pos
  have hlt : 2 ^ 3 < 2 ^ k.arenaShift := by omega
  exact Nat.pow_dvd_pow 2 (Nat.le_of_lt ((Nat.pow_lt_pow_iff_right Nat.one_lt_two).mp hlt))

lemma eight_dvd_thing (ha : k.arenaSize ∣ a) (i : Nat) : 8 ∣ k.thing a i := by
  have hsize := eight_dvd_arenaSize k
  have hoffset : 8 ∣ k.firstThingOffset := by
    have hsum := k.arenaSize_eq
    rw [← hsum] at hsize
    exact (Nat.dvd_add_left (Dvd.dvd.mul_left k.cell_dvd _)).mp hsize
  exact Nat.dvd_add (Nat.dvd_add ((eight_dvd_arenaSize k).trans ha) hoffset)
    (Dvd.dvd.mul_left k.cell_dvd i)

lemma hasNext_last (ha : k.arenaSize ∣ a) (tail : Nat) :
    (k.spanOf a [] tail).hasNext = false := by
  have hsize := eight_dvd_arenaSize k
  have hpos := k.arenaSize_pos
  have hsum : 8 ∣ a + k.arenaSize := Nat.dvd_add (hsize.trans ha) hsize
  rw [FreeSpan.hasNext, decide_eq_false_iff_not, spanOf]
  dsimp only
  omega

lemma hasNext_cons (ha : k.arenaSize ∣ a) (r : Nat × Nat) (rs : List (Nat × Nat)) (tail : Nat) :
    (k.spanOf a (r :: rs) tail).hasNext = true := by
  have hdvd := eight_dvd_thing ha r.2
  rw [FreeSpan.hasNext, decide_eq_true_iff, spanOf]
  dsimp only
  omega

lemma thing_add (a i m : Nat) : k.thing a i + k.thingSize * m = k.thing a (i + m) := by
  rw [thing, thing, Nat.add_mul, ← Nat.add_assoc, Nat.mul_comm m]

variable {rs : List (Nat × Nat)}

lemma inSpans_iff (ha : k.arenaSize ∣ a) {lo tail : Nat}
    (hruns : RunsFrom k.thingsPerArena lo rs tail) (hlinked : k.Linked words a rs tail) (c : Nat) :
    InSpans k words (k.spanOf a rs tail) c ↔
      ∃ i, FreeAt k.thingsPerArena rs tail i ∧ c = k.thing a i := by
  have hpos := k.arenaSize_pos
  have hsize := k.thingSize_ge
  induction rs generalizing lo with
  | nil =>
    constructor
    · intro h
      cases h with
      | here hfirst hlast hdvd =>
        obtain ⟨m, hm⟩ := hdvd
        change k.thing a tail ≤ c at hfirst
        change c ≤ a + k.arenaSize - 1 at hlast
        change c - k.thing a tail = _ at hm
        have hc : c = k.thing a (tail + m) := by
          rw [← thing_add, ← hm]
          omega
        refine ⟨tail + m, ⟨Nat.le_add_right _ _, ?_⟩, hc⟩
        rw [← thing_lt_iff (k := k), thing_end k a, ← hc]
        omega
      | next hnext =>
        rw [hasNext_last ha] at hnext
        cases hnext
    · rintro ⟨i, ⟨hle, hi⟩, rfl⟩
      have hin := thing_inside k a hi
      refine .here (thing_le k a hle) ?_ ?_
      · change k.thing a i ≤ a + k.arenaSize - 1
        omega
      · change k.thingSize ∣ k.thing a i - k.thing a tail
        rw [← Nat.add_sub_cancel' hle, ← thing_add, Nat.add_sub_cancel_left]
        exact Nat.dvd_mul_right _ _
  | cons r rs ih =>
    have hrest := ih hruns.2.2 hlinked.2
    have hspan : k.spanAt words (k.spanOf a (r :: rs) tail).last = k.spanOf a rs tail := hlinked.1
    constructor
    · intro h
      cases h with
      | here hfirst hlast hdvd =>
        obtain ⟨m, hm⟩ := hdvd
        change k.thing a r.1 ≤ c at hfirst
        change c ≤ k.thing a r.2 at hlast
        change c - k.thing a r.1 = _ at hm
        have hc : c = k.thing a (r.1 + m) := by
          rw [← thing_add, ← hm]
          omega
        refine ⟨r.1 + m, .inl ⟨Nat.le_add_right _ _, ?_⟩, hc⟩
        rw [hc] at hlast
        exact Nat.le_of_not_lt fun hlt => absurd hlast (Nat.not_le_of_lt (thing_lt_iff.mpr hlt))
      | next _ h =>
        rw [hspan] at h
        obtain ⟨i, hi, hc⟩ := hrest.mp h
        exact ⟨i, .inr hi, hc⟩
    · rintro ⟨i, hi | hi, rfl⟩
      · refine .here (thing_le k a hi.1) (thing_le k a hi.2) ?_
        change k.thingSize ∣ k.thing a i - k.thing a r.1
        rw [← Nat.add_sub_cancel' hi.1, ← thing_add, Nat.add_sub_cancel_left]
        exact Nat.dvd_mul_right _ _
      · refine .next (hasNext_cons ha r rs tail) ?_
        rw [hspan]
        exact hrest.mpr ⟨i, hi, rfl⟩

lemma Describes.inSpans_iff {free : Nat → Prop} (ha : k.arenaSize ∣ a)
    (h : Describes k words a span free) (c : Nat) :
    InSpans k words span c ↔ ∃ i < k.thingsPerArena, free i ∧ c = k.thing a i := by
  obtain ⟨rs, tail, hruns, rfl, hlinked, hfree⟩ := h
  rw [Gc.inSpans_iff ha hruns hlinked]
  constructor
  · rintro ⟨i, hi, hc⟩
    have hlt := (hruns.bounds hi).2
    exact ⟨i, hlt, (hfree i hlt).mp hi, hc⟩
  · rintro ⟨i, hlt, hi, hc⟩
    exact ⟨i, (hfree i hlt).mpr hi, hc⟩

namespace ArenaLists

/-! ## The invariant -/

/-- The list of spans of an arena; that of the arena in use is the free list. -/
def spans (k : ThingKind) (s : ArenaLists) (arena : Nat) : FreeSpan :=
  if s.freeList.isEmpty = false ∧ k.arenaAddress s.freeList = arena then s.freeList
  else s.getFirstFreeSpan arena

/-- `live` are the things that were allocated and not finalized, and `copied` says whether the free
list was copied to its arena. -/
structure Inv (k : ThingKind) (s : ArenaLists) (live : Set Nat) (copied : Bool) : Prop where
  nodup : s.arenaList.all.Nodup
  aligned : ∀ a ∈ s.arenaList.all, k.arenaSize ∣ a
  things : ∀ c ∈ live, ∃ a ∈ s.arenaList.all, ∃ i < k.thingsPerArena, c = k.thing a i
  described : ∀ a ∈ s.arenaList.all, Describes k s.words a (s.spans k a) (fun i => k.thing a i ∉ live)
  current : s.freeList.isEmpty = false → k.arenaAddress s.freeList ∈ s.arenaList.beforeCursor ∧
    s.firstFreeSpanOffsets (k.arenaAddress s.freeList) =
      if copied then k.encodeAsOffsets s.freeList else k.fullArenaOffsets
  exhausted : s.freeList.isEmpty = true → s.freeList.hasNext = false
  cursor : ∀ a ∈ s.arenaList.fromCursor, ∃ i < k.thingsPerArena, k.thing a i ∉ live

/-- The arenas before the cursor are full, that of the free list apart. -/
def BeforeFull (k : ThingKind) (s : ArenaLists) (live : Set Nat) : Prop :=
  ∀ a ∈ s.arenaList.beforeCursor,
    (s.freeList.isEmpty = false ∧ k.arenaAddress s.freeList = a) ∨
      ∀ i < k.thingsPerArena, k.thing a i ∈ live

variable {s s' : ArenaLists} {live : Set Nat} {copied purged : Bool}

lemma Inv.mem_all (h : s.Inv k live copied) (hne : s.freeList.isEmpty = false) :
    k.arenaAddress s.freeList ∈ s.arenaList.all :=
  mem_append_left _ (h.current hne).1

lemma spans_of_empty (hempty : s.freeList.isEmpty = true) (a : Nat) :
    s.spans k a = s.getFirstFreeSpan a := by
  rw [spans, if_neg]
  rintro ⟨hne, -⟩
  exact Bool.false_ne_true (hne.symm.trans hempty)

lemma spans_current (hne : s.freeList.isEmpty = false) :
    s.spans k (k.arenaAddress s.freeList) = s.freeList := by
  rw [spans, if_pos ⟨hne, rfl⟩]

lemma spans_of_ne (hne : k.arenaAddress s.freeList ≠ a) :
    s.spans k a = s.getFirstFreeSpan a := by
  rw [spans, if_neg fun hand => hne hand.2]

lemma getFirstFreeSpan_of_full (ha : k.arenaSize ∣ a)
    (hfull : s.firstFreeSpanOffsets a = k.fullArenaOffsets) :
    s.getFirstFreeSpan a = k.spanOf a [] k.thingsPerArena := by
  rw [getFirstFreeSpan, hfull, decode_full ha]

lemma isEmpty_emptySpan (k : ThingKind) : k.emptySpan.isEmpty = true := by
  have hpos := k.arenaSize_pos
  rw [FreeSpan.isEmpty, decide_eq_true_iff, emptySpan]
  dsimp only
  omega

lemma hasNext_emptySpan (k : ThingKind) : k.emptySpan.hasNext = false := by
  have hpos := k.arenaSize_pos
  have hdvd := eight_dvd_arenaSize k
  rw [FreeSpan.hasNext, decide_eq_false_iff_not, emptySpan]
  dsimp only
  omega

lemma inv_empty (words : Words) (offsets : Nat → Nat) :
    (ArenaLists.empty k words offsets).Inv k ∅ false := by
  constructor
  case nodup => exact nodup_nil
  case aligned => exact fun a ha => absurd ha not_mem_nil
  case things => exact fun c hc => absurd hc (Set.notMem_empty c)
  case described => exact fun a ha => absurd ha not_mem_nil
  case current =>
    intro hne
    exact absurd (hne.symm.trans (isEmpty_emptySpan k)) Bool.false_ne_true
  case exhausted => exact fun _ => hasNext_emptySpan k
  case cursor => exact fun a ha => absurd ha not_mem_nil

/-! ## Allocation -/

/-- The thing `i` of the arena `a` was taken, and what is left of the spans of that arena is the free
list. -/
structure Takes (k : ThingKind) (s s' : ArenaLists) (a i : Nat) : Prop where
  words : s'.words = s.words
  nodup : s'.arenaList.all.Nodup
  all : ∀ b, b ∈ s'.arenaList.all ↔ b = a ∨ b ∈ s.arenaList.all
  aligned : k.arenaSize ∣ a
  others : ∀ b ∈ s.arenaList.all, b ≠ a → s.spans k b = s'.getFirstFreeSpan b
  full : s'.firstFreeSpanOffsets a = k.fullArenaOffsets
  before : a ∈ s'.arenaList.beforeCursor
  beforeCursor : ∀ b ∈ s'.arenaList.beforeCursor, b = a ∨ b ∈ s.arenaList.beforeCursor
  inUse : s.freeList.isEmpty = false → k.arenaAddress s.freeList = a
  cursor : ∀ b ∈ s'.arenaList.fromCursor, b ∈ s.arenaList.fromCursor ∧ b ≠ a
  lt : i < k.thingsPerArena

lemma inv_of_takes (h : s.Inv k live false) {a i tail : Nat} (ht : s.Takes k s' a i)
    (hruns : RunsFrom k.thingsPerArena 0 rs tail) (hspan : s'.freeList = k.spanOf a rs tail)
    (hlinked : k.Linked s.words a rs tail) (hfree : ∀ j < k.thingsPerArena,
      FreeAt k.thingsPerArena rs tail j ↔ k.thing a j ∉ live ∧ j ≠ i) :
    s'.Inv k (insert (k.thing a i) live) false := by
  have haddr : k.arenaAddress s'.freeList = a := by
    rw [hspan]
    exact arenaAddress_eq ht.aligned (inArena_spanOf a hruns)
  have hempty : s'.freeList.isEmpty = true ↔ ∀ j, ¬ FreeAt k.thingsPerArena rs tail j := by
    rw [hspan]
    exact isEmpty_spanOf hruns
  constructor
  case nodup => exact ht.nodup
  case aligned =>
    intro b hb
    rcases (ht.all b).mp hb with rfl | hb
    · exact ht.aligned
    · exact h.aligned b hb
  case things =>
    rintro c (rfl | hc)
    · exact ⟨a, (ht.all a).mpr (.inl rfl), i, ht.lt, rfl⟩
    · obtain ⟨b, hb, hrest⟩ := h.things c hc
      exact ⟨b, (ht.all b).mpr (.inr hb), hrest⟩
  case described =>
    intro b hb
    by_cases hba : b = a
    · subst hba
      -- an exhausted free list is what the full header of its arena says
      have hspans : s'.spans k b = k.spanOf b rs tail := by
        cases he : s'.freeList.isEmpty with
        | false =>
          rw [spans, if_pos ⟨he, haddr⟩, hspan]
        | true =>
          obtain ⟨rfl, rfl⟩ := hruns.eq_of_full (hempty.mp he)
          rw [spans_of_empty he, getFirstFreeSpan_of_full ht.aligned ht.full]
      rw [hspans, ht.words]
      refine ⟨rs, tail, hruns, rfl, hlinked, fun j hj => (hfree j hj).trans ?_⟩
      dsimp only
      rw [Set.mem_insert_iff, thing_inj, not_or, and_comm]
    · have hb' : b ∈ s.arenaList.all := ((ht.all b).mp hb).resolve_left hba
      rw [spans_of_ne (haddr.trans_ne (Ne.symm hba)), ← ht.others b hb' hba, ht.words]
      refine (h.described b hb').congr fun j hj => ?_
      rw [Set.mem_insert_iff, not_or]
      refine ⟨fun hnot => ⟨fun heq => hba ?_, hnot⟩, fun hand => hand.2⟩
      exact (thing_unique (h.aligned b hb') ht.aligned hj ht.lt heq).1
  case current =>
    intro _
    rw [haddr]
    exact ⟨ht.before, ht.full⟩
  case exhausted =>
    intro he
    obtain ⟨rfl, rfl⟩ := hruns.eq_of_full (hempty.mp he)
    rw [hspan]
    exact hasNext_last ht.aligned _
  case cursor =>
    intro b hb
    obtain ⟨hb', hba⟩ := ht.cursor b hb
    obtain ⟨j, hj, hnot⟩ := h.cursor b hb'
    have hball : b ∈ s.arenaList.all := mem_append_right _ hb'
    refine ⟨j, hj, ?_⟩
    rw [Set.mem_insert_iff, not_or]
    exact ⟨fun heq => hba (thing_unique (h.aligned b hball) ht.aligned hj ht.lt heq).1, hnot⟩

lemma beforeFull_of_takes {a i tail : Nat} (ht : s.Takes k s' a i)
    (hruns : RunsFrom k.thingsPerArena 0 rs tail) (hspan : s'.freeList = k.spanOf a rs tail)
    (hfree : ∀ j < k.thingsPerArena,
      FreeAt k.thingsPerArena rs tail j ↔ k.thing a j ∉ live ∧ j ≠ i) (h : s.BeforeFull k live) :
    s'.BeforeFull k (insert (k.thing a i) live) := by
  intro b hb
  by_cases hba : b = a
  · subst hba
    cases he : s'.freeList.isEmpty with
    | false =>
      refine .inl ⟨rfl, ?_⟩
      rw [hspan]
      exact arenaAddress_eq ht.aligned (inArena_spanOf b hruns)
    | true =>
      refine .inr fun j hj => ?_
      rw [hspan, isEmpty_spanOf hruns] at he
      have hnot := he j
      rw [hfree j hj, not_and_or, not_not, not_not] at hnot
      rcases hnot with hlive | rfl
      · exact Set.mem_insert_of_mem _ hlive
      · exact Set.mem_insert _ _
  · have hb' : b ∈ s.arenaList.beforeCursor := (ht.beforeCursor b hb).resolve_left hba
    rcases h b hb' with ⟨hne, heq⟩ | hall
    · exact absurd (heq.symm.trans (ht.inUse hne)) hba
    · exact .inr fun j hj => Set.mem_insert_of_mem _ (hall j hj)

/-- An allocation gives a thing of an arena of the list that was free. -/
structure Gives (k : ThingKind) (s : ArenaLists) (live : Set Nat) (c : Nat) (s' : ArenaLists) :
    Prop where
  free : c ∉ live
  mem : ∃ a ∈ s'.arenaList.all, ∃ i < k.thingsPerArena, c = k.thing a i
  inv : s'.Inv k (insert c live) false
  beforeFull : s.BeforeFull k live → s'.BeforeFull k (insert c live)

lemma gives_of_takes (h : s.Inv k live false)
    (hd : Describes k s.words a span fun i => k.thing a i ∉ live)
    (hsome : ∃ i < k.thingsPerArena, k.thing a i ∉ live) :
    ∃ i rs tail, k.allocate s.words span = some (k.thing a i, k.spanOf a rs tail) ∧
      ∀ s' : ArenaLists, s'.freeList = k.spanOf a rs tail → (i < k.thingsPerArena → s.Takes k s' a i) →
        Gives k s live (k.thing a i) s' := by
  obtain ⟨rs, tail, hruns, rfl, hlinked, hfree⟩ := hd
  rcases allocate_spanOf hruns hlinked with
    ⟨-, hfull⟩ | ⟨i, rs', tail', heq, hi, hruns', hlinked', hfree'⟩
  · obtain ⟨i, hi, hnot⟩ := hsome
    exact absurd ((hfree i hi).mpr hnot) (hfull i)
  · have hlt := (hruns.bounds hi).2
    have hleft (j : Nat) (hj : j < k.thingsPerArena) :
        FreeAt k.thingsPerArena rs' tail' j ↔ k.thing a j ∉ live ∧ j ≠ i := by
      rw [hfree', hfree j hj]
    refine ⟨i, rs', tail', heq, fun s' hs' ht => ⟨(hfree i hlt).mp hi, ?_, ?_, ?_⟩⟩
    · exact ⟨a, ((ht hlt).all a).mpr (.inl rfl), i, hlt, rfl⟩
    · exact inv_of_takes h (ht hlt) hruns' hs' hlinked' hleft
    · exact beforeFull_of_takes (ht hlt) hruns' hs' hleft

lemma allocateFromFreeList_spec (h : s.Inv k live false) :
    (s.allocateFromFreeList k = none ∧ s.freeList.isEmpty = true) ∨
      ∃ c s', s.allocateFromFreeList k = some (c, s') ∧ Gives k s live c s' := by
  cases he : s.freeList.isEmpty with
  | true =>
    rw [FreeSpan.isEmpty, decide_eq_true_iff] at he
    refine .inl ⟨?_, rfl⟩
    rw [allocateFromFreeList, ThingKind.allocate, if_neg (by omega), if_neg (by omega)]
  | false =>
    have hmem := h.mem_all he
    have hd := h.described _ hmem
    rw [spans_current he] at hd
    have hsome : ∃ i < k.thingsPerArena, k.thing (k.arenaAddress s.freeList) i ∉ live := by
      obtain ⟨rs, tail, hruns, hspan, -, hfree⟩ := hd
      by_contra hnone
      have hempty : s.freeList.isEmpty = true := by
        rw [hspan, isEmpty_spanOf hruns]
        intro i hi
        have hlt := (hruns.bounds hi).2
        exact hnone ⟨i, hlt, (hfree i hlt).mp hi⟩
      exact Bool.false_ne_true (he.symm.trans hempty)
    obtain ⟨i, rs, tail, heq, hgives⟩ := gives_of_takes h hd hsome
    refine .inr ⟨_, { s with freeList := k.spanOf (k.arenaAddress s.freeList) rs tail }, ?_,
      hgives _ rfl fun hi => ?_⟩
    · rw [allocateFromFreeList, heq]
    · constructor
      case words => rfl
      case nodup => exact h.nodup
      case all => exact fun b => ⟨.inr, fun hb => hb.elim (fun heq => heq ▸ hmem) id⟩
      case aligned => exact h.aligned _ hmem
      case others => exact fun b _ hne => spans_of_ne (Ne.symm hne)
      case full => exact (h.current he).2
      case before => exact (h.current he).1
      case beforeCursor => exact fun b hb => .inr hb
      case inUse => exact fun _ => rfl
      case cursor =>
        intro b hb
        refine ⟨hb, fun heq => ?_⟩
        have hdisjoint := (nodup_append.mp h.nodup).2.2
        exact hdisjoint _ (h.current he).1 b hb heq.symm
      case lt => exact hi

/-- What `allocateArena` gives: an arena that is not in the list. -/
def Unused (k : ThingKind) (s : ArenaLists) (a : Nat) : Prop :=
  k.arenaSize ∣ a ∧ a ∉ s.arenaList.all

lemma getFirstFreeSpan_setOffsets {a b : Nat} (hne : b ≠ a) (offsets : Nat) :
    (s.setOffsets a offsets).getFirstFreeSpan b = s.getFirstFreeSpan b := by
  rw [getFirstFreeSpan, setOffsets]
  dsimp only
  rw [if_neg hne, getFirstFreeSpan]

lemma allocateFromArena_spec (h : s.Inv k live false) (hempty : s.freeList.isEmpty = true)
    {newArena : Option Nat} (hnew : ∀ a, newArena = some a → s.Unused k a) :
    s.allocateFromArena k newArena = none ∨
      ∃ c s', s.allocateFromArena k newArena = some (c, s') ∧ Gives k s live c s' := by
  rw [allocateFromArena.eq_def]
  cases hcursor : s.arenaList.fromCursor with
  | cons a rest =>
    have hall : s.arenaList.all = s.arenaList.beforeCursor ++ a :: rest := by
      rw [ArenaList.all, hcursor]
    have hmem : a ∈ s.arenaList.all := by
      rw [hall]
      exact mem_append_right _ (mem_cons_self ..)
    have hd := h.described a hmem
    rw [spans_of_empty hempty] at hd
    obtain ⟨i, rs, tail, heq, hgives⟩ :=
      gives_of_takes h hd (h.cursor a (by rw [hcursor]; exact mem_cons_self ..))
    have hnodup := h.nodup
    rw [hall] at hnodup
    dsimp only
    rw [infallibleAllocate_eq heq]
    refine .inr ⟨_, _, rfl, hgives _ rfl fun hi => ?_⟩
    have hall' : (s.arenaList.beforeCursor ++ [a]) ++ rest = s.arenaList.all := by
      rw [hall, append_assoc, singleton_append]
    constructor
    case words => rfl
    case nodup =>
      change ((s.arenaList.beforeCursor ++ [a]) ++ rest).Nodup
      rw [hall']
      exact h.nodup
    case all =>
      intro b
      change b ∈ (s.arenaList.beforeCursor ++ [a]) ++ rest ↔ _
      rw [hall']
      exact ⟨.inr, fun hb => hb.elim (fun heq => heq ▸ hmem) id⟩
    case aligned => exact h.aligned a hmem
    case others =>
      intro b _ hne
      rw [spans_of_empty hempty]
      exact (getFirstFreeSpan_setOffsets hne _).symm
    case full => exact if_pos rfl
    case before => exact mem_append_right _ (mem_singleton_self a)
    case beforeCursor =>
      intro b hb
      exact (mem_append.mp hb).symm.imp_left mem_singleton.mp
    case inUse => exact fun hne => absurd (hne.symm.trans hempty) Bool.false_ne_true
    case cursor =>
      intro b hb
      refine ⟨hcursor ▸ mem_cons_of_mem a hb, fun heq => ?_⟩
      exact (nodup_cons.mp (nodup_append.mp hnodup).2.1).1 (heq ▸ hb)
    case lt => exact hi
  | nil =>
    cases newArena with
    | none => exact .inl rfl
    | some a =>
      obtain ⟨ha, hout⟩ := hnew a rfl
      have hall : s.arenaList.all = s.arenaList.beforeCursor := by
        rw [ArenaList.all, hcursor, append_nil]
      have hsize := k.thingSize_ge
      have hpos : 0 < k.thingsPerArena := by
        have hsum := k.arenaSize_eq
        have hlt : k.firstThingOffset < k.arenaSize := k.offset_lt
        by_contra hzero
        rw [Nat.eq_zero_of_not_pos hzero, Nat.zero_mul] at hsum
        omega
      -- none of the things of the arena is allocated yet
      have hnone (j : Nat) (hj : j < k.thingsPerArena) : k.thing a j ∉ live := by
        intro hlive
        obtain ⟨b, hb, i, hi, heq⟩ := h.things _ hlive
        exact hout ((thing_unique ha (h.aligned b hb) hj hi heq).1 ▸ hb)
      dsimp only
      rw [allocateFromNewArena_eq ha]
      have hruns : RunsFrom k.thingsPerArena 0 [] 1 := ⟨Nat.zero_le 1, hpos⟩
      have hleft (j : Nat) (hj : j < k.thingsPerArena) :
          FreeAt k.thingsPerArena [] 1 j ↔ k.thing a j ∉ live ∧ j ≠ 0 := by
        constructor
        · intro hj'
          exact ⟨hnone j hj, Nat.ne_of_gt hj'.1⟩
        · rintro ⟨-, hne⟩
          exact ⟨Nat.pos_of_ne_zero hne, hj⟩
      have ht : s.Takes k { s.setOffsets a k.fullArenaOffsets with
          arenaList := ⟨a :: s.arenaList.beforeCursor, []⟩, freeList := k.spanOf a [] 1 } a 0 := by
        constructor
        case words => rfl
        case nodup =>
          change ((a :: s.arenaList.beforeCursor) ++ []).Nodup
          rw [append_nil, nodup_cons, ← hall]
          exact ⟨hout, h.nodup⟩
        case all =>
          intro b
          change b ∈ (a :: s.arenaList.beforeCursor) ++ [] ↔ _
          rw [append_nil, mem_cons, hall]
        case aligned => exact ha
        case others =>
          intro b _ hne
          rw [spans_of_empty hempty]
          exact (getFirstFreeSpan_setOffsets hne _).symm
        case full => exact if_pos rfl
        case before => exact mem_cons_self ..
        case beforeCursor => exact fun b hb => mem_cons.mp hb
        case inUse => exact fun hne => absurd (hne.symm.trans hempty) Bool.false_ne_true
        case cursor => exact fun b hb => absurd hb not_mem_nil
        case lt => exact hpos
      refine .inr ⟨_, _, rfl, hnone 0 hpos, ?_, ?_, ?_⟩
      · exact ⟨a, mem_append_left _ (mem_cons_self ..), 0, hpos, rfl⟩
      · exact inv_of_takes h ht hruns rfl trivial hleft
      · exact beforeFull_of_takes ht hruns rfl hleft

lemma allocate_spec (h : s.Inv k live false) {newArena : Option Nat}
    (hnew : ∀ a, newArena = some a → s.Unused k a) :
    s.allocate k newArena = none ∨
      ∃ c s', s.allocate k newArena = some (c, s') ∧ Gives k s live c s' := by
  rw [allocate]
  rcases allocateFromFreeList_spec h with ⟨hnone, hempty⟩ | ⟨c, s', hsome, hgives⟩
  · rw [hnone]
    exact allocateFromArena_spec h hempty hnew
  · rw [hsome]
    exact .inr ⟨c, s', rfl, hgives⟩

/-! ## The free list and its arena -/

/-- The header of the arena of the free list gets new offsets that say the same as the free list, or
are not looked at. -/
lemma inv_setOffsets (h : s.Inv k live copied) (hne : s.freeList.isEmpty = false) (copied' : Bool) :
    (s.setOffsets (k.arenaAddress s.freeList)
      (if copied' then k.encodeAsOffsets s.freeList else k.fullArenaOffsets)).Inv k live copied' := by
  constructor
  case nodup => exact h.nodup
  case aligned => exact h.aligned
  case things => exact h.things
  case described =>
    intro a ha
    have hspans : (s.setOffsets (k.arenaAddress s.freeList)
        (if copied' then k.encodeAsOffsets s.freeList else k.fullArenaOffsets)).spans k a =
          s.spans k a := by
      by_cases heq : k.arenaAddress s.freeList = a
      · have hcurrent : s.freeList.isEmpty = false ∧ k.arenaAddress s.freeList = a := ⟨hne, heq⟩
        exact (if_pos hcurrent).trans (if_pos hcurrent).symm
      · rw [spans_of_ne heq, spans_of_ne (s := s.setOffsets _ _) heq,
          getFirstFreeSpan_setOffsets (Ne.symm heq)]
    rw [hspans]
    exact h.described a ha
  case current =>
    intro _
    exact And.intro (h.current hne).1 (if_pos rfl)
  case exhausted => exact h.exhausted
  case cursor => exact h.cursor

lemma inv_copied (h : s.Inv k live copied) (he : s.freeList.isEmpty = true) (copied' : Bool) :
    s.Inv k live copied' :=
  ⟨h.nodup, h.aligned, h.things, h.described,
    fun hne => absurd (hne.symm.trans he) Bool.false_ne_true, h.exhausted, h.cursor⟩

lemma inv_copyFreeListToArena (h : s.Inv k live copied) :
    (s.copyFreeListToArena k).Inv k live true := by
  rw [copyFreeListToArena]
  cases he : s.freeList.isEmpty with
  | true => exact inv_copied h he true
  | false => exact inv_setOffsets h he true

lemma inv_clearFreeListInArena (h : s.Inv k live copied) :
    (s.clearFreeListInArena k).Inv k live false := by
  rw [clearFreeListInArena]
  cases he : s.freeList.isEmpty with
  | true => exact inv_copied h he false
  | false => exact inv_setOffsets h he false

lemma Inv.inArena (h : s.Inv k live copied) (hne : s.freeList.isEmpty = false) :
    k.InArena (k.arenaAddress s.freeList) s.freeList := by
  obtain ⟨rs, tail, hruns, hspan, -⟩ := h.described _ (h.mem_all hne)
  rw [spans_current hne] at hspan
  have hin := inArena_spanOf (k.arenaAddress s.freeList) hruns
  rw [← hspan] at hin
  exact hin

lemma isEmpty_purge (s : ArenaLists) : (s.purge k).freeList.isEmpty = true := by
  rw [purge]
  cases he : s.freeList.isEmpty with
  | true => exact he
  | false => exact isEmpty_emptySpan k

lemma all_purge (s : ArenaLists) : (s.purge k).arenaList = s.arenaList := by
  rw [purge]
  split_ifs <;> rfl

lemma inv_purge (h : s.Inv k live copied) (copied' : Bool) : (s.purge k).Inv k live copied' := by
  have hempty := isEmpty_purge (k := k) s
  rw [purge] at hempty ⊢
  cases he : s.freeList.isEmpty with
  | true => exact inv_copied h he copied'
  | false =>
    rw [he] at hempty
    constructor
    case nodup => exact h.nodup
    case aligned => exact h.aligned
    case things => exact h.things
    case described =>
      intro a ha
      refine Eq.mp (congrArg (fun span => Describes k s.words a span _) ?_) (h.described a ha)
      refine Eq.trans ?_ (spans_of_empty hempty a).symm
      by_cases heq : k.arenaAddress s.freeList = a
      · subst heq
        rw [spans_current he, getFirstFreeSpan]
        have hoffsets := decode_encodeAsOffsets (h.aligned _ ha) (h.inArena he)
        exact (congrArg (decodeOffsets _) (if_pos rfl)).trans hoffsets |>.symm
      · rw [spans_of_ne heq]
        exact (getFirstFreeSpan_setOffsets (Ne.symm heq) _).symm
    case current => exact fun hne => absurd (hne.symm.trans hempty) Bool.false_ne_true
    case exhausted => exact fun _ => hasNext_emptySpan k
    case cursor => exact h.cursor

/-- Words of things that are not free may change, and those outside the arenas. -/
lemma inv_mutate (h : s.Inv k live copied)
    (hwords : ∀ a ∈ s.arenaList.all, ∀ i < k.thingsPerArena, k.thing a i ∉ live →
      ∀ x, k.thing a i ≤ x → x < k.thing a i + k.thingSize → words x = s.words x) :
    ({ s with words } : ArenaLists).Inv k live copied :=
  ⟨h.nodup, h.aligned, h.things, fun a ha => (h.described a ha).frame (hwords a ha), h.current,
    h.exhausted, h.cursor⟩

/-! ## Collection -/

variable {isMarked : Nat → Bool}

/-- A thing of the arena is live after the collection. -/
def Kept (k : ThingKind) (isMarked : Nat → Bool) (live : Set Nat) (a : Nat) : Prop :=
  ∃ i < k.thingsPerArena, k.thing a i ∈ live ∧ isMarked (k.thing a i) = true

/-- The things that are live after the collection. -/
def survivors (isMarked : Nat → Bool) (live : Set Nat) : Set Nat :=
  {c | c ∈ live ∧ isMarked c = true}

lemma notMem_survivors {c : Nat} : c ∉ survivors isMarked live ↔ c ∉ live ∨ isMarked c = false := by
  rw [survivors, Set.mem_ofPred_eq, not_and_or, Bool.not_eq_true]

/-- What `finalizeTypedArenas` does to the arenas `src`: it inserts `full` before the cursor and
`rest` after it. -/
structure SweptArenas (k : ThingKind) (isMarked : Nat → Bool) (live : Set Nat) (src : List Nat)
    (s : ArenaLists) (full rest : List Nat) (swept : Swept) : Prop where
  nodup : swept.finalized.Nodup
  finalized : ∀ c, c ∈ swept.finalized ↔
    ∃ a ∈ src, ∃ i < k.thingsPerArena, c = k.thing a i ∧ c ∈ live ∧ isMarked c = false
  released : ∀ a, a ∈ swept.released ↔ a ∈ src ∧ ¬ Kept k isMarked live a
  freeList : swept.lists.freeList = s.freeList
  list : swept.lists.arenaList =
    ⟨s.arenaList.beforeCursor ++ full, rest ++ s.arenaList.fromCursor⟩
  words : ∀ x, (∀ a ∈ src, x < a + k.firstThingOffset ∨ a + k.arenaSize ≤ x) →
    swept.lists.words x = s.words x
  offsets : ∀ a, a ∉ src → swept.lists.firstFreeSpanOffsets a = s.firstFreeSpanOffsets a
  distinct : (full ++ rest).Nodup
  kept : ∀ a, a ∈ full ++ rest ↔ a ∈ src ∧ Kept k isMarked live a
  allLive : ∀ a ∈ full, ∀ i < k.thingsPerArena, k.thing a i ∈ survivors isMarked live
  someFree : ∀ a ∈ rest, ∃ i < k.thingsPerArena, k.thing a i ∉ survivors isMarked live
  described : ∀ a ∈ full ++ rest, Describes k swept.lists.words a (swept.lists.getFirstFreeSpan a)
    (fun i => k.thing a i ∉ survivors isMarked live)

lemma not_kept_of_released {r : Finalized}
    (hr : FinalizedArena k isMarked words a (fun i => k.thing a i ∉ live) r)
    (hnone : r.firstFreeSpanOffsets = none) : ¬ Kept k isMarked live a := by
  rintro ⟨i, hi, hlive, hmark⟩
  have hunmarked := hr.released hnone i hi fun hnot => hnot hlive
  exact Bool.false_ne_true (hunmarked.symm.trans hmark)

lemma finalized_arena_iff {r : Finalized}
    (hr : FinalizedArena k isMarked words a (fun i => k.thing a i ∉ live) r) (c : Nat) :
    c ∈ r.finalized ↔
      ∃ i < k.thingsPerArena, c = k.thing a i ∧ c ∈ live ∧ isMarked c = false := by
  rw [hr.finalized]
  constructor
  · rintro ⟨i, hi, hlive, hmark, rfl⟩
    exact ⟨i, hi, rfl, not_not.mp hlive, hmark⟩
  · rintro ⟨i, hi, rfl, hlive, hmark⟩
    exact ⟨i, hi, not_not.mpr hlive, hmark, rfl⟩

/-- What was finalized in one arena comes before what is finalized in the others. -/
lemma finalized_append {src : List Nat} {r : Finalized} {things : List Nat}
    (haligned : ∀ b ∈ a :: src, k.arenaSize ∣ b) (hout : a ∉ src)
    (hr : FinalizedArena k isMarked words a (fun i => k.thing a i ∉ live) r)
    (hnodup : things.Nodup) (hthings : ∀ c, c ∈ things ↔
      ∃ b ∈ src, ∃ i < k.thingsPerArena, c = k.thing b i ∧ c ∈ live ∧ isMarked c = false) :
    (r.finalized ++ things).Nodup ∧ ∀ c, c ∈ r.finalized ++ things ↔
      ∃ b ∈ a :: src, ∃ i < k.thingsPerArena, c = k.thing b i ∧ c ∈ live ∧ isMarked c = false := by
  constructor
  · refine nodup_append.mpr ⟨hr.sorted.imp fun hlt => Nat.ne_of_lt hlt, hnodup, ?_⟩
    rintro c hc d hd rfl
    obtain ⟨i, hi, heq, -⟩ := (finalized_arena_iff hr c).mp hc
    obtain ⟨b, hb, j, hj, heq', -⟩ := (hthings c).mp hd
    have hab := (thing_unique (haligned a (mem_cons_self ..))
      (haligned b (mem_cons_of_mem a hb)) hi hj (heq.symm.trans heq')).1
    exact hout (hab ▸ hb)
  · intro c
    simp only [mem_append, finalized_arena_iff hr, hthings, mem_cons, exists_eq_or_imp]

/-- The words of an arena are not touched while others are finalized. -/
lemma describes_others {words words' : Words} {a b : Nat} (ha : k.arenaSize ∣ a)
    (hb : k.arenaSize ∣ b) (hne : b ≠ a) {free : Nat → Prop} (hd : Describes k words b span free)
    (hwords : ∀ x, x < a + k.firstThingOffset ∨ a + k.arenaSize ≤ x → words' x = words x) :
    Describes k words' b span free := by
  refine hd.frame fun i hi _ x hx hx' => hwords x ?_
  by_contra hin
  have hxb := thing_mem hi hx hx'
  exact hne (arena_unique hb ha hxb (by omega))

/-- The state after an arena that is kept. -/
def keepArena (k : ThingKind) (s : ArenaLists) (words : Words) (a offsets : Nat) : ArenaLists :=
  let s := ({ s with words } : ArenaLists).setOffsets a offsets
  { s with arenaList := s.arenaList.insert a (s.hasFreeThings k a) }

lemma keepArena_list (s : ArenaLists) (words : Words) (a offsets : Nat) :
    (s.keepArena k words a offsets).arenaList =
      if offsets = k.fullArenaOffsets then
        ⟨s.arenaList.beforeCursor ++ [a], s.arenaList.fromCursor⟩
      else ⟨s.arenaList.beforeCursor, a :: s.arenaList.fromCursor⟩ := by
  have hoffsets : (({ s with words } : ArenaLists).setOffsets a offsets).firstFreeSpanOffsets a =
      offsets := if_pos rfl
  rw [keepArena]
  dsimp only
  rw [ArenaList.insert, hasFreeThings, hoffsets]
  by_cases hfull : offsets = k.fullArenaOffsets
  · rw [if_pos hfull, if_neg (by simpa using hfull)]
    rfl
  · rw [if_neg hfull, if_pos (by simpa using hfull)]
    rfl

lemma finalizeTypedArenas_spec (isMarked : Nat → Bool) (finalizer : Finalizer k) {src : List Nat}
    (hsrc : src.Nodup) (haligned : ∀ a ∈ src, k.arenaSize ∣ a)
    (hd : ∀ a ∈ src, Describes k s.words a (s.getFirstFreeSpan a) (fun i => k.thing a i ∉ live)) :
    ∃ full rest swept, finalizeTypedArenas k finalizer isMarked src s = some swept ∧
      SweptArenas k isMarked live src s full rest swept := by
  induction src generalizing s with
  | nil =>
    refine ⟨[], [], ⟨s, [], []⟩, rfl, ?_⟩
    constructor
    case nodup => exact nodup_nil
    case finalized => simp
    case released => simp
    case freeList => rfl
    case list => simp
    case words => exact fun _ _ => rfl
    case offsets => exact fun _ _ => rfl
    case distinct => exact nodup_nil
    case kept => simp
    case allLive => exact fun a ha => absurd ha not_mem_nil
    case someFree => exact fun a ha => absurd ha not_mem_nil
    case described => exact fun a ha => absurd ha not_mem_nil
  | cons a src ih =>
    obtain ⟨hout, hsrc'⟩ := nodup_cons.mp hsrc
    have ha := haligned a (mem_cons_self ..)
    have haligned' (b : Nat) (hb : b ∈ src) := haligned b (mem_cons_of_mem a hb)
    obtain ⟨r, hr, hfin⟩ := finalize_spec isMarked finalizer ha (hd a (mem_cons_self ..))
    have hothers (b : Nat) (hb : b ∈ src) : Describes k r.words b (s.getFirstFreeSpan b)
        (fun i => k.thing b i ∉ live) :=
      describes_others ha (haligned' b hb) (fun heq => hout (heq ▸ hb))
        (hd b (mem_cons_of_mem a hb)) hfin.words
    have houtside (x : Nat)
        (hx : ∀ b ∈ a :: src, x < b + k.firstThingOffset ∨ b + k.arenaSize ≤ x) :
        r.words x = s.words x ∧ ∀ b ∈ src, x < b + k.firstThingOffset ∨ b + k.arenaSize ≤ x :=
      ⟨hfin.words x (hx a (mem_cons_self ..)), fun b hb => hx b (mem_cons_of_mem a hb)⟩
    rw [finalizeTypedArenas, hr]
    dsimp only
    cases ho : r.firstFreeSpanOffsets with
    | none =>
      have hreleased := not_kept_of_released hfin ho
      obtain ⟨full, rest, swept, hswept, hs⟩ := ih (s := { s with words := r.words }) hsrc' haligned'
        hothers
      obtain ⟨hnodup, hmem⟩ := finalized_append haligned hout hfin hs.nodup hs.finalized
      dsimp only
      rw [hswept]
      refine ⟨full, rest, _, rfl, ?_⟩
      constructor
      case nodup => exact hnodup
      case finalized => exact hmem
      case released =>
        intro b
        rw [mem_cons, hs.released, mem_cons]
        constructor
        · rintro (rfl | ⟨hb, hnot⟩)
          · exact ⟨.inl rfl, hreleased⟩
          · exact ⟨.inr hb, hnot⟩
        · rintro ⟨rfl | hb, hnot⟩
          · exact .inl rfl
          · exact .inr ⟨hb, hnot⟩
      case freeList => exact hs.freeList
      case list => exact hs.list
      case words =>
        intro x hx
        obtain ⟨hhere, hlater⟩ := houtside x hx
        exact (hs.words x hlater).trans hhere
      case offsets => exact fun b hb => hs.offsets b fun hmem => hb (mem_cons_of_mem a hmem)
      case distinct => exact hs.distinct
      case kept =>
        intro b
        rw [hs.kept, mem_cons]
        constructor
        · exact fun hand => ⟨.inr hand.1, hand.2⟩
        · rintro ⟨rfl | hb, hkept⟩
          · exact absurd hkept hreleased
          · exact ⟨hb, hkept⟩
      case allLive => exact hs.allLive
      case someFree => exact hs.someFree
      case described => exact hs.described
    | some offsets =>
      obtain ⟨⟨i, hi, hlive, hmark⟩, hdesc, hfullIff⟩ := hfin.kept offsets ho
      have hkept : Kept k isMarked live a := ⟨i, hi, not_not.mp hlive, hmark⟩
      have hdesc : Describes k r.words a (decodeOffsets a offsets)
          (fun i => k.thing a i ∉ survivors isMarked live) :=
        hdesc.congr fun i _ => notMem_survivors.symm
      have hfullIff : offsets = k.fullArenaOffsets ↔
          ∀ i < k.thingsPerArena, k.thing a i ∈ survivors isMarked live := by
        rw [hfullIff]
        refine forall₂_congr fun i _ => ?_
        rw [← notMem_survivors, not_not]
      dsimp only
      obtain ⟨full, rest, swept, hswept, hs⟩ := ih (s := s.keepArena k r.words a offsets) hsrc' haligned'
        fun b hb => by
          have hba : b ≠ a := fun heq => hout (heq ▸ hb)
          have hspan : (s.keepArena k r.words a offsets).getFirstFreeSpan b = s.getFirstFreeSpan b :=
            getFirstFreeSpan_setOffsets (s := { s with words := r.words }) hba offsets
          rw [hspan]
          exact hothers b hb
      obtain ⟨hnodup, hmem⟩ := finalized_append haligned hout hfin hs.nodup hs.finalized
      have hswept' := hswept
      rw [keepArena] at hswept'
      rw [hswept']
      have hdescribed : Describes k swept.lists.words a (swept.lists.getFirstFreeSpan a)
          (fun i => k.thing a i ∉ survivors isMarked live) := by
        have hoffsets : swept.lists.getFirstFreeSpan a = decodeOffsets a offsets := by
          rw [getFirstFreeSpan, hs.offsets a hout]
          exact congrArg _ (if_pos rfl)
        rw [hoffsets]
        refine hdesc.frame fun i hi _ x hx hx' => hs.words x fun b hb => ?_
        by_contra hin
        have hxa := thing_mem hi hx hx'
        exact hout (arena_unique ha (haligned' b hb) hxa (by omega) ▸ hb)
      refine ⟨if offsets = k.fullArenaOffsets then a :: full else full,
        if offsets = k.fullArenaOffsets then rest else rest ++ [a], _, rfl, ?_⟩
      have hperm : ((if offsets = k.fullArenaOffsets then a :: full else full) ++
          if offsets = k.fullArenaOffsets then rest else rest ++ [a]).Perm (a :: (full ++ rest)) := by
        split_ifs
        · exact .refl _
        · rw [← append_assoc]
          exact perm_append_singleton a (full ++ rest)
      have houtKept : a ∉ full ++ rest := fun hmem => hout ((hs.kept a).mp hmem).1
      constructor
      case nodup => exact hnodup
      case finalized => exact hmem
      case released =>
        intro b
        rw [hs.released, mem_cons]
        constructor
        · exact fun hand => ⟨.inr hand.1, hand.2⟩
        · rintro ⟨rfl | hb, hnot⟩
          · exact absurd hkept hnot
          · exact ⟨hb, hnot⟩
      case freeList => exact hs.freeList
      case list =>
        rw [hs.list, keepArena_list]
        by_cases hfull : offsets = k.fullArenaOffsets
        · rw [if_pos hfull, if_pos hfull, if_pos hfull]
          simp
        · rw [if_neg hfull, if_neg hfull, if_neg hfull]
          simp
      case words =>
        intro x hx
        obtain ⟨hhere, hlater⟩ := houtside x hx
        exact (hs.words x hlater).trans hhere
      case offsets =>
        intro b hb
        rw [mem_cons, not_or] at hb
        exact (hs.offsets b hb.2).trans (if_neg hb.1)
      case distinct =>
        rw [hperm.nodup_iff]
        exact nodup_cons.mpr ⟨houtKept, hs.distinct⟩
      case kept =>
        intro b
        rw [hperm.mem_iff, mem_cons, hs.kept, mem_cons]
        constructor
        · rintro (rfl | hand)
          · exact ⟨.inl rfl, hkept⟩
          · exact ⟨.inr hand.1, hand.2⟩
        · rintro ⟨rfl | hb, hb'⟩
          · exact .inl rfl
          · exact .inr ⟨hb, hb'⟩
      case allLive =>
        intro b hb
        by_cases hfull : offsets = k.fullArenaOffsets
        · rw [if_pos hfull] at hb
          rcases mem_cons.mp hb with rfl | hb
          · exact hfullIff.mp hfull
          · exact hs.allLive b hb
        · rw [if_neg hfull] at hb
          exact hs.allLive b hb
      case someFree =>
        intro b hb
        by_cases hfull : offsets = k.fullArenaOffsets
        · rw [if_pos hfull] at hb
          exact hs.someFree b hb
        · rw [if_neg hfull] at hb
          rcases mem_append.mp hb with hb | hb
          · exact hs.someFree b hb
          · rw [mem_singleton.mp hb]
            by_contra hnone
            refine hfull (hfullIff.mpr fun i hi => ?_)
            by_contra hnot
            exact hnone ⟨i, hi, hnot⟩
      case described =>
        intro b hb
        rcases mem_cons.mp (hperm.mem_iff.mp hb) with rfl | hb
        · exact hdescribed
        · exact hs.described b hb

/-! ## The free things -/

/-- The thing is in the list of spans of an arena, or in the free list. -/
def Free (k : ThingKind) (s : ArenaLists) (c : Nat) : Prop :=
  (∃ a ∈ s.arenaList.all, InSpans k s.words (s.getFirstFreeSpan a) c) ∨
    InSpans k s.words s.freeList c

lemma not_inSpans_of_empty {c : Nat} (he : span.isEmpty = true) (hnext : span.hasNext = false) :
    ¬ InSpans k words span c := by
  intro h
  cases h with
  | here hfirst hlast =>
    rw [FreeSpan.isEmpty, decide_eq_true_iff] at he
    omega
  | next h => exact Bool.false_ne_true (hnext.symm.trans h)

/-- The things in the lists of spans are those of the arenas that are not allocated. -/
lemma free_iff (h : s.Inv k live copied) (c : Nat) : s.Free k c ↔
    ∃ a ∈ s.arenaList.all, ∃ i < k.thingsPerArena, c = k.thing a i ∧ c ∉ live := by
  have hspans (a : Nat) (ha : a ∈ s.arenaList.all) : InSpans k s.words (s.spans k a) c ↔
      ∃ i < k.thingsPerArena, c = k.thing a i ∧ c ∉ live := by
    rw [(h.described a ha).inSpans_iff (h.aligned a ha)]
    constructor
    · rintro ⟨i, hi, hnot, rfl⟩
      exact ⟨i, hi, rfl, hnot⟩
    · rintro ⟨i, hi, rfl, hnot⟩
      exact ⟨i, hi, hnot, rfl⟩
  constructor
  · rintro (⟨a, ha, hin⟩ | hin)
    · refine ⟨a, ha, (hspans a ha).mp ?_⟩
      by_cases hcur : s.freeList.isEmpty = false ∧ k.arenaAddress s.freeList = a
      · obtain ⟨hne, rfl⟩ := hcur
        rw [spans_current hne]
        rw [getFirstFreeSpan, (h.current hne).2] at hin
        cases copied with
        | true =>
          rw [if_pos rfl, decode_encodeAsOffsets (h.aligned _ ha) (h.inArena hne)] at hin
          exact hin
        | false =>
          rw [if_neg Bool.false_ne_true, decode_full (h.aligned _ ha)] at hin
          have hruns : RunsFrom k.thingsPerArena 0 [] k.thingsPerArena :=
            ⟨Nat.zero_le _, Nat.le_refl _⟩
          obtain ⟨i, hi, -⟩ := (Gc.inSpans_iff (h.aligned _ ha) hruns trivial c).mp hin
          exact absurd hi.2 (Nat.not_lt_of_le hi.1)
      · rw [spans, if_neg hcur]
        exact hin
    · cases he : s.freeList.isEmpty with
      | true => exact absurd hin (not_inSpans_of_empty he (h.exhausted he))
      | false =>
        have hmem := h.mem_all he
        refine ⟨_, hmem, (hspans _ hmem).mp ?_⟩
        rw [spans_current he]
        exact hin
  · rintro ⟨a, ha, hc⟩
    have hin := (hspans a ha).mpr hc
    rw [spans] at hin
    split_ifs at hin
    · exact .inr hin
    · exact .inl ⟨a, ha, hin⟩

/-- What a collection does. -/
structure Collected (k : ThingKind) (isMarked : Nat → Bool) (s : ArenaLists) (live : Set Nat)
    (swept : Swept) : Prop where
  /-- The finalizer runs once on each thing that is allocated and not marked. -/
  nodup : swept.finalized.Nodup
  finalized : ∀ c, c ∈ swept.finalized ↔ c ∈ live ∧ isMarked c = false
  kept : ∀ a, a ∈ swept.lists.arenaList.all ↔ a ∈ s.arenaList.all ∧ Kept k isMarked live a
  released : ∀ a, a ∈ swept.released ↔ a ∈ s.arenaList.all ∧ ¬ Kept k isMarked live a
  free : ∀ c, swept.lists.Free k c ↔ ∃ a ∈ swept.lists.arenaList.all,
    ∃ i < k.thingsPerArena, c = k.thing a i ∧ ¬ (c ∈ live ∧ isMarked c = true)
  full : ∀ a ∈ swept.lists.arenaList.beforeCursor, ∀ i < k.thingsPerArena,
    k.thing a i ∈ live ∧ isMarked (k.thing a i) = true

lemma finalizeNow_spec (isMarked : Nat → Bool) (finalizer : Finalizer k) (h : s.Inv k live copied)
    (hempty : s.freeList.isEmpty = true) (copied' : Bool) :
    ∃ swept, s.finalizeNow k finalizer isMarked = some swept ∧ Collected k isMarked s live swept ∧
      swept.lists.Inv k (survivors isMarked live) copied' := by
  have hd (a : Nat) (ha : a ∈ s.arenaList.all) : Describes k s.words a (s.getFirstFreeSpan a)
      (fun i => k.thing a i ∉ live) := by
    rw [← spans_of_empty hempty]
    exact h.described a ha
  obtain ⟨full, rest, swept, hswept, hs⟩ := finalizeTypedArenas_spec isMarked finalizer
    (s := { s with arenaList := .clear }) h.nodup h.aligned hd
  have hempty' : swept.lists.freeList.isEmpty = true := by
    rw [hs.freeList]
    exact hempty
  have hlist : swept.lists.arenaList = ⟨full, rest⟩ := by
    rw [hs.list, ArenaList.clear, nil_append, append_nil]
  have hall : swept.lists.arenaList.all = full ++ rest := by
    rw [hlist, ArenaList.all]
  have hinv : swept.lists.Inv k (survivors isMarked live) copied' := by
    constructor
    case nodup =>
      rw [hall]
      exact hs.distinct
    case aligned =>
      intro a ha
      rw [hall, hs.kept] at ha
      exact h.aligned a ha.1
    case things =>
      rintro c ⟨hc, hmark⟩
      obtain ⟨a, ha, i, hi, rfl⟩ := h.things c hc
      refine ⟨a, ?_, i, hi, rfl⟩
      rw [hall, hs.kept]
      exact ⟨ha, i, hi, hc, hmark⟩
    case described =>
      intro a ha
      rw [spans_of_empty hempty']
      rw [hall] at ha
      exact hs.described a ha
    case current => exact fun hne => absurd (hne.symm.trans hempty') Bool.false_ne_true
    case exhausted =>
      intro _
      rw [hs.freeList]
      exact h.exhausted hempty
    case cursor =>
      rw [hlist]
      exact hs.someFree
  refine ⟨swept, hswept, ?_, hinv⟩
  constructor
  case nodup => exact hs.nodup
  case finalized =>
    intro c
    rw [hs.finalized]
    constructor
    · rintro ⟨a, -, i, -, -, hc⟩
      exact hc
    · intro hc
      obtain ⟨a, ha, i, hi, heq⟩ := h.things c hc.1
      exact ⟨a, ha, i, hi, heq, hc⟩
  case kept =>
    intro a
    rw [hall]
    exact hs.kept a
  case released => exact hs.released
  case free => exact free_iff hinv
  case full =>
    rw [hlist]
    exact hs.allLive

/-! ## Runs -/

/-- The states of runs, with the things that were allocated and not finalized, whether the free list
was copied to its arena, and whether it was purged since the last collection. -/
inductive Reaches (k : ThingKind) : ArenaLists → Set Nat → Bool → Bool → Prop
  | start (words : Words) (offsets : Nat → Nat) :
      Reaches k (.empty k words offsets) ∅ false false
  | allocate {s s' : ArenaLists} {live : Set Nat} {purged : Bool} {c : Nat} (newArena : Option Nat) :
      Reaches k s live false purged → (∀ a, newArena = some a → s.Unused k a) →
      s.allocate k newArena = some (c, s') → Reaches k s' (insert c live) false purged
  /-- What the program writes is not in the free things. -/
  | mutate {s : ArenaLists} {live : Set Nat} {copied purged : Bool} (words : Words) :
      Reaches k s live copied purged →
      (∀ a ∈ s.arenaList.all, ∀ i < k.thingsPerArena, k.thing a i ∉ live →
        ∀ x, k.thing a i ≤ x → x < k.thing a i + k.thingSize → words x = s.words x) →
      Reaches k { s with words } live copied purged
  | purge {s : ArenaLists} {live : Set Nat} {copied purged : Bool} :
      Reaches k s live copied purged → Reaches k (s.purge k) live copied true
  | copyFreeListToArena {s : ArenaLists} {live : Set Nat} {purged : Bool} :
      Reaches k s live false purged → Reaches k (s.copyFreeListToArena k) live true purged
  | clearFreeListInArena {s : ArenaLists} {live : Set Nat} {purged : Bool} :
      Reaches k s live true purged → Reaches k (s.clearFreeListInArena k) live false purged
  | collect {s : ArenaLists} {live : Set Nat} {copied purged : Bool} {swept : Swept}
      (finalizer : Finalizer k) (isMarked : Nat → Bool) :
      Reaches k s live copied purged →
      (s.purge k).finalizeNow k finalizer isMarked = some swept →
      Reaches k swept.lists (survivors isMarked live) copied false

lemma collect_spec (isMarked : Nat → Bool) (finalizer : Finalizer k) (h : s.Inv k live copied) :
    ∃ swept, (s.purge k).finalizeNow k finalizer isMarked = some swept ∧
      Collected k isMarked s live swept ∧ swept.lists.Inv k (survivors isMarked live) copied := by
  obtain ⟨swept, hswept, hcollected, hinv⟩ := finalizeNow_spec isMarked finalizer
    (inv_purge h copied) (isEmpty_purge s) copied
  refine ⟨swept, hswept, ?_, hinv⟩
  have hall : (s.purge k).arenaList = s.arenaList := all_purge s
  exact ⟨hcollected.nodup, hcollected.finalized, hall ▸ hcollected.kept,
    hall ▸ hcollected.released, hcollected.free, hcollected.full⟩

lemma Reaches.inv (h : Reaches k s live copied purged) : s.Inv k live copied := by
  induction h with
  | start words offsets => exact inv_empty words offsets
  | allocate newArena _ hnew hsome ih =>
    rcases allocate_spec ih hnew with hnone | ⟨c, s', heq, hgives⟩
    · exact absurd (hsome.symm.trans hnone) nofun
    · obtain ⟨rfl, rfl⟩ := Prod.mk.inj (Option.some.inj (heq.symm.trans hsome))
      exact hgives.inv
  | mutate words _ hwords ih => exact inv_mutate ih hwords
  | purge _ ih => exact inv_purge ih _
  | copyFreeListToArena _ ih => exact inv_copyFreeListToArena ih
  | clearFreeListInArena _ ih => exact inv_clearFreeListInArena ih
  | collect finalizer isMarked _ hsome ih =>
    obtain ⟨swept, heq, -, hinv⟩ := collect_spec isMarked finalizer ih
    obtain rfl := Option.some.inj (heq.symm.trans hsome)
    exact hinv

lemma Reaches.beforeFull (h : Reaches k s live copied purged) (hpurged : purged = false) :
    s.BeforeFull k live := by
  induction h with
  | start words offsets => exact fun a ha => absurd ha not_mem_nil
  | allocate newArena hreach hnew hsome ih =>
    rcases allocate_spec hreach.inv hnew with hnone | ⟨c, s', heq, hgives⟩
    · exact absurd (hsome.symm.trans hnone) nofun
    · obtain ⟨rfl, rfl⟩ := Prod.mk.inj (Option.some.inj (heq.symm.trans hsome))
      exact hgives.beforeFull (ih hpurged)
  | mutate words _ hwords ih => exact ih hpurged
  | purge _ _ => cases hpurged
  | copyFreeListToArena _ ih =>
    rw [ArenaLists.copyFreeListToArena]
    split_ifs
    · exact ih hpurged
    · exact ih hpurged
  | clearFreeListInArena _ ih =>
    rw [ArenaLists.clearFreeListInArena]
    split_ifs
    · exact ih hpurged
    · exact ih hpurged
  | collect finalizer isMarked hreach hsome _ =>
    obtain ⟨swept, heq, hcollected, -⟩ := collect_spec isMarked finalizer hreach.inv
    obtain rfl := Option.some.inj (heq.symm.trans hsome)
    exact fun a ha => .inr (hcollected.full a ha)

/-- In every state of every run: what is in the lists of spans is what is not allocated, the arenas
before the cursor are full but for the free list, an allocation gives nothing else, and a collection
ends and does what it should. -/
theorem allocator_sound (h : Reaches k s live copied purged) :
    (∀ c, s.Free k c ↔
      ∃ a ∈ s.arenaList.all, ∃ i < k.thingsPerArena, c = k.thing a i ∧ c ∉ live) ∧
    (purged = false → ∀ a ∈ s.arenaList.beforeCursor, ∀ i < k.thingsPerArena,
      k.thing a i ∈ live ∨ InSpans k s.words s.freeList (k.thing a i)) ∧
    (copied = false → ∀ newArena, (∀ a, newArena = some a → s.Unused k a) →
      ∀ c s', s.allocate k newArena = some (c, s') → c ∉ live ∧
        ∃ a ∈ s'.arenaList.all, ∃ i < k.thingsPerArena, c = k.thing a i) ∧
    ∀ isMarked finalizer, ∃ swept, (s.purge k).finalizeNow k finalizer isMarked = some swept ∧
      Collected k isMarked s live swept := by
  refine ⟨free_iff h.inv, fun hpurged a ha i hi => ?_, ?_, fun isMarked finalizer => ?_⟩
  · have hmem : a ∈ s.arenaList.all := mem_append_left _ ha
    rcases h.beforeFull hpurged a ha with ⟨hne, rfl⟩ | hall
    · by_cases hlive : k.thing (k.arenaAddress s.freeList) i ∈ live
      · exact .inl hlive
      · have hd := h.inv.described _ hmem
        rw [spans_current hne] at hd
        exact .inr ((hd.inSpans_iff (h.inv.aligned _ hmem) _).mpr ⟨i, hi, hlive, rfl⟩)
    · exact .inl (hall i hi)
  · rintro rfl newArena hnew c s' hsome
    rcases allocate_spec h.inv hnew with hnone | ⟨c', s'', heq, hgives⟩
    · exact absurd (hsome.symm.trans hnone) nofun
    · obtain ⟨rfl, rfl⟩ := Prod.mk.inj (Option.some.inj (heq.symm.trans hsome))
      exact ⟨hgives.free, hgives.mem⟩
  · obtain ⟨swept, hswept, hcollected, -⟩ := collect_spec isMarked finalizer h.inv
    exact ⟨swept, hswept, hcollected⟩

/-- Strings on a 64-bit machine: two words each, from the first offset on that leaves the end of the
arena full. -/
def stringKind : ThingKind where
  arenaShift := 12
  wordSize := 8
  thingSize := 16
  firstThingOffset := 48
  shift_lt := by decide
  word_pos := by decide
  cell_dvd := by decide
  holds_span := by decide
  offset_pos := by decide
  offset_lt := by decide
  things_end := by decide

/-- The lists after the first allocation, from a new arena. -/
def oneString : ArenaLists :=
  { (ArenaLists.empty stringKind (fun _ => 0) fun _ => 0).setOffsets 8192
      stringKind.fullArenaOffsets with
    arenaList := ⟨[8192], []⟩, freeList := ⟨8256, 12287⟩ }

lemma reaches_oneString : Reaches stringKind oneString {8240} false false := by
  have hunused : (ArenaLists.empty stringKind (fun _ => 0) fun _ => 0).Unused stringKind 8192 :=
    ⟨by decide, not_mem_nil⟩
  have hreach := Reaches.allocate (some 8192)
    (.start (fun _ => 0) fun _ => 0) (fun a ha => Option.some.inj ha ▸ hunused) rfl
  rw [insert_empty_eq] at hreach
  exact hreach

/-- The second string is free, and not the first. -/
theorem allocator_sound_oneString :
    oneString.Free stringKind 8256 ∧ ¬ oneString.Free stringKind 8240 := by
  have hfree := (allocator_sound reaches_oneString).1
  constructor
  · exact (hfree 8256).mpr ⟨8192, mem_singleton_self _, 1, by decide, by decide, by simp⟩
  · intro h
    obtain ⟨-, -, -, -, -, hnot⟩ := (hfree 8240).mp h
    exact hnot rfl

end ArenaLists

end SpiderMonkey.Gc
