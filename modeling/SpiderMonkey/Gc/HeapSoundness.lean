import SpiderMonkey.Gc.Heap
import SpiderMonkey.Lib.FreeRuns

/-! # Free spans and what they stand for

The spans of an arena against the runs of its free things: encoding, allocation, and the list that
`Arena::finalize` builds while it reads the old one.
-/

namespace SpiderMonkey.Gc

open SpiderMonkey.Lib

namespace ThingKind

variable (k : ThingKind)

def thingsPerArena : Nat := (k.arenaSize - k.firstThingOffset) / k.thingSize

/-- The thing with a number. -/
def thing (arena i : Nat) : Nat := arena + k.firstThingOffset + i * k.thingSize

variable {k} {arena i j : Nat}

/-! ## Addresses -/

lemma thingSize_ge (k : ThingKind) : 8 ≤ k.thingSize :=
  Nat.le_of_dvd (Nat.lt_of_lt_of_le (Nat.mul_pos Nat.two_pos k.word_pos) k.holds_span) k.cell_dvd

lemma arenaSize_eq (k : ThingKind) :
    k.firstThingOffset + k.thingsPerArena * k.thingSize = k.arenaSize := by
  rw [thingsPerArena, arenaSize, Nat.div_mul_cancel k.things_end]
  exact Nat.add_sub_cancel' (Nat.le_of_lt k.offset_lt)

lemma thing_succ (arena i : Nat) : k.thing arena (i + 1) = k.thing arena i + k.thingSize := by
  rw [thing, Nat.succ_mul, ← Nat.add_assoc, thing]

lemma thing_end (k : ThingKind) (arena : Nat) :
    k.thing arena k.thingsPerArena = arena + k.arenaSize := by
  rw [thing, Nat.add_assoc, arenaSize_eq]

lemma thing_le (k : ThingKind) (arena : Nat) (h : i ≤ j) : k.thing arena i ≤ k.thing arena j :=
  Nat.add_le_add_left (Nat.mul_le_mul_right _ h) _

lemma thing_lt (k : ThingKind) (arena : Nat) (h : i < j) :
    k.thing arena i + k.thingSize ≤ k.thing arena j := by
  rw [← thing_succ]
  exact thing_le k arena h

lemma thing_lt_iff : k.thing arena i < k.thing arena j ↔ i < j := by
  have hsize := k.thingSize_ge
  constructor
  · intro h
    by_contra hle
    exact absurd h (Nat.not_lt_of_le (thing_le k arena (Nat.le_of_not_lt hle)))
  · intro h
    have hlt := thing_lt k arena h
    omega

lemma thing_inj : k.thing arena i = k.thing arena j ↔ i = j := by
  constructor
  · intro h
    rcases Nat.lt_trichotomy i j with hlt | heq | hgt
    · exact absurd h (Nat.ne_of_lt (thing_lt_iff.mpr hlt))
    · exact heq
    · exact absurd h (Nat.ne_of_gt (thing_lt_iff.mpr hgt))
  · exact congrArg _

lemma thing_pos (arena i : Nat) : 0 < k.thing arena i := by
  have hpos := k.offset_pos
  rw [thing]
  omega

lemma thing_inside (k : ThingKind) (arena : Nat) (hi : i < k.thingsPerArena) :
    arena + k.firstThingOffset ≤ k.thing arena i ∧
      k.thing arena i + k.thingSize ≤ arena + k.arenaSize := by
  rw [← thing_end]
  exact ⟨Nat.le_add_right _ _, thing_lt k arena hi⟩

/-! ## Spans as runs -/

/-- The span at the head of the runs. -/
def spanOf (k : ThingKind) (arena : Nat) : List (Nat × Nat) → Nat → FreeSpan
  | [], tail => ⟨k.thing arena tail, arena + k.arenaSize - 1⟩
  | r :: _, _ => ⟨k.thing arena r.1, k.thing arena r.2⟩

/-- The last thing of each run but the last one holds the next span. -/
def Linked (k : ThingKind) (words : Words) (arena : Nat) : List (Nat × Nat) → Nat → Prop
  | [], _ => True
  | r :: rs, tail =>
    k.spanAt words (k.thing arena r.2) = k.spanOf arena rs tail ∧ Linked k words arena rs tail

variable {words words' : Words} {lo tail : Nat} {rs : List (Nat × Nat)}

lemma spanAt_eq {addr : Nat}
    (h : ∀ x, addr ≤ x → x < addr + k.thingSize → words' x = words x) :
    k.spanAt words' addr = k.spanAt words addr := by
  have hword := k.word_pos
  have hspan := k.holds_span
  rw [spanAt, spanAt, h addr (Nat.le_refl _) (by omega), h (addr + k.wordSize) (by omega) (by omega)]

lemma spanAt_putSpan (addr : Nat) (span : FreeSpan) :
    k.spanAt (k.putSpan words addr span) addr = span := by
  have hword := k.word_pos
  have hne : addr + k.wordSize ≠ addr := by omega
  rw [spanAt, putSpan, putSpan, if_pos rfl, if_neg hne, if_pos rfl]

lemma putSpan_frame {addr x : Nat} {span : FreeSpan} (h : x < addr ∨ addr + k.thingSize ≤ x) :
    k.putSpan words addr span x = words x := by
  have hword := k.word_pos
  have hspan := k.holds_span
  rw [putSpan, if_neg (by omega), if_neg (by omega)]

/-- The links are in free things only. -/
lemma Linked.frame (h : k.Linked words arena rs tail) (hruns : RunsFrom k.thingsPerArena lo rs tail)
    (hwords : ∀ i, FreeAt k.thingsPerArena rs tail i → ∀ x, k.thing arena i ≤ x →
      x < k.thing arena i + k.thingSize → words' x = words x) :
    k.Linked words' arena rs tail := by
  induction rs generalizing lo with
  | nil => trivial
  | cons r rs ih =>
    refine ⟨?_, ih h.2 hruns.2.2 fun i hi => hwords i (.inr hi)⟩
    rw [spanAt_eq (hwords r.2 (.inl ⟨hruns.2.1, Nat.le_refl _⟩))]
    exact h.1

lemma last_spanOf_cons (arena : Nat) (hruns : RunsFrom k.thingsPerArena lo rs tail) {r : Nat × Nat}
    (hr : r ∈ rs) : k.thing arena r.2 + k.thingSize ≤ arena + k.arenaSize := by
  induction rs generalizing lo with
  | nil => cases hr
  | cons r' rs ih =>
    cases hr with
    | head => exact (thing_inside k arena hruns.2.2.le).2
    | tail _ hr => exact ih hruns.2.2 hr

/-! ## Allocation from a span -/

lemma allocate_spanOf (hruns : RunsFrom k.thingsPerArena lo rs tail)
    (hlinked : k.Linked words arena rs tail) :
    (k.allocate words (k.spanOf arena rs tail) = none ∧
      ∀ i, ¬ FreeAt k.thingsPerArena rs tail i) ∨
    ∃ i rs' tail', k.allocate words (k.spanOf arena rs tail) =
        some (k.thing arena i, k.spanOf arena rs' tail') ∧
      FreeAt k.thingsPerArena rs tail i ∧ RunsFrom k.thingsPerArena lo rs' tail' ∧
      k.Linked words arena rs' tail' ∧
      ∀ j, FreeAt k.thingsPerArena rs' tail' j ↔ FreeAt k.thingsPerArena rs tail j ∧ j ≠ i := by
  have hsize := k.thingSize_ge
  cases rs with
  | nil =>
    rcases Nat.lt_or_ge tail k.thingsPerArena with hlt | hge
    · have hin := thing_inside k arena hlt
      refine .inr ⟨tail, [], tail + 1, ?_, ⟨Nat.le_refl _, hlt⟩,
        ⟨Nat.le_succ_of_le hruns.1, hlt⟩, trivial, freeAt_tail_succ⟩
      rw [allocate, spanOf, spanOf, thing_succ]
      exact if_pos (by dsimp only; omega)
    · have htail : tail = k.thingsPerArena := Nat.le_antisymm hruns.2 hge
      subst htail
      have hend := thing_end k arena
      have hpos := thing_pos (k := k) arena k.thingsPerArena
      refine .inl ⟨?_, fun i hi => absurd hi.2 (Nat.not_lt_of_le hi.1)⟩
      rw [allocate, spanOf]
      dsimp only
      rw [if_neg (by omega), if_neg (by omega)]
  | cons r rs =>
    obtain ⟨i, j⟩ := r
    have hij : i ≤ j := hruns.2.1
    rcases Nat.lt_or_eq_of_le hij with hlt | heq
    · obtain ⟨hruns', hfree⟩ := freeAt_succ hruns hlt
      refine .inr ⟨i, (i + 1, j) :: rs, tail, ?_, .inl ⟨Nat.le_refl _, hij⟩,
        hruns'.mono (Nat.le_succ_of_le hruns.1), hlinked, hfree⟩
      rw [allocate, spanOf, spanOf, thing_succ]
      exact if_pos (thing_lt_iff.mpr hlt)
    · subst heq
      refine .inr ⟨i, rs, tail, ?_, .inl ⟨Nat.le_refl _, hij⟩,
        hruns.2.2.mono (Nat.le_succ_of_le hruns.1), hlinked.2, freeAt_drop hruns⟩
      rw [allocate, spanOf]
      dsimp only
      rw [if_neg (Nat.lt_irrefl _), if_pos rfl, hlinked.1]

lemma infallibleAllocate_eq {span : FreeSpan} {r : Nat × FreeSpan}
    (h : k.allocate words span = some r) : k.infallibleAllocate words span = r := by
  rw [allocate] at h
  rw [infallibleAllocate]
  split_ifs at h ⊢
  · exact Option.some.inj h
  · exact Option.some.inj h

/-! ## Spans in a header -/

lemma arenaSize_lt (k : ThingKind) : k.arenaSize < 2 ^ 16 :=
  Nat.pow_lt_pow_right Nat.one_lt_two k.shift_lt

lemma arenaSize_pos (k : ThingKind) : 0 < k.arenaSize := Nat.two_pow_pos _

lemma and_arenaMask (k : ThingKind) (x : Nat) : x &&& k.arenaMask = x % k.arenaSize :=
  Nat.and_two_pow_sub_one_eq_mod x k.arenaShift

lemma decode_encode (arena : Nat) {firstOffset lastOffset : Nat} (h : firstOffset < 2 ^ 16) :
    decodeOffsets arena (encodeOffsets firstOffset lastOffset) =
      ⟨arena + firstOffset, arena ||| lastOffset⟩ := by
  have hsum : encodeOffsets firstOffset lastOffset = lastOffset * 2 ^ 16 + firstOffset := by
    rw [encodeOffsets, Nat.or_comm, ← Nat.shiftLeft_add_eq_or_of_lt h, Nat.shiftLeft_eq]
  have hfirst : encodeOffsets firstOffset lastOffset &&& 0xFFFF = firstOffset := by
    rw [hsum, Nat.and_two_pow_sub_one_eq_mod _ 16]
    omega
  have hlast : encodeOffsets firstOffset lastOffset >>> 16 = lastOffset := by
    rw [hsum, Nat.shiftRight_eq_div_pow]
    omega
  rw [decodeOffsets, hfirst, hlast]

lemma or_offset (ha : k.arenaSize ∣ arena) {offset : Nat} (h : offset < k.arenaSize) :
    arena ||| offset = arena + offset := by
  obtain ⟨q, rfl⟩ := ha
  rw [arenaSize, Nat.two_pow_add_eq_or_of_lt h]

/-- A span that is in an arena; the empty span at its end is one. -/
def InArena (k : ThingKind) (arena : Nat) (span : FreeSpan) : Prop :=
  arena ≤ span.first ∧ span.first ≤ arena + k.arenaSize ∧
    arena ≤ span.last ∧ span.last < arena + k.arenaSize

lemma inArena_spanOf (arena : Nat) (hruns : RunsFrom k.thingsPerArena lo rs tail) :
    k.InArena arena (k.spanOf arena rs tail) := by
  have hpos := k.arenaSize_pos
  have hsize := k.thingSize_ge
  cases rs with
  | nil =>
    have hle := thing_le k arena hruns.2
    rw [thing_end] at hle
    have hfirst : arena ≤ k.thing arena tail := by
      rw [thing, Nat.add_assoc]
      exact Nat.le_add_right _ _
    refine ⟨hfirst, hle, ?_, ?_⟩
    · change arena ≤ arena + k.arenaSize - 1
      omega
    · change arena + k.arenaSize - 1 < arena + k.arenaSize
      omega
  | cons r rs =>
    have hlast := thing_inside k arena hruns.2.2.le
    have hle := thing_le k arena hruns.2.1
    have hfirst : arena ≤ k.thing arena r.1 := by
      rw [thing, Nat.add_assoc]
      exact Nat.le_add_right _ _
    refine ⟨hfirst, ?_, ?_, ?_⟩
    · change k.thing arena r.1 ≤ arena + k.arenaSize
      omega
    · change arena ≤ k.thing arena r.2
      omega
    · change k.thing arena r.2 < arena + k.arenaSize
      omega

lemma inArena_full (k : ThingKind) (arena : Nat) :
    k.InArena arena (k.spanOf arena [] k.thingsPerArena) := by
  have hruns : RunsFrom k.thingsPerArena 0 [] k.thingsPerArena := ⟨Nat.zero_le _, Nat.le_refl _⟩
  exact inArena_spanOf arena hruns

lemma last_mod {span : FreeSpan} (ha : k.arenaSize ∣ arena) (h : k.InArena arena span) :
    span.last % k.arenaSize = span.last - arena := by
  obtain ⟨q, hq⟩ := ha
  have hlo := h.2.2.1
  have hhi := h.2.2.2
  have hsplit : span.last = span.last - arena + k.arenaSize * q := by omega
  have hlt : span.last - arena < k.arenaSize := by omega
  conv_lhs => rw [hsplit]
  rw [Nat.add_mul_mod_self_left]
  exact Nat.mod_eq_of_lt hlt

lemma arenaAddress_eq {span : FreeSpan} (ha : k.arenaSize ∣ arena) (h : k.InArena arena span) :
    k.arenaAddress span = arena := by
  have hlo := h.2.2.1
  rw [arenaAddress, and_arenaMask, last_mod ha h]
  omega

lemma decode_encodeAsOffsets {span : FreeSpan} (ha : k.arenaSize ∣ arena)
    (h : k.InArena arena span) : decodeOffsets arena (k.encodeAsOffsets span) = span := by
  have hlt := k.arenaSize_lt
  have hfirst := h.1
  have hfirst' := h.2.1
  have hlast := h.2.2.1
  have hlast' := h.2.2.2
  rw [encodeAsOffsets, and_arenaMask, last_mod ha h, arenaAddress_eq ha h,
    decode_encode arena (by omega), or_offset ha (by omega)]
  cases span with
  | mk first last =>
    simp only [FreeSpan.mk.injEq]
    simp only at hfirst hlast
    omega

/-- `FullArenaOffsets` is what the empty last span is encoded as. -/
lemma encodeAsOffsets_full (ha : k.arenaSize ∣ arena) :
    k.encodeAsOffsets (k.spanOf arena [] k.thingsPerArena) = k.fullArenaOffsets := by
  have hin : k.InArena arena (k.spanOf arena [] k.thingsPerArena) :=
    inArena_full k arena
  have hpos := k.arenaSize_pos
  rw [encodeAsOffsets, and_arenaMask, last_mod ha hin, arenaAddress_eq ha hin, spanOf, thing_end,
    fullArenaOffsets, encodeOffsets]
  dsimp only
  rw [Nat.add_sub_cancel_left, show arena + k.arenaSize - 1 - arena = k.arenaSize - 1 by omega]

lemma decode_full (ha : k.arenaSize ∣ arena) :
    decodeOffsets arena k.fullArenaOffsets = k.spanOf arena [] k.thingsPerArena := by
  rw [← encodeAsOffsets_full ha]
  exact decode_encodeAsOffsets ha (inArena_full k arena)

/-- A header says that the arena is full exactly where no thing is free. -/
lemma encodeAsOffsets_eq_full_iff (ha : k.arenaSize ∣ arena)
    (hruns : RunsFrom k.thingsPerArena lo rs tail) :
    k.encodeAsOffsets (k.spanOf arena rs tail) = k.fullArenaOffsets ↔
      ∀ i, ¬ FreeAt k.thingsPerArena rs tail i := by
  constructor
  · intro h i hi
    have hspan := decode_encodeAsOffsets ha (inArena_spanOf arena hruns)
    rw [h, decode_full ha] at hspan
    cases rs with
    | nil =>
      have htail : k.thingsPerArena = tail := thing_inj.mp (congrArg FreeSpan.first hspan)
      rw [← htail] at hi
      exact absurd hi.2 (Nat.not_lt_of_le hi.1)
    | cons r rs =>
      have hfirst : k.thingsPerArena = r.1 := thing_inj.mp (congrArg FreeSpan.first hspan)
      have hle := hruns.2.1
      have hlt := hruns.2.2.le
      omega
  · intro hfull
    obtain ⟨rfl, rfl⟩ := hruns.eq_of_full hfull
    exact encodeAsOffsets_full ha

lemma isEmpty_spanOf (hruns : RunsFrom k.thingsPerArena lo rs tail) :
    (k.spanOf arena rs tail).isEmpty = true ↔ ∀ i, ¬ FreeAt k.thingsPerArena rs tail i := by
  have hsize := k.thingSize_ge
  rw [FreeSpan.isEmpty, decide_eq_true_iff]
  constructor
  · intro h i hi
    cases rs with
    | nil =>
      have hlt : tail < k.thingsPerArena := Nat.lt_of_le_of_lt hi.1 hi.2
      have hin := thing_inside k arena hlt
      change arena + k.arenaSize - 1 < k.thing arena tail at h
      omega
    | cons r rs => exact absurd h (Nat.not_lt_of_le (thing_le k arena hruns.2.1))
  · intro hfull
    obtain ⟨rfl, rfl⟩ := hruns.eq_of_full hfull
    have hpos := k.arenaSize_pos
    rw [spanOf, thing_end]
    change arena + k.arenaSize - 1 < arena + k.arenaSize
    omega

lemma allocateFromNewArena_eq (ha : k.arenaSize ∣ arena) :
    k.allocateFromNewArena arena = (k.thing arena 0, k.spanOf arena [] 1) := by
  have hpos := k.arenaSize_pos
  have hmask : k.arenaMask < k.arenaSize := by
    rw [arenaMask]
    omega
  rw [allocateFromNewArena, or_offset ha k.offset_lt, or_offset ha hmask, spanOf, thing_succ, thing,
    arenaMask, Nat.zero_mul, Nat.add_zero, Nat.add_sub_assoc hpos]

end ThingKind

end SpiderMonkey.Gc
