import SpiderMonkey.Vm.ShapeTableSoundness

/-! # Tables of shapes: runs

A table goes along with the chain of shapes of a dictionary. What the table counts as removed is not
less than what is removed: an entry that is used again is still counted.
-/

namespace SpiderMonkey.Vm

open Lib Ds Option

/-- The operations on a table. -/
inductive ShapeOp (S Id : Type) where
  | add (shape : S) (alloc made : Bool)
  | remove (id : Id) (alloc : Bool)
  | grow (alloc : Bool)
  | change (log2Delta : Int) (alloc : Bool)

section

variable {S Id : Type} [DecidableEq Id] (propid : S → Id) (hashId : Id → HashNumber)

/-- An operation on the table and on the chain, from the youngest shape on; with the entry that an
addition has found. -/
def ShapeTable.step (t : ShapeTable S) (chain : List S) :
    ShapeOp S Id → Option (Option (ShapeEntry S) × ShapeTable S × List S)
  | .add shape alloc made => do
    let (found, t) ← t.add propid hashId shape alloc made
    some (found, t, if found.isSome && made then shape :: chain else chain)
  | .remove id alloc => do
    let t ← t.remove propid hashId id alloc
    some (none, t, dropYoungest propid chain id)
  | .grow alloc => do
    let (_, t) ← t.grow propid hashId alloc
    some (none, t, chain)
  | .change log2Delta alloc => do
    let (_, t) ← t.change propid hashId log2Delta alloc
    some (none, t, chain)

/-- What the callers answer for: a shape is added for a new id, the table grows when it needs to, and
it changes to a size that it fits in; an id is removed if it is `removable`. -/
def ShapeAllowed (removable : List S → Id → Prop) (t : ShapeTable S) (chain : List S) :
    ShapeOp S Id → Prop
  | .add shape _ _ => youngest propid chain (propid shape) = none
  | .remove id _ => removable chain id
  | .grow _ => t.needsToGrow = true
  | .change log2Delta _ => ∃ newlog2 : Nat,
      ((sHashBits - t.hashShift : Nat) + log2Delta : Int) = newlog2 ∧ minSizeLog2 ≤ newlog2 ∧
        t.entryCount < 2 ^ newlog2

/-- A search returns the entry of the youngest shape with the id, or a free entry; and there is a
free entry, where the loop ends. -/
def SearchAgrees (t : ShapeTable S) (chain : List S) : Prop :=
  (∃ i, (t.entries i).isFree = true) ∧
    ∀ id, ∃ i, t.search propid hashId id false = some (i, t.entries) ∧
      (t.entries i).shape = youngest propid chain id ∧
      (youngest propid chain id = none → (t.entries i).isFree = true)

/-- What an operation does to the table besides. -/
def ShapeOpSpec (found : Option (ShapeEntry S)) (t t' : ShapeTable S) : ShapeOp S Id → Prop
  -- an addition finds an entry without a shape
  | .add _ _ _ => ∀ e, found = some e → e.isFree = true ∨ e.isRemoved = true
  | .remove _ _ => True
  -- the shapes are all there again
  | .grow _ => shapesIn t'.entries = shapesIn t.entries
  | .change _ _ => shapesIn t'.entries = shapesIn t.entries

/-- All operations return, and a search agrees with the chain after each. -/
def TableBehaves (removable : List S → Id → Prop) :
    ShapeTable S → List S → List (ShapeOp S Id) → Prop
  | t, chain, [] => SearchAgrees propid hashId t chain
  | t, chain, op :: ops => SearchAgrees propid hashId t chain ∧
      (ShapeAllowed propid removable t chain op → ∃ found t' chain',
        t.step propid hashId chain op = some (found, t', chain') ∧ ShapeOpSpec found t t' op ∧
          TableBehaves removable t' chain' ops)

/-- A table is made for every chain if its entries can be allocated, and behaves from then on. -/
def InitBehaves (removable : List S → Id → Prop) (lineage : List S) (alloc : Bool) : Prop :=
  ∃ o, ShapeTable.init propid hashId lineage alloc = some o ∧
    ∀ t, o = some t → ∀ ops, TableBehaves propid hashId removable t lineage ops

variable {propid hashId}

/-! ## The invariant -/

/-- A table that stands for a chain. -/
structure ShapeTable.Valid (propid : S → Id) (hashId : Id → HashNumber) (t : ShapeTable S)
    (chain : List S) : Prop where
  shift_pos : 1 ≤ t.hashShift
  shift_le : t.hashShift + minSizeLog2 ≤ sHashBits
  placed : WellPlaced propid hashId t.entries
  shows : Shows propid t.entries chain
  live : (shapesIn t.entries).card ≤ t.entryCount
  removed : (removedIn t.entries).card ≤ t.removedCount
  room : t.entryCount + t.removedCount < t.capacity

namespace ShapeTable.Valid

variable {t : ShapeTable S} {chain : List S}

lemma exists_free (h : t.Valid propid hashId chain) : ∃ i, (t.entries i).isFree = true :=
  Vm.exists_free (Nat.lt_of_le_of_lt (Nat.add_le_add h.live h.removed) h.room)

lemma absent_iff (h : t.Valid propid hashId chain) {id : Id} :
    Absent propid t.entries id ↔ youngest propid chain id = none := by
  refine ⟨h.shows.youngest_eq_none, fun hnone i s hi hid => ?_⟩
  have hsome := h.shows.youngest_eq_some hi
  rw [hid, hnone] at hsome
  cases hsome

lemma searchAgrees (h : t.Valid propid hashId chain) : SearchAgrees propid hashId t chain := by
  refine ⟨h.exists_free, fun id => ?_⟩
  obtain ⟨r, entries', hsearch, hsearched⟩ := h.placed.search h.exists_free id false
  obtain rfl := hsearched.unchanged rfl
  refine ⟨r, hsearch, ?_⟩
  cases hr : (t.entries r).shape with
  | none =>
    have hnone := h.absent_iff.mp (hsearched.absent hr)
    exact ⟨hnone.symm, fun _ => hsearched.free hr rfl⟩
  | some s =>
    have hsome := h.shows.youngest_eq_some hr
    rw [hsearched.found hr] at hsome
    exact ⟨hsome.symm, fun hnone => absurd (hsome.symm.trans hnone) (some_ne_none s)⟩

/-- The flags that a search has set do no harm. -/
lemma flagged (h : t.Valid propid hashId chain) {entries : ShapeEntries S t.hashShift}
    (hf : Flagged t.entries entries) : Valid propid hashId { t with entries := entries } chain where
  shift_pos := h.shift_pos
  shift_le := h.shift_le
  placed := h.placed.flagged hf
  shows s := by
    rw [← h.shows s]
    exact exists_congr fun i => by rw [(hf i).1]
  live := hf.shapesIn_eq ▸ h.live
  removed := hf.removedIn_eq ▸ h.removed
  room := h.room

lemma shows_iff (h : t.Valid propid hashId chain) {s : S} :
    s ∈ shapesIn t.entries ↔ youngest propid chain (propid s) = some s :=
  mem_shapesIn.trans (h.shows s)

/-- `change` either fails or moves all shapes to a table of the new size. -/
lemma change (h : t.Valid propid hashId chain) (log2Delta : Int) (newlog2 : Nat)
    (hlog : ((sHashBits - t.hashShift : Nat) + log2Delta : Int) = newlog2)
    (hmin : minSizeLog2 ≤ newlog2) (hroom : t.entryCount < 2 ^ newlog2) (alloc : Bool) :
    t.change propid hashId log2Delta alloc = some (false, t) ∨
      ∃ t', t.change propid hashId log2Delta alloc = some (true, t') ∧
        t'.Valid propid hashId chain ∧ shapesIn t'.entries = shapesIn t.entries ∧
        t'.entryCount = t.entryCount ∧ t'.removedCount = 0 ∧ t'.capacity = 2 ^ newlog2 := by
  obtain rfl : ((sHashBits - t.hashShift : Nat) + log2Delta).toNat = newlog2 := by
    rw [hlog, Int.toNat_natCast]
  rw [ShapeTable.change]
  generalize ((sHashBits - t.hashShift : Nat) + log2Delta).toNat = newlog2 at *
  by_cases hfail : (!alloc || decide (sHashBits ≤ newlog2)) = true
  · exact .inl (if_pos hfail)
  refine .inr ?_
  rw [if_neg hfail]
  have hlt : newlog2 < sHashBits := by
    rw [Bool.or_eq_true, not_or, decide_eq_true_eq] at hfail
    exact Nat.lt_of_not_le hfail.2
  have hcapacity : capacityOf (sHashBits - newlog2) = 2 ^ newlog2 := by
    rw [capacityOf, Nat.sub_sub_self hlt.le]
  have hold : (shapesIn t.entries).card =
      ((List.finRange (capacityOf t.hashShift)).filterMap fun i => (t.entries i).shape).length := rfl
  have hlive := h.live
  obtain ⟨entries', hloop, hfilled, hshapes⟩ := copyLoop_spec h.placed (List.nodup_finRange _)
    (filled_free propid hashId (sHashBits - newlog2))
    (fun _ _ _ _ _ _ hnone => by cases hnone) (by
      rw [shapesIn_free, Multiset.card_zero, hcapacity]
      omega)
  rw [shapesIn_free, Multiset.zero_add] at hshapes
  refine ⟨⟨sHashBits - newlog2, t.entryCount, 0, entries'⟩,
    by simp only [hloop, bind_eq_bind, bind_some], ?_, hshapes, rfl, rfl, hcapacity⟩
  have hsame : shapesIn entries' = shapesIn t.entries := hshapes
  refine ⟨?_, ?_, hfilled.placed, fun s => ?_, ?_, ?_, ?_⟩
  · exact Nat.sub_pos_of_lt hlt
  · change sHashBits - newlog2 + minSizeLog2 ≤ sHashBits
    simp only [sHashBits, minSizeLog2] at hlt hmin ⊢
    omega
  · rw [← mem_shapesIn, hsame]
    exact h.shows_iff
  · exact hsame ▸ h.live
  · rw [hfilled.clean.removedIn_eq]
    exact Nat.le_refl _
  · change t.entryCount + 0 < capacityOf (sHashBits - newlog2)
    rw [hcapacity]
    exact hroom

lemma capacity_ge (h : t.Valid propid hashId chain) : 16 ≤ t.capacity := by
  have hle := h.shift_le
  have hlog : 4 ≤ sHashBits - t.hashShift := by
    simp only [sHashBits, minSizeLog2] at hle ⊢
    omega
  exact Nat.pow_le_pow_right (Nat.succ_pos 1) hlog

lemma log2_ge (h : t.Valid propid hashId chain) : minSizeLog2 ≤ sHashBits - t.hashShift := by
  have hle := h.shift_le
  simp only [sHashBits, minSizeLog2] at hle ⊢
  omega

/-- After a `grow` that succeeds one more shape has room. -/
lemma grow (h : t.Valid propid hashId chain) (alloc : Bool) :
    ∃ ok t', t.grow propid hashId alloc = some (ok, t') ∧ t'.Valid propid hashId chain ∧
      shapesIn t'.entries = shapesIn t.entries ∧
      (ok = true → t'.entryCount + 1 + t'.removedCount < t'.capacity) := by
  have hge := h.capacity_ge
  have hroom := h.room
  have hlog := h.log2_ge
  rw [ShapeTable.grow]
  simp only [Nat.shiftRight_eq_div_pow]
  -- a table that fails to change still serves as long as two entries are free
  have hkeep : (decide (t.entryCount + t.removedCount ≠ t.capacity - 1)) = true →
      t.entryCount + 1 + t.removedCount < t.capacity := by
    intro hne
    have hne' := of_decide_eq_true hne
    omega
  by_cases hfew : t.removedCount < t.capacity / 2 ^ 2
  · rw [if_pos hfew]
    have hdouble : 2 ^ (sHashBits - t.hashShift + 1) = 2 * t.capacity := by
      rw [Nat.pow_succ, Nat.mul_comm]
      rfl
    rcases h.change 1 _ rfl (by omega) (by rw [hdouble]; omega) alloc with
      hfail | ⟨t', hchange, hvalid, hshapes, hcount, hzero, hsize⟩
    · exact ⟨_, t, by rw [hfail]; rfl, h, rfl, hkeep⟩
    · refine ⟨_, t', by rw [hchange]; rfl, hvalid, hshapes, fun _ => ?_⟩
      rw [hdouble] at hsize
      omega
  · rw [if_neg hfew]
    have hsame : 2 ^ (sHashBits - t.hashShift) = t.capacity := rfl
    rcases h.change 0 _ (add_zero _) hlog
        (Nat.lt_of_le_of_lt (Nat.le_add_right _ _) hroom) alloc with
      hfail | ⟨t', hchange, hvalid, hshapes, hcount, hzero, hsize⟩
    · exact ⟨_, t, by rw [hfail]; rfl, h, rfl, hkeep⟩
    · refine ⟨_, t', by rw [hchange]; rfl, hvalid, hshapes, fun _ => ?_⟩
      rw [hsame] at hsize
      omega

/-- A shape with a new id is stored in what the search has found. -/
lemma store (h : t.Valid propid hashId chain) {s : S} (hnew : youngest propid chain (propid s) = none)
    (hroom : t.entryCount + 1 + t.removedCount < t.capacity) {r : Slot t.hashShift}
    {entries : ShapeEntries S t.hashShift}
    (hsearched : Searched propid hashId t.entries entries (propid s) true r) (made : Bool) :
    ∃ e t', ShapeTable.store { t with entries := entries } s made r = (some e, t') ∧
      (e.isFree = true ∨ e.isRemoved = true) ∧
      t'.Valid propid hashId (if made then s :: chain else chain) := by
  have hvalid := h.flagged hsearched.flagged
  have habsent := hvalid.absent_iff.mpr hnew
  have hr : (t.entries r).shape = none := by
    cases hr : (t.entries r).shape with
    | none => rfl
    | some u => exact absurd (hsearched.found hr) (h.absent_iff.mpr hnew r u hr)
  have hr' : (entries r).shape = none := (hsearched.flagged r).1.trans hr
  have hfound : (entries r).isFree = true ∨ (entries r).isRemoved = true := by
    cases hflag : (entries r).hadCollision with
    | true => exact .inr (ShapeEntry.isRemoved_iff.mpr ⟨hr', hflag⟩)
    | false => exact .inl (ShapeEntry.isFree_iff.mpr ⟨hr', hflag⟩)
  cases made with
  | false => exact ⟨entries r, _, rfl, hfound, hvalid⟩
  | true =>
    refine ⟨entries r, _, rfl, hfound, ?_⟩
    have hput := shapesIn_put hr' (e := (entries r).storePreservingCollision s) rfl
    have hlive := hvalid.live
    refine ⟨h.shift_pos, h.shift_le, ?_, ?_, ?_, ?_, hroom⟩
    · exact hvalid.placed.put habsent (hsearched.reaches hr rfl) fun hflag => hflag
    · exact hvalid.shows.put hr' habsent (youngest_cons s chain) _
    · rw [hput, Multiset.card_cons]
      exact Nat.succ_le_succ hlive
    · have hremoved : ((entries r).storePreservingCollision s).isRemoved = false := rfl
      exact (removedIn_le hremoved).trans hvalid.removed

lemma add (h : t.Valid propid hashId chain) {s : S} (hnew : youngest propid chain (propid s) = none)
    (alloc made : Bool) :
    ∃ found t', t.add propid hashId s alloc made = some (found, t') ∧
      (∀ e, found = some e → e.isFree = true ∨ e.isRemoved = true) ∧
      t'.Valid propid hashId (if found.isSome && made then s :: chain else chain) := by
  obtain ⟨r, entries, hsearch, hsearched⟩ := h.placed.search h.exists_free (propid s) true
  have hvalid := h.flagged hsearched.flagged
  rw [ShapeTable.add, ShapeTable.search, hsearch]
  simp only [bind_eq_bind, bind_some]
  by_cases hneeds : t.needsToGrow = true
  · rw [if_pos hneeds]
    obtain ⟨ok, t1, hgrow, hvalid1, _, hroom⟩ := hvalid.grow alloc
    simp only [hgrow, bind_some]
    cases ok with
    | false => exact ⟨none, t1, rfl, fun _ hnone => (nomatch hnone), hvalid1⟩
    | true =>
      obtain ⟨r1, entries1, hsearch1, hsearched1⟩ :=
        hvalid1.placed.search hvalid1.exists_free (propid s) true
      obtain ⟨e, t', hstore, hfound, hvalid'⟩ := hvalid1.store hnew (hroom rfl) hsearched1 made
      refine ⟨some e, t', ?_, fun e' he' => ?_, ?_⟩
      · rw [Bool.not_true, if_neg Bool.false_ne_true, ShapeTable.search, hsearch1]
        exact congrArg some hstore
      · cases he'
        exact hfound
      · rw [isSome_some, Bool.true_and]
        exact hvalid'
  · rw [if_neg hneeds]
    have hroom : t.entryCount + 1 + t.removedCount < t.capacity := by
      have hge := h.capacity_ge
      rw [ShapeTable.needsToGrow, decide_eq_true_eq, Nat.shiftRight_eq_div_pow] at hneeds
      omega
    obtain ⟨e, t', hstore, hfound, hvalid'⟩ := h.store hnew hroom hsearched made
    refine ⟨some e, t', congrArg some hstore, fun e' he' => ?_, ?_⟩
    · cases he'
      exact hfound
    · rw [isSome_some, Bool.true_and]
      exact hvalid'

/-- The entry of a shape becomes free, or is marked as removed if others are behind it. -/
lemma removeEntry (h : t.Valid propid hashId chain) {r : Slot t.hashShift} {s : S}
    (hr : (t.entries r).shape = some s) {chain' : List S}
    (hchain : ∀ id, youngest propid chain' id =
      if propid s = id then none else youngest propid chain id) :
    (t.removeEntry r).Valid propid hashId chain' := by
  have hroom := h.room
  have hlive := h.live
  have hnot : (t.entries r).isRemoved = false := by
    rw [ShapeEntry.isRemoved, hr]
    rfl
  have hplaced := h.placed.take (i := r)
  have htake := shapesIn_take hr (e := ⟨none, (t.entries r).hadCollision⟩) rfl
  rw [htake, Multiset.card_cons] at hlive
  rw [ShapeTable.removeEntry]
  cases hflag : (t.entries r).hadCollision with
  | true =>
    rw [hflag] at hplaced hlive
    rw [if_pos rfl]
    refine ⟨h.shift_pos, h.shift_le, hplaced, h.shows.take h.placed hr hchain true,
      Nat.le_sub_of_add_le hlive, ?_, ?_⟩
    · rw [removedIn_take hnot rfl, Multiset.card_cons]
      exact Nat.succ_le_succ h.removed
    · change t.entryCount - 1 + (t.removedCount + 1) < t.capacity
      omega
  | false =>
    rw [hflag] at hplaced hlive
    rw [if_neg Bool.false_ne_true]
    refine ⟨h.shift_pos, h.shift_le, hplaced, h.shows.take h.placed hr hchain false,
      Nat.le_sub_of_add_le hlive, (removedIn_le rfl).trans h.removed, ?_⟩
    change t.entryCount - 1 + t.removedCount < t.capacity
    omega

lemma remove (h : t.Valid propid hashId chain) {id : Id}
    (honce : chain.countP (fun s => propid s = id) ≤ 1) (alloc : Bool) :
    ∃ t', t.remove propid hashId id alloc = some t' ∧
      t'.Valid propid hashId (dropYoungest propid chain id) := by
  obtain ⟨r, entries, hsearch, hsearched⟩ := h.placed.search h.exists_free id false
  rw [ShapeTable.remove, ShapeTable.search, hsearch]
  simp only [bind_eq_bind, bind_some]
  cases hr : (t.entries r).shape with
  | none =>
    refine ⟨t, rfl, ?_⟩
    have hnone := h.absent_iff.mp (hsearched.absent hr)
    rw [youngest, List.find?_eq_none] at hnone
    rw [dropYoungest, List.eraseP_of_forall_not hnone]
    exact h
  | some s =>
    obtain rfl := hsearched.found hr
    have hvalid := h.removeEntry hr (youngest_dropYoungest honce)
    generalize t.removeEntry r = t1 at hvalid ⊢
    rw [isNone_some, if_neg Bool.false_ne_true]
    by_cases hshrink : (decide (minSize < t1.capacity) &&
        decide (t1.entryCount ≤ t1.capacity >>> 2)) = true
    · rw [if_pos hshrink]
      rw [Bool.and_eq_true, decide_eq_true_eq, decide_eq_true_eq, Nat.shiftRight_eq_div_pow] at hshrink
      obtain ⟨hsize, hfew⟩ := hshrink
      have hlog : minSizeLog2 < sHashBits - t1.hashShift := by
        refine Nat.lt_of_le_of_ne hvalid.log2_ge fun heq => ?_
        rw [capacity, capacityOf, ← heq] at hsize
        exact absurd hsize (by decide)
      have hhalf : t1.capacity = 2 * 2 ^ (sHashBits - t1.hashShift - 1) := by
        rw [← Nat.pow_succ', Nat.succ_eq_add_one, Nat.sub_add_cancel (Nat.zero_lt_of_lt hlog)]
        rfl
      rcases hvalid.change (-1) (sHashBits - t1.hashShift - 1) (by omega)
          (Nat.le_sub_one_of_lt hlog) (by omega) alloc with hfail | ⟨t', hchange, hvalid', _⟩
      · exact ⟨t1, by rw [hfail]; rfl, hvalid⟩
      · exact ⟨t', by rw [hchange]; rfl, hvalid'⟩
    · rw [if_neg hshrink]
      exact ⟨t1, rfl, hvalid⟩

end ShapeTable.Valid

/-! ## Runs -/

lemma le_two_pow_log2 (n : Nat) : n < 2 ^ (1 + Nat.log2 n) := by
  rw [Nat.add_comm]
  exact Nat.lt_log2_self

/-- The size is enough. -/
lemma le_ceilingLog2 (n : Nat) : n ≤ 2 ^ ceilingLog2 n := by
  rw [ceilingLog2]
  split_ifs with hle
  · exact hle
  · have hlt := le_two_pow_log2 (n - 1)
    omega

variable (propid hashId) in
lemma ShapeTable.init_spec (lineage : List S) (alloc : Bool) :
    ∃ o, ShapeTable.init propid hashId lineage alloc = some o ∧
      ∀ t, o = some t → t.Valid propid hashId lineage := by
  rw [ShapeTable.init]
  have hlength : lineage.length ≤ 2 ^ ceilingLog2 (2 * lineage.length) :=
    (Nat.le_mul_of_pos_left _ Nat.two_pos).trans (le_ceilingLog2 _)
  have hdouble : 2 * lineage.length ≤ 2 ^ ceilingLog2 (2 * lineage.length) := le_ceilingLog2 _
  have hsize : minSizeLog2 ≤ (if ceilingLog2 (2 * lineage.length) < minSizeLog2 then minSizeLog2 else
        ceilingLog2 (2 * lineage.length)) ∧
      lineage.length < 2 ^ (if ceilingLog2 (2 * lineage.length) < minSizeLog2 then minSizeLog2 else
        ceilingLog2 (2 * lineage.length)) := by
    split_ifs with hlt
    · have hpow := Nat.pow_lt_pow_right (Nat.lt_succ_self 1) hlt
      exact ⟨Nat.le_refl _, Nat.lt_of_le_of_lt hlength hpow⟩
    · have hpos := Nat.two_pow_pos (ceilingLog2 (2 * lineage.length))
      exact ⟨Nat.le_of_not_lt hlt, by omega⟩
  generalize (if ceilingLog2 (2 * lineage.length) < minSizeLog2 then minSizeLog2 else
    ceilingLog2 (2 * lineage.length)) = sizeLog2 at hsize ⊢
  obtain ⟨hmin, hroom⟩ := hsize
  by_cases hfail : (!alloc || decide (sHashBits ≤ sizeLog2)) = true
  · exact ⟨none, if_pos hfail, fun _ hnone => by cases hnone⟩
  have hlt : sizeLog2 < sHashBits := by
    rw [Bool.or_eq_true, not_or, decide_eq_true_eq] at hfail
    exact Nat.lt_of_not_le hfail.2
  have hcapacity : capacityOf (sHashBits - sizeLog2) = 2 ^ sizeLog2 := by
    rw [capacityOf, Nat.sub_sub_self hlt.le]
  obtain ⟨entries, hloop, hfilled, hshows, hcard⟩ := initLoop_spec lineage []
    (filled_free propid hashId (sHashBits - sizeLog2))
    (fun s => iff_of_false (by rintro ⟨_, ⟨⟩⟩) (by rintro ⟨⟩))
    (by rwa [shapesIn_free, Multiset.card_zero, Nat.zero_add, hcapacity])
  rw [shapesIn_free, Multiset.card_zero, Nat.zero_add] at hcard
  refine ⟨some ⟨sHashBits - sizeLog2, lineage.length, 0, entries⟩, ?_, ?_⟩
  · rw [if_neg hfail]
    simp only [hloop, bind_eq_bind, bind_some]
  rintro t ⟨⟩
  refine ⟨Nat.sub_pos_of_lt hlt, ?_, hfilled.placed, hshows, hcard, ?_, ?_⟩
  · change sHashBits - sizeLog2 + minSizeLog2 ≤ sHashBits
    simp only [sHashBits, minSizeLog2] at hlt hmin ⊢
    omega
  · rw [hfilled.clean.removedIn_eq]
    exact Nat.le_refl _
  · change lineage.length + 0 < capacityOf (sHashBits - sizeLog2)
    rw [hcapacity]
    exact hroom

/-- What may be removed: an id that occurs once. -/
def OccursOnce (propid : S → Id) (chain : List S) (id : Id) : Prop :=
  chain.countP (fun s => propid s = id) ≤ 1

lemma ShapeTable.Valid.step {t : ShapeTable S} {chain : List S} (h : t.Valid propid hashId chain)
    {op : ShapeOp S Id} (hallowed : ShapeAllowed propid (OccursOnce propid) t chain op) :
    ∃ found t' chain', t.step propid hashId chain op = some (found, t', chain') ∧
      ShapeOpSpec found t t' op ∧ t'.Valid propid hashId chain' := by
  cases op with
  | add s alloc made =>
    obtain ⟨found, t', hadd, hfound, hvalid⟩ := h.add hallowed alloc made
    exact ⟨found, t', _, by rw [ShapeTable.step, hadd]; rfl, hfound, hvalid⟩
  | remove id alloc =>
    obtain ⟨t', hremove, hvalid⟩ := h.remove hallowed alloc
    exact ⟨none, t', _, by rw [ShapeTable.step, hremove]; rfl, trivial, hvalid⟩
  | grow alloc =>
    obtain ⟨ok, t', hgrow, hvalid, hshapes, _⟩ := h.grow alloc
    exact ⟨none, t', chain, by rw [ShapeTable.step, hgrow]; rfl, hshapes, hvalid⟩
  | change log2Delta alloc =>
    obtain ⟨newlog2, hlog, hmin, hroom⟩ := hallowed
    rcases h.change log2Delta newlog2 hlog hmin hroom alloc with
      hfail | ⟨t', hchange, hvalid, hshapes, _⟩
    · exact ⟨none, t, chain, by rw [ShapeTable.step, hfail]; rfl, rfl, h⟩
    · exact ⟨none, t', chain, by rw [ShapeTable.step, hchange]; rfl, hshapes, hvalid⟩

lemma ShapeTable.Valid.behaves (ops : List (ShapeOp S Id)) {t : ShapeTable S} {chain : List S}
    (h : t.Valid propid hashId chain) :
    TableBehaves propid hashId (OccursOnce propid) t chain ops := by
  induction ops generalizing t chain with
  | nil => exact h.searchAgrees
  | cons op ops ih =>
    refine ⟨h.searchAgrees, fun hallowed => ?_⟩
    obtain ⟨found, t', chain', hstep, hspec, hvalid⟩ := h.step hallowed
    exact ⟨found, t', chain', hstep, hspec, ih hvalid⟩

/-- Formal parameters of one name: two shapes with the id 0. -/
def twoArgs : List Nat := [1, 0]

/-- The table in which the younger of the two is removed has no shape. -/
def withoutArg : Option (ShapeTable Nat) := do
  let o ← ShapeTable.init (fun s => s / 2) (fun _ => 0#32) twoArgs true
  let t ← o
  t.remove (fun s => s / 2) (fun _ => 0#32) 0 true

lemma withoutArg_empty :
    (withoutArg.any fun t => (List.finRange t.capacity).all fun i => (t.entries i).shape.isNone) =
      true := by
  decide

end

end SpiderMonkey.Vm
