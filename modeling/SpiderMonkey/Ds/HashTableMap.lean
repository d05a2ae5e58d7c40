import SpiderMonkey.Ds.HashTableEnum

/-! # A hash table is a finite map

What a client does with a table, and what a finite map, which is a set of elements with different
keys, comes to by it. Each operation says whether the allocations that it needs succeed.
-/

namespace SpiderMonkey.Ds

open Lib Function Option Multiset

variable {T Key Lookup : Type}

/-- What a client does. `found` assigns to the element that `put` finds. In an enumeration, the
elements with `removes` are removed; as the elements differ, this says it of any of them. -/
inductive MapOp (T Lookup : Type) where
  | init (length : BitVec 32) (alloc : Bool)
  | lookup (l : Lookup)
  | lookupForAdd (l : Lookup)
  | lookupForAddThenAdd (l : Lookup) (t : T) (alloc : Bool)
  | relookupOrAdd (l : Lookup) (t : T) (alloc : Bool)
  | putNew (l : Lookup) (t : T) (alloc : Bool)
  | put (l : Lookup) (t : T) (found : T → T) (alloc : Bool)
  | remove (l : Lookup) (alloc : Bool)
  | clear
  | enumerate (removes : T → Bool) (alloc : Bool)

namespace MapOp

/-- The operations that may add a key. -/
def isAdd : MapOp T Lookup → Bool
  | lookupForAddThenAdd _ _ _ => true
  | relookupOrAdd _ _ _ => true
  | putNew _ _ _ => true
  | put _ _ _ _ => true
  | _ => false

def isLookup : MapOp T Lookup → Bool
  | lookup _ => true
  | lookupForAdd _ => true
  | _ => false

end MapOp

/-- What the client is told. -/
inductive MapResult (T : Type) where
  | done (ok : Bool)
  | found (element : Option T)
  | yielded (elements : List T)

/-! ## The table -/

section Step

variable (P : HashPolicy T Key Lookup) [Inhabited T]

/-- `for (Enum e(s); !e.empty(); e.popFront())`, with a `removeFront` for some elements. -/
def Enum.drain (removes : T → Bool) : Nat → Enum T → Option (Enum T × List T)
  | 0, _ => none
  | fuel + 1, e =>
    if e.empty then some (e, [])
    else do
      let t ← e.front?
      let e ← (if removes t then e.removeFront else some e)
      let e ← e.popFront
      let (e, ts) ← e.drain removes fuel
      some (e, t :: ts)

/-- What is found by a lookup that may set collision bits. -/
def HashTable.lookupWith (ht : HashTable T) (l : Lookup) (c : HashNumber) :
    Option (Option T × HashTable T) := do
  let (entry, table) ← lookupCells P ht.table l (prepareHash P l) c
  some ((table entry).element, { ht with table := table })

/-- An operation on a table, or on one that has not been initialised. None if a loop does not end,
or if the table is not as it should be. -/
def mapStep : Option (HashTable T) → MapOp T Lookup → Option (Option (HashTable T) × MapResult T)
  | none, .init length alloc =>
    match HashTable.init length alloc with
    | some ht => some (some ht, .done true)
    | none => some (none, .done false)
  | some ht, .lookup l => do
    let (o, ht) ← ht.lookupWith P l 0#32
    some (some ht, .found o)
  | some ht, .lookupForAdd l => do
    let (o, ht) ← ht.lookupWith P l sCollisionBit
    some (some ht, .found o)
  | some ht, .lookupForAddThenAdd l t alloc => do
    let (ok, ht) ← ht.lookupForAddThenAdd P l t alloc
    some (some ht, .done ok)
  | some ht, .relookupOrAdd l t alloc => do
    -- the pointer is from a `lookupForAdd` of the same lookup, which gave it its hash code
    let (ok, ht) ← ht.relookupOrAdd P l (prepareHash P l) t alloc
    some (some ht, .done ok)
  | some ht, .putNew l t alloc => do
    let (ok, ht) ← ht.putNew P l t alloc
    some (some ht, .done ok)
  | some ht, .put l t found alloc => do
    let (ok, ht) ← ht.put P l t found alloc
    some (some ht, .done ok)
  | some ht, .remove l alloc => do
    let ht ← ht.remove P l alloc
    some (some ht, .done true)
  | some ht, .clear => some (some ht.clear, .done true)
  | some ht, .enumerate removes alloc => do
    let (e, ts) ← (Enum.start ht).drain removes (ht.capacity + 1)
    let (ht, _) ← e.finish alloc
    some (some ht, .yielded ts)
  | _, _ => none

end Step

/-! ## The finite map -/

section Spec

variable (P : HashPolicy T Key Lookup)

/-- What the client answers for. -/
def MapAllowed : Option (Multiset T) → MapOp T Lookup → Prop
  | none, .init _ _ => True
  | some _, .lookup _ => True
  | some _, .lookupForAdd _ => True
  | some _, .lookupForAddThenAdd l t _ => P.matchKey (P.getKey t) l = true
  | some _, .relookupOrAdd l t _ => P.matchKey (P.getKey t) l = true
  | some m, .putNew l t _ => P.matchKey (P.getKey t) l = true ∧ Absent P m l
  | some _, .put l t found _ =>
    P.matchKey (P.getKey t) l = true ∧ ∀ t', P.getKey (found t') = P.getKey t'
  | some _, .remove _ _ => True
  | some _, .clear => True
  | some _, .enumerate _ _ => True
  | _, _ => False

/-- A lookup yields the element that it matches. -/
def Yields (m : Multiset T) (l : Lookup) : Option T → Prop
  | some t => t ∈ m ∧ P.matchKey (P.getKey t) l = true
  | none => Absent P m l

/-- A key is added, or its element is assigned to; nothing changes if this fails. -/
def Adds (m : Multiset T) (l : Lookup) (t : T) (found : T → T) (ok : Bool) (m' : Multiset T) :
    Prop :=
  (∃ t0 rest, m = t0 ::ₘ rest ∧ P.matchKey (P.getKey t0) l = true ∧ ok = true ∧
      m' = found t0 ::ₘ rest) ∨
    Absent P m l ∧ (ok = true ∧ m' = t ::ₘ m ∨ ok = false ∧ m' = m)

/-- What a finite map does. -/
def MapSpec : MapOp T Lookup → Option (Multiset T) → MapResult T → Option (Multiset T) → Prop
  | .init _ _, _, .done ok, m' => m' = if ok then some 0 else none
  | .lookup l, some m, .found o, some m' => Yields P m l o ∧ m' = m
  | .lookupForAdd l, some m, .found o, some m' => Yields P m l o ∧ m' = m
  | .lookupForAddThenAdd l t _, some m, .done ok, some m' => Adds P m l t id ok m'
  | .relookupOrAdd l t _, some m, .done ok, some m' => Adds P m l t id ok m'
  | .putNew _ t _, some m, .done ok, some m' => m' = if ok then t ::ₘ m else m
  | .put l t found _, some m, .done ok, some m' => Adds P m l t found ok m'
  | .remove l _, some m, .done _, some m' =>
    (∃ t, m = t ::ₘ m' ∧ P.matchKey (P.getKey t) l = true) ∨ Absent P m l ∧ m' = m
  | .clear, some _, .done _, some m' => m' = 0
  | .enumerate removes _, some m, .yielded ts, some m' =>
    m = ↑ts ∧ m' = m.filter fun t => removes t = false
  | _, _, _, _ => False

/-- A table holds the elements of a finite map, with the load that keeps the probes finite. -/
structure Holds (ht : HashTable T) (m : Multiset T) : Prop where
  valid : Valid P ht
  light : Light ht
  held_eq : held ht.table = m
  count : ht.entryCount = m.card
  load : ht.entryCount + ht.removedCount < ht.capacity

def Refines : Option (HashTable T) → Option (Multiset T) → Prop
  | none, none => True
  | some ht, some m => Holds P ht m
  | _, _ => False

variable [Inhabited T]

/-- All operations return, with what a finite map would return, as long as the client answers for
what it should; the states are good. -/
def Behaves (good : Option (HashTable T) → Option (Multiset T) → Prop) :
    Option (HashTable T) → Option (Multiset T) → List (MapOp T Lookup) → Prop
  | s, m, [] => good s m
  | s, m, op :: ops => good s m ∧ (MapAllowed P m op → ∃ s' r m', mapStep P s op = some (s', r) ∧
      MapSpec P op m r m' ∧ Behaves good s' m' ops)

end Spec

/-! ## Single operations -/

section

variable {P : HashPolicy T Key Lookup} {ht : HashTable T} {m : Multiset T}

lemma Holds.of (hv : Valid P ht) (hlight : Light ht) (hheld : held ht.table = m) :
    Holds P ht m where
  valid := hv
  light := hlight
  held_eq := hheld
  count := by rw [hv.entryCount, hheld]
  load := hlight.lt_capacity hv

/-- There is room for one more entry in a table that is not overloaded. -/
lemma Valid.light_succ (hv : Valid P ht) (hover : ht.overloaded = false) {ht' : HashTable T}
    (hshift : ht'.hashShift = ht.hashShift) (hcount : ht'.entryCount = ht.entryCount + 1)
    (hremoved : ht'.removedCount ≤ ht.removedCount) : Light ht' := by
  obtain ⟨q, hq, _⟩ := hv.capacity_eq
  rw [Bool.eq_false_iff, ne_eq, hv.overloaded_iff, hq] at hover
  have hcapacity : ht'.capacity = 4 * q := by rw [← hq, HashTable.capacity, hshift]; rfl
  rw [Light, hcapacity, hcount]
  omega

lemma Valid.lt_of_not_overloaded (hv : Valid P ht) (hover : ht.overloaded = false) :
    ht.entryCount < ht.capacity := by
  rw [Bool.eq_false_iff, ne_eq, hv.overloaded_iff] at hover
  omega

lemma Holds.lookupWith (hP : P.Lawful) (h : Holds P ht m) {c : HashNumber}
    (hc : c = 0#32 ∨ c = sCollisionBit) (l : Lookup) :
    ∃ o ht', ht.lookupWith P l c = some (o, ht') ∧ Yields P m l o ∧ Holds P ht' m ∧
      ht'.hashShift = ht.hashShift ∧ ht'.gen = ht.gen ∧ ht'.entryCount = ht.entryCount ∧
      ht'.removedCount = ht.removedCount := by
  obtain ⟨i, hi⟩ := h.valid.exists_free h.load
  obtain ⟨r, table', hlookup, hmarked, hfinds⟩ :=
    lookupCells_spec hP h.valid.placed hc l ⟨i, .inl hi⟩
  have hholds : Holds P { ht with table := table' } m :=
    .of (h.valid.marked hmarked) h.light (hmarked.held_eq.trans h.held_eq)
  refine ⟨(table' r).element, { ht with table := table' }, ?_, ?_, hholds, rfl, rfl, rfl, rfl⟩
  · rw [HashTable.lookupWith, hlookup]
    rfl
  · rw [← h.held_eq]
    rcases hfinds with ⟨hlive, hmatch⟩ | ⟨hlive, hmiss, _⟩
    · rw [Entry.element_of_live _ ((hmarked.live_eq r).trans hlive), hmarked.t_eq]
      exact ⟨mem_held.mpr ⟨r, hlive, rfl⟩, hmatch⟩
    · rw [Entry.element_of_not_live _ ((hmarked.live_eq r).trans hlive)]
      exact absent_held.mpr hmiss

/-- How a table stays as it is when a key is added to it: there have been no tombstones, and there
is room. -/
def KeepsRoom (ht ht' : HashTable T) : Prop :=
  ht.removedCount = 0 → ht.overloaded = false →
    ht'.hashShift = ht.hashShift ∧ ht'.gen = ht.gen ∧ ht'.removedCount = 0 ∧
      ht'.entryCount ≤ ht.entryCount + 1

variable [Inhabited T]

lemma Holds.putNew (hP : P.Lawful) (h : Holds P ht m) {l : Lookup} {t : T} (alloc : Bool)
    (hl : P.matchKey (P.getKey t) l = true) (habsent : Absent P m l) :
    ∃ ok ht', ht.putNew P l t alloc = some (ok, ht') ∧
      Holds P ht' (if ok then t ::ₘ m else m) ∧ KeepsRoom ht ht' := by
  -- after the check there is room for a key
  have hput : ∀ {ht1 : HashTable T}, Valid P ht1 → held ht1.table = m → ht1.overloaded = false →
      ∃ ht', ht1.putNewInfallible P l t = some ht' ∧ Holds P ht' (t ::ₘ m) ∧
        ht'.hashShift = ht1.hashShift ∧ ht'.gen = ht1.gen ∧
        ht'.entryCount = ht1.entryCount + 1 ∧ ht'.removedCount ≤ ht1.removedCount := by
    intro ht1 hv1 hheld1 hover1
    obtain ⟨ht', hput, hv', hheld', hshift, hgen, hcount, hremoved⟩ :=
      hv1.putNewInfallible hP hl (by rw [hheld1]; exact habsent) (hv1.lt_of_not_overloaded hover1)
    exact ⟨ht', hput, .of hv' (hv1.light_succ hover1 hshift hcount hremoved)
      (by rw [hheld', hheld1]), hshift, hgen, hcount, hremoved⟩
  rw [HashTable.putNew]
  rcases h.valid.checkOverloaded hP h.light alloc with ⟨hcheck, hover⟩ | ⟨hover, hcheck⟩ |
    ⟨ht1, _, hover, hcheck, hresized, hover1⟩
  · obtain ⟨ht', hput', hholds, hshift, hgen, hcount, hremoved⟩ := hput h.valid h.held_eq hover
    refine ⟨true, ht', ?_, hholds, fun hzero _ => ⟨hshift, hgen, ?_, Nat.le_of_eq hcount⟩⟩
    · rw [hcheck]
      simp only [bind_eq_bind, bind_some, hput']
      rfl
    · omega
  · refine ⟨false, ht, ?_, h, fun _ hnot => ?_⟩
    · rw [hcheck]
      rfl
    · rw [hover] at hnot
      cases hnot
  · obtain ⟨ht', hput', hholds, _⟩ := hput hresized.valid (hresized.held_eq.trans h.held_eq) hover1
    refine ⟨true, ht', ?_, hholds, fun _ hnot => ?_⟩
    · rw [hcheck]
      simp only [bind_eq_bind, bind_some, hput']
      rfl
    · rw [hover] at hnot
      cases hnot

omit [Inhabited T] in
lemma Valid.clean (hv : Valid P ht) (h : ht.removedCount = 0) (i : Slot ht.hashShift) :
    (ht.table i).isRemoved = false := by
  rw [hv.removedCount, card_eq_zero] at h
  cases hremoved : (ht.table i).isRemoved with
  | false => rfl
  | true =>
    have hmem : () ∈ tombstones ht.table := mem_contents.mpr ⟨i, by rw [hremoved]; rfl⟩
    rw [h] at hmem
    exact absurd hmem (notMem_zero _)

/-- `add` at the place that has been found for an absent key. -/
lemma Holds.add (hP : P.Lawful) (h : Holds P ht m) {l : Lookup} {t : T} {i : Slot ht.hashShift}
    (alloc : Bool) (hl : P.matchKey (P.getKey t) l = true) (habsent : Absent P m l)
    (hi : (ht.table i).isLive = false) (hpath : OnPath ht.table (prepareHash P l) i) :
    ∃ ok ht', ht.add ⟨i, prepareHash P l⟩ t alloc = some (ok, ht') ∧
      Holds P ht' (if ok then t ::ₘ m else m) ∧ KeepsRoom ht ht' := by
  have hlive := prepareHash_live (P := P) l
  have hmiss := absent_held.mp (h.held_eq ▸ habsent)
  obtain ⟨hfree, hremoved, hheld⟩ := h.valid.addAt hP hi hl hmiss hpath
  rw [h.held_eq] at hheld
  rw [HashTable.add]
  cases hcell : (ht.table i).isRemoved with
  | true =>
    rw [if_pos rfl]
    obtain ⟨hpos, hvalid⟩ := hremoved hcell
    refine ⟨true, _, rfl, .of hvalid ?_ (hheld _ (isLiveHash_setBit hlive)), fun hzero _ => ?_⟩
    · have hlight := h.light
      show 4 * (ht.entryCount + 1 + (ht.removedCount - 1)) ≤ 3 * ht.capacity
      rw [Light] at hlight
      omega
    · omega
  | false =>
    rw [if_neg Bool.false_ne_true]
    rcases h.valid.checkOverloaded hP h.light alloc with ⟨hcheck, hover⟩ | ⟨hover, hcheck⟩ |
      ⟨ht1, _, hover, hcheck, hresized, hover1⟩
    · rw [hcheck]
      exact ⟨true, _, rfl, .of (hfree hcell) (h.valid.light_succ hover rfl rfl (Nat.le_refl _))
        (hheld _ hlive), fun hzero _ => ⟨rfl, rfl, hzero, Nat.le_refl _⟩⟩
    · rw [hcheck]
      refine ⟨false, ht, rfl, h, fun _ hnot => ?_⟩
      rw [hover] at hnot
      cases hnot
    · -- the key is put in the new table, which has no tombstones
      have hv1 := hresized.valid
      have hheld1 := hresized.held_eq.trans h.held_eq
      have hroom := hv1.lt_of_not_overloaded hover1
      rw [hv1.entryCount] at hroom
      obtain ⟨r, table', hfind, hmarked, hr, hpath1⟩ :=
        findFreeEntry_spec (exists_not_live _ hroom) (prepareHash P l)
      have hmiss1 := absent_held.mp (hheld1 ▸ habsent)
      obtain ⟨hfree1, _, hheld1'⟩ := (hv1.marked hmarked).addAt hP
        ((hmarked.live_eq r).trans hr) hl
        (fun j hj => by
          rw [hmarked.match_eq]
          exact hmiss1 j ((hmarked.live_eq j).symm.trans hj)) hpath1
      have hclean : (table' r).isRemoved = false :=
        (hmarked.removed_eq r).trans (hv1.clean hresized.removedCount r)
      have hheld2 := hheld1' _ hlive
      simp only [hmarked.held_eq, hheld1] at hheld2
      rw [hcheck]
      refine ⟨true, HashTable.addAt { ht1 with table := table' } r (prepareHash P l) t, ?_,
        .of (hfree1 hclean) (hv1.light_succ hover1 rfl rfl (Nat.le_refl _)) hheld2,
        fun _ hnot => ?_⟩
      · simp only [bind_eq_bind, bind_some, hfind]
      · rw [hover] at hnot
        cases hnot

omit [Inhabited T] in
/-- The value of a live entry is assigned. -/
lemma held_assign [Inhabited T] {hashShift : Nat} {table : Cells T hashShift}
    {i : Slot hashShift} {e : Entry T} (hi : (table i).isLive = true) (he : e.isLive = true) :
    ∃ rest, held table = (table i).t ::ₘ rest ∧
      held (update table i e) = e.t ::ₘ rest := by
  refine ⟨held (update table i Entry.new), held_take hi rfl, ?_⟩
  have hput : held (update (update table i Entry.new) i e) =
      e.t ::ₘ held (update table i Entry.new) :=
    held_put (by rw [update_self]; rfl) he
  rwa [update_idem] at hput

lemma Holds.findOrAdd (hP : P.Lawful) (h : Holds P ht m) {l : Lookup} {t : T} (found : T → T)
    (alloc : Bool) (hl : P.matchKey (P.getKey t) l = true)
    (hfound : ∀ t', P.getKey (found t') = P.getKey t') :
    ∃ ok ht' m', ht.findOrAdd P l (prepareHash P l) t found alloc = some (ok, ht') ∧
      Adds P m l t found ok m' ∧ Holds P ht' m' ∧ KeepsRoom ht ht' := by
  obtain ⟨i, hi⟩ := h.valid.exists_free h.load
  obtain ⟨r, table', hlookup, hmarked, hfinds⟩ :=
    lookupCells_spec hP h.valid.placed (c := sCollisionBit) (.inr rfl) l ⟨i, .inl hi⟩
  have hholds : Holds P { ht with table := table' } m :=
    .of (h.valid.marked hmarked) h.light (hmarked.held_eq.trans h.held_eq)
  rw [HashTable.findOrAdd]
  simp only [hlookup, bind_eq_bind, bind_some]
  rcases hfinds with ⟨hlive, hmatch⟩ | ⟨hlive, hmiss, hpath⟩
  · have hlive' : (table' r).isLive = true := (hmarked.live_eq r).trans hlive
    have hassigned : ({ table' r with t := found (table' r).t } : Entry T).isLive = true := hlive'
    obtain ⟨rest, hheld, hheld'⟩ := held_assign hlive' hassigned
    have hvalid : Valid P { ht with
        table := update table' r { table' r with t := found (table' r).t } } := by
      refine ⟨h.valid.shift_ge, h.valid.shift_le, hholds.valid.placed.assign rfl (hfound _), ?_, ?_⟩
      · refine hholds.valid.entryCount.trans ?_
        rw [hheld, hheld', card_cons, card_cons]
      · have hsame : (table' r).isRemoved =
            ({ table' r with t := found (table' r).t } : Entry T).isRemoved := rfl
        exact hholds.valid.removedCount.trans (congrArg Multiset.card (tombstones_same hsame).symm)
    rw [if_pos hlive']
    refine ⟨true, _, found (table' r).t ::ₘ rest, rfl, .inl ⟨(table' r).t, rest, ?_, ?_, rfl, rfl⟩,
      .of hvalid h.light hheld', fun hzero _ => ⟨rfl, rfl, hzero, Nat.le_succ _⟩⟩
    · rw [← hholds.held_eq, hheld]
    · rw [hmarked.t_eq]
      exact hmatch
  · have hlive' : (table' r).isLive = false := (hmarked.live_eq r).trans hlive
    have habsent : Absent P m l := h.held_eq ▸ absent_held.mpr hmiss
    rw [hlive', if_neg Bool.false_ne_true]
    obtain ⟨ok, ht', hadd, hholds', hkeeps⟩ := hholds.add hP alloc hl habsent hlive' (hpath rfl)
    refine ⟨ok, ht', _, hadd, .inr ⟨habsent, ?_⟩, hholds', hkeeps⟩
    cases ok with
    | true => exact .inl ⟨rfl, rfl⟩
    | false => exact .inr ⟨rfl, rfl⟩

lemma Valid.light_removeEntry (hv : Valid P ht) (hlight : Light ht) {i : Slot ht.hashShift}
    (hi : (ht.table i).isLive = true) : Light (ht.removeEntry i) := by
  obtain ⟨_, _, hshift, hcount, hremoved⟩ := hv.removeEntry hi
  rw [Light, HashTable.capacity, hshift]
  rw [Light, HashTable.capacity] at hlight
  omega

lemma Holds.remove (hP : P.Lawful) (h : Holds P ht m) (l : Lookup) (alloc : Bool) :
    ∃ ht' m', ht.remove P l alloc = some ht' ∧ Holds P ht' m' ∧
      ((∃ t, m = t ::ₘ m' ∧ P.matchKey (P.getKey t) l = true) ∨ Absent P m l ∧ m' = m) := by
  obtain ⟨i, hlookup, hfinds⟩ := h.valid.lookup hP l (.inr h.load)
  rw [HashTable.remove]
  simp only [hlookup, bind_eq_bind, bind_some]
  rcases hfinds with ⟨hlive, hmatch⟩ | ⟨hlive, habsent⟩
  · obtain ⟨hvalid, hheld, _⟩ := h.valid.removeEntry hlive
    obtain ⟨ht', hunder, hvalid', hheld', _, hlight'⟩ := hvalid.checkUnderloaded hP alloc
    rw [h.held_eq] at hheld
    rw [if_pos hlive]
    exact ⟨ht', _, hunder, .of hvalid' (hlight' (h.valid.light_removeEntry h.light hlive)) hheld',
      .inl ⟨_, hheld, hmatch⟩⟩
  · rw [hlive, if_neg Bool.false_ne_true]
    exact ⟨ht, m, rfl, h, .inr ⟨h.held_eq ▸ habsent, rfl⟩⟩

/-- A table without elements, of a size that a table may have. -/
lemma holds_empty {hashShift : Nat} (hge : 8 ≤ hashShift) (hle : hashShift ≤ 30) (gen : BitVec 32) :
    Holds P (⟨hashShift, 0, gen, 0, fun _ => Entry.new⟩ : HashTable T) 0 := by
  refine .of ⟨hge, hle, wellPlaced_new P hashShift, ?_, ?_⟩ (Nat.zero_le _) (held_new hashShift)
  · exact (congrArg Multiset.card (held_new hashShift)).symm
  · exact (congrArg Multiset.card (tombstones_of_clean fun _ => rfl)).symm

lemma Holds.clear (h : Holds P ht m) : Holds P ht.clear 0 :=
  holds_empty h.valid.shift_ge h.valid.shift_le ht.gen

/-! ## A complete enumeration -/

/-- The elements from some place on. -/
def heldFrom (ht : HashTable T) (c : Nat) : Multiset T :=
  contents fun i : Slot ht.hashShift => if c ≤ i.val then (ht.table i).element else none

/-- The elements before some place. -/
def heldBelow (ht : HashTable T) (c : Nat) : Multiset T :=
  contents fun i : Slot ht.hashShift => if i.val < c then (ht.table i).element else none

omit [Inhabited T] in
lemma heldFrom_zero (ht : HashTable T) : heldFrom ht 0 = held ht.table := by
  rw [heldFrom, held]
  simp only [Nat.zero_le, if_true]

omit [Inhabited T] in
lemma heldFrom_end (ht : HashTable T) : heldFrom ht ht.capacity = 0 := by
  have hnone : (fun i : Slot ht.hashShift =>
      if ht.capacity ≤ i.val then (ht.table i).element else none) = fun _ => none := by
    funext i
    exact if_neg (Nat.not_le_of_lt i.isLt)
  rw [heldFrom, hnone]
  exact contents_none

omit [Inhabited T] in
lemma heldBelow_zero (ht : HashTable T) : heldBelow ht 0 = 0 := by
  rw [heldBelow]
  simp only [Nat.not_lt_zero, if_false]
  exact contents_none

omit [Inhabited T] in
lemma heldBelow_end (ht : HashTable T) : heldBelow ht ht.capacity = held ht.table := by
  have hall : (fun i : Slot ht.hashShift =>
      if i.val < ht.capacity then (ht.table i).element else none) =
      fun i => (ht.table i).element := by
    funext i
    exact if_pos i.isLt
  rw [heldBelow, hall]
  rfl

omit [Inhabited T] in
/-- The element at a place comes before those behind it. -/
lemma heldFrom_live {ht : HashTable T} {i : Slot ht.hashShift} (hi : (ht.table i).isLive = true) :
    heldFrom ht i.val = (ht.table i).t ::ₘ heldFrom ht (i.val + 1) := by
  have hrest : (fun j : Slot ht.hashShift =>
      if i.val + 1 ≤ j.val then (ht.table j).element else none) =
      update (fun j : Slot ht.hashShift =>
        if i.val ≤ j.val then (ht.table j).element else none) i none := by
    funext j
    by_cases hj : j = i
    · subst hj
      rw [update_self, if_neg (by omega)]
    · have hne : j.val ≠ i.val := fun h => hj (Fin.ext h)
      rw [update_of_ne hj]
      by_cases hle : i.val + 1 ≤ j.val
      · rw [if_pos hle, if_pos (by omega)]
      · rw [if_neg hle, if_neg (by omega)]
  rw [heldFrom, contents_update_none (i := i) (a := (ht.table i).t), heldFrom, hrest]
  rw [if_pos (Nat.le_refl _), Entry.element_of_live _ hi]

omit [Inhabited T] in
lemma heldBelow_live {ht : HashTable T} {i : Slot ht.hashShift}
    (hi : (ht.table i).isLive = true) :
    heldBelow ht (i.val + 1) = (ht.table i).t ::ₘ heldBelow ht i.val := by
  have hrest : (fun j : Slot ht.hashShift =>
      if j.val < i.val + 1 then (ht.table j).element else none) =
      update (fun j : Slot ht.hashShift =>
        if j.val < i.val then (ht.table j).element else none) i (some (ht.table i).t) := by
    funext j
    by_cases hj : j = i
    · subst hj
      rw [update_self, if_pos (by omega), Entry.element_of_live _ hi]
    · have hne : j.val ≠ i.val := fun h => hj (Fin.ext h)
      rw [update_of_ne hj]
      by_cases hlt : j.val < i.val
      · rw [if_pos hlt, if_pos (by omega)]
      · rw [if_neg hlt, if_neg (by omega)]
  rw [heldBelow, hrest, contents_update_some, heldBelow]
  rw [if_neg (Nat.lt_irrefl _)]

omit [Inhabited T] in
/-- What is skipped holds nothing. -/
lemma heldFrom_skipDead (ht : HashTable T) (fuel cur : Nat) (hcur : cur ≤ ht.capacity) :
    heldFrom ht (ht.skipDead fuel cur) = heldFrom ht cur ∧
      heldBelow ht (ht.skipDead fuel cur) = heldBelow ht cur ∧
      ht.skipDead fuel cur ≤ ht.capacity ∧ cur ≤ ht.skipDead fuel cur := by
  induction fuel generalizing cur with
  | zero => exact ⟨rfl, rfl, hcur, Nat.le_refl _⟩
  | succ fuel ih =>
    rw [HashTable.skipDead]
    split_ifs with hlt hlive
    · exact ⟨rfl, rfl, hcur, Nat.le_refl _⟩
    · obtain ⟨hfrom, hbelow, hle, hge⟩ := ih (cur + 1) hlt
      have hdead : ∀ i : Slot ht.hashShift, i.val = cur → (ht.table i).element = none := by
        rintro i rfl
        exact Entry.element_of_not_live _ (Bool.not_eq_true _ ▸ hlive)
      refine ⟨hfrom.trans ?_, hbelow.trans ?_, hle, Nat.le_of_succ_le hge⟩
      · rw [heldFrom, heldFrom]
        congr 1
        funext i
        by_cases hi : i.val = cur
        · rw [hdead i hi, ite_self, ite_self]
        · exact if_congr (by omega) rfl rfl
      · rw [heldBelow, heldBelow]
        congr 1
        funext i
        by_cases hi : i.val = cur
        · rw [hdead i hi, ite_self, ite_self]
        · exact if_congr (by omega) rfl rfl
    · exact ⟨rfl, rfl, hcur, Nat.le_refl _⟩

/-- An element that is removed is missed only before the next place. -/
lemma held_removeEntry (ht : HashTable T) (i : Slot ht.hashShift) :
    heldFrom (ht.removeEntry i) (i.val + 1) = heldFrom ht (i.val + 1) ∧
      heldBelow (ht.removeEntry i) (i.val + 1) = heldBelow ht i.val := by
  have hcells : ∀ e : Entry T, e.isLive = false →
      (contents fun j : Slot ht.hashShift => if i.val + 1 ≤ j.val then
          (update ht.table i e j).element else none) = heldFrom ht (i.val + 1) ∧
        (contents fun j : Slot ht.hashShift => if j.val < i.val + 1 then
          (update ht.table i e j).element else none) = heldBelow ht i.val := by
    intro e he
    rw [heldFrom, heldBelow]
    constructor
    · congr 1
      funext j
      by_cases hj : j = i
      · subst hj
        rw [if_neg (by omega), if_neg (by omega)]
      · rw [update_of_ne hj]
    · congr 1
      funext j
      by_cases hj : j = i
      · subst hj
        rw [update_self, Entry.element_of_not_live _ he, ite_self, if_neg (by omega)]
      · have hne : j.val ≠ i.val := fun h => hj (Fin.ext h)
        rw [update_of_ne hj]
        exact if_congr (by omega) rfl rfl
  rw [HashTable.removeEntry]
  split_ifs
  · exact hcells _ rfl
  · exact hcells _ rfl

/-- What holds at each turn of a complete enumeration. -/
structure Enum.Draining (P : HashPolicy T Key Lookup) (e : Enum T) : Prop where
  inv : e.Inv P
  light : Light e.ht
  cur_le : e.cur ≤ e.ht.capacity
  valid : e.validEntry = true
  notRekeyed : e.rekeyed = false

lemma Enum.drain_spec (removes : T → Bool) {e : Enum T} (fuel : Nat)
    (h : e.Draining P) (hfuel : e.ht.capacity - e.cur < fuel) :
    ∃ e' ts, e.drain removes fuel = some (e', ts) ∧ e'.Draining P ∧ heldFrom e.ht e.cur = ↑ts ∧
      held e'.ht.table = heldBelow e.ht e.cur +
        (heldFrom e.ht e.cur).filter fun t => removes t = false := by
  induction fuel generalizing e with
  | zero => exact absurd hfuel (Nat.not_lt_zero _)
  | succ fuel ih =>
    rw [Enum.drain]
    by_cases hempty : e.empty = true
    · rw [if_pos hempty]
      rw [Enum.empty, decide_eq_true_iff] at hempty
      refine ⟨e, [], rfl, h, ?_, ?_⟩
      · rw [hempty, heldFrom_end]
        rfl
      · rw [hempty, heldFrom_end, heldBelow_end, Multiset.filter_zero, Multiset.add_zero]
    · rw [if_neg hempty]
      rw [Enum.empty, decide_eq_true_iff] at hempty
      have hlt : e.cur < e.ht.capacity := Nat.lt_of_le_of_ne h.cur_le hempty
      let i : Slot e.ht.hashShift := ⟨e.cur, hlt⟩
      have hslot : e.slot? = some i := dif_pos ⟨h.valid, hlt⟩
      have hlive := h.inv.live i hslot
      have hfront : e.front? = some (e.ht.table i).t := by rw [Enum.front?, hslot]; rfl
      -- the table after the element has been removed, or left
      obtain ⟨e1, hremove, hvalid1, hlight1, hcapacity1, hcur1, hrekeyed1, hfrom1, hbelow1⟩ :
          ∃ e1 : Enum T, (if removes (e.ht.table i).t then e.removeFront else some e) = some e1 ∧
            Valid P e1.ht ∧ Light e1.ht ∧ e1.ht.capacity = e.ht.capacity ∧ e1.cur = e.cur ∧
            e1.rekeyed = false ∧ heldFrom e1.ht (e.cur + 1) = heldFrom e.ht (e.cur + 1) ∧
            heldBelow e1.ht (e.cur + 1) = heldBelow e.ht e.cur +
              (({(e.ht.table i).t} : Multiset T).filter fun t => removes t = false) := by
        cases hremoves : removes (e.ht.table i).t with
        | true =>
          obtain ⟨hvalid, _, hshift, _⟩ := h.inv.valid.removeEntry hlive
          obtain ⟨hfrom, hbelow⟩ := held_removeEntry e.ht i
          refine ⟨{ e with ht := e.ht.removeEntry i, removed := true, validEntry := false }, ?_,
            hvalid, h.inv.valid.light_removeEntry h.light hlive, ?_, rfl, h.notRekeyed, hfrom, ?_⟩
          · rw [if_pos rfl, Enum.removeFront, hslot]
            rfl
          · exact congrArg capacityOf hshift
          · refine hbelow.trans ?_
            rw [filter_singleton, if_neg (by simp [hremoves])]
            exact (Multiset.add_zero _).symm
        | false =>
          refine ⟨e, rfl, h.inv.valid, h.light, rfl, rfl, h.notRekeyed, rfl, ?_⟩
          rw [filter_singleton, if_pos hremoves]
          refine (heldBelow_live hlive).trans ?_
          rw [Multiset.add_comm, Multiset.singleton_add]
      obtain ⟨hfrom2, hbelow2, hle2, hge2⟩ := heldFrom_skipDead e1.ht
        e1.ht.capacity (e1.cur + 1) (by rw [hcapacity1, hcur1]; exact hlt)
      let e2 : Enum T :=
        { e1 with cur := e1.ht.skipDead e1.ht.capacity (e1.cur + 1), validEntry := true }
      have hpop : e1.popFront = some e2 := by
        have hne : e1.empty = false := by
          rw [Enum.empty, hcapacity1, hcur1]
          exact decide_eq_false hempty
        rw [Enum.popFront, hne]
        rfl
      have hdraining : e2.Draining P := by
        refine ⟨⟨hvalid1, fun j hj => ?_⟩, hlight1, hle2, rfl, hrekeyed1⟩
        obtain ⟨hval, hlt2⟩ := Enum.slot?_eq_some hj
        have hlive2 := skipDead_live e1.ht e1.ht.capacity (e1.cur + 1)
          (Nat.le_add_right _ _) hlt2
        rw [show j = ⟨e1.ht.skipDead e1.ht.capacity (e1.cur + 1), hlt2⟩ from Fin.ext hval]
        exact hlive2
      obtain ⟨e', ts, hdrain, hdraining', hts, hheld⟩ := ih hdraining (by
        show e1.ht.capacity - e1.ht.skipDead e1.ht.capacity (e1.cur + 1) < fuel
        omega)
      have hfrom : heldFrom e2.ht e2.cur = heldFrom e.ht (e.cur + 1) :=
        hfrom2.trans (by rw [hcur1, hfrom1])
      have hbelow : heldBelow e2.ht e2.cur = heldBelow e.ht e.cur +
          (({(e.ht.table i).t} : Multiset T).filter fun t => removes t = false) :=
        hbelow2.trans (by rw [hcur1, hbelow1])
      have hcons : heldFrom e.ht e.cur = (e.ht.table i).t ::ₘ heldFrom e.ht (e.cur + 1) :=
        heldFrom_live hlive
      refine ⟨e', (e.ht.table i).t :: ts, ?_, hdraining', ?_, ?_⟩
      · simp only [hfront, hremove, hpop, hdrain, bind_eq_bind, bind_some]
      · rw [hcons, ← hfrom, hts]
        rfl
      · rw [hheld, hbelow, hfrom, hcons, ← singleton_add, filter_add,
          Multiset.add_assoc]

lemma Holds.enumerate (hP : P.Lawful) (h : Holds P ht m) (removes : T → Bool) (alloc : Bool) :
    ∃ e ts ht' asserted, (Enum.start ht).drain removes (ht.capacity + 1) = some (e, ts) ∧
      e.finish alloc = some (ht', asserted) ∧ m = ↑ts ∧
      Holds P ht' (m.filter fun t => removes t = false) := by
  obtain ⟨hfrom, hbelow, hle, _⟩ := heldFrom_skipDead ht ht.capacity 0
    (Nat.zero_le _)
  have hstart : (Enum.start ht).Draining P :=
    ⟨Enum.inv_start h.valid, h.light, hle, rfl, rfl⟩
  obtain ⟨e, ts, hdrain, hdraining, hts, hheld⟩ := Enum.drain_spec removes
    (ht.capacity + 1) hstart (Nat.lt_succ_of_le (Nat.sub_le _ _))
  rw [show heldFrom (Enum.start ht).ht (Enum.start ht).cur = m from
    hfrom.trans ((heldFrom_zero ht).trans h.held_eq)] at hts hheld
  rw [show heldBelow (Enum.start ht).ht (Enum.start ht).cur = 0 from
    hbelow.trans (heldBelow_zero ht), Multiset.zero_add] at hheld
  -- no key has been changed, so that the table may only become smaller
  have hfinish : ∃ ht' asserted, e.finish alloc = some (ht', asserted) ∧
      Holds P ht' (m.filter fun t => removes t = false) := by
    rw [Enum.finish, hdraining.notRekeyed]
    simp only [Bool.false_eq_true, if_false, bind_eq_bind, bind_some]
    cases e.removed with
    | false => exact ⟨e.ht, true, rfl, .of hdraining.inv.valid hdraining.light hheld⟩
    | true =>
      obtain ⟨ht', hunder, hvalid, hheld', _, hlight⟩ :=
        hdraining.inv.valid.checkUnderloaded hP alloc
      refine ⟨ht', true, by rw [if_pos rfl, hunder]; rfl,
        .of hvalid (hlight hdraining.light) (hheld'.trans hheld)⟩
  obtain ⟨ht', asserted, hfinish, hholds⟩ := hfinish
  exact ⟨e, ts, ht', asserted, hdrain, hfinish, hts, hholds⟩

/-! ## Initialisation -/

omit [Inhabited T] in
lemma roundUpLoop_spec {capacity n : Nat} (fuel log2 : Nat) (hle : log2 ≤ n) (hn : capacity ≤ 2 ^ n)
    (hfuel : n ≤ log2 + fuel) :
    capacity ≤ 2 ^ roundUpLoop capacity fuel log2 ∧ log2 ≤ roundUpLoop capacity fuel log2 ∧
      roundUpLoop capacity fuel log2 ≤ n := by
  induction fuel generalizing log2 with
  | zero =>
    obtain rfl : log2 = n := by omega
    exact ⟨hn, Nat.le_refl _, Nat.le_refl _⟩
  | succ fuel ih =>
    rw [roundUpLoop]
    split_ifs with hlt
    · have hne : log2 ≠ n := by
        rintro rfl
        omega
      obtain ⟨hcapacity, hge, hle'⟩ := ih (log2 + 1) (by omega) (by omega)
      exact ⟨hcapacity, by omega, hle'⟩
    · exact ⟨Nat.le_of_not_lt hlt, Nat.le_refl _, hle⟩

/-- A table that is initialised has room for so many keys. -/
lemma init_spec {length : BitVec 32} {alloc : Bool} (h : HashTable.init length alloc = some ht) :
    Holds P ht 0 ∧ ht.entryCount = 0 ∧ ht.removedCount = 0 ∧
      4 * length.toNat < 3 * ht.capacity + 4 := by
  rw [HashTable.init] at h
  split_ifs at h with hmax halloc
  cases h
  have hmul : (length * BitVec.ofNat 32 sInvMaxAlpha).toNat = length.toNat * 171 := by
    rw [BitVec.toNat_mul, BitVec.toNat_ofNat]
    simp only [sMaxInit, sInvMaxAlpha] at hmax ⊢
    omega
  have hcapacity : ((length * BitVec.ofNat 32 sInvMaxAlpha) >>> 7).toNat =
      length.toNat * 171 / 128 := by
    rw [BitVec.toNat_ushiftRight, hmul, Nat.shiftRight_eq_div_pow]
  rw [hcapacity]
  generalize hc : (if length.toNat * 171 / 128 < sMinSize then sMinSize
    else length.toNat * 171 / 128) = capacity
  have hbounds : length.toNat * 171 / 128 ≤ capacity ∧ capacity ≤ 2 ^ 24 := by
    simp only [sMaxInit, sMinSize, sMinSizeLog2] at hmax hc
    split_ifs at hc <;> omega
  obtain ⟨hge, hlog, hlog'⟩ := roundUpLoop_spec (n := 24)
    sHashBits sMinSizeLog2 (by decide) hbounds.2 (by decide)
  generalize roundUpLoop capacity sHashBits sMinSizeLog2 = log2 at hge hlog hlog'
  have hsize : capacityOf (sHashBits - log2) = 2 ^ log2 := by
    rw [capacityOf, Nat.sub_sub_self (by simp only [sHashBits]; omega)]
  refine ⟨holds_empty ?_ ?_ _, rfl, rfl, ?_⟩
  · simp only [sHashBits]
    omega
  · simp only [sHashBits, sMinSizeLog2] at hlog ⊢
    omega
  · rw [HashTable.capacity, hsize]
    omega

/-! ## Any operations -/

lemma Holds.step (hP : P.Lawful) (h : Holds P ht m) {op : MapOp T Lookup}
    (hallowed : MapAllowed P (some m) op) :
    ∃ ht' r m', mapStep P (some ht) op = some (some ht', r) ∧
      MapSpec P op (some m) r (some m') ∧ Holds P ht' m' ∧ (op.isAdd = true → KeepsRoom ht ht') ∧
      (op.isLookup = true → ht'.hashShift = ht.hashShift ∧ ht'.gen = ht.gen ∧
        ht'.entryCount = ht.entryCount ∧ ht'.removedCount = ht.removedCount) := by
  have hno : ∀ {p : Prop}, false = true → p := fun h => absurd h Bool.false_ne_true
  cases op with
  | init length alloc => exact absurd hallowed id
  | lookup l =>
    obtain ⟨o, ht', hlookup, hyields, hholds, hshift, hgen, hcount, hremoved⟩ :=
      h.lookupWith hP (.inl rfl) l
    refine ⟨ht', .found o, m, ?_, ⟨hyields, rfl⟩, hholds, hno,
      fun _ => ⟨hshift, hgen, hcount, hremoved⟩⟩
    rw [mapStep, hlookup]
    rfl
  | lookupForAdd l =>
    obtain ⟨o, ht', hlookup, hyields, hholds, hshift, hgen, hcount, hremoved⟩ :=
      h.lookupWith hP (.inr rfl) l
    refine ⟨ht', .found o, m, ?_, ⟨hyields, rfl⟩, hholds, hno,
      fun _ => ⟨hshift, hgen, hcount, hremoved⟩⟩
    rw [mapStep, hlookup]
    rfl
  | lookupForAddThenAdd l t alloc =>
    obtain ⟨ok, ht', m', hadd, hspec, hholds, hkeeps⟩ :=
      h.findOrAdd hP id alloc hallowed fun _ => rfl
    refine ⟨ht', .done ok, m', ?_, hspec, hholds, fun _ => hkeeps, hno⟩
    rw [mapStep, HashTable.lookupForAddThenAdd, hadd]
    rfl
  | relookupOrAdd l t alloc =>
    obtain ⟨ok, ht', m', hadd, hspec, hholds, hkeeps⟩ :=
      h.findOrAdd hP id alloc hallowed fun _ => rfl
    refine ⟨ht', .done ok, m', ?_, hspec, hholds, fun _ => hkeeps, hno⟩
    rw [mapStep, HashTable.relookupOrAdd, hadd]
    rfl
  | putNew l t alloc =>
    obtain ⟨ok, ht', hput, hholds, hkeeps⟩ := h.putNew hP alloc hallowed.1 hallowed.2
    refine ⟨ht', .done ok, _, ?_, rfl, hholds, fun _ => hkeeps, hno⟩
    rw [mapStep, hput]
    rfl
  | put l t found alloc =>
    obtain ⟨ok, ht', m', hadd, hspec, hholds, hkeeps⟩ :=
      h.findOrAdd hP _ alloc hallowed.1 hallowed.2
    refine ⟨ht', .done ok, m', ?_, hspec, hholds, fun _ => hkeeps, hno⟩
    rw [mapStep, HashTable.put, hadd]
    rfl
  | remove l alloc =>
    obtain ⟨ht', m', hremove, hholds, hspec⟩ := h.remove hP l alloc
    refine ⟨ht', .done true, m', ?_, hspec, hholds, hno, hno⟩
    rw [mapStep, hremove]
    rfl
  | clear => exact ⟨ht.clear, .done true, 0, rfl, rfl, h.clear, hno, hno⟩
  | enumerate removes alloc =>
    obtain ⟨e, ts, ht', asserted, hdrain, hfinish, hyielded, hholds⟩ :=
      h.enumerate hP removes alloc
    refine ⟨ht', .yielded ts, _, ?_, ⟨hyielded, rfl⟩, hholds, hno, hno⟩
    rw [mapStep]
    simp only [hdrain, hfinish, bind_eq_bind, bind_some]

lemma refines_step (hP : P.Lawful) {s : Option (HashTable T)} {m : Option (Multiset T)}
    (h : Refines P s m) {op : MapOp T Lookup} (hallowed : MapAllowed P m op) :
    ∃ s' r m', mapStep P s op = some (s', r) ∧ MapSpec P op m r m' ∧ Refines P s' m' := by
  cases s with
  | some ht =>
    cases m with
    | some m =>
      obtain ⟨ht', r, m', hstep, hspec, hholds, _⟩ := Holds.step hP h hallowed
      exact ⟨some ht', r, some m', hstep, hspec, hholds⟩
    | none => exact absurd h id
  | none =>
    cases m with
    | some m => exact absurd h id
    | none =>
      cases op with
      | init length alloc =>
        cases hinit : (HashTable.init length alloc : Option (HashTable T)) with
        | some ht =>
          exact ⟨some ht, .done true, some 0, by rw [mapStep, hinit], rfl, (init_spec hinit).1⟩
        | none => exact ⟨none, .done false, none, by rw [mapStep, hinit], rfl, trivial⟩
      | _ => exact absurd hallowed id

lemma behaves_refines (hP : P.Lawful) (ops : List (MapOp T Lookup)) {s : Option (HashTable T)}
    {m : Option (Multiset T)} (h : Refines P s m) : Behaves P (Refines P) s m ops := by
  induction ops generalizing s m with
  | nil => exact h
  | cons op ops ih =>
    refine ⟨h, fun hallowed => ?_⟩
    obtain ⟨s', r, m', hstep, hspec, hrefines⟩ := refines_step hP h hallowed
    exact ⟨s', r, m', hstep, hspec, ih hrefines⟩

/-- No new storage has been taken. -/
def SameStorage (ht0 : HashTable T) (s : Option (HashTable T)) (_ : Option (Multiset T)) : Prop :=
  ∃ ht, s = some ht ∧ ht.gen = ht0.gen ∧ ht.capacity = ht0.capacity

lemma behaves_sameStorage (hP : P.Lawful) {ht0 : HashTable T} {n : Nat}
    (hroom : 4 * n < 3 * ht0.capacity + 4) (ops : List (MapOp T Lookup))
    (honly : ∀ op ∈ ops, op.isAdd = true ∨ op.isLookup = true) (h : Holds P ht m)
    (hgen : ht.gen = ht0.gen) (hshift : ht.hashShift = ht0.hashShift) (hzero : ht.removedCount = 0)
    (hcount : ht.entryCount + ops.countP MapOp.isAdd ≤ n) :
    Behaves P (SameStorage ht0) (some ht) (some m) ops := by
  have hcapacity : ht.capacity = ht0.capacity := by rw [HashTable.capacity, hshift]; rfl
  induction ops generalizing ht m with
  | nil => exact ⟨ht, rfl, hgen, hcapacity⟩
  | cons op ops ih =>
    refine ⟨⟨ht, rfl, hgen, hcapacity⟩, fun hallowed => ?_⟩
    obtain ⟨ht', r, m', hstep, hspec, hholds, hadd, hlookup⟩ := h.step hP hallowed
    have hrest : ∀ op ∈ ops, op.isAdd = true ∨ op.isLookup = true :=
      fun op hop => honly op (List.mem_cons_of_mem _ hop)
    rw [List.countP_cons] at hcount
    have hnext : ht'.hashShift = ht.hashShift ∧ ht'.gen = ht.gen ∧ ht'.removedCount = 0 ∧
        ht'.entryCount + ops.countP MapOp.isAdd ≤ n := by
      by_cases hop : op.isAdd = true
      · rw [if_pos hop] at hcount
        have hover : ht.overloaded = false := by
          rw [Bool.eq_false_iff, ne_eq, h.valid.overloaded_iff, hcapacity]
          omega
        obtain ⟨hshift', hgen', hzero', hcount'⟩ := hadd hop hzero hover
        exact ⟨hshift', hgen', hzero', by omega⟩
      · rw [if_neg hop] at hcount
        obtain ⟨hshift', hgen', hsame, hremoved⟩ :=
          hlookup ((honly op List.mem_cons_self).resolve_left hop)
        exact ⟨hshift', hgen', hremoved.trans hzero, by omega⟩
    obtain ⟨hshift', hgen', hzero', hcount'⟩ := hnext
    exact ⟨some ht', r, some m', hstep, hspec, ih hrest hholds (hgen'.trans hgen)
      (hshift'.trans hshift) hzero' hcount' (by rw [HashTable.capacity, hshift', hshift]; rfl)⟩

/-- From a table that has not been initialised, all operations return what a finite map would; and
a table that is initialised for `n` keys takes no new storage while `n` keys are added. -/
theorem hashTable_behaves (hP : P.Lawful) :
    (∀ ops : List (MapOp T Lookup), Behaves P (Refines P) none none ops) ∧
      ∀ (n : BitVec 32) (alloc : Bool) (ht : HashTable T), HashTable.init n alloc = some ht →
        ∀ ops : List (MapOp T Lookup), (∀ op ∈ ops, op.isAdd = true ∨ op.isLookup = true) →
          ops.countP MapOp.isAdd ≤ n.toNat → Behaves P (SameStorage ht) (some ht) (some 0) ops := by
  refine ⟨fun ops => behaves_refines hP ops trivial, ?_⟩
  intro n alloc ht hinit ops honly hcount
  obtain ⟨hholds, hzero, hremoved, hroom⟩ := init_spec hinit
  exact behaves_sameStorage hP hroom ops honly hholds rfl rfl hremoved (by omega)

theorem hashTable_behaves_numbers :
    (∀ ops : List (MapOp Nat Nat), Behaves numberPolicy (Refines numberPolicy) none none ops) ∧
      ∀ (n : BitVec 32) (alloc : Bool) (ht : HashTable Nat), HashTable.init n alloc = some ht →
        ∀ ops : List (MapOp Nat Nat), (∀ op ∈ ops, op.isAdd = true ∨ op.isLookup = true) →
          ops.countP MapOp.isAdd ≤ n.toNat →
            Behaves numberPolicy (SameStorage ht) (some ht) (some 0) ops :=
  hashTable_behaves numberPolicy_lawful

end

end SpiderMonkey.Ds
