import SpiderMonkey.Ds.HashTableSoundness

/-! # Enumerations that change the table

The table is rehashed in place when keys have been changed. The collision bit then says that an
entry has been placed; an entry that has been placed is not moved again.
-/

namespace SpiderMonkey.Ds

open Lib Finset

variable {T Key Lookup : Type} {P : HashPolicy T Key Lookup}

/-! ## The target of an entry -/

namespace Entry

variable (e : Entry T)

lemma hasCollision_iff : e.hasCollision = true ↔ e.keyHash.toNat % 2 = 1 := by
  have h : e.keyHash &&& sCollisionBit ≠ 0#32 ↔ e.keyHash.toNat % 2 ≠ 0 := by
    rw [ne_eq, BitVec.toNat_eq, BitVec.toNat_and]
    show ¬ e.keyHash.toNat &&& 1 = 0 ↔ _
    rw [Nat.and_one_is_mod]
  rw [hasCollision, decide_eq_true_iff, h]
  omega

lemma home_of_unmarked (h : e.hasCollision = false) : e.getKeyHash = e.home := by
  rw [Bool.eq_false_iff, ne_eq, hasCollision_iff] at h
  apply BitVec.eq_of_toNat_eq
  rw [home, clearBit_toNat, getKeyHash]
  omega

lemma unsetCollision_unmarked : e.unsetCollision.hasCollision = false := by
  rw [Bool.eq_false_iff, ne_eq, hasCollision_iff]
  show ¬ (e.keyHash &&& ~~~sCollisionBit).toNat % 2 = 1
  rw [clearBit_toNat]
  omega

lemma unsetCollision_live : e.unsetCollision.isLive = e.isLive := by
  rw [Bool.eq_iff_iff, isLive, isLive, isLiveHash_iff, isLiveHash_iff]
  show 1 < (e.keyHash &&& ~~~sCollisionBit).toNat ↔ _
  rw [clearBit_toNat]
  omega

lemma unsetCollision_removed : e.unsetCollision.isRemoved = false := by
  rw [Bool.eq_false_iff, ne_eq, isRemoved, decide_eq_true_iff, BitVec.toNat_eq]
  show ¬ (e.keyHash &&& ~~~sCollisionBit).toNat = 1
  rw [clearBit_toNat]
  omega

lemma unsetCollision_element : e.unsetCollision.element = e.element := by
  rw [element, element, unsetCollision_live]
  rfl

end Entry

lemma targetLoop_spec {hashShift : Nat} {table : Cells T hashShift} {keyHash : HashNumber}
    {k fuel : Nat} {i j : Slot hashShift}
    (hprobe : Probe (nextSlot keyHash) (fun i => (table i).hasCollision = true) k i j)
    (hfuel : k < fuel) (hj : (table j).hasCollision = false) :
    targetLoop table keyHash fuel i = some j := by
  induction hprobe generalizing fuel with
  | here i =>
    obtain ⟨fuel, rfl⟩ := Nat.exists_eq_succ_of_ne_zero (Nat.ne_of_gt hfuel)
    rw [targetLoop, hj]
    rfl
  | step hi _ ih =>
    obtain ⟨fuel, rfl⟩ := Nat.exists_eq_succ_of_ne_zero (Nat.ne_of_gt (Nat.zero_lt_of_lt hfuel))
    rw [targetLoop, hi]
    exact ih (Nat.lt_of_succ_lt_succ hfuel) hj

/-! ## The rehash in place -/

/-- What holds when the loop of `rehashTable` is at an entry. -/
structure Rehashing (P : HashPolicy T Key Lookup) {hashShift : Nat} (table : Cells T hashShift)
    (i : Nat) : Prop where
  clean : ∀ j, (table j).isRemoved = false
  marked_live : ∀ j, (table j).hasCollision = true → (table j).isLive = true
  hashed : ∀ j, (table j).isLive = true →
    ∃ l, matchEntry P (table j) l = true ∧ (table j).home = prepareHash P l
  distinct : ∀ {j j' l}, (table j).isLive = true → (table j').isLive = true →
    matchEntry P (table j) l = true → matchEntry P (table j') l = true → j = j'
  placed : ∀ j, (table j).hasCollision = true →
    Reaches (nextSlot (table j).home) (fun x => (table x).hasCollision = true)
      (firstSlot (table j).home hashShift) j
  done : ∀ j, j.val < i → (table j).isLive = true → (table j).hasCollision = true

/-- The entries that have not been placed. -/
def unplaced {hashShift : Nat} (table : Cells T hashShift) : Finset (Slot hashShift) :=
  Finset.univ.filter fun j => (table j).hasCollision = false

lemma Rehashing.next {hashShift : Nat} {table : Cells T hashShift} {i : Nat}
    (h : Rehashing P table i)
    (hi : ∀ j : Slot hashShift, j.val = i → (table j).isLive = true →
      (table j).hasCollision = true) :
    Rehashing P table (i + 1) where
  clean := h.clean
  marked_live := h.marked_live
  hashed := h.hashed
  distinct := h.distinct
  placed := h.placed
  done j hj := by
    rcases Nat.lt_or_eq_of_le (Nat.le_of_lt_succ hj) with hlt | heq
    · exact h.done j hlt
    · exact hi j heq

/-- An entry is swapped with that of its target. -/
def swapped {hashShift : Nat} (table : Cells T hashShift) (src tgt : Slot hashShift) :
    Cells T hashShift :=
  Function.update (fun j => table (Equiv.swap src tgt j)) tgt
    ((table (Equiv.swap src tgt tgt)).setCollision sCollisionBit)

section Swap

variable {hashShift : Nat} {table : Cells T hashShift} {src tgt : Slot hashShift}

lemma swapped_tgt :
    swapped table src tgt tgt = (table src).setCollision sCollisionBit := by
  rw [swapped, Function.update_self, Equiv.swap_apply_right]

lemma swapped_of_ne {j : Slot hashShift} (hj : j ≠ tgt) :
    swapped table src tgt j = table (Equiv.swap src tgt j) := by
  rw [swapped, Function.update_of_ne hj]

lemma swapped_marked (tgt : Slot hashShift) (hsrc : (table src).isLive = true) :
    Marked (fun j => table (Equiv.swap src tgt j)) (swapped table src tgt) :=
  Marked.update (by rw [Equiv.swap_apply_right]; exact hsrc) (.inr rfl)

lemma held_swapped (hsrc : (table src).isLive = true) :
    held (swapped table src tgt) = held table := by
  rw [(swapped_marked tgt hsrc).held_eq]
  exact contents_equiv (fun j => (table j).element) (Equiv.swap src tgt)

/-- An entry that has been placed stays where it is. -/
lemma swapped_placed (hsrc : (table src).hasCollision = false)
    (htgt : (table tgt).hasCollision = false) {j : Slot hashShift}
    (hj : (table j).hasCollision = true) : swapped table src tgt j = table j := by
  have hne : j ≠ src := by
    rintro rfl
    rw [hsrc] at hj
    cases hj
  have hne' : j ≠ tgt := by
    rintro rfl
    rw [htgt] at hj
    cases hj
  rw [swapped_of_ne hne', Equiv.swap_apply_of_ne_of_ne hne hne']

/-- Only the target is placed. -/
lemma placed_of_swapped (htgt : (table tgt).hasCollision = false) {j : Slot hashShift}
    (hj : (swapped table src tgt j).hasCollision = true) :
    j = tgt ∨ (table j).hasCollision = true ∧ swapped table src tgt j = table j := by
  by_cases hjt : j = tgt
  · exact .inl hjt
  · rw [swapped_of_ne hjt] at hj ⊢
    by_cases hjs : j = src
    · subst hjs
      rw [Equiv.swap_apply_left, htgt] at hj
      cases hj
    · rw [Equiv.swap_apply_of_ne_of_ne hjs hjt] at hj ⊢
      exact .inr ⟨hj, rfl⟩

lemma unplaced_swapped (hsrc : (table src).hasCollision = false)
    (htgt : (table tgt).hasCollision = false) :
    (unplaced (swapped table src tgt)).card < (unplaced table).card := by
  refine card_lt_card (ssubset_iff_of_subset ?_ |>.mpr ⟨tgt, ?_, ?_⟩)
  · intro j hj
    rw [unplaced, mem_filter] at hj ⊢
    refine ⟨mem_univ j, ?_⟩
    cases hcollision : (table j).hasCollision with
    | false => rfl
    | true =>
      rw [swapped_placed hsrc htgt hcollision, hcollision] at hj
      cases hj.2
  · rw [unplaced, mem_filter]
    exact ⟨mem_univ tgt, htgt⟩
  · rw [unplaced, mem_filter, swapped_tgt, Entry.setCollision_hasCollision]
    exact fun h => by cases h.2

lemma Rehashing.swap {i : Nat} (h : Rehashing P table i) (hi : src.val = i)
    (hlive : (table src).isLive = true) (hsrc : (table src).hasCollision = false)
    (htgt : (table tgt).hasCollision = false)
    (hpath : Reaches (nextSlot (table src).home) (fun x => (table x).hasCollision = true)
      (firstSlot (table src).home hashShift) tgt) :
    Rehashing P (swapped table src tgt) i := by
  have hmarked := swapped_marked tgt hlive
  have hplaced : ∀ x, (table x).hasCollision = true →
      (swapped table src tgt x).hasCollision = true := by
    intro x hx
    rw [swapped_placed hsrc htgt hx, hx]
  constructor
  · intro j
    rw [hmarked.removed_eq]
    exact h.clean _
  · intro j hj
    rcases placed_of_swapped htgt hj with rfl | ⟨hcollision, heq⟩
    · rw [swapped_tgt]
      exact Entry.setCollision_live _ hlive
    · rw [heq]
      exact h.marked_live j hcollision
  · intro j hj
    rw [hmarked.live_eq] at hj
    simp only [hmarked.match_eq, hmarked.home_eq]
    exact h.hashed _ hj
  · intro j j' l hj hj' hl hl'
    rw [hmarked.live_eq] at hj hj'
    rw [hmarked.match_eq] at hl hl'
    exact (Equiv.swap src tgt).injective (h.distinct hj hj' hl hl')
  · intro j hj
    rcases placed_of_swapped htgt hj with rfl | ⟨hcollision, heq⟩
    · rw [swapped_tgt, Entry.setCollision_home]
      exact Reaches.mono hplaced hpath
    · rw [heq]
      exact Reaches.mono hplaced (h.placed j hcollision)
  · intro j hj hjlive
    by_cases hjt : j = tgt
    · rw [hjt, swapped_tgt, Entry.setCollision_hasCollision]
    · have hjs : j ≠ src := by
        rintro rfl
        omega
      rw [swapped_of_ne hjt, Equiv.swap_apply_of_ne_of_ne hjs hjt] at hjlive ⊢
      exact h.done j hj hjlive

end Swap

/-- The loop ends, with all live entries placed. -/
lemma rehashLoop_spec {hashShift : Nat} {table : Cells T hashShift} {i : Nat} (fuel : Nat)
    (h : Rehashing P table i)
    (hfuel : (capacityOf hashShift - i) + (unplaced table).card < fuel) :
    ∃ table', rehashLoop fuel table i = some table' ∧ held table' = held table ∧
      Rehashing P table' (capacityOf hashShift) := by
  induction fuel generalizing table i with
  | zero => exact absurd hfuel (Nat.not_lt_zero _)
  | succ fuel ih =>
    rw [rehashLoop]
    by_cases hi : i < capacityOf hashShift
    · rw [dif_pos hi]
      let src : Slot hashShift := ⟨i, hi⟩
      by_cases hskip : (!(table src).isLive || (table src).hasCollision) = true
      · have hnext : Rehashing P table (i + 1) := h.next fun j hj hlive => by
          obtain rfl : j = src := Fin.ext hj
          rw [hlive] at hskip
          exact hskip
        obtain ⟨table', hloop, hrest⟩ := ih hnext (by omega)
        exact ⟨table', by rw [← hloop]; exact if_pos hskip, hrest⟩
      · rw [Bool.or_eq_true, not_or, Bool.not_eq_true', Bool.not_eq_false, Bool.not_eq_true] at hskip
        obtain ⟨hlive, hsrc⟩ := hskip
        have hkey := Entry.home_of_unmarked _ hsrc
        obtain ⟨k, hk, tgt, hprobe, htgt⟩ := (nextSlot_cover (table src).home).exists_probe
          (fun x => (table x).hasCollision = true) src
          (by rw [hsrc]; exact Bool.false_ne_true) (firstSlot (table src).home hashShift)
        rw [Bool.not_eq_true] at htgt
        have htarget := targetLoop_spec hprobe hk htgt
        have hfewer := unplaced_swapped hsrc htgt
        obtain ⟨table', hloop, hheld, hrest⟩ := ih (h.swap rfl hlive hsrc htgt ⟨k, hprobe⟩) (by omega)
        refine ⟨table', ?_, hheld.trans (held_swapped hlive), hrest⟩
        rw [← hloop]
        refine (if_neg ?_).trans ?_
        · rw [hlive, hsrc]
          exact Bool.false_ne_true
        · rw [hkey]
          simp only [htarget, Option.bind_eq_bind, Option.bind_some]
          rfl
    · rw [dif_neg hi]
      refine ⟨table, rfl, rfl, h.clean, h.marked_live, h.hashed, h.distinct, h.placed,
        fun j hj => h.done j ?_⟩
      omega

lemma Rehashing.wellPlaced {hashShift : Nat} {table : Cells T hashShift}
    (h : Rehashing P table (capacityOf hashShift)) : WellPlaced P table where
  hashed := h.hashed
  placed j hj := Reaches.mono (fun x hx => .inl ⟨h.marked_live x hx, hx⟩)
    (h.placed j (h.done j j.isLt hj))
  distinct := h.distinct

lemma Valid.rehashing {ht : HashTable T} (hv : Valid P ht) :
    Rehashing P (fun i => (ht.table i).unsetCollision) 0 where
  clean _ := Entry.unsetCollision_removed _
  marked_live j hj := by
    rw [Entry.unsetCollision_unmarked] at hj
    cases hj
  hashed j hj := by
    rw [Entry.unsetCollision_live] at hj
    rw [home_unsetCollision]
    exact hv.placed.hashed j hj
  distinct := by
    intro j j' l hj hj' hl hl'
    rw [Entry.unsetCollision_live] at hj hj'
    exact hv.placed.distinct hj hj' hl hl'
  placed j hj := by
    rw [Entry.unsetCollision_unmarked] at hj
    cases hj
  done j hj := absurd hj (Nat.not_lt_zero _)

/-- The rehash in place ends; it keeps the elements and leaves no tombstone. -/
lemma Valid.rehashTable {ht : HashTable T} (hv : Valid P ht) :
    ∃ ht', ht.rehashTable = some ht' ∧ Valid P ht' ∧ held ht'.table = held ht.table ∧
      (∀ i, (ht'.table i).isRemoved = false) ∧ ht'.removedCount = 0 ∧
      ht'.entryCount = ht.entryCount ∧ ht'.hashShift = ht.hashShift := by
  have hcard : (unplaced fun i => (ht.table i).unsetCollision).card ≤ ht.capacity := by
    refine (card_filter_le _ _).trans ?_
    rw [card_univ, Fintype.card_fin]
    exact Nat.le_refl _
  obtain ⟨table', hloop, hheld, hrehashing⟩ := rehashLoop_spec (2 * ht.capacity + 1)
    hv.rehashing (by
      rw [HashTable.capacity] at hcard ⊢
      omega)
  have hsame : held table' = held ht.table := by
    rw [hheld, held, held]
    exact congrArg contents (funext fun i => Entry.unsetCollision_element _)
  refine ⟨{ ht with removedCount := 0, table := table' }, ?_, ⟨hv.shift_ge, hv.shift_le,
    hrehashing.wellPlaced, ?_, ?_⟩, hsame, hrehashing.clean, rfl, rfl, rfl⟩
  · rw [HashTable.rehashTable, hloop]
    rfl
  · exact hv.entryCount.trans (congrArg Multiset.card hsame.symm)
  · exact (congrArg Multiset.card (tombstones_of_clean hrehashing.clean)).symm

/-! ## Passes -/

/-- What is done with an enumeration. -/
inductive EnumOp (Key Lookup : Type) where
  | popFront
  | removeFront
  | rekeyFront (l : Lookup) (k : Key)

namespace EnumOp

def isRemove : EnumOp Key Lookup → Bool
  | removeFront => true
  | _ => false

def isRekey : EnumOp Key Lookup → Bool
  | rekeyFront _ _ => true
  | _ => false

end EnumOp

variable [Inhabited T]

variable (P) in
def Enum.step (e : Enum T) : EnumOp Key Lookup → Option (Enum T)
  | .popFront => e.popFront
  | .removeFront => e.removeFront
  | .rekeyFront l k => e.rekeyFront P l k

variable (P) in
/-- What the caller of an operation answers for: there is a current entry, and a new key is not in
the table. -/
def Enum.Allowed (e : Enum T) : EnumOp Key Lookup → Prop
  | .popFront => e.empty = false
  | .removeFront => e.slot?.isSome = true
  | .rekeyFront l k =>
    e.slot?.isSome = true ∧ P.matchKey k l = true ∧ Absent P (held e.ht.table) l

variable (P) in
/-- What an operation does to the elements, with the current one before it. -/
def Effect : EnumOp Key Lookup → Option T → Multiset T → Multiset T → Prop
  | .popFront, _, m, m' => m' = m
  | .removeFront, front, m, m' => ∃ t, front = some t ∧ m = t ::ₘ m'
  | .rekeyFront _ k, front, m, m' =>
    ∃ t rest, front = some t ∧ m = t ::ₘ rest ∧ m' = P.setKey t k ::ₘ rest

variable (P) in
/-- A pass, with the elements at its beginning and at its end. -/
inductive EnumPass : Enum T → Multiset T → List (EnumOp Key Lookup) → Enum T → Multiset T → Prop
  | nil (e : Enum T) (m : Multiset T) : EnumPass e m [] e m
  | cons {e e1 e' : Enum T} {m m1 m' : Multiset T} {op : EnumOp Key Lookup}
      {ops : List (EnumOp Key Lookup)} : e.Allowed P op → e.step P op = some e1 →
      Effect P op e.front? m m1 → EnumPass e1 m1 ops e' m' → EnumPass e m (op :: ops) e' m'

/-- What holds during a pass. -/
structure Enum.Inv (P : HashPolicy T Key Lookup) (e : Enum T) : Prop where
  valid : Valid P e.ht
  live : ∀ i, e.slot? = some i → (e.ht.table i).isLive = true

omit [Inhabited T] in
lemma skipDead_live (ht : HashTable T) (fuel cur : Nat) (hfuel : ht.capacity ≤ fuel + cur)
    (h : ht.skipDead fuel cur < ht.capacity) :
    (ht.table ⟨ht.skipDead fuel cur, h⟩).isLive = true := by
  induction fuel generalizing cur with
  | zero =>
    rw [HashTable.skipDead] at h
    omega
  | succ fuel ih =>
    by_cases hcur : cur < ht.capacity
    · cases hlive : (ht.table ⟨cur, hcur⟩).isLive with
      | true =>
        have heq : ht.skipDead (fuel + 1) cur = cur := by
          rw [HashTable.skipDead, dif_pos hcur, if_pos hlive]
        simp only [heq]
        exact hlive
      | false =>
        have heq : ht.skipDead (fuel + 1) cur = ht.skipDead fuel (cur + 1) := by
          rw [HashTable.skipDead, dif_pos hcur, hlive, if_neg Bool.false_ne_true]
        simp only [heq] at h ⊢
        exact ih (cur + 1) (by omega) h
    · have heq : ht.skipDead (fuel + 1) cur = cur := by
        rw [HashTable.skipDead, dif_neg hcur]
      rw [heq] at h
      exact absurd h hcur

omit [Inhabited T] in
/-- A live entry that is ahead is not skipped. -/
lemma skipDead_le {ht : HashTable T} {fuel cur : Nat} {i : Slot ht.hashShift}
    (hi : (ht.table i).isLive = true) (hle : cur ≤ i.val) : ht.skipDead fuel cur ≤ i.val := by
  induction fuel generalizing cur with
  | zero => exact hle
  | succ fuel ih =>
    have hlt : cur < ht.capacity := Nat.lt_of_le_of_lt hle i.isLt
    rw [HashTable.skipDead, dif_pos hlt]
    split_ifs with hlive
    · exact hle
    · refine ih (Nat.lt_of_le_of_ne hle ?_)
      rintro rfl
      exact hlive hi

omit [Inhabited T] in
lemma Enum.slot?_eq_some {e : Enum T} {i : Slot e.ht.hashShift} (h : e.slot? = some i) :
    i.val = e.cur ∧ e.cur < e.ht.capacity := by
  rw [slot?] at h
  split_ifs at h with hvalid
  cases h
  exact ⟨rfl, hvalid.2⟩

omit [Inhabited T] in
lemma Enum.inv_start {ht : HashTable T} (hv : Valid P ht) : (Enum.start ht).Inv P where
  valid := hv
  live i hi := by
    obtain ⟨hval, hlt⟩ := Enum.slot?_eq_some hi
    have hlive := skipDead_live ht ht.capacity 0 (Nat.le_refl _) hlt
    rw [show i = ⟨ht.skipDead ht.capacity 0, hlt⟩ from Fin.ext hval]
    exact hlive

/-- What an operation does: the elements change as they should, and the capacity stays. -/
structure Enum.Stepped (P : HashPolicy T Key Lookup) (e e' : Enum T) (op : EnumOp Key Lookup) :
    Prop where
  inv : e'.Inv P
  effect : Effect P op e.front? (held e.ht.table) (held e'.ht.table)
  shift : e'.ht.hashShift = e.ht.hashShift
  entryCount : e'.ht.entryCount + (if op.isRemove then 1 else 0) = e.ht.entryCount
  rekeyed : e'.rekeyed = (e.rekeyed || op.isRekey)

lemma Enum.Inv.step (hP : P.Lawful) {e : Enum T} (h : e.Inv P) {op : EnumOp Key Lookup}
    (hallowed : e.Allowed P op) : ∃ e', e.step P op = some e' ∧ e.Stepped P e' op := by
  cases op with
  | popFront =>
    have hempty : e.empty = false := hallowed
    let e' : Enum T :=
      { e with cur := e.ht.skipDead e.ht.capacity (e.cur + 1), validEntry := true }
    refine ⟨e', ?_, ⟨h.valid, fun i hi => ?_⟩, rfl, rfl, rfl, (Bool.or_false _).symm⟩
    · rw [Enum.step, Enum.popFront, hempty]
      rfl
    · obtain ⟨hval, hlt⟩ := Enum.slot?_eq_some hi
      have hlive := skipDead_live e.ht e.ht.capacity (e.cur + 1)
        (Nat.le_add_right _ _) hlt
      rw [show i = ⟨e.ht.skipDead e.ht.capacity (e.cur + 1), hlt⟩ from Fin.ext hval]
      exact hlive
  | removeFront =>
    obtain ⟨i, hi⟩ := Option.isSome_iff_exists.mp hallowed
    obtain ⟨hvalid, hheld, hshift, hcount, _⟩ := h.valid.removeEntry (h.live i hi)
    refine ⟨{ e with ht := e.ht.removeEntry i, removed := true, validEntry := false }, ?_,
      ⟨hvalid, fun j hj => ?_⟩, ⟨_, ?_, hheld⟩, hshift, hcount, (Bool.or_false _).symm⟩
    · rw [Enum.step, Enum.removeFront, hi]
      rfl
    · rw [Enum.slot?, dif_neg (by simp)] at hj
      cases hj
    · rw [Enum.front?, hi]
      rfl
  | rekeyFront l k =>
    obtain ⟨hsome, hk, habsent⟩ := hallowed
    obtain ⟨i, hi⟩ := Option.isSome_iff_exists.mp hsome
    have hlive := h.live i hi
    obtain ⟨hvalid, hheld, hshift, hcount, _⟩ := h.valid.removeEntry hlive
    have hnot := absent_held.mp habsent i hlive
    have hkey : P.matchKey (P.getKey (P.setKey (e.ht.table i).t k)) l = true := by
      rw [hP.getKey_setKey, hk]
    have habsent' : Absent P (held (e.ht.removeEntry i).table) l := by
      intro t ht
      exact habsent t (by rw [hheld]; exact Multiset.mem_cons_of_mem ht)
    have hroom : (e.ht.removeEntry i).entryCount < (e.ht.removeEntry i).capacity := by
      have hcard : e.ht.entryCount ≤ e.ht.capacity := by
        rw [h.valid.entryCount, held, card_contents]
        refine (card_filter_le _ _).trans ?_
        rw [card_univ, Fintype.card_fin]
        exact Nat.le_refl _
      rw [HashTable.capacity, hshift]
      exact Nat.lt_of_lt_of_le (by omega) hcard
    obtain ⟨ht', hput, hvalid', hheld', hshift', _, hcount', _⟩ :=
      hvalid.putNewInfallible hP hkey habsent' hroom
    refine ⟨{ e with ht := ht', rekeyed := true, validEntry := false }, ?_,
      ⟨hvalid', fun j hj => ?_⟩, ⟨_, _, ?_, hheld, hheld'⟩, hshift'.trans hshift, ?_,
      (Bool.or_true _).symm⟩
    · rw [Enum.step, Enum.rekeyFront, hi]
      simp only [Option.bind_eq_bind, Option.bind_some, hnot, hput]
      rfl
    · rw [Enum.slot?, dif_neg (by simp)] at hj
      cases hj
    · rw [Enum.front?, hi]
      rfl
    · show ht'.entryCount + 0 = _
      rw [hcount', Nat.add_zero, hcount]

omit [Inhabited T] in
lemma Effect.unique {op : EnumOp Key Lookup} {front : Option T} {m m1 m2 : Multiset T}
    (h1 : Effect P op front m m1) (h2 : Effect P op front m m2) : m1 = m2 := by
  cases op with
  | popFront => exact h1.trans h2.symm
  | removeFront =>
    obtain ⟨t, hfront, hm⟩ := h1
    obtain ⟨t', hfront', hm'⟩ := h2
    cases hfront.symm.trans hfront'
    exact (Multiset.cons_inj_right t).mp (hm.symm.trans hm')
  | rekeyFront l k =>
    obtain ⟨t, rest, hfront, hm, rfl⟩ := h1
    obtain ⟨t', rest', hfront', hm', rfl⟩ := h2
    cases hfront.symm.trans hfront'
    rw [(Multiset.cons_inj_right t).mp (hm.symm.trans hm')]

/-- What a whole pass comes to. -/
lemma EnumPass.spec (hP : P.Lawful) {e e' : Enum T} {m' : Multiset T}
    {ops : List (EnumOp Key Lookup)} (hpass : EnumPass P e (held e.ht.table) ops e' m')
    (h : e.Inv P) :
    e'.Inv P ∧ held e'.ht.table = m' ∧ e'.ht.hashShift = e.ht.hashShift ∧
      e'.ht.entryCount + ops.countP EnumOp.isRemove = e.ht.entryCount ∧
      e'.rekeyed = (e.rekeyed || ops.any EnumOp.isRekey) := by
  generalize hm : held e.ht.table = m at hpass
  induction hpass with
  | nil e m => exact ⟨h, hm, rfl, rfl, (Bool.or_false _).symm⟩
  | @cons e e1 e' m m1 m' op ops hallowed hstep heffect _ ih =>
    obtain ⟨e2, hstep', hstepped⟩ := h.step hP hallowed
    cases hstep.symm.trans hstep'
    have heffect' := hstepped.effect
    rw [hm] at heffect'
    obtain ⟨hinv, hheld, hshift, hcount, hrekeyed⟩ :=
      ih hstepped.inv (heffect'.unique heffect)
    refine ⟨hinv, hheld, hshift.trans hstepped.shift, ?_, ?_⟩
    · rw [← hstepped.entryCount, ← hcount, List.countP_cons]
      omega
    · rw [hrekeyed, hstepped.rekeyed, List.any_cons, Bool.or_assoc]

/-! ## The end of a pass -/

omit [Inhabited T] in
lemma Valid.checkOverRemoved {ht : HashTable T} (hv : Valid P ht) :
    ∃ ht' asserted, ht.checkOverRemoved = some (ht', asserted) ∧ Valid P ht' ∧
      held ht'.table = held ht.table ∧
      (asserted = true ↔ 4 * ht.entryCount < 3 * ht.capacity) := by
  have hcapacity : ∀ {ht' : HashTable T}, ht'.hashShift = ht.hashShift →
      ht'.capacity = ht.capacity := fun h => by rw [HashTable.capacity, h, HashTable.capacity]
  rw [HashTable.checkOverRemoved]
  cases hover : ht.overloaded with
  | false =>
    refine ⟨ht, true, rfl, hv, rfl, iff_of_true rfl ?_⟩
    rw [Bool.eq_false_iff, ne_eq, hv.overloaded_iff] at hover
    omega
  | true =>
    obtain ⟨ht', hrehash, hvalid, hheld, _, hremoved, hcount, hshift⟩ := hv.rehashTable
    refine ⟨ht', !ht'.overloaded, ?_, hvalid, hheld, ?_⟩
    · rw [if_pos rfl, hrehash]
      rfl
    · rw [Bool.not_eq_true', Bool.eq_false_iff, ne_eq, hvalid.overloaded_iff, hremoved, hcount,
        hcapacity hshift]
      omega

lemma Enum.Inv.finish (hP : P.Lawful) {e : Enum T} (h : e.Inv P) (alloc : Bool) :
    ∃ ht' asserted, e.finish alloc = some (ht', asserted) ∧ Valid P ht' ∧
      held ht'.table = held e.ht.table ∧
      (asserted = true ↔ e.rekeyed = false ∨ 4 * e.ht.entryCount < 3 * e.ht.capacity) := by
  have hfirst : ∃ ht' asserted,
      (if e.rekeyed then e.ht.checkOverRemoved else some (e.ht, true)) = some (ht', asserted) ∧
        Valid P ht' ∧ held ht'.table = held e.ht.table ∧
        (asserted = true ↔ e.rekeyed = false ∨ 4 * e.ht.entryCount < 3 * e.ht.capacity) := by
    cases e.rekeyed with
    | false => exact ⟨e.ht, true, rfl, h.valid, rfl, iff_of_true rfl (.inl rfl)⟩
    | true =>
      obtain ⟨ht', asserted, hcheck, hvalid, hheld, hasserted⟩ := h.valid.checkOverRemoved
      exact ⟨ht', asserted, hcheck, hvalid, hheld, hasserted.trans (by simp)⟩
  obtain ⟨ht1, asserted, hcheck, hvalid, hheld, hasserted⟩ := hfirst
  rw [Enum.finish, hcheck]
  simp only [Option.bind_eq_bind, Option.bind_some]
  cases e.removed with
  | false => exact ⟨ht1, asserted, rfl, hvalid, hheld, hasserted⟩
  | true =>
    obtain ⟨ht', hunder, hvalid', hheld', _⟩ := hvalid.checkUnderloaded hP alloc
    exact ⟨ht', asserted, by rw [if_pos rfl, hunder]; rfl, hvalid', hheld'.trans hheld, hasserted⟩

variable (P) in
/-- A lookup that matches an element of the table finds it. -/
def FindsAll (ht : HashTable T) : Prop :=
  ∀ t ∈ held ht.table, ∀ l, P.matchKey (P.getKey t) l = true →
    ∃ i, ht.lookup P l = some i ∧ (ht.table i).isLive = true ∧ (ht.table i).t = t

omit [Inhabited T] in
lemma Valid.findsAll (hP : P.Lawful) {ht : HashTable T} (hv : Valid P ht) : FindsAll P ht := by
  intro t ht' l hl
  have hpresent : ¬ Absent P (held ht.table) l := fun h => by
    rw [h t ht'] at hl
    cases hl
  obtain ⟨i, hlookup, ⟨hlive, hmatch⟩ | ⟨_, habsent⟩⟩ := hv.lookup hP l (.inl hpresent)
  · obtain ⟨j, hj, rfl⟩ := mem_held.mp ht'
    exact ⟨i, hlookup, hlive, by rw [hv.placed.distinct hlive hj hmatch hl]⟩
  · exact absurd habsent hpresent

variable (P) in
/-- What is expected of a rehash in place: it ends, and it keeps the elements, each of which is on
the path of its hash code, and no tombstone. -/
def Rehashes (ht : HashTable T) : Prop :=
  ∃ ht', ht.rehashTable = some ht' ∧ held ht'.table = held ht.table ∧
    (∀ i, (ht'.table i).isLive = true → OnPath ht'.table (ht'.table i).home i) ∧
    ∀ i, (ht'.table i).isRemoved = false

variable (P) in
/-- What is expected of the end of a pass, with the elements that it should leave: they are in the
table and are found, and the assertion of `checkOverRemoved` holds. -/
def EndsWell (e : Enum T) (m : Multiset T) (alloc : Bool) : Prop :=
  Rehashes e.ht ∧ ∃ ht', e.finish alloc = some (ht', true) ∧ held ht'.table = m ∧ FindsAll P ht'

/-- A pass from a valid table can always go on, and it ends well if and only if it changes no key or
leaves fewer elements than three quarters of the capacity. -/
theorem enumPass_endsWell_iff (hP : P.Lawful) {ht : HashTable T} (hv : Valid P ht)
    {ops : List (EnumOp Key Lookup)} {e : Enum T} {m : Multiset T}
    (hpass : EnumPass P (Enum.start ht) (held ht.table) ops e m) (alloc : Bool) :
    (∀ op, e.Allowed P op → ∃ e' m', e.step P op = some e' ∧ Effect P op e.front? m m') ∧
      (EndsWell P e m alloc ↔
        ops.any EnumOp.isRekey = false ∨
          4 * (ht.entryCount - ops.countP EnumOp.isRemove) < 3 * ht.capacity) := by
  obtain ⟨hinv, hheld, hshift, hcount, hrekeyed⟩ := hpass.spec hP (Enum.inv_start hv)
  refine ⟨fun op hallowed => ?_, ?_⟩
  · obtain ⟨e', hstep, hstepped⟩ := hinv.step hP hallowed
    exact ⟨e', _, hstep, hheld ▸ hstepped.effect⟩
  have hcapacity : e.ht.capacity = ht.capacity := by
    rw [HashTable.capacity, hshift]
    rfl
  have hleft : e.ht.entryCount = ht.entryCount - ops.countP EnumOp.isRemove :=
    Nat.eq_sub_of_add_eq hcount
  obtain ⟨ht', asserted, hfinish, hvalid, hheld', hasserted⟩ := hinv.finish hP alloc
  rw [hrekeyed, hcapacity, hleft] at hasserted
  refine Iff.trans ?_ hasserted
  constructor
  · rintro ⟨_, ht1, hfinish', _⟩
    rw [hfinish] at hfinish'
    cases hfinish'
    rfl
  · rintro rfl
    obtain ⟨ht1, hrehash, hvalid1, hheld1, hclean, _⟩ := hinv.valid.rehashTable
    exact ⟨⟨ht1, hrehash, hheld1, hvalid1.placed.placed, hclean⟩, ht', hfinish, hheld'.trans hheld,
      hvalid.findsAll hP⟩

/-! ## A full table -/

/-- Numbers, each its own key. -/
def numberPolicy : HashPolicy Nat Nat Nat where
  getKey t := t
  setKey _ k := k
  hash l := BitVec.ofNat 32 l
  matchKey k l := k = l

lemma numberPolicy_lawful : numberPolicy.Lawful where
  getKey_setKey _ _ := rfl
  hash_eq h h' := by
    simp only [numberPolicy, decide_eq_true_iff] at h h'
    rw [← h, ← h']
  trans h h' h'' := by
    simp only [numberPolicy, decide_eq_true_iff] at h h' h'' ⊢
    rw [h', ← h, h'']

/-- The table of `init`, for three keys. -/
def smallTable : HashTable Nat where
  hashShift := 30
  entryCount := 0
  gen := 0#32
  removedCount := 0
  table := fun _ => Entry.new

lemma valid_smallTable : Valid numberPolicy smallTable where
  shift_ge := by decide
  shift_le := by decide
  placed := wellPlaced_new _ _
  entryCount := (congrArg Multiset.card (held_new 30)).symm
  removedCount := (congrArg Multiset.card (tombstones_of_clean fun _ => rfl)).symm

/-- Two keys are put in the table; then there is room for a third. -/
lemma exists_twoKeys : ∃ ht, Valid numberPolicy ht ∧ held ht.table = {2, 1} ∧
    ht.hashShift = 30 ∧ ht.entryCount = 2 := by
  obtain ⟨ht1, _, hvalid1, hheld1, hshift1, _, hcount1, _⟩ :=
    valid_smallTable.putNewInfallible numberPolicy_lawful (l := 1) (t := 1) (by decide)
      (by rw [smallTable, held_new]; exact fun t ht => absurd ht (Multiset.notMem_zero t))
      (by decide)
  have hheld1' : held ht1.table = {1} := by
    rw [hheld1, smallTable, held_new]
    rfl
  obtain ⟨ht2, _, hvalid2, hheld2, hshift2, _, hcount2, _⟩ :=
    hvalid1.putNewInfallible numberPolicy_lawful (l := 2) (t := 2) (by decide)
      (by rw [hheld1']; unfold Absent; decide)
      (by rw [hcount1, HashTable.capacity, hshift1]; decide)
  refine ⟨ht2, hvalid2, ?_, hshift2.trans hshift1, by rw [hcount2, hcount1]; rfl⟩
  rw [hheld2, hheld1']
  rfl

/-- A third key fills the table as far as it may be. -/
lemma exists_threeKeys : ∃ ht, Valid numberPolicy ht ∧ held ht.table = {3, 2, 1} ∧
    ht.hashShift = 30 ∧ ht.entryCount = 3 := by
  obtain ⟨ht2, hvalid2, hheld2, hshift2, hcount2⟩ := exists_twoKeys
  obtain ⟨ht3, _, hvalid3, hheld3, hshift3, _, hcount3, _⟩ :=
    hvalid2.putNewInfallible numberPolicy_lawful (l := 3) (t := 3) (by decide)
      (by rw [hheld2]; unfold Absent; decide)
      (by rw [hcount2, HashTable.capacity, hshift2]; decide)
  refine ⟨ht3, hvalid3, ?_, hshift3.trans hshift2, by rw [hcount3, hcount2]⟩
  rw [hheld3, hheld2]
  rfl

/-- The first key of an enumeration is changed to another one. -/
lemma exists_rekeyed {ht : HashTable Nat} (hv : Valid numberPolicy ht) {k : Nat}
    (hfilled : 0 < ht.entryCount) (habsent : Absent numberPolicy (held ht.table) k) :
    ∃ e m, EnumPass numberPolicy (Enum.start ht) (held ht.table) [.rekeyFront k k] e m := by
  rw [hv.entryCount, Multiset.card_pos_iff_exists_mem] at hfilled
  obtain ⟨t, ht'⟩ := hfilled
  obtain ⟨i, hi, _⟩ := mem_held.mp ht'
  have hlt : ht.skipDead ht.capacity 0 < ht.capacity :=
    Nat.lt_of_le_of_lt (skipDead_le hi (Nat.zero_le _)) i.isLt
  have hallowed : (Enum.start ht).Allowed numberPolicy (.rekeyFront k k) := by
    refine ⟨?_, decide_eq_true rfl, habsent⟩
    rw [Enum.slot?, dif_pos ⟨rfl, hlt⟩]
    rfl
  obtain ⟨e, hstep, hstepped⟩ := (Enum.inv_start hv).step numberPolicy_lawful hallowed
  exact ⟨e, _, .cons hallowed hstep hstepped.effect (.nil e _)⟩

theorem enumPass_endsWell_twoKeys : ∃ ht e m, Valid numberPolicy ht ∧
    EnumPass numberPolicy (Enum.start ht) (held ht.table) [.rekeyFront 4 4] e m ∧
    EndsWell numberPolicy e m true := by
  obtain ⟨ht, hvalid, hheld, hshift, hcount⟩ := exists_twoKeys
  obtain ⟨e, m, hpass⟩ := exists_rekeyed (k := 4) hvalid (by omega)
    (by rw [hheld]; unfold Absent; decide)
  refine ⟨ht, e, m, hvalid, hpass,
    (enumPass_endsWell_iff numberPolicy_lawful hvalid hpass true).2.mpr (.inr ?_)⟩
  rw [hcount, HashTable.capacity, hshift]
  decide

/-- A table with three keys in four places may hold no more. When one of its keys is changed, it is
still full after it has been rehashed, and the assertion fails. -/
theorem enumPass_fails_threeKeys : ∃ ht e m, Valid numberPolicy ht ∧
    EnumPass numberPolicy (Enum.start ht) (held ht.table) [.rekeyFront 4 4] e m ∧
    ¬ EndsWell numberPolicy e m true := by
  obtain ⟨ht, hvalid, hheld, hshift, hcount⟩ := exists_threeKeys
  obtain ⟨e, m, hpass⟩ := exists_rekeyed (k := 4) hvalid (by omega)
    (by rw [hheld]; unfold Absent; decide)
  refine ⟨ht, e, m, hvalid, hpass, ?_⟩
  rintro ⟨_, ht', hfinish, _⟩
  obtain ⟨hinv, _, hshift', hcount', hrekeyed⟩ :=
    hpass.spec numberPolicy_lawful (Enum.inv_start hvalid)
  obtain ⟨_, _, hfinish', _, _, hasserted⟩ := hinv.finish numberPolicy_lawful true
  cases hfinish.symm.trans hfinish'
  have hcount3 : e.ht.entryCount = 3 := hcount'.trans hcount
  have hshift30 : e.ht.hashShift = 30 := hshift'.trans hshift
  rcases hasserted.mp rfl with hnone | hroom
  · rw [hrekeyed] at hnone
    cases hnone
  · rw [hcount3, HashTable.capacity, hshift30] at hroom
    exact absurd hroom (by decide)

end SpiderMonkey.Ds
