import SpiderMonkey.Ds.HashTable

/-! # What a hash table keeps

Every live entry is on the path of its hash code, and no entry before it on that path is free: it is
live with its collision bit set, or removed.
-/

namespace SpiderMonkey.Ds

open Lib Function Multiset

/-! ## Hash codes -/

lemma clearBit_toNat (k : HashNumber) :
    (k &&& ~~~sCollisionBit).toNat = k.toNat / 2 * 2 := by
  have hshift : k &&& ~~~sCollisionBit = (k >>> 1) <<< 1 := by
    ext i hi
    cases i with
    | zero => simp
    | succ i => simp [Nat.add_comm 1 i, BitVec.getLsbD_eq_getElem hi]
  rw [hshift, BitVec.toNat_shiftLeft, BitVec.toNat_ushiftRight, Nat.shiftRight_eq_div_pow,
    Nat.shiftLeft_eq]
  have hlt := k.isLt
  omega

lemma clearBit_setBit (k : HashNumber) :
    (k ||| sCollisionBit) &&& ~~~sCollisionBit = k &&& ~~~sCollisionBit := by
  ext i hi
  cases i with
  | zero => simp
  | succ i => simp

lemma clearBit_clearBit (k : HashNumber) :
    (k &&& ~~~sCollisionBit) &&& ~~~sCollisionBit = k &&& ~~~sCollisionBit := by
  rw [BitVec.and_assoc, BitVec.and_self]

lemma isLiveHash_iff (k : HashNumber) : isLiveHash k = true ↔ 1 < k.toNat := by
  rw [isLiveHash, decide_eq_true_iff, BitVec.lt_def]
  rfl

lemma isLiveHash_setBit {k : HashNumber} (h : isLiveHash k = true) :
    isLiveHash (k ||| sCollisionBit) = true := by
  rw [isLiveHash_iff] at h ⊢
  rw [BitVec.toNat_or]
  exact Nat.lt_of_lt_of_le h Nat.left_le_or

lemma isLiveHash_clearBit {k : HashNumber} (h : isLiveHash k = true) :
    isLiveHash (k &&& ~~~sCollisionBit) = true := by
  rw [isLiveHash_iff] at h ⊢
  rw [clearBit_toNat]
  omega

/-- The steps of a search come to every place. -/
lemma nextSlot_cover (keyHash : HashNumber) {hashShift : Nat} :
    StepsCover (@nextSlot keyHash hashShift) (capacityOf hashShift) := by
  have hs : sHashBits - hashShift ≤ 32 := Nat.sub_le _ _
  have hdvd : 2 ^ (sHashBits - hashShift) ∣ 2 ^ 32 := Nat.pow_dvd_pow 2 hs
  let h2 := (hash2 keyHash hashShift).h2
  refine stepsCover_odd (d := h2.toNat) ?_ fun i => ?_
  · show (_ ||| 1#32 : HashNumber).toNat % 2 = 1
    rw [BitVec.toNat_or, Nat.or_mod_two_eq_one]
    exact .inr rfl
  · have hi : i.val < 2 ^ 32 := Nat.lt_of_lt_of_le i.isLt (Nat.pow_le_pow_right (by omega) hs)
    have hh2 : h2.toNat < 2 ^ 32 := h2.isLt
    have hnext : (nextSlot keyHash i).val =
        (2 ^ 32 - h2.toNat + i.val) % 2 ^ (sHashBits - hashShift) := by
      show (applyDoubleHash _ (hash2 keyHash hashShift)).toNat = _
      rw [applyDoubleHash, BitVec.toNat_and, BitVec.toNat_sub, BitVec.toNat_ofNat,
        Nat.mod_eq_of_lt hi]
      show _ &&& ((1#32 <<< (sHashBits - hashShift)) - 1#32).toNat = _
      rw [sizeMask_toNat hs, Nat.and_two_pow_sub_one_eq_mod, Nat.mod_mod_of_dvd _ hdvd]
    rw [hnext, Nat.mod_add_mod, show 2 ^ 32 - h2.toNat + i.val + h2.toNat = i.val + 2 ^ 32 by omega,
      Nat.add_mod, Nat.mod_eq_zero_of_dvd hdvd, Nat.add_zero, Nat.mod_mod]

/-! ## Entries -/

section

variable {T Key Lookup : Type} {P : HashPolicy T Key Lookup}

lemma prepareHash_live (l : Lookup) : isLiveHash (prepareHash P l) = true := by
  have hlive : ∀ k : HashNumber,
      isLiveHash (if !isLiveHash k then k - (sRemovedKey + 1#32) else k) = true := by
    intro k
    cases hk : isLiveHash k with
    | true => exact hk
    | false =>
      have hlow := (isLiveHash_iff k).not.mp (by rw [hk]; exact Bool.false_ne_true)
      rw [Bool.not_false, if_pos rfl, isLiveHash_iff, BitVec.toNat_sub]
      show 1 < (2 ^ 32 - 2 + k.toNat) % 2 ^ 32
      omega
  exact isLiveHash_clearBit (hlive _)

lemma prepareHash_clear (l : Lookup) :
    prepareHash P l &&& ~~~sCollisionBit = prepareHash P l := clearBit_clearBit _

namespace Entry

/-- The hash code that an entry has been put with. -/
def home (e : Entry T) : HashNumber := e.keyHash &&& ~~~sCollisionBit

/-- What an entry holds. -/
def element (e : Entry T) : Option T := if e.isLive then some e.t else none

variable (e : Entry T)

lemma not_live_of_free (h : e.isFree = true) : e.isLive = false := by
  rw [isFree, decide_eq_true_iff] at h
  rw [isLive, h]
  rfl

lemma not_live_of_removed (h : e.isRemoved = true) : e.isLive = false := by
  rw [isRemoved, decide_eq_true_iff] at h
  rw [isLive, h]
  rfl

lemma live_of_not (hfree : ¬ e.isFree = true) (hremoved : ¬ e.isRemoved = true) :
    e.isLive = true := by
  rw [isFree, decide_eq_true_iff, BitVec.toNat_eq] at hfree
  rw [isRemoved, decide_eq_true_iff, BitVec.toNat_eq] at hremoved
  rw [isLive, isLiveHash_iff]
  simp only [BitVec.toNat_ofNat] at hfree hremoved
  omega

lemma free_or_removed (h : e.isLive = false) : e.isFree = true ∨ e.isRemoved = true := by
  by_contra hne
  rw [not_or] at hne
  rw [e.live_of_not hne.1 hne.2] at h
  cases h

lemma not_removed_of_free (h : e.isFree = true) : e.isRemoved = false := by
  rw [isFree, decide_eq_true_iff] at h
  rw [isRemoved, h]
  rfl

@[simp] lemma setCollision_t (c : HashNumber) : (e.setCollision c).t = e.t := rfl

@[simp] lemma setCollision_home : (e.setCollision sCollisionBit).home = e.home :=
  clearBit_setBit _

lemma setCollision_live (h : e.isLive = true) : (e.setCollision sCollisionBit).isLive = true :=
  isLiveHash_setBit h

lemma setCollision_zero : e.setCollision 0#32 = e := by
  rw [setCollision, BitVec.or_zero]

lemma setCollision_hasCollision : (e.setCollision sCollisionBit).hasCollision = true := by
  have h : (e.keyHash ||| sCollisionBit) &&& sCollisionBit = sCollisionBit := by
    ext i hi
    cases i with
    | zero => simp
    | succ i => simp
  rw [hasCollision, decide_eq_true_iff]
  show (e.keyHash ||| sCollisionBit) &&& sCollisionBit ≠ 0#32
  rw [h]
  decide

lemma element_of_live (h : e.isLive = true) : e.element = some e.t := if_pos h

lemma element_of_not_live (h : e.isLive = false) : e.element = none := by
  rw [element, h]
  rfl

lemma element_eq_some {t : T} : e.element = some t ↔ e.isLive = true ∧ e.t = t := by
  rw [element]
  cases e.isLive with
  | true => simp
  | false => simp

end Entry

/-! ## The invariant -/

/-- What `HashTable` relies on: two keys that one lookup matches are matched by the same lookups,
and the lookups that match a key have one hash code. Where keys are looked up by keys this is the
case if `match` is an equivalence that `hash` respects. -/
structure HashPolicy.Lawful (P : HashPolicy T Key Lookup) : Prop where
  getKey_setKey : ∀ t k, P.getKey (P.setKey t k) = k
  hash_eq : ∀ {k l l'}, P.matchKey k l = true → P.matchKey k l' = true → P.hash l = P.hash l'
  trans : ∀ {k k' l l'}, P.matchKey k l = true → P.matchKey k' l = true →
    P.matchKey k l' = true → P.matchKey k' l' = true

/-- The entries at which the search for another one goes on. -/
def Blocked {hashShift : Nat} (table : Cells T hashShift) (i : Slot hashShift) : Prop :=
  (table i).isLive = true ∧ (table i).hasCollision = true ∨ (table i).isRemoved = true

/-- The place is on the path of the hash code, behind blocked ones. -/
def OnPath {hashShift : Nat} (table : Cells T hashShift) (keyHash : HashNumber)
    (i : Slot hashShift) : Prop :=
  Reaches (nextSlot keyHash) (Blocked table) (firstSlot keyHash hashShift) i

/-- The invariant of the probe paths. -/
structure WellPlaced (P : HashPolicy T Key Lookup) {hashShift : Nat} (table : Cells T hashShift) :
    Prop where
  hashed : ∀ i, (table i).isLive = true →
    ∃ l, matchEntry P (table i) l = true ∧ (table i).home = prepareHash P l
  placed : ∀ i, (table i).isLive = true → OnPath table (table i).home i
  distinct : ∀ {i j l}, (table i).isLive = true → (table j).isLive = true →
    matchEntry P (table i) l = true → matchEntry P (table j) l = true → i = j

/-- What the table holds. -/
def held {hashShift : Nat} (table : Cells T hashShift) : Multiset T :=
  contents fun i => (table i).element

lemma mem_held {hashShift : Nat} {table : Cells T hashShift} {t : T} :
    t ∈ held table ↔ ∃ i, (table i).isLive = true ∧ (table i).t = t := by
  rw [held, mem_contents]
  exact exists_congr fun i => (table i).element_eq_some

lemma prepareHash_eq (hP : P.Lawful) {k : Key} {l l' : Lookup} (h : P.matchKey k l = true)
    (h' : P.matchKey k l' = true) : prepareHash P l = prepareHash P l' := by
  rw [prepareHash, hP.hash_eq h h', prepareHash]

variable {l : Lookup}

lemma WellPlaced.home_eq (hP : P.Lawful) {hashShift : Nat} {table : Cells T hashShift}
    (h : WellPlaced P table) {i : Slot hashShift} (hlive : (table i).isLive = true)
    (hl : matchEntry P (table i) l = true) : (table i).home = prepareHash P l := by
  obtain ⟨l', hl', hhome⟩ := h.hashed i hlive
  rw [hhome, prepareHash_eq hP hl' hl]

/-! ## Setting collision bits -/

/-- Some live entries have had their collision bit set. -/
def Marked {hashShift : Nat} (table table' : Cells T hashShift) : Prop :=
  ∀ i, table' i = table i ∨
    (table i).isLive = true ∧ table' i = (table i).setCollision sCollisionBit

namespace Marked

variable {hashShift : Nat} {table table' table'' : Cells T hashShift}

lemma refl (table : Cells T hashShift) : Marked table table := fun _ => .inl rfl

lemma live_eq (h : Marked table table') (i : Slot hashShift) :
    (table' i).isLive = (table i).isLive := by
  rcases h i with heq | ⟨hlive, heq⟩
  · rw [heq]
  · rw [heq, (table i).setCollision_live hlive, hlive]

lemma trans (h : Marked table table') (h' : Marked table' table'') : Marked table table'' := by
  intro i
  rcases h' i with heq' | ⟨hlive', heq'⟩
  · rw [heq']
    exact h i
  · rcases h i with heq | ⟨hlive, heq⟩
    · rw [heq] at hlive' heq'
      exact .inr ⟨hlive', heq'⟩
    · refine .inr ⟨hlive, ?_⟩
      rw [heq', heq, Entry.setCollision, Entry.setCollision, BitVec.or_assoc, BitVec.or_self]

lemma t_eq (h : Marked table table') (i : Slot hashShift) : (table' i).t = (table i).t := by
  rcases h i with heq | ⟨_, heq⟩
  · rw [heq]
  · rw [heq, Entry.setCollision_t]

lemma home_eq (h : Marked table table') (i : Slot hashShift) :
    (table' i).home = (table i).home := by
  rcases h i with heq | ⟨_, heq⟩
  · rw [heq]
  · rw [heq, Entry.setCollision_home]

lemma match_eq (h : Marked table table') (i : Slot hashShift) (l : Lookup) :
    matchEntry P (table' i) l = matchEntry P (table i) l := by
  rw [matchEntry, matchEntry, h.t_eq i]

variable {i : Slot hashShift}

lemma eq_of_not_live (h : Marked table table') (hi : (table i).isLive = false) :
    table' i = table i := by
  rcases h i with heq | ⟨hlive, _⟩
  · exact heq
  · rw [hi] at hlive
    cases hlive

lemma free_eq (h : Marked table table') (i : Slot hashShift) :
    (table' i).isFree = (table i).isFree := by
  cases hlive : (table i).isLive with
  | false => rw [h.eq_of_not_live hlive]
  | true =>
    have hfree : ∀ e : Entry T, e.isLive = true → e.isFree = false := by
      intro e he
      cases hf : e.isFree with
      | false => rfl
      | true =>
        rw [e.not_live_of_free hf] at he
        cases he
    rw [hfree _ hlive, hfree _ ((h.live_eq i).trans hlive)]

lemma removed_eq (h : Marked table table') (i : Slot hashShift) :
    (table' i).isRemoved = (table i).isRemoved := by
  cases hlive : (table i).isLive with
  | false => rw [h.eq_of_not_live hlive]
  | true =>
    have hremoved : ∀ e : Entry T, e.isLive = true → e.isRemoved = false := by
      intro e he
      cases hr : e.isRemoved with
      | false => rfl
      | true =>
        rw [e.not_live_of_removed hr] at he
        cases he
    rw [hremoved _ hlive, hremoved _ ((h.live_eq i).trans hlive)]

lemma blocked (h : Marked table table') (hi : Blocked table i) :
    Blocked table' i := by
  rcases hi with ⟨hlive, hcollision⟩ | hremoved
  · refine .inl ⟨(h.live_eq i).trans hlive, ?_⟩
    rcases h i with heq | ⟨_, heq⟩
    · rw [heq, hcollision]
    · rw [heq, Entry.setCollision_hasCollision]
  · exact .inr ((h.removed_eq i).trans hremoved)

lemma onPath (h : Marked table table') {keyHash : HashNumber} (hi : OnPath table keyHash i) :
    OnPath table' keyHash i :=
  Reaches.mono (fun _ => h.blocked) hi

lemma wellPlaced (h : Marked table table') (hwf : WellPlaced P table) :
    WellPlaced P table' where
  hashed i hlive := by
    rw [h.live_eq] at hlive
    simp only [h.match_eq, h.home_eq]
    exact hwf.hashed i hlive
  placed i hlive := by
    rw [h.live_eq] at hlive
    rw [h.home_eq]
    exact h.onPath (hwf.placed i hlive)
  distinct := by
    intro i j l hi hj hli hlj
    rw [h.live_eq] at hi hj
    rw [h.match_eq] at hli hlj
    exact hwf.distinct hi hj hli hlj

lemma held_eq (h : Marked table table') : held table' = held table := by
  have hsame : (fun i => (table' i).element) = fun i => (table i).element := by
    funext i
    rw [Entry.element, Entry.element, h.live_eq, h.t_eq]
  rw [held, held, hsame]

/-- The bit is set in one entry. -/
lemma update {c : HashNumber} (hi : (table i).isLive = true) (hc : c = 0#32 ∨ c = sCollisionBit) :
    Marked table (update table i ((table i).setCollision c)) := by
  intro j
  by_cases hj : j = i
  · subst hj
    rw [update_self]
    rcases hc with rfl | rfl
    · exact .inl (table j).setCollision_zero
    · exact .inr ⟨hi, rfl⟩
  · exact .inl (update_of_ne hj _ _)

end Marked

/-! ## Searching -/

/-- Where the search for a lookup ends. -/
def Stops (P : HashPolicy T Key Lookup) {hashShift : Nat} (table : Cells T hashShift) (l : Lookup)
    (keyHash : HashNumber) (i : Slot hashShift) : Prop :=
  (table i).isFree = true ∨ ((table i).matchHash keyHash && matchEntry P (table i) l) = true

lemma Marked.stops_iff {hashShift : Nat} {table table' : Cells T hashShift}
    (h : Marked table table') {keyHash : HashNumber} {i : Slot hashShift} :
    Stops P table' l keyHash i ↔ Stops P table l keyHash i := by
  have hhash : (table' i).matchHash keyHash = (table i).matchHash keyHash := by
    have hhome := h.home_eq i
    rw [Entry.home, Entry.home] at hhome
    rw [Entry.matchHash, Entry.matchHash, hhome]
  rw [Stops, Stops, h.free_eq, hhash, h.match_eq]

/-- The place that the loop of `lookup` returns: that of an entry where it has stopped, or the first
removed one if that entry is free. -/
def Returned {hashShift : Nat} (table table' : Cells T hashShift) (keyHash c : HashNumber)
    (i j : Slot hashShift) (firstRemoved : Option (Slot hashShift)) (r : Slot hashShift) : Prop :=
  ((table j).isFree = false ∧ r = j) ∨
    (table j).isFree = true ∧ (firstRemoved = some r ∨
      firstRemoved = none ∧ (table r).isLive = false ∧
        (c = sCollisionBit → Reaches (nextSlot keyHash) (Blocked table') i r))

/-- What the loop does with an entry that it passes. -/
def Passed {hashShift : Nat} (table table1 : Cells T hashShift) (c : HashNumber)
    (i : Slot hashShift) (firstRemoved firstRemoved1 : Option (Slot hashShift)) : Prop :=
  (firstRemoved1 = firstRemoved ∧ (c = sCollisionBit → Blocked table1 i)) ∨
    (table i).isRemoved = true ∧
      firstRemoved1 = if firstRemoved.isNone then some i else firstRemoved

variable {keyHash c : HashNumber}

lemma lookupLoop_passes {hashShift : Nat} {table : Cells T hashShift}
    (hc : c = 0#32 ∨ c = sCollisionBit) {i : Slot hashShift} (hi : ¬ Stops P table l keyHash i)
    (firstRemoved : Option (Slot hashShift)) (fuel : Nat) :
    ∃ firstRemoved1 table1, Marked table table1 ∧ Passed table table1 c i firstRemoved firstRemoved1 ∧
      lookupLoop P l keyHash c (fuel + 1) table i firstRemoved =
        if (table1 (nextSlot keyHash i)).isFree then
          some (firstRemoved1.getD (nextSlot keyHash i), table1)
        else if (table1 (nextSlot keyHash i)).matchHash keyHash &&
            matchEntry P (table1 (nextSlot keyHash i)) l then
          some (nextSlot keyHash i, table1)
        else lookupLoop P l keyHash c fuel table1 (nextSlot keyHash i) firstRemoved1 := by
  by_cases hremoved : (table i).isRemoved = true
  · refine ⟨_, table, .refl table, .inr ⟨hremoved, rfl⟩, ?_⟩
    rw [lookupLoop]
    simp only [hremoved, if_true]
  · have hlive := (table i).live_of_not (fun h => hi (.inl h)) hremoved
    have hmarked := Marked.update hlive hc
    refine ⟨firstRemoved, _, hmarked, .inl ⟨rfl, ?_⟩, ?_⟩
    · rintro rfl
      refine .inl ⟨(hmarked.live_eq i).trans hlive, ?_⟩
      rw [update_self, Entry.setCollision_hasCollision]
    · rw [lookupLoop]
      simp only [hremoved]
      rfl

lemma Returned.pass {hashShift : Nat} {table table1 table' : Cells T hashShift}
    {i j r : Slot hashShift} {firstRemoved firstRemoved1 : Option (Slot hashShift)}
    (h : Returned table1 table' keyHash c (nextSlot keyHash i) j firstRemoved1 r)
    (hmarked : Marked table table1) (hmarked' : Marked table1 table')
    (hpass : Passed table table1 c i firstRemoved firstRemoved1) :
    Returned table table' keyHash c i j firstRemoved r := by
  rw [Returned, hmarked.free_eq, hmarked.live_eq] at h
  rcases h with h | ⟨hfree, h⟩
  · exact .inl h
  · refine .inr ⟨hfree, ?_⟩
    rcases hpass with ⟨rfl, hblocked⟩ | ⟨hremoved, heq⟩
    · rcases h with h | ⟨hnone, hlive, hreaches⟩
      · exact .inl h
      · refine .inr ⟨hnone, hlive, fun hc => ?_⟩
        obtain ⟨k, hk⟩ := hreaches hc
        exact ⟨k + 1, .step (hmarked'.blocked (hblocked hc)) hk⟩
    · cases hfirst : firstRemoved with
      | none =>
        rw [hfirst, Option.isNone_none, if_pos rfl] at heq
        rw [heq] at h
        rcases h with h | ⟨hnone, _⟩
        · cases h
          exact .inr ⟨rfl, Entry.not_live_of_removed _ hremoved, fun _ => ⟨0, .here i⟩⟩
        · cases hnone
      | some x =>
        rw [hfirst, Option.isNone_some] at heq
        rw [heq] at h
        rcases h with h | ⟨hnone, _⟩
        · exact .inl h
        · cases hnone

lemma lookupLoop_spec {hashShift : Nat} {table : Cells T hashShift}
    (hc : c = 0#32 ∨ c = sCollisionBit) {k fuel : Nat} {i j : Slot hashShift}
    (hprobe : Probe (nextSlot keyHash) (fun i => ¬ Stops P table l keyHash i)
      k (nextSlot keyHash i) j) (hfuel : k < fuel) (hi : ¬ Stops P table l keyHash i)
    (hj : Stops P table l keyHash j) (firstRemoved : Option (Slot hashShift)) :
    ∃ r table', lookupLoop P l keyHash c fuel table i firstRemoved = some (r, table') ∧
      Marked table table' ∧ Returned table table' keyHash c i j firstRemoved r := by
  induction k generalizing table i fuel firstRemoved with
  | zero =>
    obtain ⟨fuel, rfl⟩ := Nat.exists_eq_succ_of_ne_zero (Nat.ne_of_gt hfuel)
    obtain ⟨firstRemoved1, table1, hmarked, hpass, hloop⟩ :=
      lookupLoop_passes hc hi firstRemoved fuel
    cases hprobe
    rw [← hmarked.stops_iff] at hj
    by_cases hfree : (table1 (nextSlot keyHash i)).isFree = true
    · rw [if_pos hfree] at hloop
      refine ⟨_, table1, hloop, hmarked, Returned.pass (.inr ⟨hfree, ?_⟩) hmarked (.refl _) hpass⟩
      cases firstRemoved1 with
      | none => exact .inr ⟨rfl, Entry.not_live_of_free _ hfree, fun _ => ⟨0, .here _⟩⟩
      | some x => exact .inl rfl
    · rw [if_neg hfree, if_pos (hj.resolve_left hfree)] at hloop
      exact ⟨_, table1, hloop, hmarked,
        Returned.pass (.inl ⟨Bool.eq_false_iff.mpr hfree, rfl⟩) hmarked (.refl _) hpass⟩
  | succ k ih =>
    obtain ⟨fuel, rfl⟩ := Nat.exists_eq_succ_of_ne_zero (Nat.ne_of_gt (Nat.zero_lt_of_lt hfuel))
    obtain ⟨firstRemoved1, table1, hmarked, hpass, hloop⟩ :=
      lookupLoop_passes hc hi firstRemoved fuel
    cases hprobe with
    | step hnext hrest =>
      rw [← hmarked.stops_iff] at hnext hj
      have hrest' := hrest.mono (q := fun i => ¬ Stops P table1 l keyHash i) fun x hx hstop =>
        hx (hmarked.stops_iff.mp hstop)
      rw [if_neg fun h => hnext (.inl h), if_neg fun h => hnext (.inr h)] at hloop
      obtain ⟨r, table', hrec, hmarked', hreturned⟩ :=
        ih hrest' (Nat.lt_of_succ_lt_succ hfuel) hnext hj firstRemoved1
      exact ⟨r, table', hloop.trans hrec, hmarked.trans hmarked',
        hreturned.pass hmarked hmarked' hpass⟩

/-- What is found for a lookup: an entry that it matches, or one that is not live, if it matches no
live one. With the collision bit, the place of the latter is on the path of the hash code. -/
def Finds (P : HashPolicy T Key Lookup) {hashShift : Nat} (table table' : Cells T hashShift)
    (l : Lookup) (c : HashNumber) (r : Slot hashShift) : Prop :=
  ((table r).isLive = true ∧ matchEntry P (table r) l = true) ∨
    (table r).isLive = false ∧
      (∀ i, (table i).isLive = true → matchEntry P (table i) l = false) ∧
      (c = sCollisionBit → OnPath table' (prepareHash P l) r)

lemma WellPlaced.stops_of_match (hP : P.Lawful) {hashShift : Nat} {table : Cells T hashShift}
    (hwf : WellPlaced P table) {i : Slot hashShift} (hlive : (table i).isLive = true)
    (hl : matchEntry P (table i) l = true) : Stops P table l (prepareHash P l) i := by
  refine .inr ?_
  rw [Bool.and_eq_true, Entry.matchHash, decide_eq_true_iff]
  exact ⟨hwf.home_eq hP hlive hl, hl⟩

/-- A live entry is found unless the search stops at a free one before; but there is none. -/
lemma WellPlaced.not_free_of_match (hP : P.Lawful) {hashShift : Nat} {table : Cells T hashShift}
    (hwf : WellPlaced P table) {i j : Slot hashShift} {k : Nat} (hlive : (table i).isLive = true)
    (hl : matchEntry P (table i) l = true)
    (hprobe : Probe (nextSlot (prepareHash P l)) (fun i => ¬ Stops P table l (prepareHash P l) i) k
      (firstSlot (prepareHash P l) hashShift) j) : (table j).isFree = false := by
  obtain ⟨m, hpath⟩ := hwf.placed i hlive
  rw [hwf.home_eq hP hlive hl] at hpath
  have hblocked : ∀ x, (table x).isLive = true ∨ (table x).isRemoved = true →
      (table x).isFree = false := by
    intro x hx
    cases hfree : (table x).isFree with
    | false => rfl
    | true =>
      rw [Entry.not_live_of_free _ hfree, Entry.not_removed_of_free _ hfree] at hx
      simp at hx
  rcases hprobe.compare hpath with ⟨_, hj⟩ | ⟨_, hi⟩ | ⟨_, rfl⟩
  · rcases hj with ⟨hj, _⟩ | hj
    · exact hblocked j (.inl hj)
    · exact hblocked j (.inr hj)
  · exact absurd (hwf.stops_of_match hP hlive hl) hi
  · exact hblocked j (.inl hlive)

lemma matchHash_live {e : Entry T} (h : e.matchHash (prepareHash P l) = true) :
    e.isLive = true := by
  rw [Entry.matchHash, decide_eq_true_iff] at h
  have hlive := (isLiveHash_iff _).mp (prepareHash_live (P := P) l)
  rw [← h, clearBit_toNat] at hlive
  rw [Entry.isLive, isLiveHash_iff]
  omega

lemma lookupCells_spec (hP : P.Lawful) {hashShift : Nat} {table : Cells T hashShift}
    (hwf : WellPlaced P table) {c : HashNumber} (hc : c = 0#32 ∨ c = sCollisionBit) (l : Lookup)
    (hstop : ∃ i, Stops P table l (prepareHash P l) i) :
    ∃ r table', lookupCells P table l (prepareHash P l) c = some (r, table') ∧
      Marked table table' ∧ Finds P table table' l c r := by
  obtain ⟨i, hi⟩ := hstop
  obtain ⟨k, hk, j, hprobe, hj⟩ := (nextSlot_cover (prepareHash P l)).exists_probe
    (fun i => ¬ Stops P table l (prepareHash P l) i) i (not_not_intro hi)
    (firstSlot (prepareHash P l) hashShift)
  rw [not_not] at hj
  have hmiss : (table j).isFree = true → ∀ i, (table i).isLive = true →
      matchEntry P (table i) l = false := by
    intro hfree i hlive
    cases hl : matchEntry P (table i) l with
    | false => rfl
    | true =>
      rw [hwf.not_free_of_match hP hlive hl hprobe] at hfree
      cases hfree
  have hhit : (table j).isFree = false → (table j).isLive = true ∧ matchEntry P (table j) l = true := by
    intro hfree
    have hboth := hj.resolve_left (by rw [hfree]; exact Bool.false_ne_true)
    rw [Bool.and_eq_true] at hboth
    exact ⟨matchHash_live hboth.1, hboth.2⟩
  rw [lookupCells]
  cases hprobe with
  | here =>
    by_cases hfree : (table (firstSlot (prepareHash P l) hashShift)).isFree = true
    · refine ⟨_, table, if_pos hfree, .refl table, .inr ⟨?_, hmiss hfree, ?_⟩⟩
      · exact Entry.not_live_of_free _ hfree
      · exact fun _ => ⟨0, .here _⟩
    · refine ⟨_, table, ?_, .refl table, .inl (hhit (Bool.eq_false_iff.mpr hfree))⟩
      rw [if_neg hfree, if_pos (hj.resolve_left hfree)]
  | step hfirst hrest =>
    obtain ⟨r, table', hloop, hmarked, hreturned⟩ :=
      lookupLoop_spec hc hrest (Nat.lt_of_succ_lt hk) hfirst hj none
    refine ⟨r, table', ?_, hmarked, ?_⟩
    · rw [if_neg fun h => hfirst (.inl h), if_neg fun h => hfirst (.inr h), hloop]
    · rcases hreturned with ⟨hfree, rfl⟩ | ⟨hfree, h | ⟨_, hlive, hpath⟩⟩
      · exact .inl (hhit hfree)
      · cases h
      · exact .inr ⟨hlive, hmiss hfree, hpath⟩

/-! ## A place for a new entry -/

lemma findFreeLoop_passes {hashShift : Nat} {table : Cells T hashShift} (keyHash : HashNumber)
    {i : Slot hashShift} (hi : (table i).isLive = true) (fuel : Nat) :
    ∃ table1, Marked table table1 ∧ Blocked table1 i ∧
      findFreeLoop keyHash (fuel + 1) table i =
        if !(table1 (nextSlot keyHash i)).isLive then some (nextSlot keyHash i, table1)
        else findFreeLoop keyHash fuel table1 (nextSlot keyHash i) := by
  have hmarked := Marked.update hi (.inr rfl)
  refine ⟨_, hmarked, .inl ⟨(hmarked.live_eq i).trans hi, ?_⟩, by rw [findFreeLoop]⟩
  rw [update_self, Entry.setCollision_hasCollision]

lemma findFreeLoop_spec {hashShift : Nat} {table : Cells T hashShift} {keyHash : HashNumber}
    {k fuel : Nat} {i j : Slot hashShift}
    (hprobe : Probe (nextSlot keyHash) (fun i => (table i).isLive = true) k (nextSlot keyHash i) j)
    (hfuel : k < fuel) (hi : (table i).isLive = true) (hj : (table j).isLive = false) :
    ∃ table', findFreeLoop keyHash fuel table i = some (j, table') ∧ Marked table table' ∧
      Reaches (nextSlot keyHash) (Blocked table') i j := by
  induction k generalizing table i fuel with
  | zero =>
    obtain ⟨fuel, rfl⟩ := Nat.exists_eq_succ_of_ne_zero (Nat.ne_of_gt hfuel)
    obtain ⟨table1, hmarked, hblocked, hloop⟩ := findFreeLoop_passes keyHash hi fuel
    cases hprobe
    rw [hmarked.live_eq, hj, Bool.not_false, if_pos rfl] at hloop
    exact ⟨table1, hloop, hmarked, 1, .step hblocked (.here _)⟩
  | succ k ih =>
    obtain ⟨fuel, rfl⟩ := Nat.exists_eq_succ_of_ne_zero (Nat.ne_of_gt (Nat.zero_lt_of_lt hfuel))
    obtain ⟨table1, hmarked, hblocked, hloop⟩ := findFreeLoop_passes keyHash hi fuel
    cases hprobe with
    | step hnext hrest =>
      rw [← hmarked.live_eq] at hnext hj
      rw [hnext, Bool.not_true, if_neg Bool.false_ne_true] at hloop
      have hrest' := hrest.mono (q := fun x => (table1 x).isLive = true) fun x hx =>
        (hmarked.live_eq x).trans hx
      obtain ⟨table', hrec, hmarked', m, hpath⟩ := ih hrest' (Nat.lt_of_succ_lt_succ hfuel) hnext hj
      exact ⟨table', hloop.trans hrec, hmarked.trans hmarked', m + 1,
        .step (hmarked'.blocked hblocked) hpath⟩

/-- A place that is not live, on the path of the hash code. -/
lemma findFreeEntry_spec {hashShift : Nat} {table : Cells T hashShift}
    (hroom : ∃ i, (table i).isLive = false) (keyHash : HashNumber) :
    ∃ r table', findFreeEntry table keyHash = some (r, table') ∧ Marked table table' ∧
      (table r).isLive = false ∧ OnPath table' keyHash r := by
  obtain ⟨i, hi⟩ := hroom
  obtain ⟨k, hk, j, hprobe, hj⟩ := (nextSlot_cover keyHash).exists_probe
    (fun i => (table i).isLive = true) i (by rw [hi]; exact Bool.false_ne_true)
    (firstSlot keyHash hashShift)
  rw [Bool.not_eq_true] at hj
  rw [findFreeEntry]
  cases hprobe with
  | here => exact ⟨_, table, if_pos (by rw [hj]; rfl), .refl table, hj, 0, .here _⟩
  | step hfirst hrest =>
    obtain ⟨table', hloop, hmarked, hpath⟩ :=
      findFreeLoop_spec hrest (Nat.lt_of_succ_lt hk) hfirst hj
    refine ⟨j, table', ?_, hmarked, hj, hpath⟩
    rw [if_neg (by rw [hfirst]; exact Bool.false_ne_true), hloop]

/-! ## Changing one entry -/

section Update

variable {hashShift : Nat} {table : Cells T hashShift} {i : Slot hashShift} {e : Entry T}

lemma element_update (table : Cells T hashShift) (i : Slot hashShift) (e : Entry T) :
    (fun j => (update table i e j).element) =
      update (fun j => (table j).element) i e.element := by
  funext j
  by_cases hj : j = i
  · subst hj
    rw [update_self, update_self]
  · rw [update_of_ne hj, update_of_ne hj]

lemma held_put (hi : (table i).isLive = false) (he : e.isLive = true) :
    held (update table i e) = e.t ::ₘ held table := by
  rw [held, element_update, e.element_of_live he]
  exact contents_update_some e.t ((table i).element_of_not_live hi)

lemma held_take (hi : (table i).isLive = true) (he : e.isLive = false) :
    held table = (table i).t ::ₘ held (update table i e) := by
  rw [held, held, element_update, e.element_of_not_live he]
  exact contents_update_none ((table i).element_of_live hi)

/-- The entries that are removed. -/
def tombstones (table : Cells T hashShift) : Multiset Unit :=
  contents fun i => if (table i).isRemoved then some () else none

lemma tombstones_update (table : Cells T hashShift) (i : Slot hashShift) (e : Entry T) :
    (fun j => if (update table i e j).isRemoved then some () else none) =
      update (fun j => if (table j).isRemoved then some () else none) i
        (if e.isRemoved then some () else none) := by
  funext j
  by_cases hj : j = i
  · subst hj
    rw [update_self, update_self]
  · rw [update_of_ne hj, update_of_ne hj]

lemma tombstones_same (h : (table i).isRemoved = e.isRemoved) :
    tombstones (update table i e) = tombstones table := by
  rw [tombstones, tombstones_update, ← h]
  exact congrArg contents (update_eq_self i _)

lemma tombstones_put (hi : (table i).isRemoved = true) (he : e.isRemoved = false) :
    (tombstones (update table i e)).card + 1 = (tombstones table).card := by
  have h := contents_update_none (f := fun j => if (table j).isRemoved then some () else none)
    (i := i) (a := ()) (by rw [hi]; rfl)
  rw [tombstones, tombstones_update, he, tombstones, h, card_cons]
  rfl

lemma tombstones_take (hi : (table i).isRemoved = false) (he : e.isRemoved = true) :
    (tombstones (update table i e)).card = (tombstones table).card + 1 := by
  have h := contents_update_some (f := fun j => if (table j).isRemoved then some () else none)
    (i := i) () (by rw [hi]; rfl)
  rw [tombstones, tombstones_update, he, tombstones, ← card_cons, ← h]
  rfl

lemma not_removed_of_live (h : e.isLive = true) : e.isRemoved = false := by
  cases hr : e.isRemoved with
  | false => rfl
  | true =>
    rw [e.not_live_of_removed hr] at h
    cases h

/-- What is blocked stays so, if the entry that changes does. -/
lemma blocked_update (hi : Blocked table i → Blocked (update table i e) i)
    {j : Slot hashShift} (hj : Blocked table j) : Blocked (update table i e) j := by
  by_cases hji : j = i
  · subst hji
    exact hi hj
  · rw [Blocked, update_of_ne hji]
    exact hj

/-- An entry is put in a place that is not live. -/
lemma WellPlaced.put (hP : P.Lawful) (hwf : WellPlaced P table) (hi : (table i).isLive = false)
    (he : e.isLive = true) (hl : matchEntry P e l = true) (hhome : e.home = prepareHash P l)
    (habsent : ∀ j, (table j).isLive = true → matchEntry P (table j) l = false)
    (hpath : OnPath table (prepareHash P l) i)
    (hkeep : (table i).isRemoved = true → e.hasCollision = true) :
    WellPlaced P (update table i e) := by
  have hblocked : ∀ j, Blocked table j → Blocked (update table i e) j := by
    refine fun j => blocked_update fun hold => ?_
    rcases hold with ⟨hlive, _⟩ | hremoved
    · rw [hi] at hlive
      cases hlive
    · rw [Blocked, update_self]
      exact .inl ⟨he, hkeep hremoved⟩
  have hnone : ∀ j l', (table j).isLive = true → matchEntry P (table j) l' = true →
      matchEntry P e l' = false := by
    intro j l' hj hl'
    cases hmatch : matchEntry P e l' with
    | false => rfl
    | true =>
      have htrans := hP.trans hmatch hl' hl
      rw [← matchEntry, habsent j hj] at htrans
      cases htrans
  constructor
  · intro j hj
    by_cases hji : j = i
    · subst hji
      rw [update_self]
      exact ⟨l, hl, hhome⟩
    · rw [update_of_ne hji] at hj ⊢
      exact hwf.hashed j hj
  · intro j hj
    by_cases hji : j = i
    · subst hji
      rw [update_self, hhome]
      exact Reaches.mono hblocked hpath
    · rw [update_of_ne hji] at hj ⊢
      exact Reaches.mono hblocked (hwf.placed j hj)
  · intro j j' l' hj hj' hl hl'
    by_cases hji : j = i
    · by_cases hji' : j' = i
      · exact hji.trans hji'.symm
      · subst hji
        rw [update_self] at hl
        rw [update_of_ne hji'] at hj' hl'
        rw [hnone j' l' hj' hl'] at hl
        cases hl
    · by_cases hji' : j' = i
      · subst hji'
        rw [update_self] at hl'
        rw [update_of_ne hji] at hj hl
        rw [hnone j l' hj hl] at hl'
        cases hl'
      · rw [update_of_ne hji] at hj hl
        rw [update_of_ne hji'] at hj' hl'
        exact hwf.distinct hj hj' hl hl'

/-- A live entry is taken out. It stays blocked if its collision bit is set. -/
lemma WellPlaced.take (hwf : WellPlaced P table) (hi : (table i).isLive = true)
    (he : e.isLive = false) (hkeep : (table i).hasCollision = true → e.isRemoved = true) :
    WellPlaced P (update table i e) := by
  have hblocked : ∀ j, Blocked table j → Blocked (update table i e) j := by
    refine fun j => blocked_update fun hold => ?_
    rw [Blocked, update_self]
    rcases hold with ⟨_, hcollision⟩ | hremoved
    · exact .inr (hkeep hcollision)
    · rw [not_removed_of_live hi] at hremoved
      cases hremoved
  have hne : ∀ j, (update table i e j).isLive = true → j ≠ i := by
    rintro j hj rfl
    rw [update_self, he] at hj
    cases hj
  constructor
  · intro j hj
    have hji := hne j hj
    rw [update_of_ne hji] at hj ⊢
    exact hwf.hashed j hj
  · intro j hj
    have hji := hne j hj
    rw [update_of_ne hji] at hj ⊢
    exact Reaches.mono hblocked (hwf.placed j hj)
  · intro j j' l hj hj' hl hl'
    have hji := hne j hj
    have hji' := hne j' hj'
    rw [update_of_ne hji] at hj hl
    rw [update_of_ne hji'] at hj' hl'
    exact hwf.distinct hj hj' hl hl'

/-- The value of an entry is assigned; its key stays. -/
lemma WellPlaced.assign (hwf : WellPlaced P table) (hhash : e.keyHash = (table i).keyHash)
    (hkey : P.getKey e.t = P.getKey (table i).t) : WellPlaced P (update table i e) := by
  have hlive : ∀ j, (update table i e j).isLive = (table j).isLive := by
    intro j
    by_cases hji : j = i
    · subst hji
      rw [update_self, Entry.isLive, Entry.isLive, hhash]
    · rw [update_of_ne hji]
  have hhome : ∀ j, (update table i e j).home = (table j).home := by
    intro j
    by_cases hji : j = i
    · subst hji
      rw [update_self, Entry.home, Entry.home, hhash]
    · rw [update_of_ne hji]
  have hmatch : ∀ j l, matchEntry P (update table i e j) l = matchEntry P (table j) l := by
    intro j l
    by_cases hji : j = i
    · subst hji
      rw [update_self, matchEntry, matchEntry, hkey]
    · rw [update_of_ne hji]
  have hblocked : ∀ j, Blocked table j → Blocked (update table i e) j := by
    refine fun j => blocked_update fun hold => ?_
    rw [Blocked, update_self, Entry.isLive, Entry.hasCollision, Entry.isRemoved, hhash]
    exact hold
  constructor
  · intro j hj
    rw [hlive] at hj
    simp only [hmatch, hhome]
    exact hwf.hashed j hj
  · intro j hj
    rw [hlive] at hj
    rw [hhome]
    exact Reaches.mono hblocked (hwf.placed j hj)
  · intro j j' l hj hj' hl hl'
    rw [hlive] at hj hj'
    rw [hmatch] at hl hl'
    exact hwf.distinct hj hj' hl hl'

end Update

lemma Marked.tombstones_eq {hashShift : Nat} {table table' : Cells T hashShift}
    (h : Marked table table') : tombstones table' = tombstones table := by
  have hsame : (fun i => if (table' i).isRemoved then some () else none) =
      fun i => if (table i).isRemoved then some () else none := by
    funext i
    rw [h.removed_eq]
  rw [tombstones, tombstones, hsame]

/-- There is an entry that is not live. -/
lemma exists_not_live {hashShift : Nat} (table : Cells T hashShift)
    (h : (held table).card < capacityOf hashShift) : ∃ i, (table i).isLive = false := by
  by_contra hall
  rw [held, card_contents, Finset.filter_true_of_mem] at h
  · rw [Finset.card_univ, Fintype.card_fin] at h
    exact Nat.lt_irrefl _ h
  · intro i _
    have hi : (table i).isLive = true := by
      cases hlive : (table i).isLive with
      | true => rfl
      | false => exact absurd ⟨i, hlive⟩ hall
    rw [Entry.element_of_live _ hi]
    rfl

/-- There is a free entry. -/
lemma exists_free {hashShift : Nat} {table : Cells T hashShift}
    (h : (held table).card + (tombstones table).card < capacityOf hashShift) :
    ∃ i, (table i).isFree = true := by
  by_contra hall
  have hcover : (Finset.univ : Finset (Slot hashShift)) ⊆
      (Finset.univ.filter fun i => (table i).element.isSome = true) ∪
        Finset.univ.filter fun i =>
          (if (table i).isRemoved then some () else none : Option Unit).isSome = true := by
    intro i _
    rw [Finset.mem_union, Finset.mem_filter, Finset.mem_filter]
    cases hlive : (table i).isLive with
    | true => exact .inl ⟨Finset.mem_univ i, by rw [Entry.element_of_live _ hlive]; rfl⟩
    | false =>
      rcases (table i).free_or_removed hlive with hfree | hremoved
      · exact absurd ⟨i, hfree⟩ hall
      · exact .inr ⟨Finset.mem_univ i, by rw [hremoved]; rfl⟩
  have hcard := (Finset.card_le_card hcover).trans (Finset.card_union_le _ _)
  rw [Finset.card_univ, Fintype.card_fin, ← card_contents, ← card_contents] at hcard
  exact absurd h (Nat.not_lt_of_le hcard)

/-! ## The table -/

/-- The invariant of the table. -/
structure Valid (P : HashPolicy T Key Lookup) (ht : HashTable T) : Prop where
  shift_ge : 8 ≤ ht.hashShift
  shift_le : ht.hashShift ≤ 30
  placed : WellPlaced P ht.table
  entryCount : ht.entryCount = (held ht.table).card
  removedCount : ht.removedCount = (tombstones ht.table).card

/-- The load that `add` leaves. -/
def Light (ht : HashTable T) : Prop :=
  4 * (ht.entryCount + ht.removedCount) ≤ 3 * ht.capacity

variable {ht : HashTable T}

lemma Valid.capacity_eq (hv : Valid P ht) :
    ∃ q, ht.capacity = 4 * q ∧ 0 < q := by
  have h := hv.shift_le
  refine ⟨2 ^ (30 - ht.hashShift), ?_, Nat.two_pow_pos _⟩
  rw [HashTable.capacity, capacityOf,
    show sHashBits - ht.hashShift = 2 + (30 - ht.hashShift) by simp only [sHashBits]; omega,
    Nat.pow_add]

lemma Valid.overloaded_iff (hv : Valid P ht) :
    ht.overloaded = true ↔ 3 * ht.capacity ≤ 4 * (ht.entryCount + ht.removedCount) := by
  obtain ⟨q, hq, _⟩ := hv.capacity_eq
  rw [HashTable.overloaded, decide_eq_true_iff, Nat.shiftRight_eq_div_pow, hq]
  simp only [sMaxAlphaFrac]
  omega

lemma Valid.underloaded_iff (hv : Valid P ht) :
    ht.underloaded = true ↔ 4 < ht.capacity ∧ 4 * ht.entryCount ≤ ht.capacity := by
  obtain ⟨q, hq, _⟩ := hv.capacity_eq
  rw [HashTable.underloaded, Bool.and_eq_true, decide_eq_true_iff, decide_eq_true_iff,
    Nat.shiftRight_eq_div_pow, hq]
  simp only [sMinAlphaFrac, sMinSize, sMinSizeLog2]
  omega

lemma Valid.exists_free (hv : Valid P ht) (h : ht.entryCount + ht.removedCount < ht.capacity) :
    ∃ i, (ht.table i).isFree = true := by
  rw [hv.entryCount, hv.removedCount] at h
  exact Ds.exists_free h

lemma Light.lt_capacity (h : Light ht) (hv : Valid P ht) :
    ht.entryCount + ht.removedCount < ht.capacity := by
  obtain ⟨q, hq, _⟩ := hv.capacity_eq
  rw [Light, hq] at h
  omega

lemma Valid.marked (hv : Valid P ht) {table : Cells T ht.hashShift} (h : Marked ht.table table) :
    Valid P { ht with table := table } where
  shift_ge := hv.shift_ge
  shift_le := hv.shift_le
  placed := h.wellPlaced hv.placed
  entryCount := hv.entryCount.trans (congrArg Multiset.card h.held_eq.symm)
  removedCount := hv.removedCount.trans (congrArg Multiset.card h.tombstones_eq.symm)

variable [Inhabited T]

/-- An entry is removed. -/
lemma Valid.removeEntry (hv : Valid P ht) {i : Slot ht.hashShift}
    (hi : (ht.table i).isLive = true) :
    Valid P (ht.removeEntry i) ∧
      held ht.table = (ht.table i).t ::ₘ held (ht.removeEntry i).table ∧
      (ht.removeEntry i).hashShift = ht.hashShift ∧
      (ht.removeEntry i).entryCount + 1 = ht.entryCount ∧
      (ht.removeEntry i).removedCount ≤ ht.removedCount + 1 := by
  have hremoved : ∀ e : Entry T, e.setRemoved.isLive = false := fun e => rfl
  have hfree : ∀ e : Entry T, e.setFree.isLive = false := fun e => rfl
  have hnot := not_removed_of_live hi
  rw [HashTable.removeEntry]
  cases hcollision : (ht.table i).hasCollision with
  | true =>
    rw [if_pos rfl]
    have hheld := held_take hi (hremoved (ht.table i))
    have hcount := hv.entryCount
    rw [hheld, card_cons] at hcount
    refine ⟨⟨hv.shift_ge, hv.shift_le, hv.placed.take hi (hremoved _) fun _ => rfl, ?_, ?_⟩, hheld,
      rfl, ?_, Nat.le_refl _⟩
    · exact Nat.sub_eq_of_eq_add hcount
    · show ht.removedCount + 1 = _
      rw [tombstones_take hnot rfl, hv.removedCount]
    · show ht.entryCount - 1 + 1 = ht.entryCount
      omega
  | false =>
    rw [if_neg Bool.false_ne_true]
    have hheld := held_take hi (hfree (ht.table i))
    have hcount := hv.entryCount
    rw [hheld, card_cons] at hcount
    refine ⟨⟨hv.shift_ge, hv.shift_le, hv.placed.take hi (hfree _) fun h => ?_, ?_, ?_⟩, hheld, rfl,
      ?_, Nat.le_succ _⟩
    · rw [hcollision] at h
      cases h
    · exact Nat.sub_eq_of_eq_add hcount
    · show ht.removedCount = _
      rw [tombstones_same hnot, hv.removedCount]
    · show ht.entryCount - 1 + 1 = ht.entryCount
      omega

/-! ## A new table -/

omit [Inhabited T] in
lemma home_unsetCollision (e : Entry T) : e.unsetCollision.home = e.home := clearBit_clearBit _

omit [Inhabited T] in
/-- The live entries are copied to a table that has room for them. -/
lemma copyLive_spec (hP : P.Lawful) {oldShift : Nat} (hashShift : Nat) {old : Cells T oldShift}
    (hold : WellPlaced P old) {rest : List (Slot oldShift)} (hnodup : rest.Nodup)
    {table : Cells T hashShift} (hwf : WellPlaced P table)
    (hclean : ∀ i, (table i).isRemoved = false)
    (hnew : ∀ src ∈ rest, (old src).isLive = true → ∀ i l, (table i).isLive = true →
      matchEntry P (old src) l = true → matchEntry P (table i) l = false)
    (hroom : (held table).card + (rest.filterMap fun src => (old src).element).length <
      capacityOf hashShift) :
    ∃ table', copyLive old rest table = some table' ∧ WellPlaced P table' ∧
      (∀ i, (table' i).isRemoved = false) ∧
      held table' = held table + ↑(rest.filterMap fun src => (old src).element) := by
  induction rest generalizing table with
  | nil => exact ⟨table, rfl, hwf, hclean, by simp⟩
  | cons src rest ih =>
    have hsrc := (List.nodup_cons.mp hnodup).1
    cases hlive : (old src).isLive with
    | false =>
      have hnone : (rest : List (Slot oldShift)) → ((src :: rest).filterMap fun src =>
          (old src).element) = rest.filterMap fun src => (old src).element := fun rest =>
        List.filterMap_cons_none ((old src).element_of_not_live hlive)
      rw [hnone] at hroom ⊢
      obtain ⟨table', hcopy, hrest⟩ := ih (List.nodup_cons.mp hnodup).2 hwf hclean
        (fun s hs => hnew s (List.mem_cons_of_mem _ hs)) hroom
      refine ⟨table', ?_, hrest⟩
      rw [copyLive, hlive]
      exact hcopy
    | true =>
      have hsome : (rest : List (Slot oldShift)) → ((src :: rest).filterMap fun src =>
          (old src).element) = (old src).t :: rest.filterMap fun src => (old src).element :=
        fun rest => List.filterMap_cons_some ((old src).element_of_live hlive)
      rw [hsome] at hroom ⊢
      rw [List.length_cons] at hroom
      have hkey : (old src).unsetCollision.getKeyHash = (old src).home := rfl
      obtain ⟨l, hl, hhome⟩ := hold.hashed src hlive
      obtain ⟨r, table1, hfind, hmarked, hr, hpath⟩ :=
        findFreeEntry_spec (exists_not_live table (by omega)) (old src).home
      have hr1 : (table1 r).isLive = false := (hmarked.live_eq r).trans hr
      have hlive1 : (old src).unsetCollision.isLive = true := isLiveHash_clearBit hlive
      have hplaced := (hmarked.wellPlaced hwf).put hP hr1 (l := l) hlive1 hl
        ((home_unsetCollision _).trans hhome)
        (fun j hj => by
          rw [hmarked.live_eq] at hj
          rw [hmarked.match_eq]
          exact hnew src List.mem_cons_self hlive j l hj hl)
        (hhome ▸ hpath)
        (fun hremoved => by
          rw [hmarked.removed_eq, hclean] at hremoved
          cases hremoved)
      have hheld := held_put hr1 hlive1
      rw [hmarked.held_eq] at hheld
      obtain ⟨table', hcopy, hwf', hclean', hheld'⟩ := ih (List.nodup_cons.mp hnodup).2 hplaced
        (fun i => by
          by_cases hi : i = r
          · subst hi
            rw [update_self]
            exact not_removed_of_live hlive1
          · rw [update_of_ne hi, hmarked.removed_eq, hclean])
        (fun s hs hslive i l' hi hl' => by
          by_cases hir : i = r
          · subst hir
            rw [update_self]
            cases hmatch : matchEntry P (old src).unsetCollision l' with
            | false => rfl
            | true =>
              have heq := hold.distinct hlive hslive hmatch hl'
              rw [heq] at hsrc
              exact absurd hs hsrc
          · rw [update_of_ne hir, hmarked.live_eq] at hi
            rw [update_of_ne hir, hmarked.match_eq]
            exact hnew s (List.mem_cons_of_mem _ hs) hslive i l' hi hl')
        (by
          rw [hheld, card_cons]
          omega)
      refine ⟨table', ?_, hwf', hclean', ?_⟩
      · rw [copyLive, hlive, if_pos rfl]
        simp only [hkey, hfind, Option.bind_eq_bind, Option.bind_some]
        exact hcopy
      · rw [hheld', hheld, ← cons_coe, cons_add, add_cons]
        rfl

lemma wellPlaced_new (P : HashPolicy T Key Lookup) (hashShift : Nat) :
    WellPlaced P (fun _ : Slot hashShift => (Entry.new : Entry T)) where
  hashed _ h := absurd h Bool.false_ne_true
  placed _ h := absurd h Bool.false_ne_true
  distinct h := absurd h Bool.false_ne_true

lemma held_new (hashShift : Nat) : held (fun _ : Slot hashShift => (Entry.new : Entry T)) = 0 :=
  contents_none

omit [Inhabited T] in
lemma tombstones_of_clean {hashShift : Nat} {table : Cells T hashShift}
    (h : ∀ i, (table i).isRemoved = false) : tombstones table = 0 := by
  have hsame : (fun i => if (table i).isRemoved then some () else none) =
      fun _ : Slot hashShift => none := by
    funext i
    rw [h i]
    rfl
  rw [tombstones, hsame]
  exact contents_none

omit [Inhabited T] in
lemma held_eq_filterMap {hashShift : Nat} (table : Cells T hashShift) :
    held table = ↑((List.finRange (capacityOf hashShift)).filterMap fun i => (table i).element) :=
  rfl

/-- How a table may change: not at all, or by a rehash into one of another size. -/
structure Resized (P : HashPolicy T Key Lookup) (ht ht' : HashTable T) (newLog2 : Nat) : Prop where
  valid : Valid P ht'
  held_eq : held ht'.table = held ht.table
  entryCount : ht'.entryCount = ht.entryCount
  removedCount : ht'.removedCount = 0
  capacity : ht'.capacity = 2 ^ newLog2

lemma Valid.changeTableSize (hP : P.Lawful) (hv : Valid P ht) (deltaLog2 : Int) (newLog2 : Nat)
    (alloc : Bool) (hlog : ((sHashBits - ht.hashShift : Nat) + deltaLog2 : Int) = newLog2)
    (hmin : 2 ≤ newLog2) (hroom : ht.entryCount < 2 ^ newLog2) :
    (∃ ht', ht.changeTableSize deltaLog2 alloc = some (.rehashed, ht') ∧
        Resized P ht ht' newLog2) ∨
      ht.changeTableSize deltaLog2 alloc = some (.rehashFailed, ht) := by
  obtain rfl : ((sHashBits - ht.hashShift : Nat) + deltaLog2).toNat = newLog2 := by
    rw [hlog, Int.toNat_natCast]
  rw [HashTable.changeTableSize]
  generalize ((sHashBits - ht.hashShift : Nat) + deltaLog2).toNat = newLog2 at *
  by_cases hmax : sMaxCapacity < 2 ^ newLog2
  · exact .inr (if_pos hmax)
  rw [if_neg hmax]
  cases alloc with
  | false => exact .inr rfl
  | true =>
    rw [Bool.not_true, if_neg Bool.false_ne_true]
    have hle : newLog2 ≤ 24 := by
      by_contra hgt
      exact hmax (Nat.pow_lt_pow_right (Nat.lt_succ_self 1) (Nat.lt_of_not_le hgt))
    have hcapacity : capacityOf (sHashBits - newLog2) = 2 ^ newLog2 := by
      rw [capacityOf, Nat.sub_sub_self (by simp only [sHashBits]; omega)]
    have hcount := hv.entryCount
    rw [held_eq_filterMap, coe_card] at hcount
    obtain ⟨table', hcopy, hwf, hclean, hheld⟩ := copyLive_spec
      hP (sHashBits - newLog2) hv.placed (List.nodup_finRange _) (wellPlaced_new P _) (fun _ => rfl)
      (fun _ _ _ _ _ h => absurd h Bool.false_ne_true) (by
        rw [held_new, card_zero, Nat.zero_add, ← hcount, hcapacity]
        exact hroom)
    rw [held_new, Multiset.zero_add, ← held_eq_filterMap] at hheld
    refine .inl ⟨⟨sHashBits - newLog2, ht.entryCount, ht.gen + 1#32, 0, table'⟩,
      by simp only [hcopy, Option.bind_eq_bind, Option.bind_some], ?_⟩
    refine ⟨⟨?_, ?_, hwf, ?_, ?_⟩, hheld, rfl, rfl, hcapacity⟩
    · simp only [sHashBits]
      omega
    · simp only [sHashBits]
      omega
    · rw [hheld]
      exact hv.entryCount
    · rw [tombstones_of_clean hclean]
      rfl

omit [Inhabited T] in
lemma Valid.capacity_lt (hv : Valid P ht) :
    ht.capacity = 2 ^ (sHashBits - ht.hashShift) ∧ 2 ≤ sHashBits - ht.hashShift := by
  have h := hv.shift_le
  refine ⟨rfl, ?_⟩
  simp only [sHashBits]
  omega

/-- What `checkOverloaded` comes to: there is room for an entry, or nothing has changed. -/
lemma Valid.checkOverloaded (hP : P.Lawful) (hv : Valid P ht) (hlight : Light ht) (alloc : Bool) :
    (ht.checkOverloaded alloc = some (.notOverloaded, ht) ∧ ht.overloaded = false) ∨
      (ht.overloaded = true ∧ ht.checkOverloaded alloc = some (.rehashFailed, ht)) ∨
      ∃ ht' newLog2, ht.overloaded = true ∧ ht.checkOverloaded alloc = some (.rehashed, ht') ∧
        Resized P ht ht' newLog2 ∧ ht'.overloaded = false := by
  cases hover : ht.overloaded with
  | false => exact .inl ⟨by rw [HashTable.checkOverloaded, hover]; rfl, rfl⟩
  | true =>
    obtain ⟨q, hq, hpos⟩ := hv.capacity_eq
    obtain ⟨hcapacity, hlog⟩ := hv.capacity_lt
    have hload := hlight
    rw [Light, hq] at hload
    have hquarter : ht.capacity >>> 2 = q := by
      rw [hq, Nat.shiftRight_eq_div_pow]
      omega
    have hcheck : ht.checkOverloaded alloc =
        ht.changeTableSize (if q ≤ ht.removedCount then 0 else 1) alloc := by
      rw [HashTable.checkOverloaded, hover, ← hquarter]
      rfl
    rw [hcheck]
    -- the load after a rehash into the new capacity
    have hafter : ∀ {newLog2 ht'}, Resized P ht ht' newLog2 →
        4 * ht.entryCount < 3 * 2 ^ newLog2 → ht'.overloaded = false := by
      intro newLog2 ht' hresized hlt
      rw [Bool.eq_false_iff, ne_eq, hresized.valid.overloaded_iff, hresized.capacity,
        hresized.entryCount, hresized.removedCount]
      omega
    by_cases hmany : q ≤ ht.removedCount
    · rw [if_pos hmany]
      rcases hv.changeTableSize hP 0 (sHashBits - ht.hashShift) alloc
        (add_zero _) hlog (by omega) with ⟨ht', hrehash, hresized⟩ | hfail
      · exact .inr (.inr ⟨ht', _, rfl, hrehash, hresized, hafter hresized (by omega)⟩)
      · exact .inr (.inl ⟨rfl, hfail⟩)
    · rw [if_neg hmany]
      have hdouble : 2 ^ (sHashBits - ht.hashShift + 1) = 2 * ht.capacity := by
        rw [Nat.pow_succ, ← hcapacity, Nat.mul_comm]
      rcases hv.changeTableSize hP 1 (sHashBits - ht.hashShift + 1) alloc
        rfl (by omega) (by omega) with ⟨ht', hrehash, hresized⟩ | hfail
      · exact .inr (.inr ⟨ht', _, rfl, hrehash, hresized, hafter hresized (by omega)⟩)
      · exact .inr (.inl ⟨rfl, hfail⟩)

lemma Valid.checkUnderloaded (hP : P.Lawful) (hv : Valid P ht) (alloc : Bool) :
    ∃ ht', ht.checkUnderloaded alloc = some ht' ∧ Valid P ht' ∧ held ht'.table = held ht.table ∧
      ht'.entryCount = ht.entryCount ∧ (Light ht → Light ht') := by
  rw [HashTable.checkUnderloaded]
  cases hunder : ht.underloaded with
  | false => exact ⟨ht, rfl, hv, rfl, rfl, id⟩
  | true =>
    rw [hv.underloaded_iff] at hunder
    obtain ⟨hcapacity, hlog⟩ := hv.capacity_lt
    have hhalf : 2 * 2 ^ (sHashBits - ht.hashShift - 1) = ht.capacity := by
      rw [hcapacity, Nat.mul_comm, ← Nat.pow_succ]
      congr 1
      omega
    have hmin : 2 ≤ sHashBits - ht.hashShift - 1 := by
      by_contra hlt
      have heq : sHashBits - ht.hashShift = 2 := by omega
      rw [hcapacity, heq] at hunder
      exact absurd hunder.1 (by decide)
    rw [if_pos rfl]
    rcases hv.changeTableSize hP (-1) (sHashBits - ht.hashShift - 1) alloc
      (by omega) hmin (by omega) with ⟨ht', hrehash, hresized⟩ | hfail
    · refine ⟨ht', by rw [hrehash]; rfl, hresized.valid, hresized.held_eq, hresized.entryCount,
        fun _ => ?_⟩
      rw [Light, hresized.capacity, hresized.entryCount, hresized.removedCount]
      omega
    · exact ⟨ht, by rw [hfail]; rfl, hv, rfl, rfl, id⟩

omit [Inhabited T] in
/-- A new entry is put in the place that has been found for it. -/
lemma Valid.addAt (hP : P.Lawful) (hv : Valid P ht) {i : Slot ht.hashShift} {t : T}
    (hi : (ht.table i).isLive = false) (hl : P.matchKey (P.getKey t) l = true)
    (habsent : ∀ j, (ht.table j).isLive = true → matchEntry P (ht.table j) l = false)
    (hpath : OnPath ht.table (prepareHash P l) i) :
    ((ht.table i).isRemoved = false → Valid P (ht.addAt i (prepareHash P l) t)) ∧
      ((ht.table i).isRemoved = true → 0 < ht.removedCount ∧
        Valid P { ht.addAt i (prepareHash P l ||| sCollisionBit) t with
          removedCount := ht.removedCount - 1 }) ∧
      ∀ keyHash, isLiveHash keyHash = true →
        held (ht.addAt i keyHash t).table = t ::ₘ held ht.table := by
  have hlive := prepareHash_live (P := P) l
  refine ⟨fun hremoved => ?_, fun hremoved => ?_, fun keyHash hkey => held_put hi hkey⟩
  · have he : (⟨prepareHash P l, t⟩ : Entry T).isLive = true := hlive
    refine ⟨hv.shift_ge, hv.shift_le, hv.placed.put hP hi he hl (prepareHash_clear l) habsent hpath
      (fun h => ?_), ?_, ?_⟩
    · rw [hremoved] at h
      cases h
    · exact (congrArg (· + 1) hv.entryCount).trans (by rw [← card_cons, ← held_put hi he]; rfl)
    · have hsame : (ht.table i).isRemoved = (⟨prepareHash P l, t⟩ : Entry T).isRemoved := by
        rw [hremoved, not_removed_of_live he]
      exact hv.removedCount.trans (congrArg Multiset.card (tombstones_same hsame).symm)
  · have he : (⟨prepareHash P l ||| sCollisionBit, t⟩ : Entry T).isLive = true :=
      isLiveHash_setBit hlive
    have hhome : (⟨prepareHash P l ||| sCollisionBit, t⟩ : Entry T).home = prepareHash P l :=
      (clearBit_setBit _).trans (prepareHash_clear l)
    have hcount := tombstones_put (e := ⟨prepareHash P l ||| sCollisionBit, t⟩) hremoved
      (not_removed_of_live he)
    rw [← hv.removedCount] at hcount
    refine ⟨by omega, hv.shift_ge, hv.shift_le, hv.placed.put hP hi he hl hhome habsent hpath
      (fun _ => Entry.setCollision_hasCollision ⟨prepareHash P l, t⟩), ?_, ?_⟩
    · exact (congrArg (· + 1) hv.entryCount).trans (by rw [← card_cons, ← held_put hi he]; rfl)
    · exact Nat.sub_eq_of_eq_add hcount.symm

/-! ## Lookups and new keys -/

/-- A lookup matches none of the elements. -/
def Absent (P : HashPolicy T Key Lookup) (m : Multiset T) (l : Lookup) : Prop :=
  ∀ t ∈ m, P.matchKey (P.getKey t) l = false

omit [Inhabited T] in
lemma absent_held {hashShift : Nat} {table : Cells T hashShift} :
    Absent P (held table) l ↔ ∀ i, (table i).isLive = true → matchEntry P (table i) l = false := by
  constructor
  · intro h i hi
    exact h _ (mem_held.mpr ⟨i, hi, rfl⟩)
  · intro h t ht
    obtain ⟨i, hi, rfl⟩ := mem_held.mp ht
    exact h i hi

omit [Inhabited T] in
/-- The entry that is found holds the element that the lookup matches; it is not live if there is
none. -/
lemma Valid.lookup (hP : P.Lawful) (hv : Valid P ht) (l : Lookup)
    (hstop : ¬ Absent P (held ht.table) l ∨ ht.entryCount + ht.removedCount < ht.capacity) :
    ∃ i, ht.lookup P l = some i ∧
      (((ht.table i).isLive = true ∧ P.matchKey (P.getKey (ht.table i).t) l = true) ∨
        (ht.table i).isLive = false ∧ Absent P (held ht.table) l) := by
  have hstop' : ∃ i, Stops P ht.table l (prepareHash P l) i := by
    rcases hstop with hpresent | hlight
    · rw [absent_held] at hpresent
      push Not at hpresent
      obtain ⟨i, hi, hl⟩ := hpresent
      exact ⟨i, hv.placed.stops_of_match hP hi (Bool.not_eq_false _ ▸ hl)⟩
    · obtain ⟨i, hi⟩ := hv.exists_free hlight
      exact ⟨i, .inl hi⟩
  obtain ⟨r, table', hlookup, _, hfinds⟩ := lookupCells_spec hP hv.placed (.inl rfl) l hstop'
  refine ⟨r, by rw [HashTable.lookup, hlookup]; rfl, ?_⟩
  rcases hfinds with hhit | ⟨hlive, hmiss, _⟩
  · exact .inl hhit
  · exact .inr ⟨hlive, absent_held.mpr hmiss⟩

omit [Inhabited T] in
/-- `putNewInfallible` of a key that is not there. -/
lemma Valid.putNewInfallible (hP : P.Lawful) (hv : Valid P ht) {t : T}
    (hl : P.matchKey (P.getKey t) l = true) (habsent : Absent P (held ht.table) l)
    (hroom : ht.entryCount < ht.capacity) :
    ∃ ht', ht.putNewInfallible P l t = some ht' ∧ Valid P ht' ∧
      held ht'.table = t ::ₘ held ht.table ∧ ht'.hashShift = ht.hashShift ∧ ht'.gen = ht.gen ∧
      ht'.entryCount = ht.entryCount + 1 ∧ ht'.removedCount ≤ ht.removedCount := by
  rw [hv.entryCount] at hroom
  rw [absent_held] at habsent
  obtain ⟨r, table', hfind, hmarked, hr, hpath⟩ :=
    findFreeEntry_spec (exists_not_live _ hroom) (prepareHash P l)
  have hvalid := hv.marked hmarked
  have hr' : (table' r).isLive = false := (hmarked.live_eq r).trans hr
  obtain ⟨hfree, hremoved, hheld⟩ := hvalid.addAt hP hr' hl
    (fun j hj => by
      rw [hmarked.match_eq]
      exact habsent j ((hmarked.live_eq j).symm.trans hj)) hpath
  simp only [hmarked.held_eq] at hheld
  rw [HashTable.putNewInfallible]
  simp only [hfind, Option.bind_eq_bind, Option.bind_some]
  have hlive := prepareHash_live (P := P) l
  cases hcell : (table' r).isRemoved with
  | false =>
    exact ⟨_, rfl, hfree hcell, hheld _ hlive, rfl, rfl, rfl, Nat.le_refl _⟩
  | true =>
    exact ⟨_, rfl, (hremoved hcell).2, hheld _ (isLiveHash_setBit hlive), rfl, rfl, rfl,
      Nat.sub_le _ _⟩

end

end SpiderMonkey.Ds
