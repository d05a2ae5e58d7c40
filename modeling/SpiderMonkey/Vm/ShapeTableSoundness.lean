import SpiderMonkey.Vm.ShapeTable

/-! # Tables of shapes: what a search finds

The invariant is that of open addressing: a shape can be reached, from where the search for its id
begins, along entries with the collision flag. The flags are only ever set, until the entries are
copied, and an entry without the flag can be freed because nothing is reached through it.
-/

namespace SpiderMonkey.Vm

open Lib Ds Function List Option

section

variable {S Id : Type} [DecidableEq Id] {propid : S → Id} {hashId : Id → HashNumber}

/-! ## Entries -/

namespace ShapeEntry

variable {e : ShapeEntry S}

lemma hits_iff {id : Id} : e.hits propid id = true ↔ ∃ s, e.shape = some s ∧ propid s = id := by
  rw [hits]
  cases e.shape with
  | none => simp
  | some s => simp

lemma isFree_iff : e.isFree = true ↔ e.shape = none ∧ e.hadCollision = false := by
  rw [isFree]
  cases e.shape <;> cases e.hadCollision <;> simp

lemma isRemoved_iff : e.isRemoved = true ↔ e.shape = none ∧ e.hadCollision = true := by
  rw [isRemoved]
  cases e.shape <;> cases e.hadCollision <;> simp

end ShapeEntry

variable {hashShift : Nat} {entries entries' entries'' : ShapeEntries S hashShift}

/-- A search may go on behind the entry. -/
def HadCollision (entries : ShapeEntries S hashShift) (i : Slot hashShift) : Prop :=
  (entries i).hadCollision = true

/-- No more than collision flags of shapes have been set. -/
def Flagged (entries entries' : ShapeEntries S hashShift) : Prop :=
  ∀ i, (entries' i).shape = (entries i).shape ∧
    ((entries i).hadCollision = true → (entries' i).hadCollision = true) ∧
    ((entries i).shape = none → entries' i = entries i)

namespace Flagged

lemma refl (entries : ShapeEntries S hashShift) : Flagged entries entries :=
  fun _ => ⟨rfl, id, fun _ => rfl⟩

lemma trans (h : Flagged entries entries') (h' : Flagged entries' entries'') :
    Flagged entries entries'' := by
  intro i
  obtain ⟨hshape, hflag, hnone⟩ := h i
  obtain ⟨hshape', hflag', hnone'⟩ := h' i
  exact ⟨hshape'.trans hshape, fun hi => hflag' (hflag hi),
    fun hi => (hnone' (hshape.trans hi)).trans (hnone hi)⟩

lemma isFree_eq (h : Flagged entries entries') (i : Slot hashShift) :
    (entries' i).isFree = (entries i).isFree := by
  obtain ⟨hshape, _, hnone⟩ := h i
  cases hs : (entries i).shape with
  | none => rw [hnone hs]
  | some s => rw [ShapeEntry.isFree, ShapeEntry.isFree, hshape, hs]; rfl

lemma hits_eq (h : Flagged entries entries') (i : Slot hashShift) (id : Id) :
    (entries' i).hits propid id = (entries i).hits propid id := by
  rw [ShapeEntry.hits, ShapeEntry.hits, (h i).1]

end Flagged

/-! ## The search -/

/-- The loop ends here. -/
def Stops (propid : S → Id) (entries : ShapeEntries S hashShift) (id : Id) (i : Slot hashShift) :
    Prop :=
  (entries i).isFree = true ∨ (entries i).hits propid id = true

/-- What the loop returns, which begins at `spp` and ends at `j`. -/
def Returned (propid : S → Id) (hashId : Id → HashNumber) (entries entries' : ShapeEntries S hashShift)
    (id : Id) (adding : Bool) (spp j : Slot hashShift) (firstRemoved : Option (Slot hashShift))
    (r : Slot hashShift) : Prop :=
  (entries j).isFree = false ∧ r = j ∨
    (entries j).isFree = true ∧ (adding = false → r = j) ∧
      (adding = true → firstRemoved = some r ∨
        (entries r).shape = none ∧
          Reaches (nextSlot (hashId id)) (HadCollision entries') spp r)

lemma passEntry_spec {id : Id} (adding : Bool) {spp : Slot hashShift}
    (hspp : ¬ Stops propid entries id spp) (firstRemoved : Option (Slot hashShift)) :
    ∃ entries1 firstRemoved1,
      passEntry adding entries spp firstRemoved = (entries1, firstRemoved1) ∧
      Flagged entries entries1 ∧ (adding = false → entries1 = entries) ∧
      (adding = true → HadCollision entries1 spp) ∧
      (firstRemoved1 = firstRemoved ∨
        (entries spp).shape = none ∧ firstRemoved1 = firstRemoved.or (some spp)) := by
  rw [passEntry]
  by_cases hremoved : (entries spp).isRemoved = true
  · rw [if_pos hremoved]
    obtain ⟨hshape, hflag⟩ := ShapeEntry.isRemoved_iff.mp hremoved
    exact ⟨_, _, rfl, .refl _, fun _ => rfl, fun _ => hflag, .inr ⟨hshape, rfl⟩⟩
  rw [if_neg hremoved]
  have hlive : (entries spp).shape ≠ none := by
    intro hnone
    cases hflag : (entries spp).hadCollision with
    | true => exact hremoved (ShapeEntry.isRemoved_iff.mpr ⟨hnone, hflag⟩)
    | false => exact hspp (.inl (ShapeEntry.isFree_iff.mpr ⟨hnone, hflag⟩))
  cases adding with
  | false =>
    rw [Bool.false_and, if_neg Bool.false_ne_true]
    exact ⟨_, _, rfl, .refl _, fun _ => rfl, fun h => absurd h Bool.false_ne_true, .inl rfl⟩
  | true =>
    rw [Bool.true_and]
    cases hflag : (entries spp).hadCollision with
    | true =>
      rw [Bool.not_true, if_neg Bool.false_ne_true]
      exact ⟨_, _, rfl, .refl _, fun _ => rfl, fun _ => hflag, .inl rfl⟩
    | false =>
      rw [Bool.not_false, if_pos rfl]
      refine ⟨_, _, rfl, fun i => ?_, fun h => absurd h Bool.true_eq_false_eq_False, fun _ => ?_,
        .inl rfl⟩
      · by_cases hi : i = spp
        · subst hi
          rw [update_self]
          exact ⟨rfl, fun _ => rfl, fun hnone => absurd hnone hlive⟩
        · rw [update_of_ne hi]
          exact ⟨rfl, fun h => h, fun _ => rfl⟩
      · rw [HadCollision, update_self]
        rfl

lemma searchLoop_spec {id : Id} (adding : Bool) {k fuel : Nat} {spp j : Slot hashShift}
    (hprobe : Probe (nextSlot (hashId id)) (fun i => ¬ Stops propid entries id i) k spp j)
    (hfuel : k < fuel) (hj : Stops propid entries id j) (firstRemoved : Option (Slot hashShift)) :
    ∃ r entries', searchLoop propid hashId id adding fuel entries spp firstRemoved =
        some (r, entries') ∧
      Flagged entries entries' ∧ (adding = false → entries' = entries) ∧
      Returned propid hashId entries entries' id adding spp j firstRemoved r := by
  induction k generalizing entries spp fuel firstRemoved with
  | zero =>
    obtain ⟨fuel, rfl⟩ := Nat.exists_eq_succ_of_ne_zero (Nat.ne_of_gt hfuel)
    obtain rfl : j = spp := by
      cases hprobe
      rfl
    rw [searchLoop]
    by_cases hfree : (entries j).isFree = true
    · rw [if_pos hfree]
      refine ⟨_, _, rfl, .refl _, fun _ => rfl, .inr ⟨hfree, ?_, ?_⟩⟩
      · rintro rfl
        rfl
      · rintro rfl
        cases firstRemoved with
        | none => exact .inr ⟨(ShapeEntry.isFree_iff.mp hfree).1, 0, .here _⟩
        | some x => exact .inl rfl
    · rw [if_neg hfree, if_pos (hj.resolve_left hfree)]
      exact ⟨_, _, rfl, .refl _, fun _ => rfl, .inl ⟨Bool.eq_false_iff.mpr hfree, rfl⟩⟩
  | succ k ih =>
    obtain ⟨fuel, rfl⟩ := Nat.exists_eq_succ_of_ne_zero (Nat.ne_of_gt (Nat.zero_lt_of_lt hfuel))
    cases hprobe with
    | step hspp hrest =>
      obtain ⟨entries1, firstRemoved1, hpass, hflagged, hsame, hblocked, hfirst⟩ :=
        passEntry_spec adding hspp firstRemoved
      have hstops : ∀ i, Stops propid entries1 id i ↔ Stops propid entries id i := fun i => by
        rw [Stops, Stops, hflagged.isFree_eq, hflagged.hits_eq]
      obtain ⟨r, entries', hloop, hflagged', hsame', hreturned⟩ :=
        ih (hrest.mono fun i hi hstop => hi ((hstops i).mp hstop))
          (Nat.lt_of_succ_lt_succ hfuel) ((hstops j).mpr hj) firstRemoved1
      refine ⟨r, entries', ?_, hflagged.trans hflagged',
        fun hadd => (hsame' hadd).trans (hsame hadd), ?_⟩
      · rw [searchLoop, if_neg fun h => hspp (.inl h), if_neg fun h => hspp (.inr h), hpass]
        exact hloop
      rw [Returned, hflagged.isFree_eq, (hflagged r).1] at hreturned
      rcases hreturned with hhit | ⟨hfree, hfind, hadd⟩
      · exact .inl hhit
      refine .inr ⟨hfree, hfind, fun hadding => ?_⟩
      rcases hadd hadding with hr | ⟨hr, m, hm⟩
      · rcases hfirst with rfl | ⟨hshape, rfl⟩
        · exact .inl hr
        · cases firstRemoved with
          | some x => exact .inl hr
          | none =>
            cases hr
            exact .inr ⟨hshape, 0, .here spp⟩
      · exact .inr ⟨hr, m + 1, .step ((hflagged' spp).2.1 (hblocked hadding)) hm⟩

/-! ## The places of the shapes -/

/-- No two entries have shapes of one id, and a search comes to each. -/
structure WellPlaced (propid : S → Id) (hashId : Id → HashNumber)
    (entries : ShapeEntries S hashShift) : Prop where
  distinct : ∀ {i j s s'}, (entries i).shape = some s → (entries j).shape = some s' →
    propid s = propid s' → i = j
  reaches : ∀ {i s}, (entries i).shape = some s →
    Reaches (nextSlot (hashId (propid s))) (HadCollision entries)
      (firstSlot (hashId (propid s)) hashShift) i

/-- No shape has the id. -/
def Absent (propid : S → Id) (entries : ShapeEntries S hashShift) (id : Id) : Prop :=
  ∀ i s, (entries i).shape = some s → propid s ≠ id

omit [DecidableEq Id] in
lemma WellPlaced.flagged (h : WellPlaced propid hashId entries) (hf : Flagged entries entries') :
    WellPlaced propid hashId entries' where
  distinct hi hj := by
    rw [(hf _).1] at hi hj
    exact h.distinct hi hj
  reaches hi := by
    rw [(hf _).1] at hi
    exact (h.reaches hi).mono fun i => (hf i).2.1

/-- The outcome of a search: the entry of the shape with the id or, if there is none, an entry that a
shape with the id can be put in. -/
structure Searched (propid : S → Id) (hashId : Id → HashNumber)
    (entries entries' : ShapeEntries S hashShift) (id : Id) (adding : Bool) (r : Slot hashShift) :
    Prop where
  flagged : Flagged entries entries'
  unchanged : adding = false → entries' = entries
  found : ∀ {s}, (entries r).shape = some s → propid s = id
  absent : (entries r).shape = none → Absent propid entries id
  free : (entries r).shape = none → adding = false → (entries r).isFree = true
  reaches : (entries r).shape = none → adding = true →
    Reaches (nextSlot (hashId id)) (HadCollision entries') (firstSlot (hashId id) hashShift) r

lemma WellPlaced.search (h : WellPlaced propid hashId entries)
    (hfree : ∃ i, (entries i).isFree = true) (id : Id) (adding : Bool) :
    ∃ r entries', searchEntries propid hashId entries id adding = some (r, entries') ∧
      Searched propid hashId entries entries' id adding r := by
  obtain ⟨i, hi⟩ := hfree
  obtain ⟨k, hk, j, hprobe, hj⟩ := (nextSlot_cover (hashId id)).exists_probe
    (fun i => ¬ Stops propid entries id i) i (not_not_intro (.inl hi))
    (firstSlot (hashId id) hashShift)
  rw [not_not] at hj
  obtain ⟨r, entries', hloop, hflagged, hsame, hreturned⟩ :=
    searchLoop_spec adding hprobe hk hj none
  refine ⟨r, entries', hloop, ?_⟩
  -- a free entry ends the search for an id that no shape has
  have habsent : (entries j).isFree = true → Absent propid entries id := by
    rintro hjfree x s hs rfl
    obtain ⟨hjshape, hjflag⟩ := ShapeEntry.isFree_iff.mp hjfree
    obtain ⟨m, hm⟩ := h.reaches hs
    rcases hm.compare hprobe with ⟨_, hx⟩ | ⟨_, hflag⟩ | ⟨_, rfl⟩
    · exact hx (.inr (ShapeEntry.hits_iff.mpr ⟨s, hs, rfl⟩))
    · rw [HadCollision, hjflag] at hflag
      cases hflag
    · rw [hjshape] at hs
      cases hs
  rcases hreturned with ⟨hnot, rfl⟩ | ⟨hjfree, hfind, hadd⟩
  · obtain ⟨s, hs, hid⟩ := ShapeEntry.hits_iff.mp (hj.resolve_left (Bool.eq_false_iff.mp hnot))
    have hne : (entries r).shape ≠ none := by
      rw [hs]
      exact some_ne_none s
    refine ⟨hflagged, hsame, fun hs' => ?_, fun hnone => absurd hnone hne,
      fun hnone => absurd hnone hne, fun hnone => absurd hnone hne⟩
    rw [hs] at hs'
    cases hs'
    exact hid
  · have hshape : (entries r).shape = none := by
      cases adding with
      | false => rw [hfind rfl]; exact (ShapeEntry.isFree_iff.mp hjfree).1
      | true =>
        rcases hadd rfl with hnone | ⟨hnone, _⟩
        · cases hnone
        · exact hnone
    refine ⟨hflagged, hsame, fun hs => ?_, fun _ => habsent hjfree, fun _ hf => ?_, fun _ ht => ?_⟩
    · rw [hshape] at hs
      cases hs
    · rw [hfind hf]
      exact hjfree
    · rcases hadd ht with hnone | ⟨_, hreaches⟩
      · cases hnone
      · exact hreaches

lemma hadCollision_update (i : Slot hashShift) {e : ShapeEntry S}
    (he : (entries i).hadCollision = true → e.hadCollision = true) (j : Slot hashShift)
    (hj : HadCollision entries j) : HadCollision (update entries i e) j := by
  rw [HadCollision]
  by_cases hji : j = i
  · subst hji
    rw [update_self]
    exact he hj
  · rw [update_of_ne hji]
    exact hj

variable {i : Slot hashShift} {s : S}

omit [DecidableEq Id] in
/-- A shape with a new id is put in the entry that a search has returned. -/
lemma WellPlaced.put (h : WellPlaced propid hashId entries)
    (habsent : Absent propid entries (propid s))
    (hreaches : Reaches (nextSlot (hashId (propid s))) (HadCollision entries)
      (firstSlot (hashId (propid s)) hashShift) i) {flag : Bool}
    (hflag : (entries i).hadCollision = true → flag = true) :
    WellPlaced propid hashId (update entries i ⟨some s, flag⟩) := by
  have hmono := hadCollision_update i (e := ⟨some s, flag⟩) hflag
  constructor
  · intro x y t t' hx hy hid
    by_cases hxi : x = i <;> by_cases hyi : y = i
    · exact hxi.trans hyi.symm
    · subst hxi
      rw [update_self] at hx
      rw [update_of_ne hyi] at hy
      cases hx
      exact absurd hid.symm (habsent y t' hy)
    · subst hyi
      rw [update_self] at hy
      rw [update_of_ne hxi] at hx
      cases hy
      exact absurd hid (habsent x t hx)
    · rw [update_of_ne hxi] at hx
      rw [update_of_ne hyi] at hy
      exact h.distinct hx hy hid
  · intro x t hx
    by_cases hxi : x = i
    · subst hxi
      rw [update_self] at hx
      cases hx
      exact hreaches.mono hmono
    · rw [update_of_ne hxi] at hx
      exact (h.reaches hx).mono hmono

omit [DecidableEq Id] in
/-- A shape is taken out, and the collision flag stays. -/
lemma WellPlaced.take (h : WellPlaced propid hashId entries) :
    WellPlaced propid hashId (update entries i ⟨none, (entries i).hadCollision⟩) := by
  have hold : ∀ x s, (update entries i ⟨none, (entries i).hadCollision⟩ x).shape = some s →
      (entries x).shape = some s := by
    intro x s hx
    by_cases hxi : x = i
    · subst hxi
      rw [update_self] at hx
      cases hx
    · rwa [update_of_ne hxi] at hx
  exact ⟨fun hx hy hid => h.distinct (hold _ _ hx) (hold _ _ hy) hid,
    fun hx => (h.reaches (hold _ _ hx)).mono
      (hadCollision_update i (e := ⟨none, (entries i).hadCollision⟩) fun hi => hi)⟩

/-! ## Counting the entries -/

/-- The shapes in the entries. -/
def shapesIn (entries : ShapeEntries S hashShift) : Multiset S := contents fun i => (entries i).shape

def removedAt (entries : ShapeEntries S hashShift) (i : Slot hashShift) : Option Unit :=
  if (entries i).isRemoved then some () else none

/-- The removed entries. -/
def removedIn (entries : ShapeEntries S hashShift) : Multiset Unit := contents (removedAt entries)

lemma mem_shapesIn : s ∈ shapesIn entries ↔ ∃ i, (entries i).shape = some s := mem_contents

lemma Flagged.shapesIn_eq (h : Flagged entries entries') : shapesIn entries' = shapesIn entries :=
  congrArg contents (funext fun i => (h i).1)

lemma Flagged.removedIn_eq (h : Flagged entries entries') :
    removedIn entries' = removedIn entries := by
  refine congrArg contents (funext fun i => ?_)
  obtain ⟨hshape, _, hnone⟩ := h i
  cases hs : (entries i).shape with
  | none => rw [removedAt, removedAt, hnone hs]
  | some s => rw [removedAt, removedAt, ShapeEntry.isRemoved, ShapeEntry.isRemoved, hshape, hs]; rfl

lemma shape_update (i : Slot hashShift) (e : ShapeEntry S) :
    (fun j => (update entries i e j).shape) =
      update (fun j => (entries j).shape) i e.shape := by
  funext j
  by_cases hj : j = i
  · subst hj
    rw [update_self, update_self]
  · rw [update_of_ne hj, update_of_ne hj]

lemma shapesIn_put {e : ShapeEntry S} (hi : (entries i).shape = none) (he : e.shape = some s) :
    shapesIn (update entries i e) = s ::ₘ shapesIn entries := by
  rw [shapesIn, shape_update, he]
  exact contents_update_some s hi

lemma shapesIn_take {e : ShapeEntry S} (hi : (entries i).shape = some s) (he : e.shape = none) :
    shapesIn entries = s ::ₘ shapesIn (update entries i e) := by
  rw [shapesIn, shapesIn, shape_update, he]
  exact contents_update_none hi

lemma removedAt_update (i : Slot hashShift) (e : ShapeEntry S) :
    removedAt (update entries i e) =
      update (removedAt entries) i (if e.isRemoved then some () else none) := by
  funext j
  rw [removedAt]
  by_cases hj : j = i
  · subst hj
    rw [update_self, update_self]
  · rw [update_of_ne hj, update_of_ne hj, removedAt]

/-- An entry that becomes live, or free, is not removed any more. -/
lemma removedIn_le {e : ShapeEntry S} (he : e.isRemoved = false) :
    (removedIn (update entries i e)).card ≤ (removedIn entries).card := by
  rw [removedIn, removedAt_update, he, if_neg Bool.false_ne_true, removedIn]
  cases hi : removedAt entries i with
  | some _ =>
    rw [contents_update_none hi, Multiset.card_cons]
    exact Nat.le_succ _
  | none =>
    rw [← hi, update_eq_self]

lemma removedIn_take {e : ShapeEntry S} (hi : (entries i).isRemoved = false)
    (he : e.isRemoved = true) :
    removedIn (update entries i e) = () ::ₘ removedIn entries := by
  rw [removedIn, removedAt_update, he, if_pos rfl]
  exact contents_update_some () (if_neg (Bool.eq_false_iff.mp hi))

/-- Not all entries are in use. -/
lemma exists_free (h : (shapesIn entries).card + (removedIn entries).card < capacityOf hashShift) :
    ∃ i, (entries i).isFree = true := by
  by_contra hall
  have hcover : (Finset.univ : Finset (Slot hashShift)) ⊆
      (Finset.univ.filter fun i => (entries i).shape.isSome = true) ∪
        Finset.univ.filter fun i => (removedAt entries i).isSome = true := by
    intro i _
    rw [Finset.mem_union, Finset.mem_filter, Finset.mem_filter]
    cases hshape : (entries i).shape with
    | some s => exact .inl ⟨Finset.mem_univ i, rfl⟩
    | none =>
      cases hflag : (entries i).hadCollision with
      | true =>
        rw [removedAt, ShapeEntry.isRemoved_iff.mpr ⟨hshape, hflag⟩]
        exact .inr ⟨Finset.mem_univ i, rfl⟩
      | false => exact absurd ⟨i, ShapeEntry.isFree_iff.mpr ⟨hshape, hflag⟩⟩ hall
  have hcard := (Finset.card_le_card hcover).trans (Finset.card_union_le _ _)
  rw [Finset.card_univ, Fintype.card_fin, ← card_contents, ← card_contents] at hcard
  exact absurd h (Nat.not_lt_of_le hcard)

/-! ## The chain -/

/-- The linear search along the chain, from the youngest shape on. -/
def youngest (propid : S → Id) (chain : List S) (id : Id) : Option S :=
  chain.find? fun s => propid s = id

/-- The shapes in the entries are the youngest of the chain with their ids. -/
def Shows (propid : S → Id) (entries : ShapeEntries S hashShift) (chain : List S) : Prop :=
  ∀ s, (∃ i, (entries i).shape = some s) ↔ youngest propid chain (propid s) = some s

variable {chain : List S}

lemma youngest_propid {id : Id} (h : youngest propid chain id = some s) :
    propid s = id :=
  of_decide_eq_true (List.find?_some (p := fun s => propid s = id) h)

lemma youngest_cons (s : S) (chain : List S) (id : Id) :
    youngest propid (s :: chain) id = if propid s = id then some s else youngest propid chain id := by
  rw [youngest, List.find?_cons]
  split_ifs with hid
  · rw [decide_eq_true hid]
  · rw [decide_eq_false hid]
    rfl

lemma youngest_append (s : S) (chain : List S) (id : Id) :
    youngest propid (chain ++ [s]) id =
      (youngest propid chain id).or (if propid s = id then some s else none) := by
  rw [youngest, List.find?_append]
  exact congrArg _ (youngest_cons s [] id)

lemma Shows.youngest_eq_none (h : Shows propid entries chain) {id : Id}
    (habsent : Absent propid entries id) : youngest propid chain id = none := by
  cases hs : youngest propid chain id with
  | none => rfl
  | some s =>
    obtain rfl := youngest_propid hs
    obtain ⟨i, hi⟩ := (h s).mpr hs
    exact absurd rfl (habsent i s hi)

lemma Shows.youngest_eq_some (h : Shows propid entries chain) (hi : (entries i).shape = some s) :
    youngest propid chain (propid s) = some s :=
  (h s).mp ⟨i, hi⟩

lemma Shows.put {chain chain' : List S} (h : Shows propid entries chain)
    (hi : (entries i).shape = none) (habsent : Absent propid entries (propid s))
    (hchain : ∀ id, youngest propid chain' id =
      if propid s = id then some s else youngest propid chain id) (flag : Bool) :
    Shows propid (update entries i ⟨some s, flag⟩) chain' := by
  intro t
  rw [hchain]
  split_ifs with hid
  · constructor
    · rintro ⟨j, hj⟩
      by_cases hji : j = i
      · subst hji
        rwa [update_self] at hj
      · rw [update_of_ne hji] at hj
        exact absurd hid.symm (habsent j t hj)
    · intro hst
      exact ⟨i, by rw [update_self]; exact hst⟩
  · rw [← h t]
    refine exists_congr fun j => ?_
    by_cases hji : j = i
    · subst hji
      rw [update_self, hi]
      refine ⟨fun hst => ?_, fun hnone => (nomatch hnone)⟩
      cases hst
      exact absurd rfl hid
    · rw [update_of_ne hji]

lemma Shows.take {chain chain' : List S} (h : Shows propid entries chain)
    (hplaced : WellPlaced propid hashId entries) (hi : (entries i).shape = some s)
    (hchain : ∀ id, youngest propid chain' id =
      if propid s = id then none else youngest propid chain id) (flag : Bool) :
    Shows propid (update entries i ⟨none, flag⟩) chain' := by
  intro t
  rw [hchain]
  split_ifs with hid
  · refine ⟨?_, fun hnone => (nomatch hnone)⟩
    rintro ⟨j, hj⟩
    by_cases hji : j = i
    · subst hji
      rw [update_self] at hj
      cases hj
    · rw [update_of_ne hji] at hj
      exact absurd (hplaced.distinct hj hi hid.symm) hji
  · rw [← h t]
    refine exists_congr fun j => ?_
    by_cases hji : j = i
    · subst hji
      rw [update_self, hi]
      refine ⟨fun hnone => (nomatch hnone), fun hst => ?_⟩
      cases hst
      exact absurd rfl hid
    · rw [update_of_ne hji]

/-- The chain without its youngest shape with the id. -/
def dropYoungest (propid : S → Id) (chain : List S) (id : Id) : List S :=
  chain.eraseP fun s => propid s = id

/-- If the id occurs only once it does not occur any more. -/
lemma youngest_dropYoungest {id : Id} (honce : chain.countP (fun s => propid s = id) ≤ 1)
    (id' : Id) :
    youngest propid (dropYoungest propid chain id) id' =
      if id = id' then none else youngest propid chain id' := by
  induction chain with
  | nil => exact (ite_self _).symm
  | cons s chain ih =>
    rw [countP_cons] at honce
    by_cases hs : propid s = id
    · rw [if_pos (decide_eq_true hs)] at honce
      have hnone : chain.countP (fun s => propid s = id) = 0 := by omega
      rw [dropYoungest, eraseP_cons_of_pos (p := fun s => propid s = id) (decide_eq_true hs), youngest_cons, hs]
      split_ifs with hid
      · subst hid
        rw [youngest, List.find?_eq_none]
        exact countP_eq_zero.mp hnone
      · rfl
    · rw [if_neg (by simpa using hs), Nat.add_zero] at honce
      rw [dropYoungest, eraseP_cons_of_neg (p := fun s => propid s = id) (by simpa using hs), youngest_cons, youngest_cons]
      split_ifs with hid hid' hid'
      · exact absurd (hid.trans hid'.symm) hs
      · rfl
      · rw [← dropYoungest, ih honce, if_pos hid']
      · rw [← dropYoungest, ih honce, if_neg hid']

/-! ## Filling a table -/

/-- No entry is marked as removed. -/
def Clean (entries : ShapeEntries S hashShift) : Prop :=
  ∀ i, (entries i).shape = none → (entries i).hadCollision = false

lemma Clean.flagged (h : Clean entries) (hf : Flagged entries entries') : Clean entries' := by
  intro i hi
  rw [(hf i).1] at hi
  rw [(hf i).2.2 hi]
  exact h i hi

lemma Clean.put (h : Clean entries) (i : Slot hashShift) (s : S) (flag : Bool) :
    Clean (update entries i ⟨some s, flag⟩) := by
  intro j hj
  by_cases hji : j = i
  · subst hji
    rw [update_self] at hj
    cases hj
  · rw [update_of_ne hji] at hj ⊢
    exact h j hj

lemma Clean.removedIn_eq (h : Clean entries) : removedIn entries = 0 := by
  have hnone : removedAt entries = fun _ => none := by
    funext i
    refine if_neg fun hremoved => ?_
    obtain ⟨hshape, hflag⟩ := ShapeEntry.isRemoved_iff.mp hremoved
    rw [h i hshape] at hflag
    cases hflag
  rw [removedIn, hnone]
  exact contents_none

lemma Clean.exists_free (h : Clean entries) (hroom : (shapesIn entries).card < capacityOf hashShift) :
    ∃ i, (entries i).isFree = true :=
  Vm.exists_free (by rwa [h.removedIn_eq, Multiset.card_zero, Nat.add_zero])

/-- Entries that are being filled. -/
structure Filled (propid : S → Id) (hashId : Id → HashNumber) (entries : ShapeEntries S hashShift) :
    Prop where
  placed : WellPlaced propid hashId entries
  clean : Clean entries

variable (propid hashId hashShift) in
omit [DecidableEq Id] in
lemma filled_free :
    Filled propid hashId (fun _ : Slot hashShift => (ShapeEntry.free : ShapeEntry S)) where
  placed := ⟨fun h => (nomatch h), fun h => (nomatch h)⟩
  clean := fun _ _ => rfl

lemma shapesIn_free : shapesIn (fun _ : Slot hashShift => (ShapeEntry.free : ShapeEntry S)) = 0 :=
  contents_none

omit [DecidableEq Id] in
/-- One more shape. -/
lemma Filled.put (h : Filled propid hashId entries) {r : Slot hashShift}
    (hsearch : Searched propid hashId entries entries' (propid s) true r)
    (hr : (entries r).shape = none) (flag : Bool) :
    Filled propid hashId (update entries' r ⟨some s, flag⟩) := by
  have hclean := h.clean.flagged hsearch.flagged
  have hr' : (entries' r).shape = none := (hsearch.flagged r).1.trans hr
  refine ⟨(h.placed.flagged hsearch.flagged).put ?_ (hsearch.reaches hr rfl) ?_, hclean.put _ _ _⟩
  · intro i t ht
    rw [(hsearch.flagged i).1] at ht
    exact hsearch.absent hr i t ht
  · intro hflag
    rw [hclean r hr'] at hflag
    cases hflag

lemma initLoop_spec (lineage : List S) (done : List S) (h : Filled propid hashId entries)
    (hshows : Shows propid entries done)
    (hroom : (shapesIn entries).card + lineage.length < capacityOf hashShift) :
    ∃ entries', initLoop propid hashId lineage entries = some entries' ∧
      Filled propid hashId entries' ∧ Shows propid entries' (done ++ lineage) ∧
      (shapesIn entries').card ≤ (shapesIn entries).card + lineage.length := by
  induction lineage generalizing entries done with
  | nil => exact ⟨entries, rfl, h, by rwa [append_nil], Nat.le_refl _⟩
  | cons s lineage ih =>
    rw [length_cons] at hroom
    obtain ⟨r, entries1, hsearch, hsearched⟩ :=
      h.placed.search (h.clean.exists_free (by omega)) (propid s) true
    have hshows1 : Shows propid entries1 done := fun t => by
      rw [← hshows t]
      exact exists_congr fun i => by rw [(hsearched.flagged i).1]
    have hcard1 := congrArg Multiset.card hsearched.flagged.shapesIn_eq
    have happend : done ++ s :: lineage = (done ++ [s]) ++ lineage := by
      rw [append_assoc, singleton_append]
    cases hr : (entries r).shape with
    | none =>
      have hr1 : (entries1 r).shape = none := (hsearched.flagged r).1.trans hr
      have habsent1 : Absent propid entries1 (propid s) := fun i t ht => by
        rw [(hsearched.flagged i).1] at ht
        exact hsearched.absent hr i t ht
      have hcard := congrArg Multiset.card
        (shapesIn_put hr1 (e := (entries1 r).storePreservingCollision s) rfl)
      rw [Multiset.card_cons] at hcard
      obtain ⟨entries', hloop, hfilled, hshows', hcard'⟩ :=
        ih (done ++ [s]) (h.put hsearched hr (entries1 r).hadCollision)
          (hshows1.put hr1 habsent1 (fun id => by
            rw [youngest_append]
            split_ifs with hid
            · rw [← hid, hshows1.youngest_eq_none habsent1]
              rfl
            · rw [or_none]) _)
          (by
            have hcard2 : (shapesIn (update entries1 r
              ⟨some s, (entries1 r).hadCollision⟩)).card = (shapesIn entries1).card + 1 := hcard
            omega)
      refine ⟨entries', ?_, hfilled, happend ▸ hshows', ?_⟩
      · rw [initLoop, hsearch]
        simp only [bind_eq_bind, bind_some, hr1, Option.isNone_none, if_true]
        exact hloop
      · have hcard2 : (shapesIn (update entries1 r
          ⟨some s, (entries1 r).hadCollision⟩)).card = (shapesIn entries1).card + 1 := hcard
        rw [length_cons]
        omega
    | some t =>
      -- an older shape with the same id
      have hid := hsearched.found hr
      have hsame : ∀ id, youngest propid (done ++ [s]) id = youngest propid done id := fun id => by
        rw [youngest_append]
        split_ifs with hs
        · rw [← hs, ← hid, hshows.youngest_eq_some hr]
          rfl
        · rw [or_none]
      obtain ⟨entries', hloop, hfilled, hshows', hcard'⟩ :=
        ih (done ++ [s])
          ⟨h.placed.flagged hsearched.flagged, h.clean.flagged hsearched.flagged⟩
          (fun t => by rw [hsame]; exact hshows1 t) (by omega)
      refine ⟨entries', ?_, hfilled, happend ▸ hshows', by rw [length_cons]; omega⟩
      rw [initLoop, hsearch]
      simp only [bind_eq_bind, bind_some, (hsearched.flagged r).1.trans hr,
        Option.isNone_some, Bool.false_eq_true, if_false]
      exact hloop

lemma copyLoop_spec {oldShift : Nat} {oldTable : ShapeEntries S oldShift}
    (hold : WellPlaced propid hashId oldTable) {rest : List (Slot oldShift)} (hnodup : rest.Nodup)
    (h : Filled propid hashId entries)
    (hnew : ∀ oldspp ∈ rest, ∀ s, (oldTable oldspp).shape = some s → Absent propid entries (propid s))
    (hroom : (shapesIn entries).card + (rest.filterMap fun i => (oldTable i).shape).length <
      capacityOf hashShift) :
    ∃ entries', copyLoop propid hashId oldTable rest entries = some entries' ∧
      Filled propid hashId entries' ∧
      shapesIn entries' = shapesIn entries + ↑(rest.filterMap fun i => (oldTable i).shape) := by
  induction rest generalizing entries with
  | nil => exact ⟨entries, rfl, h, by simp⟩
  | cons oldspp rest ih =>
    obtain ⟨hfirst, hnodup'⟩ := nodup_cons.mp hnodup
    cases hs : (oldTable oldspp).shape with
    | none =>
      rw [filterMap_cons_none (f := fun i => (oldTable i).shape) hs] at hroom ⊢
      obtain ⟨entries', hloop, hrest⟩ :=
        ih hnodup' h (fun i hi => hnew i (mem_cons_of_mem _ hi)) hroom
      refine ⟨entries', ?_, hrest⟩
      rw [copyLoop, hs]
      exact hloop
    | some s =>
      rw [filterMap_cons_some (f := fun i => (oldTable i).shape) hs] at hroom ⊢
      rw [length_cons] at hroom
      obtain ⟨r, entries1, hsearch, hsearched⟩ :=
        h.placed.search (h.clean.exists_free (by omega)) (propid s) true
      have habsent := hnew oldspp mem_cons_self s hs
      have hr : (entries r).shape = none := by
        cases hr : (entries r).shape with
        | none => rfl
        | some t => exact absurd (hsearched.found hr) (habsent r t hr)
      have hr1 : (entries1 r).shape = none := (hsearched.flagged r).1.trans hr
      have hput : shapesIn (update entries1 r ⟨some s, false⟩) = s ::ₘ shapesIn entries := by
        rw [shapesIn_put hr1 rfl, hsearched.flagged.shapesIn_eq]
      obtain ⟨entries', hloop, hfilled, hshapes⟩ := ih hnodup' (h.put hsearched hr false)
        (fun i hi t ht j t' hj => by
          by_cases hjr : j = r
          · subst hjr
            rw [update_self] at hj
            cases hj
            intro hid
            rw [hold.distinct hs ht hid] at hfirst
            exact hfirst hi
          · rw [update_of_ne hjr, (hsearched.flagged j).1] at hj
            exact hnew i (mem_cons_of_mem _ hi) t ht j t' hj)
        (by
          rw [hput, Multiset.card_cons]
          omega)
      refine ⟨entries', ?_, hfilled, ?_⟩
      · rw [copyLoop, hs]
        simp only [hsearch, bind_eq_bind, bind_some]
        exact hloop
      · rw [hshapes, hput, ← Multiset.cons_coe, Multiset.cons_add, Multiset.add_cons]

end

end SpiderMonkey.Vm
