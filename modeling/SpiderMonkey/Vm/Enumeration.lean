import SpiderMonkey.Vm.DenseArray

/-! # The snapshot of the properties

`Snapshot` and `Enumerate` of `jsiter.cpp`, for prototype chains of native objects and dense arrays
that have no hooks.
-/

namespace SpiderMonkey.Vm.ForIn

open List

inductive Jsid (Atom : Type)
  | int (i : ℕ)
  | atom (a : Atom)
  | defaultXmlNamespace
deriving DecidableEq

/-- The atoms of `atomState` that are looked at. -/
structure AtomState (Atom : Type) where
  protoAtom : Atom
  lengthAtom : Atom

structure PropertyShape (Atom : Type) where
  propid : Jsid Atom
  enumerable : Bool

/-- The shapes from `lastProperty()` on: the last one that was added comes first. -/
structure Scope (Atom : Type) where
  shapes : List (PropertyShape Atom)
  nodup : (shapes.map PropertyShape.propid).Nodup

/-- An object of the chain. What is not a hole in a dense array is below its length. -/
inductive PObject (Atom V : Type)
  | native (scope : Scope Atom)
  | denseArray (array : DenseArray V)
      (below : ∀ i v, array.elements[i]? = some (some v) → i < array.length)

/-- `JSITER_OWNONLY` and `JSITER_HIDDEN`. -/
structure Flags where
  ownOnly : Bool
  hidden : Bool

/-- Whether `ht.add` and `props->append` succeed. -/
structure Allocator (Atom : Type) where
  adds : Finset (Jsid Atom) → Jsid Atom → Bool
  appends : List (Jsid Atom) → Jsid Atom → Bool

/-- `ht` and `props`. -/
abbrev Found (Atom : Type) := Finset (Jsid Atom) × List (Jsid Atom)

variable {Atom V : Type} [DecidableEq Atom] (atoms : AtomState Atom) (alloc : Allocator Atom)
  (flags : Flags)

/-- `ht.add`, which is not necessary at the end of the chain. -/
def addToSet (last : Bool) (ht : Finset (Jsid Atom)) (id : Jsid Atom) :
    Option (Finset (Jsid Atom)) :=
  if flags.ownOnly ∨ last then some ht
  else if alloc.adds ht id then some (insert id ht)
  else none

/-- `Enumerate`, where `last` says that `pobj` has no prototype. -/
def enumerate (last : Bool) (found : Found Atom) (p : PropertyShape Atom) :
    Option (Found Atom) :=
  let (ht, props) := found
  if last ∧ p.propid = .atom atoms.protoAtom then some (ht, props)
  else if ¬ flags.ownOnly ∧ p.propid ∈ ht then some (ht, props)
  else do
    let ht ← addToSet alloc flags last ht p.propid
    if p.enumerable ∨ flags.hidden then
      if alloc.appends props p.propid then some (ht, props ++ [p.propid]) else none
    else some (ht, props)

def enumerateNativeProperties (last : Bool) (scope : Scope Atom) (found : Found Atom) :
    Option (Found Atom) := do
  let initialLength := found.2.length
  let shapes := scope.shapes.filter (·.propid ≠ .defaultXmlNamespace)
  let (ht, props) ← shapes.foldlM (enumerate atoms alloc flags last) found
  some (ht, props.take initialLength ++ (props.drop initialLength).reverse)

/-- The elements that are not holes. -/
def denseElements (array : DenseArray V) : List (PropertyShape Atom) :=
  ((List.range array.elements.length).filter fun i => array.elements[i]?.join.isSome).map
    fun i => ⟨.int i, true⟩

def enumerateDenseArrayProperties (last : Bool) (array : DenseArray V) (found : Found Atom) :
    Option (Found Atom) := do
  let found ← enumerate atoms alloc flags last found ⟨.atom atoms.lengthAtom, false⟩
  if 0 < array.length then
    (denseElements array).foldlM (enumerate atoms alloc flags last) found
  else some found

def enumerateObject (last : Bool) : PObject Atom V → Found Atom → Option (Found Atom)
  | .native scope => enumerateNativeProperties atoms alloc flags last scope
  | .denseArray array _ => enumerateDenseArrayProperties atoms alloc flags last array

/-- `Snapshot` from an object of the chain on. -/
def snapshotFrom : List (PObject Atom V) → Found Atom → Option (List (Jsid Atom))
  | [], (_, props) => some props
  | pobj :: protos, found => do
    let found ← enumerateObject atoms alloc flags protos.isEmpty pobj found
    if flags.ownOnly then some found.2 else snapshotFrom protos found

/-- `Snapshot`, of an object and the prototypes above it. -/
def snapshot (chain : List (PObject Atom V)) : Option (List (Jsid Atom)) :=
  snapshotFrom atoms alloc flags chain (∅, [])

/-! ## What is visible -/

/-- The properties of an object: elements by index, shapes by order of addition. -/
def PObject.own : PObject Atom V → List (PropertyShape Atom)
  | .native scope => scope.shapes.reverse
  | .denseArray array _ => ⟨.atom atoms.lengthAtom, false⟩ :: denseElements array

def PObject.ids (o : PObject Atom V) : List (Jsid Atom) :=
  (o.own atoms).map PropertyShape.propid

/-- The ids that are found from an object, its own ones before those of its prototype that it does
not shadow. -/
def visible : List (PObject Atom V) → List (Jsid Atom)
  | [] => []
  | o :: protos => o.ids atoms ++ (visible protos).filter (· ∉ o.ids atoms)

/-- The first object with a property of the id has it enumerable, or all are asked for. Neither the
`__proto__` of the last object nor the default XML namespace is listed. -/
inductive Listed : List (PObject Atom V) → Jsid Atom → Prop
  | own {o protos p} (hown : p ∈ o.own atoms) (hshown : p.enumerable ∨ flags.hidden)
      (hnamespace : p.propid ≠ .defaultXmlNamespace)
      (hproto : ¬ (protos = [] ∧ p.propid = .atom atoms.protoAtom)) : Listed (o :: protos) p.propid
  | inherited {o protos id} (howns : ¬ flags.ownOnly) (hshadow : id ∉ o.ids atoms)
      (h : Listed protos id) : Listed (o :: protos) id

/-! ## What is listed -/

section

variable {atoms alloc flags} {last : Bool} {ht ht' : Finset (Jsid Atom)}
  {props props' : List (Jsid Atom)}

/-- Whether a property is appended. -/
def Passes (atoms : AtomState Atom) (flags : Flags) (last : Bool) (ht : Finset (Jsid Atom))
    (p : PropertyShape Atom) : Prop :=
  ¬ (last ∧ p.propid = .atom atoms.protoAtom) ∧ (flags.ownOnly ∨ p.propid ∉ ht) ∧
    (p.enumerable ∨ flags.hidden)

instance (p : PropertyShape Atom) : Decidable (Passes atoms flags last ht p) :=
  inferInstanceAs (Decidable (_ ∧ _))

lemma enumerate_spec {p : PropertyShape Atom}
    (h : enumerate atoms alloc flags last (ht, props) p = some (ht', props')) :
    ht' = (if flags.ownOnly ∨ last then ht else insert p.propid ht) ∧
      props' = props ++ if Passes atoms flags last ht p then [p.propid] else [] := by
  unfold enumerate at h
  dsimp only at h
  by_cases hproto : last ∧ p.propid = .atom atoms.protoAtom
  · rw [if_pos hproto] at h
    cases h
    simp [Passes, hproto]
  rw [if_neg hproto] at h
  by_cases hseen : ¬ flags.ownOnly ∧ p.propid ∈ ht
  · rw [if_pos hseen] at h
    cases h
    simp [Passes, hseen, Finset.insert_eq_of_mem]
  rw [if_neg hseen] at h
  obtain ⟨ht'', hadd, happend⟩ := Option.bind_eq_some_iff.1 h
  have hht : ht'' = if flags.ownOnly ∨ last then ht else insert p.propid ht := by
    unfold addToSet at hadd
    split_ifs at hadd ⊢ <;> exact (Option.some.inj hadd).symm
  have hnew : flags.ownOnly ∨ p.propid ∉ ht := by
    by_contra hold
    exact hseen (by simpa using hold)
  split_ifs at happend with hshown happends
  · cases happend
    exact ⟨hht, by rw [if_pos ⟨hproto, hnew, hshown⟩]⟩
  · cases happend
    exact ⟨hht, by rw [if_neg fun h => hshown h.2.2, append_nil]⟩

/-- What the properties of an object leave, if no two are of one id. -/
lemma foldlM_enumerate_spec {ps : List (PropertyShape Atom)}
    (hps : (ps.map PropertyShape.propid).Nodup)
    (h : ps.foldlM (enumerate atoms alloc flags last) (ht, props) = some (ht', props')) :
    ht' = (if flags.ownOnly ∨ last then ht else ht ∪ (ps.map PropertyShape.propid).toFinset) ∧
      props' = props ++ (ps.filter (Passes atoms flags last ht ·)).map PropertyShape.propid := by
  induction ps generalizing ht props with
  | nil =>
    cases h
    simp
  | cons p ps ih =>
    rw [map_cons, nodup_cons] at hps
    rw [List.foldlM_cons] at h
    obtain ⟨⟨ht'', props''⟩, hfirst, hrest⟩ := Option.bind_eq_some_iff.1 h
    obtain ⟨hht, hprops⟩ := enumerate_spec hfirst
    obtain ⟨hht', hprops'⟩ := ih hps.2 hrest
    have hpasses : ∀ q ∈ ps, Passes atoms flags last ht'' q ↔ Passes atoms flags last ht q := by
      intro q hq
      have hne : q.propid ≠ p.propid := by
        intro heq
        exact hps.1 (heq ▸ mem_map_of_mem hq)
      rw [hht]
      split_ifs
      · rfl
      · simp [Passes, hne]
    have hfilter : ps.filter (Passes atoms flags last ht'' ·) =
        ps.filter (Passes atoms flags last ht ·) :=
      filter_congr fun q hq => decide_eq_decide.2 (hpasses q hq)
    rw [hht', hprops', hprops, hfilter, hht, filter_cons]
    split_ifs <;> simp_all [Finset.insert_union]

omit [DecidableEq Atom] in
lemma PObject.nodup_ids (o : PObject Atom V) : (o.ids atoms).Nodup := by
  cases o with
  | native scope =>
    rw [ids, own, map_reverse, nodup_reverse]
    exact scope.nodup
  | denseArray array _ =>
    have hints : ((denseElements array).map PropertyShape.propid : List (Jsid Atom)).Nodup := by
      rw [denseElements, map_map]
      exact (nodup_range.filter _).map fun i j h => Jsid.int.inj h
    exact nodup_cons.2 ⟨by simp [denseElements], hints⟩

/-- The properties that are enumerated. -/
def PObject.enumerated (atoms : AtomState Atom) (o : PObject Atom V) : List (PropertyShape Atom) :=
  (o.own atoms).filter (·.propid ≠ .defaultXmlNamespace)

lemma enumerateObject_spec {o : PObject Atom V}
    (h : enumerateObject atoms alloc flags last o (ht, props) = some (ht', props')) :
    ht' = (if flags.ownOnly ∨ last then ht
      else ht ∪ ((o.enumerated atoms).map PropertyShape.propid).toFinset) ∧
    props' = props ++
      ((o.enumerated atoms).filter (Passes atoms flags last ht ·)).map PropertyShape.propid := by
  have hnodup := ((filter_sublist (p := fun p => decide (p.propid ≠ .defaultXmlNamespace))
    (l := o.own atoms)).map PropertyShape.propid).nodup o.nodup_ids
  cases o with
  | native scope =>
    obtain ⟨⟨ht'', props''⟩, hfold, hreverse⟩ := Option.bind_eq_some_iff.1 h
    cases hreverse
    have hshapes := (filter_sublist (p := fun p => decide (p.propid ≠ .defaultXmlNamespace))
      (l := scope.shapes)).map PropertyShape.propid |>.nodup scope.nodup
    obtain ⟨hht, hprops⟩ := foldlM_enumerate_spec hshapes hfold
    refine ⟨?_, ?_⟩
    · rw [hht, PObject.enumerated, PObject.own, filter_reverse, map_reverse,
        List.toFinset_reverse]
    · simp [hprops, PObject.enumerated, PObject.own]
  | denseArray array below =>
    have hempty : ¬ 0 < array.length → (denseElements array : List (PropertyShape Atom)) = [] := by
      intro hlength
      rw [denseElements, filter_eq_nil_iff.2, map_nil]
      intro i _ hsome
      obtain ⟨v, hv⟩ := Option.isSome_iff_exists.1 hsome
      exact hlength (Nat.zero_lt_of_lt (below i v (Option.join_eq_some_iff.1 hv)))
    have hself : PObject.enumerated atoms (.denseArray array below) =
        ⟨.atom atoms.lengthAtom, false⟩ :: denseElements array := by
      simp [PObject.enumerated, PObject.own, denseElements]
      rintro _ i _ _ rfl
      nofun
    rw [hself]
    have hfold : (⟨.atom atoms.lengthAtom, false⟩ :: denseElements array).foldlM
        (enumerate atoms alloc flags last) (ht, props) = some (ht', props') := by
      rw [List.foldlM_cons, ← h]
      simp only [enumerateObject, enumerateDenseArrayProperties]
      split_ifs with hlength
      · rfl
      · rw [hempty hlength]
        rfl
    exact foldlM_enumerate_spec (hself ▸ hnodup) hfold

omit [DecidableEq Atom] in
lemma Listed.ne_namespace {chain : List (PObject Atom V)} {id : Jsid Atom}
    (h : Listed atoms flags chain id) : id ≠ .defaultXmlNamespace := by
  induction h with
  | own _ _ hnamespace _ => exact hnamespace
  | inherited _ _ _ ih => exact ih

lemma snapshotFrom_spec {chain : List (PObject Atom V)}
    (h : snapshotFrom atoms alloc flags chain (ht, props) = some props') :
    ∃ new, props' = props ++ new ∧ new.Nodup ∧ new.Sublist (visible atoms chain) ∧
      ∀ id, id ∈ new ↔ (flags.ownOnly ∨ id ∉ ht) ∧ Listed atoms flags chain id := by
  induction chain generalizing ht props with
  | nil =>
    cases h
    exact ⟨[], (append_nil _).symm, .nil, .slnil, fun id => ⟨nofun, fun h => nomatch h.2⟩⟩
  | cons o protos ih =>
    obtain ⟨⟨ht', props''⟩, hobject, hrest⟩ := Option.bind_eq_some_iff.1 h
    obtain ⟨hht, hprops⟩ := enumerateObject_spec hobject
    generalize hfirst : List.map PropertyShape.propid _ = first at hprops
    have hsub : first.Sublist (o.ids atoms) := by
      rw [← hfirst]
      exact (filter_sublist.trans filter_sublist).map _
    have hown : ∀ id, id ∈ first ↔ (flags.ownOnly ∨ id ∉ ht) ∧ ∃ p ∈ o.own atoms, p.propid = id ∧
        (p.enumerable ∨ flags.hidden) ∧ id ≠ .defaultXmlNamespace ∧
        ¬ (protos = [] ∧ id = .atom atoms.protoAtom) := by
      intro id
      rw [← hfirst]
      simp only [mem_map, mem_filter, PObject.enumerated, decide_eq_true_iff, Passes,
        List.isEmpty_iff]
      constructor
      · rintro ⟨p, ⟨⟨hp, hnamespace⟩, hproto, hnew, hshown⟩, rfl⟩
        exact ⟨hnew, p, hp, rfl, hshown, hnamespace, hproto⟩
      · rintro ⟨hnew, p, hp, rfl, hshown, hnamespace, hproto⟩
        exact ⟨p, ⟨⟨hp, hnamespace⟩, hproto, hnew, hshown⟩, rfl⟩
    by_cases howns : flags.ownOnly
    · rw [if_pos howns] at hrest
      cases hrest
      refine ⟨first, hprops, hsub.nodup o.nodup_ids, hsub.trans (sublist_append_left _ _), ?_⟩
      intro id
      rw [hown]
      refine and_congr_right fun _ => ⟨?_, ?_⟩
      · rintro ⟨p, hp, rfl, hshown, hnamespace, hproto⟩
        exact .own hp hshown hnamespace hproto
      · rintro (⟨hp, hshown, hnamespace, hproto⟩ | ⟨hfalse⟩)
        · exact ⟨_, hp, rfl, hshown, hnamespace, hproto⟩
        · exact absurd howns hfalse
    · rw [if_neg howns] at hrest
      obtain ⟨new, hnew, hnodup, hvisible, hmem⟩ := ih hrest
      have hinherited : ∀ id, id ∈ new ↔
          (id ∉ ht ∧ id ∉ o.ids atoms) ∧ Listed atoms flags protos id := by
        intro id
        rw [hmem, or_iff_right howns]
        refine and_congr_left fun hlisted => ?_
        have hends : protos.isEmpty = false := by cases hlisted <;> rfl
        have hids : id ∈ (o.enumerated atoms).map PropertyShape.propid ↔ id ∈ o.ids atoms := by
          simp only [PObject.enumerated, PObject.ids, mem_map, mem_filter]
          constructor
          · rintro ⟨p, ⟨hp, -⟩, rfl⟩
            exact ⟨p, hp, rfl⟩
          · rintro ⟨p, hp, rfl⟩
            exact ⟨p, ⟨hp, by simpa using hlisted.ne_namespace⟩, rfl⟩
        simp [hht, howns, hends, ← hids]
      refine ⟨first ++ new, by rw [hnew, hprops, append_assoc], ?_, ?_, ?_⟩
      · refine nodup_append.2 ⟨hsub.nodup o.nodup_ids, hnodup, ?_⟩
        rintro id hfst _ hnew rfl
        exact ((hinherited id).1 hnew).1.2 (hsub.subset hfst)
      · refine hsub.append ?_
        have hfilter : new.filter (· ∉ o.ids atoms) = new :=
          filter_eq_self.2 fun id hid => decide_eq_true ((hinherited id).1 hid).1.2
        exact hfilter ▸ hvisible.filter _
      · intro id
        rw [mem_append, hown, hinherited]
        constructor
        · rintro (⟨hnew, p, hp, rfl, hshown, hnamespace, hproto⟩ | ⟨⟨hnew, hshadow⟩, hlisted⟩)
          · exact ⟨hnew, .own hp hshown hnamespace hproto⟩
          · exact ⟨.inr hnew, .inherited howns hshadow hlisted⟩
        · rintro ⟨hnew, ⟨hp, hshown, hnamespace, hproto⟩ | ⟨-, hshadow, hlisted⟩⟩
          · exact .inl ⟨hnew, _, hp, rfl, hshown, hnamespace, hproto⟩
          · exact .inr ⟨⟨hnew.resolve_left howns, hshadow⟩, hlisted⟩

/-- Every id is listed once, and only if its property is to be seen, in the order in which they are
visible. -/
lemma snapshot_spec {chain : List (PObject Atom V)}
    (h : snapshot atoms alloc flags chain = some props) :
    props.Nodup ∧ props.Sublist (visible atoms chain) ∧
      ∀ id, id ∈ props ↔ Listed atoms flags chain id := by
  obtain ⟨new, rfl, hnodup, hvisible, hmem⟩ := snapshotFrom_spec h
  exact ⟨hnodup, hvisible, fun id => by simp [hmem]⟩

end

/-- An object with the property `1`, and the dense array `[7]` behind it. -/
def twoObjects : List (PObject ℕ ℕ) :=
  [.native ⟨[⟨.atom 1, true⟩], nodup_singleton _⟩,
    .denseArray ⟨[some 7], 1, 1, false⟩ fun i v h => by
      rcases i with - | i
      · exact Nat.one_pos
      · cases h]

lemma snapshot_spec_twoObjects :
    ([.atom 1, .int 0] : List (Jsid ℕ)).Nodup ∧
      List.Sublist [.atom 1, .int 0] (visible ⟨8, 9⟩ twoObjects) ∧
      ∀ id, id ∈ [.atom 1, .int 0] ↔ Listed ⟨8, 9⟩ ⟨false, false⟩ twoObjects id :=
  have h : snapshot ⟨8, 9⟩ ⟨fun _ _ => true, fun _ _ => true⟩ ⟨false, false⟩ twoObjects =
      some [.atom 1, .int 0] := by decide
  snapshot_spec h

/-- The property for the default XML namespace is not listed, even if all are asked for. -/
lemma snapshot_hides : ¬ ∀ (o : PObject ℕ ℕ) (props : List (Jsid ℕ)),
    snapshot ⟨8, 9⟩ ⟨fun _ _ => true, fun _ _ => true⟩ ⟨true, true⟩ [o] = some props →
      ∀ p ∈ o.own ⟨8, 9⟩, p.propid ∈ props := by
  intro h
  have hlisted := h (.native ⟨[⟨.defaultXmlNamespace, false⟩], nodup_singleton _⟩) [] rfl _
    (.head _)
  cases hlisted

end SpiderMonkey.Vm.ForIn
