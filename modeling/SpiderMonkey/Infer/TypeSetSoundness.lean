import SpiderMonkey.Infer.TypeSet

/-! # Propagation reaches a closed state

A set that has taken a type has every type that the notification stands for, so that a subset
constraint is either closed for a type or has a notification for it in the pending array. The loop
ends, as a set can only grow so often and a callback is only notified when its set grows.
-/

namespace SpiderMonkey.Infer

open Lib Function List Bool

variable {ι Obj : Type}

/-! ## One set -/

/-- The types that a notification of the first stands for. -/
inductive Implies : InferenceType Obj → InferenceType Obj → Prop
  | refl (type : InferenceType Obj) : Implies type type
  | unknown (type : InferenceType Obj) : Implies .unknown type
  | double : Implies (.primitive .double) (.primitive .int32)
  | anyObject (key : Obj) : Implies .anyObject (.object key)

/-- What `insert` does to a set, when it takes the first type and notifies of the second. -/
inductive Inserts (set : TypeSet ι Obj) :
    InferenceType Obj → TypeSet ι Obj → InferenceType Obj → Prop
  | unknown : Inserts set .unknown { set with flags := fun _ => true }.clearObjects .unknown
  | double (h : set.flags .double = false) :
      Inserts set (.primitive .double) ((set.setFlag .double).setFlag .int32) (.primitive .double)
  | primitive (p : JSValueType) (h : set.flags (primitiveTypeFlag p) = false)
      (hdouble : primitiveTypeFlag p ≠ .double) :
      Inserts set (.primitive p) (set.setFlag (primitiveTypeFlag p)) (.primitive p)
  | unknownObject (type : InferenceType Obj) (himplied : Implies .anyObject type)
      (h : set.flags .anyObject = false) : Inserts set type set.unknownObject .anyObject
  | object (key : Obj) (h : set.objectSet.length + 1 ≠ objectCountLimit) :
      Inserts set (.object key) { set with objectSet := set.objectSet ++ [key] } (.object key)

namespace TypeSet

lemma addObject_inserts [DecidableEq Obj] {set set' : TypeSet ι Obj}
    {objects objects' : TypeObjects Obj} {key : Obj} {type : InferenceType Obj} (hany : set.flags .anyObject = false)
    (h : set.addObject objects key = (set', objects', type)) :
    Inserts set (.object key) set' type := by
  have hunknown : Inserts set (.object key) set.unknownObject .anyObject :=
    .unknownObject (.object key) (.anyObject key) hany
  rw [addObject] at h
  by_cases hlimit : set.objectSet.length + 1 = objectCountLimit
  · rw [if_pos hlimit] at h
    cases h
    exact hunknown
  · have hobject := @Inserts.object _ _ set key hlimit
    rw [if_neg hlimit] at h
    cases hkey : objects.typeObject key with
    | none =>
      rw [hkey] at h
      cases h
      exact hobject
    | some nobject =>
      rw [hkey] at h
      simp only at h
      split_ifs at h <;> cases h
      · exact hunknown
      · exact hunknown
      · exact hobject
      · exact hobject

lemma insert_inserts [DecidableEq Obj] {set set' : TypeSet ι Obj}
    {objects objects' : TypeObjects Obj} {t type : InferenceType Obj} (h : set.insert objects t = some (set', objects', type)) :
    set.unknown = false ∧ Inserts set t set' type := by
  rw [insert.eq_def] at h
  by_cases hknown : set.unknown = true
  · rw [if_pos hknown] at h
    cases h
  · rw [if_neg hknown] at h
    refine ⟨eq_false_iff.mpr hknown, ?_⟩
    cases t with
    | unknown =>
      cases h
      exact .unknown
    | primitive p =>
      simp only at h
      split_ifs at h with hflag hdouble
      · cases h
        have hp : p = .double := by
          cases p <;> first | rfl | cases hdouble
        subst hp
        exact .double (eq_false_iff.mpr hflag)
      · cases h
        exact .primitive p (eq_false_iff.mpr hflag) hdouble
    | anyObject =>
      simp only at h
      split_ifs at h with hflag
      cases h
      exact .unknownObject .anyObject (.refl _) (eq_false_iff.mpr hflag)
    | object key =>
      simp only at h
      split_ifs at h with hflag hmem
      exact addObject_inserts (eq_false_iff.mpr hflag) (Option.some.inj h)

/-- Where `addType` returns early, the set has the type. -/
lemma hasType_of_insert_none [DecidableEq Obj] {set : TypeSet ι Obj} {objects : TypeObjects Obj}
    {t : InferenceType Obj} (h : set.insert objects t = none) : set.hasType t = true := by
  rw [insert.eq_def] at h
  by_cases hknown : set.unknown = true
  · cases t <;> simp [hknown]
  rw [if_neg hknown] at h
  cases t with
  | unknown => cases h
  | primitive p =>
    simp only at h
    split_ifs at h with hflag
    simp [hflag]
  | anyObject =>
    simp only at h
    split_ifs at h with hflag
    simp [hflag]
  | object key =>
    simp only at h
    split_ifs at h with hflag hmem
    · simp [hflag]
    · simp [hmem]

/-- Doubles come with integers, and there are not too many objects. -/
structure Valid (set : TypeSet ι Obj) : Prop where
  double : set.flags .double = true → set.flags .int32 = true
  count : set.objectSet.length < objectCountLimit

lemma valid_empty : (empty : TypeSet ι Obj).Valid :=
  ⟨nofun, Nat.zero_lt_succ _⟩

lemma hasType_of_implies [DecidableEq Obj] {set : TypeSet ι Obj} (hvalid : set.Valid)
    {t u : InferenceType Obj} (h : Implies t u) (ht : set.hasType t = true) : set.hasType u = true := by
  cases h with
  | refl => exact ht
  | unknown =>
    rw [hasType_unknown] at ht
    cases u <;> simp [ht]
  | double =>
    simp only [hasType_primitive, or_eq_true] at ht ⊢
    exact ht.imp id hvalid.double
  | anyObject key =>
    simp only [hasType_anyObject, hasType_object, or_eq_true] at ht ⊢
    exact ht.imp id .inl

/-- A set with more flags and objects has more types. -/
lemma hasType_mono [DecidableEq Obj] (set set' : TypeSet ι Obj)
    (hflags : ∀ flag, set.flags flag = true → set'.flags flag = true)
    (hobjects : ∀ key ∈ set.objectSet, set'.flags .anyObject = true ∨ key ∈ set'.objectSet)
    {t : InferenceType Obj} (h : set.hasType t = true) : set'.hasType t = true := by
  cases t with
  | unknown =>
    rw [hasType_unknown] at h ⊢
    exact hflags _ h
  | primitive p =>
    simp only [hasType_primitive, or_eq_true] at h ⊢
    exact h.imp (hflags _) (hflags _)
  | anyObject =>
    simp only [hasType_anyObject, or_eq_true] at h ⊢
    exact h.imp (hflags _) (hflags _)
  | object key =>
    simp only [hasType_object, or_eq_true, decide_eq_true_eq] at h ⊢
    rcases h with hknown | hany | hmem
    · exact .inl (hflags _ hknown)
    · exact .inr (.inl (hflags _ hany))
    · exact .inr (hobjects key hmem)

lemma flags_setFlag_of {set : TypeSet ι Obj} {flag f : TypeFlag} (h : set.flags f = true) :
    (set.setFlag flag).flags f = true := by
  rw [flags_setFlag, h, ite_self]

end TypeSet

/-! ## How often a set grows -/

/-- The number of flags that are not set. -/
def unset (flags : TypeFlag → Bool) : Nat :=
  (Finset.univ.filter fun flag => flags flag = false).card

lemma unset_update_lt {flags : TypeFlag → Bool} {flag : TypeFlag} (h : flags flag = false) :
    unset (update flags flag true) < unset flags := by
  apply Finset.card_lt_card
  rw [Finset.ssubset_iff_of_subset]
  · refine ⟨flag, Finset.mem_filter.mpr ⟨Finset.mem_univ _, h⟩, fun hmem => ?_⟩
    have hfalse := (Finset.mem_filter.mp hmem).2
    rw [update_self] at hfalse
    cases hfalse
  · intro f hf
    have hfalse := (Finset.mem_filter.mp hf).2
    rw [update_apply] at hfalse
    split_ifs at hfalse
    exact Finset.mem_filter.mpr ⟨Finset.mem_univ _, hfalse⟩

lemma unset_update_le (flags : TypeFlag → Bool) (flag : TypeFlag) :
    unset (update flags flag true) ≤ unset flags := by
  cases h : flags flag with
  | false => exact Nat.le_of_lt (unset_update_lt h)
  | true => rw [← h, update_eq_self]

lemma unset_pos {flags : TypeFlag → Bool} {flag : TypeFlag} (h : flags flag = false) :
    0 < unset flags :=
  Finset.card_pos.mpr ⟨flag, Finset.mem_filter.mpr ⟨Finset.mem_univ _, h⟩⟩

/-- How much a set can still grow: a flag counts more than the objects that it clears. -/
def TypeSet.room (set : TypeSet ι Obj) : Nat :=
  256 * unset set.flags + (objectCountLimit - set.objectSet.length)

namespace Inserts

variable {set set' : TypeSet ι Obj} {t type : InferenceType Obj}

lemma constraintList_eq (h : Inserts set t set' type) :
    set'.constraintList = set.constraintList := by
  cases h <;> rfl

lemma implies (h : Inserts set t set' type) : Implies type t := by
  cases h with
  | unknownObject type himplied h => exact himplied
  | _ => exact .refl _

lemma valid (h : Inserts set t set' type) (hvalid : set.Valid) : set'.Valid := by
  cases h with
  | unknown => exact ⟨fun _ => rfl, Nat.zero_lt_succ _⟩
  | double h => exact ⟨fun _ => rfl, hvalid.count⟩
  | primitive p h hdouble =>
    refine ⟨fun hset => ?_, hvalid.count⟩
    rw [TypeSet.flags_setFlag, if_neg hdouble.symm] at hset
    rw [TypeSet.flags_setFlag, hvalid.double hset, ite_self]
  | unknownObject type himplied h =>
    refine ⟨fun hset => ?_, Nat.zero_lt_succ _⟩
    exact hvalid.double hset
  | object key h =>
    refine ⟨hvalid.double, ?_⟩
    have hcount := hvalid.count
    simp only [length_append, length_singleton]
    omega

/-- The set has what it notifies of. -/
lemma hasType [DecidableEq Obj] (h : Inserts set t set' type) : set'.hasType type = true := by
  cases h with
  | unknown => rfl
  | double h => simp [TypeSet.flags_setFlag, primitiveTypeFlag]
  | primitive p h hdouble => simp [TypeSet.flags_setFlag]
  | unknownObject type himplied h => simp [TypeSet.unknownObject, TypeSet.clearObjects,
      TypeSet.flags_setFlag]
  | object key h => simp

lemma grows [DecidableEq Obj] (h : Inserts set t set' type) {u : InferenceType Obj}
    (hu : set.hasType u = true) : set'.hasType u = true := by
  refine TypeSet.hasType_mono set set' (fun flag hflag => ?_) (fun key hkey => ?_) hu
  · cases h with
    | unknown => rfl
    | double h => exact TypeSet.flags_setFlag_of (TypeSet.flags_setFlag_of hflag)
    | primitive p h hdouble => exact TypeSet.flags_setFlag_of hflag
    | unknownObject type himplied h => exact TypeSet.flags_setFlag_of hflag
    | object key h => exact hflag
  · cases h with
    | unknown => exact .inl rfl
    | double h => exact .inr hkey
    | primitive p h hdouble => exact .inr hkey
    | unknownObject type himplied h =>
      left
      rw [TypeSet.unknownObject, TypeSet.clearObjects, TypeSet.flags_setFlag, if_pos rfl]
    | object key h => exact .inr (mem_append_left _ hkey)

/-- A type that is had through a new flag. -/
lemma hasType_setFlag [DecidableEq Obj] {p : JSValueType} {u : InferenceType Obj}
    (hu : (set.setFlag (primitiveTypeFlag p)).hasType u = true) :
    set.hasType u = true ∨ u = .primitive p := by
  have hunknown : (set.setFlag (primitiveTypeFlag p)).unknown = set.unknown := by
    cases p <;> rfl
  have hany : (set.setFlag (primitiveTypeFlag p)).flags .anyObject = set.flags .anyObject := by
    cases p <;> rfl
  cases u with
  | unknown =>
    left
    rwa [TypeSet.hasType_unknown, hunknown, ← TypeSet.hasType_unknown] at hu
  | primitive q =>
    by_cases hpq : primitiveTypeFlag q = primitiveTypeFlag p
    · right
      cases p <;> cases q <;> first | rfl | cases hpq
    · left
      rwa [TypeSet.hasType_primitive, hunknown, TypeSet.flags_setFlag, if_neg hpq,
        ← TypeSet.hasType_primitive] at hu
  | anyObject =>
    left
    rwa [TypeSet.hasType_anyObject, hunknown, hany, ← TypeSet.hasType_anyObject] at hu
  | object key =>
    left
    rw [TypeSet.hasType_object, hunknown, hany] at hu
    rw [TypeSet.hasType_object]
    exact hu

/-- What is new is implied by the notification. -/
lemma hasType_or_implies [DecidableEq Obj] (h : Inserts set t set' type) {u : InferenceType Obj}
    (hu : set'.hasType u = true) : set.hasType u = true ∨ Implies type u := by
  cases h with
  | unknown => exact .inr (.unknown u)
  | double h =>
    rcases hasType_setFlag (p := .int32) hu with hold | rfl
    · rcases hasType_setFlag (p := .double) hold with hold | rfl
      · exact .inl hold
      · exact .inr (.refl _)
    · exact .inr .double
  | primitive p h hdouble =>
    rcases hasType_setFlag hu with hold | rfl
    · exact .inl hold
    · exact .inr (.refl _)
  | unknownObject type himplied h =>
    cases u with
    | unknown => exact .inl hu
    | primitive q => exact .inl (by cases q <;> exact hu)
    | anyObject => exact .inr (.refl _)
    | object key => exact .inr (.anyObject key)
  | object key h =>
    cases u with
    | object key' =>
      simp only [TypeSet.hasType_object, or_eq_true, decide_eq_true_eq, mem_append,
        mem_singleton] at hu ⊢
      rcases hu with hknown | hany | hmem | rfl
      · exact .inl (.inl hknown)
      · exact .inl (.inr (.inl hany))
      · exact .inl (.inr (.inr hmem))
      · exact .inr (.refl _)
    | _ => exact .inl hu

lemma room_lt (h : Inserts set t set' type) (hvalid : set.Valid) (hknown : set.unknown = false) :
    set'.room < set.room := by
  have hcount := hvalid.count
  rw [TypeSet.room, TypeSet.room]
  simp only [objectCountLimit] at hcount ⊢
  cases h with
  | unknown =>
    have hpos := unset_pos hknown
    have hnone : unset (fun _ => true) = 0 := by decide
    simp only [TypeSet.clearObjects, hnone, length_nil]
    omega
  | double h =>
    have hlt := unset_update_lt h
    have hle := unset_update_le (update set.flags .double true) .int32
    simp only [TypeSet.setFlag]
    omega
  | primitive p h hdouble =>
    have hlt := unset_update_lt h
    simp only [TypeSet.setFlag]
    omega
  | unknownObject type himplied h =>
    have hlt := unset_update_lt h
    simp only [TypeSet.unknownObject, TypeSet.setFlag, TypeSet.clearObjects, length_nil]
    omega
  | object key h =>
    simp only [length_append, length_singleton]
    omega

end Inserts

/-- A new constraint is notified of types that imply all that the set has. -/
lemma TypeSet.exists_existingType [DecidableEq Obj] {set : TypeSet ι Obj}
    (objects : TypeObjects Obj) {u : InferenceType Obj} (hu : set.hasType u = true) :
    ∃ type ∈ set.existingTypes objects, Implies type u := by
  have hprimitive (p : JSValueType) (hp : set.flags (primitiveTypeFlag p) = true) :
      InferenceType.primitive p ∈
        (primitiveTypes.filter fun p => set.flags (primitiveTypeFlag p)).map
          (@InferenceType.primitive Obj) := by
    refine mem_map_of_mem (mem_filter.mpr ⟨?_, hp⟩)
    cases p <;> decide
  rw [TypeSet.existingTypes]
  by_cases hknown : set.unknown = true
  · rw [if_pos hknown]
    exact ⟨.unknown, mem_singleton_self _, .unknown u⟩
  rw [if_neg hknown]
  have hflags : set.unknown = false := eq_false_iff.mpr hknown
  cases u with
  | unknown => exact absurd (by rwa [TypeSet.hasType_unknown] at hu) hknown
  | primitive p =>
    rw [TypeSet.hasType_primitive, hflags, Bool.false_or] at hu
    exact ⟨.primitive p, mem_append_left _ (hprimitive p hu), .refl _⟩
  | anyObject =>
    rw [TypeSet.hasType_anyObject, hflags, Bool.false_or] at hu
    rw [if_pos hu]
    exact ⟨.anyObject, mem_append_right _ (mem_singleton_self _), .refl _⟩
  | object key =>
    simp only [TypeSet.hasType_object, hflags, Bool.false_or, Bool.or_eq_true,
      decide_eq_true_eq] at hu
    by_cases hany : set.flags .anyObject = true
    · rw [if_pos hany]
      exact ⟨.anyObject, mem_append_right _ (mem_singleton_self _), .anyObject key⟩
    · rw [if_neg hany]
      refine ⟨.object key, mem_append_right _ (mem_map_of_mem ?_), .refl _⟩
      exact (objects.perm _).mem_iff.mpr (hu.resolve_left hany)

/-! ## The compartment -/

namespace TypeCompartment

variable [DecidableEq ι] [DecidableEq Obj]

omit [DecidableEq ι] [DecidableEq Obj] in
lemma foldl_addPending {α : Type} (work : α → PendingWork ι Obj) (l : List α)
    (c : TypeCompartment ι Obj) :
    l.foldl (fun c a => c.addPending (work a).constraint (work a).source (work a).type) c =
      { c with pendingArray := (l.map work).reverse ++ c.pendingArray } := by
  induction l generalizing c with
  | nil => rfl
  | cons a l ih =>
    rw [foldl_cons, ih, addPending, map_cons, reverse_cons, append_assoc,
      singleton_append]

/-- What `propagateType` does: nothing, as the set has the type, or the set takes it and its
constraints are notified. -/
lemma propagateType_cases (c : TypeCompartment ι Obj) (s : ι) (t : InferenceType Obj) :
    ((c.sets s).hasType t = true ∧ c.propagateType s t = c) ∨
      ∃ set objects type, Inserts (c.sets s) t set type ∧ (c.sets s).unknown = false ∧
        c.propagateType s t =
          { c with
            sets := update c.sets s set
            objects := objects
            pendingArray :=
              (set.constraintList.map fun constraint => ⟨constraint, s, type⟩).reverse ++
                c.pendingArray } := by
  rw [propagateType]
  cases h : (c.sets s).insert c.objects t with
  | none => exact .inl ⟨TypeSet.hasType_of_insert_none h, rfl⟩
  | some inserted =>
    obtain ⟨set, objects, type⟩ := inserted
    obtain ⟨hknown, hinserts⟩ := TypeSet.insert_inserts h
    refine .inr ⟨set, objects, type, hinserts, hknown, ?_⟩
    exact foldl_addPending (fun constraint => ⟨constraint, s, type⟩) set.constraintList _

lemma propagateConstraint_eq (c : TypeCompartment ι Obj) (s : ι)
    (constraint : TypeConstraint ι) (callExisting : Bool) :
    c.propagateConstraint s constraint callExisting =
      { c with
        sets := update c.sets s
          { c.sets s with constraintList := constraint :: (c.sets s).constraintList }
        pendingArray :=
          (if callExisting then
            (((c.sets s).existingTypes c.objects).map fun type =>
              (⟨constraint, s, type⟩ : PendingWork ι Obj)).reverse
          else []) ++ c.pendingArray } := by
  rw [propagateConstraint]
  cases callExisting with
  | false => rfl
  | true => exact foldl_addPending (fun type => ⟨constraint, s, type⟩) _ _

/-- Whatever a set has it keeps. -/
def Grows (c c' : TypeCompartment ι Obj) : Prop :=
  ∀ s t, (c.sets s).hasType t = true → (c'.sets s).hasType t = true

/-- A notification for a subset constraint stands for the type. -/
def Waits (c : TypeCompartment ι Obj) (target : ι) (t : InferenceType Obj) : Prop :=
  ∃ work ∈ c.pendingArray, work.constraint = .subset target ∧ Implies work.type t

/-- Every type of a set with a subset constraint is in the target or waits for it. -/
def Covered (c : TypeCompartment ι Obj) : Prop :=
  ∀ s target, .subset target ∈ (c.sets s).constraintList → ∀ t, (c.sets s).hasType t = true →
    (c.sets target).hasType t = true ∨ c.Waits target t

/-- Every type of a set with a subset constraint is in the target. -/
def Closed (c : TypeCompartment ι Obj) : Prop :=
  ∀ s target, .subset target ∈ (c.sets s).constraintList → ∀ t, (c.sets s).hasType t = true →
    (c.sets target).hasType t = true

/-- What happens between two rounds: the sets grow, the pending array too, and for every type that
is new behind a subset constraint, or had behind a new one, a notification waits. -/
structure Extends (c c' : TypeCompartment ι Obj) : Prop where
  grows : c.Grows c'
  pending : ∀ work ∈ c.pendingArray, work ∈ c'.pendingArray
  valid : (∀ s, (c.sets s).Valid) → ∀ s, (c'.sets s).Valid
  covers : ∀ s target t, .subset target ∈ (c'.sets s).constraintList →
    (c'.sets s).hasType t = true →
    (.subset target ∈ (c.sets s).constraintList ∧ (c.sets s).hasType t = true) ∨
      c'.Waits target t

variable {c c' : TypeCompartment ι Obj}

omit [DecidableEq ι] [DecidableEq Obj] in
lemma Waits.mono {target : ι} {t : InferenceType Obj}
    (hpending : ∀ work ∈ c.pendingArray, work ∈ c'.pendingArray) (h : c.Waits target t) :
    c'.Waits target t := by
  obtain ⟨work, hmem, hwork⟩ := h
  exact ⟨work, hpending work hmem, hwork⟩

namespace Extends

omit [DecidableEq ι] in
lemma refl (c : TypeCompartment ι Obj) : Extends c c :=
  ⟨fun _ _ h => h, fun _ h => h, id, fun _ _ _ hmem h => .inl ⟨hmem, h⟩⟩

lemma trans {c c' c'' : TypeCompartment ι Obj} (h : Extends c c') (h' : Extends c' c'') :
    Extends c c'' where
  grows s t ht := h'.grows s t (h.grows s t ht)
  pending work hwork := h'.pending work (h.pending work hwork)
  valid hvalid := h'.valid (h.valid hvalid)
  covers s target t hmem ht := by
    rcases h'.covers s target t hmem ht with ⟨hmem, ht⟩ | hwaits
    · exact (h.covers s target t hmem ht).imp id (Waits.mono h'.pending)
    · exact .inr hwaits

lemma foldl {α : Type} {f : TypeCompartment ι Obj → α → TypeCompartment ι Obj}
    (hf : ∀ c a, Extends c (f c a)) (l : List α) (c : TypeCompartment ι Obj) :
    Extends c (l.foldl f c) := by
  induction l generalizing c with
  | nil => exact .refl c
  | cons a l ih => exact (hf c a).trans (ih (f c a))

lemma covered (h : Extends c c') (hc : c.Covered) :
    c'.Covered := by
  intro s target hmem t ht
  rcases h.covers s target t hmem ht with ⟨hmem, ht⟩ | hwaits
  · exact (hc s target hmem t ht).imp (h.grows target t) (Waits.mono h.pending)
  · exact .inr hwaits

end Extends

lemma extends_propagateType (c : TypeCompartment ι Obj) (s : ι) (t : InferenceType Obj) :
    Extends c (c.propagateType s t) := by
  rcases c.propagateType_cases s t with ⟨-, heq⟩ | ⟨set, objects, type, hinserts, -, heq⟩
  · rw [heq]
    exact .refl c
  · rw [heq]
    refine ⟨fun s' u hu => ?_, fun work hwork => mem_append_right _ hwork,
      fun hvalid s' => ?_, fun s' target u hmem hu => ?_⟩
    · simp only [update_apply]
      split_ifs with hs
      · subst hs
        exact hinserts.grows hu
      · exact hu
    · simp only [update_apply]
      split_ifs with hs
      · exact hinserts.valid (hvalid s)
      · exact hvalid s'
    · simp only [update_apply] at hmem hu
      split_ifs at hmem hu with hs
      · subst hs
        rcases hinserts.hasType_or_implies hu with hold | himplied
        · exact .inl ⟨by rwa [hinserts.constraintList_eq] at hmem, hold⟩
        · refine .inr ⟨⟨.subset target, s', type⟩, ?_, rfl, himplied⟩
          exact mem_append_left _ (mem_reverse.mpr (mem_map_of_mem hmem))
      · exact .inl ⟨hmem, hu⟩

/-- After the call the set has the type. -/
lemma hasType_propagateType {c : TypeCompartment ι Obj} {s : ι} {t : InferenceType Obj}
    (hvalid : (c.sets s).Valid) : ((c.propagateType s t).sets s).hasType t = true := by
  rcases c.propagateType_cases s t with ⟨ht, heq⟩ | ⟨set, objects, type, hinserts, -, heq⟩
  · rw [heq]
    exact ht
  · rw [heq]
    simp only [update_self]
    exact TypeSet.hasType_of_implies (hinserts.valid hvalid) hinserts.implies hinserts.hasType

omit [DecidableEq ι] in
lemma hasType_constraintList (set : TypeSet ι Obj) (constraints : List (TypeConstraint ι))
    (t : InferenceType Obj) :
    ({ set with constraintList := constraints } : TypeSet ι Obj).hasType t = set.hasType t := rfl

/-- A new constraint that is notified of the existing types, or is no subset constraint. -/
lemma extends_propagateConstraint (c : TypeCompartment ι Obj) (s : ι)
    {constraint : TypeConstraint ι} {callExisting : Bool}
    (h : callExisting = true ∨ ∀ target, constraint ≠ .subset target) :
    Extends c (c.propagateConstraint s constraint callExisting) := by
  rw [propagateConstraint_eq]
  refine ⟨fun s' u hu => ?_, fun work hwork => mem_append_right _ hwork,
    fun hvalid s' => ?_, fun s' target u hmem hu => ?_⟩
  · simp only [update_apply]
    split_ifs with hs
    · subst hs
      exact hu
    · exact hu
  · simp only [update_apply]
    split_ifs with hs
    · exact ⟨(hvalid s).double, (hvalid s).count⟩
    · exact hvalid s'
  · simp only [update_apply] at hmem hu
    split_ifs at hmem hu with hs
    · subst hs
      rw [hasType_constraintList] at hu
      rcases mem_cons.mp hmem with rfl | hmem
      · obtain rfl | hno := h
        · obtain ⟨type, htype, himplied⟩ := TypeSet.exists_existingType c.objects hu
          refine .inr ⟨⟨.subset target, s', type⟩, ?_, rfl, himplied⟩
          exact mem_append_left _ (mem_reverse.mpr (mem_map_of_mem htype))
        · exact absurd rfl (hno target)
      · exact .inl ⟨hmem, hu⟩
    · exact .inl ⟨hmem, hu⟩

lemma extends_propagate (c : TypeCompartment ι Obj) (e : Call ι Obj) :
    Extends c (c.propagate e) := by
  cases e with
  | addType set type => exact extends_propagateType c set type
  | addSubset set target => exact extends_propagateConstraint c set (.inl rfl)
  | addCallback set calls callExisting =>
    exact extends_propagateConstraint c set (.inr fun _ => nofun)

/-- The state after a notification was taken from the array. -/
lemma extends_newType (c : TypeCompartment ι Obj) (work : PendingWork ι Obj) :
    Extends c (c.newType work) := by
  have hcount : Extends c { c with resolved := c.resolved + 1 } :=
    ⟨fun _ _ h => h, fun _ h => h, id, fun _ _ _ hmem h => .inl ⟨hmem, h⟩⟩
  refine hcount.trans ?_
  rw [newType]
  cases work.constraint with
  | subset target => exact extends_propagateType _ target work.type
  | callback calls =>
    exact Extends.foldl (fun c (call : ι × ι) => extends_propagateConstraint c call.1 (.inl rfl)) _ _

/-- The sets are valid and covered. -/
structure Inv (c : TypeCompartment ι Obj) : Prop where
  valid : ∀ s, (c.sets s).Valid
  covered : c.Covered

lemma Inv.extends (h : c.Inv) (hext : Extends c c') : c'.Inv :=
  ⟨hext.valid h.valid, hext.covered h.covered⟩

lemma grows_resolveStep (h : c.resolveStep = some c') :
    c.Grows c' := by
  rw [resolveStep] at h
  cases hpending : c.pendingArray with
  | nil => rw [hpending] at h; cases h
  | cons work pending =>
    rw [hpending] at h
    obtain rfl := Option.some.inj h
    exact (extends_newType { c with pendingArray := pending } work).grows

lemma pending_of_resolveStep {c : TypeCompartment ι Obj} (h : c.resolveStep = none) :
    c.pendingArray = [] := by
  rw [resolveStep] at h
  split at h
  · assumption
  · cases h

lemma Inv.resolveStep (hinv : c.Inv) (h : c.resolveStep = some c') : c'.Inv := by
  rw [TypeCompartment.resolveStep] at h
  cases hpending : c.pendingArray with
  | nil => rw [hpending] at h; cases h
  | cons work pending =>
    rw [hpending] at h
    obtain rfl := Option.some.inj h
    have hext := extends_newType { c with pendingArray := pending } work
    have hvalid := hext.valid hinv.valid
    refine ⟨hvalid, fun s target hmem t ht => ?_⟩
    rcases hext.covers s target t hmem ht with ⟨hmem, ht⟩ | hwaits
    · rcases hinv.covered s target hmem t ht with hhas | ⟨work', hwork', hsubset, himplied⟩
      · exact .inl (hext.grows target t hhas)
      · rw [hpending] at hwork'
        rcases mem_cons.mp hwork' with rfl | hrest
        · left
          refine TypeSet.hasType_of_implies (hvalid target) himplied ?_
          rw [newType, hsubset]
          exact hasType_propagateType (hinv.valid target)
        · exact .inr ⟨work', hext.pending work' hrest, hsubset, himplied⟩
    · exact .inr hwaits

/-! ## The loop ends -/

def isCallback : TypeConstraint ι → Bool
  | .subset _ => false
  | .callback _ => true

variable [Fintype ι]

/-- How much the sets can grow, the notifications of callbacks, and all notifications. -/
def rank (c : TypeCompartment ι Obj) : Nat × Nat × Nat :=
  (∑ s, (c.sets s).room, c.pendingArray.countP fun work => isCallback work.constraint,
    c.pendingArray.length)

/-- The order of ranks: first how much the sets can grow. -/
def Lower : Nat × Nat × Nat → Nat × Nat × Nat → Prop :=
  Prod.Lex (· < ·) (Prod.Lex (· < ·) (· < ·))

lemma wf_lower : WellFounded Lower :=
  (Prod.lex Nat.lt_wfRel (Prod.lex Nat.lt_wfRel Nat.lt_wfRel)).wf

omit [DecidableEq Obj] in
lemma sum_room_lt {c : TypeCompartment ι Obj} {s : ι} {set : TypeSet ι Obj}
    (h : set.room < (c.sets s).room) :
    ∑ s', (update c.sets s set s').room < ∑ s', (c.sets s').room := by
  refine Finset.sum_lt_sum (fun s' _ => ?_) ⟨s, Finset.mem_univ _, ?_⟩
  · rw [update_apply]
    split_ifs with hs
    · subst hs
      exact Nat.le_of_lt h
    · exact Nat.le_refl _
  · rwa [update_self]

lemma propagateConstraint_subset (c : TypeCompartment ι Obj) (s target : ι) :
    (∑ s', ((c.propagateConstraint s (.subset target) true).sets s').room =
        ∑ s', (c.sets s').room) ∧
      (c.propagateConstraint s (.subset target) true).pendingArray.countP
          (fun work => isCallback work.constraint) =
        c.pendingArray.countP fun work => isCallback work.constraint := by
  rw [propagateConstraint_eq]
  refine ⟨Finset.sum_congr rfl fun s' _ => ?_, ?_⟩
  · simp only [update_apply]
    split_ifs with hs
    · subst hs
      rfl
    · rfl
  · rw [if_pos rfl, countP_append, countP_reverse, countP_map, Nat.add_eq_right,
      countP_eq_zero]
    exact fun _ _ => nofun

lemma foldl_propagateConstraint (calls : List (ι × ι)) (c : TypeCompartment ι Obj) :
    (∑ s, ((calls.foldl (fun c call => c.propagateConstraint call.1 (.subset call.2) true)
        c).sets s).room = ∑ s, (c.sets s).room) ∧
      (calls.foldl (fun c call => c.propagateConstraint call.1 (.subset call.2) true)
          c).pendingArray.countP (fun work => isCallback work.constraint) =
        c.pendingArray.countP fun work => isCallback work.constraint := by
  induction calls generalizing c with
  | nil => exact ⟨rfl, rfl⟩
  | cons call calls ih =>
    obtain ⟨hroom, hcount⟩ := c.propagateConstraint_subset call.1 call.2
    obtain ⟨hrooms, hcounts⟩ := ih (c.propagateConstraint call.1 (.subset call.2) true)
    exact ⟨hrooms.trans hroom, hcounts.trans hcount⟩

lemma lower_resolveStep (hinv : c.Inv) (h : c.resolveStep = some c') : Lower c'.rank c.rank := by
  rw [resolveStep] at h
  cases hpending : c.pendingArray with
  | nil => rw [hpending] at h; cases h
  | cons work pending =>
    rw [hpending] at h
    obtain rfl := Option.some.inj h
    rw [newType, rank, rank, hpending, countP_cons, length_cons]
    cases hwork : work.constraint with
    | subset target =>
      simp only
      rcases propagateType_cases
          { c with pendingArray := pending, resolved := c.resolved + 1 } target work.type with
        ⟨-, heq⟩ | ⟨set, objects, type, hinserts, hknown, heq⟩
      · rw [heq]
        exact .right _ (.right _ (Nat.lt_succ_self _))
      · rw [heq]
        exact .left _ _ (sum_room_lt (hinserts.room_lt (hinv.valid target) hknown))
    | callback calls =>
      simp only
      obtain ⟨hroom, hcount⟩ := foldl_propagateConstraint (calls c.resolved)
        { c with pendingArray := pending, resolved := c.resolved + 1 }
      rw [hroom, hcount]
      refine .right _ (.left _ _ ?_)
      rw [isCallback, if_pos rfl]
      exact Nat.lt_succ_self _

/-! ## Runs of calls -/

/-- The compartments between two calls from outside. -/
inductive Reachable (objects : TypeObjects Obj) : TypeCompartment ι Obj → Prop
  | start : Reachable objects (start objects)
  | call {c c' : TypeCompartment ι Obj} {fuel : Nat} (e : Call ι Obj) :
      Reachable objects c → c.call fuel e = some c' → Reachable objects c'

omit [Fintype ι] in
/-- A call returns with an empty array, and in the invariant. -/
lemma Inv.call {fuel : Nat} {e : Call ι Obj} (hinv : c.Inv) (h : c.call fuel e = some c') :
    c'.Inv ∧ c'.pendingArray = [] ∧ c.Grows c' := by
  have hext := c.extends_propagate e
  have hround (mid mid' : TypeCompartment ι Obj) (hmid : mid.Inv ∧ c.Grows mid)
      (hstep : mid.resolveStep = some mid') : mid'.Inv ∧ c.Grows mid' :=
    ⟨hmid.1.resolveStep hstep, fun s t ht => grows_resolveStep hstep s t (hmid.2 s t ht)⟩
  obtain ⟨⟨hinv', hgrows⟩, hnone⟩ :=
    untilNone_preserves hround ⟨hinv.extends hext, hext.grows⟩ h
  exact ⟨hinv', pending_of_resolveStep hnone, hgrows⟩

lemma Reachable.inv {objects : TypeObjects Obj} {c : TypeCompartment ι Obj}
    (h : Reachable objects c) : c.Inv ∧ c.pendingArray = [] := by
  induction h with
  | start => exact ⟨⟨fun _ => TypeSet.valid_empty, fun _ _ => nofun⟩, rfl⟩
  | call e _ hcall ih =>
    obtain ⟨hinv, hpending, -⟩ := ih.1.call hcall
    exact ⟨hinv, hpending⟩

/-- Every call from outside ends with an empty pending array and every subset constraint closed,
and no step on the way takes a type from a set. -/
theorem propagation_closes {objects : TypeObjects Obj} {c : TypeCompartment ι Obj}
    (h : Reachable objects c) (e : Call ι Obj) :
    (∃ fuel c', c.call fuel e = some c' ∧ c'.pendingArray = [] ∧ c'.Closed ∧ c.Grows c') ∧
      c.Grows (c.propagate e) ∧
      ∀ mid mid' : TypeCompartment ι Obj, mid.resolveStep = some mid' → mid.Grows mid' := by
  refine ⟨?_, (c.extends_propagate e).grows, fun _ _ hstep => grows_resolveStep hstep⟩
  have hinv := h.inv.1
  obtain ⟨fuel, c', hcall, -, -⟩ := exists_untilNone wf_lower Inv rank
    (fun mid mid' hmid hstep => ⟨hmid.resolveStep hstep, lower_resolveStep hmid hstep⟩)
    (hinv.extends (c.extends_propagate e))
  obtain ⟨hinv', hpending, hgrows⟩ := hinv.call hcall
  refine ⟨fuel, c', hcall, hpending, fun s target hmem t ht => ?_, hgrows⟩
  rcases hinv'.covered s target hmem t ht with hhas | ⟨work, hwork, -⟩
  · exact hhas
  · rw [hpending] at hwork
    cases hwork

/-- A double goes round a cycle of two sets. -/
theorem propagation_closes_cycle :
    ∃ (c₁ c₂ c : TypeCompartment Bool Nat) (fuel : Nat),
      (start ⟨fun _ => none, id, fun _ => .refl _⟩).call 1 (.addSubset true false) = some c₁ ∧
      c₁.call 1 (.addSubset false true) = some c₂ ∧
      c₂.call fuel (.addType true (.primitive .double)) = some c ∧
      c.pendingArray = [] ∧ c.Closed ∧ c₂.Grows c := by
  have hfirst := Reachable.call (.addSubset true false)
    (@Reachable.start Bool Nat _ _ ⟨fun _ => none, id, fun _ => .refl _⟩)
    (rfl : call 1 _ _ = some _)
  have hsecond := Reachable.call (.addSubset false true) hfirst (rfl : call 1 _ _ = some _)
  obtain ⟨⟨fuel, c, hcall, hclosed⟩, -, -⟩ :=
    propagation_closes hsecond (.addType true (.primitive .double))
  exact ⟨_, _, c, fuel, rfl, rfl, hcall, hclosed⟩

end TypeCompartment

end SpiderMonkey.Infer
