import SpiderMonkey.Vm.ArrayLength

/-! # The length is above every index

A run keeps every index property below the length, as long as no length assignment that goes over
the properties comes on one that is not enumerable or permanent.
-/

namespace SpiderMonkey.Vm

open List

variable {α : Type}

/-! ## Properties of a slow array -/

namespace SlowArray

lemma lookup_cons_ite (q : Nat × ElementProperty α) (props : List (Nat × ElementProperty α))
    (i : Nat) : (q :: props).lookup i = if i = q.1 then some q.2 else props.lookup i := by
  obtain ⟨k, p⟩ := q
  rw [lookup_cons]
  by_cases h : i = k
  · rw [if_pos h, beq_iff_eq.mpr h]
  · rw [if_neg h, beq_eq_false_iff_ne.mpr h]

lemma lookup_map_replace (props : List (Nat × ElementProperty α)) (index : Nat)
    (p : ElementProperty α) (i : Nat) :
    (props.map fun q => if q.1 = index then (index, p) else q).lookup i =
      if i = index then (props.lookup index).map fun _ => p else props.lookup i := by
  induction props with
  | nil => rw [map_nil, lookup_nil, lookup_nil, Option.map_none, ite_self]
  | cons q props ih =>
    rw [map_cons, lookup_cons_ite, lookup_cons_ite, lookup_cons_ite, ih]
    by_cases hq : q.1 = index
    · rw [if_pos hq, if_pos hq.symm, hq]
      split_ifs <;> rfl
    · rw [if_neg hq, if_neg (Ne.symm hq)]
      by_cases hi : i = index
      · rw [if_pos hi, hi, if_neg (Ne.symm hq), if_pos rfl]
      · rw [if_neg hi, if_neg hi]

@[simp] lemma lookup_putProperty (s : SlowArray α) (index : Nat) (p : ElementProperty α)
    (i : Nat) : (s.putProperty index p).lookup i = if i = index then some p else s.lookup i := by
  rw [putProperty, lookup]
  by_cases h : (s.lookup index).isSome = true
  · rw [if_pos h, lookup_map_replace]
    obtain ⟨old, hold⟩ := Option.isSome_iff_exists.mp h
    rw [lookup] at hold
    rw [hold, Option.map_some, lookup]
  · rw [if_neg h, lookup_cons_ite, lookup]

@[simp] lemma lookup_removeProperty (s : SlowArray α) (index i : Nat) :
    (s.removeProperty index).lookup i = if i = index then none else s.lookup i := by
  rw [removeProperty, lookup, lookup]
  induction s.props with
  | nil => simp
  | cons q props ih =>
    rw [lookup_cons_ite]
    by_cases hq : q.1 = index
    · rw [filter_cons_of_neg (by simpa using hq), ih, hq]
      split_ifs <;> rfl
    · rw [filter_cons_of_pos (by simpa using hq), lookup_cons_ite, ih]
      by_cases hi : i = index
      · rw [if_pos hi, if_pos hi, hi, if_neg (Ne.symm hq)]
      · rw [if_neg hi, if_neg hi]

@[simp] lemma lookup_addProperty (s : SlowArray α) (index i : Nat) :
    (s.addProperty index).lookup i = s.lookup i := by
  rw [addProperty]
  split_ifs <;> rfl

/-- Every index property is below a bound. -/
def Below (s : SlowArray α) (bound : Nat) : Prop :=
  ∀ i ≤ maxArrayIndex, ∀ p, s.lookup i = some p → i < bound

variable {s : SlowArray α}

/-- A property that is put is below the length once `slowarray_addProperty` ran. -/
lemma below_addProperty (h : s.Below s.length) (index : Nat) (p : ElementProperty α) :
    ((s.putProperty index p).addProperty index).Below
      ((s.putProperty index p).addProperty index).length := by
  intro i hi q hq
  have hlength : s.length ≤ ((s.putProperty index p).addProperty index).length := by
    rw [addProperty]
    split_ifs with hmax hgrow
    · exact Nat.le_refl _
    · exact Nat.le_succ_of_le hgrow
    · exact Nat.le_refl _
  rw [lookup_addProperty, lookup_putProperty] at hq
  by_cases hindex : i = index
  · rw [addProperty]
    split_ifs with hmax hgrow
    · omega
    · exact Nat.lt_succ_of_le (Nat.le_of_eq hindex)
    · omega
  · rw [if_neg hindex] at hq
    exact Nat.lt_of_lt_of_le (h i hi q hq) hlength

/-- Deleting takes the property away or leaves the array as it was. -/
lemma deleteGeneric_cases (call : ArrayCall) (s : SlowArray α) (index : Nat) :
    (s.deleteGeneric call index = (.done, s) ∧ s.lookup index = none) ∨
      (s.deleteGeneric call index = (.refused, s) ∧
        ∃ p, s.lookup index = some p ∧ p.attrs.permanent = true) ∨
      s.deleteGeneric call index = (.failed, s) ∨
      ((s.deleteGeneric call index = (.failed, s.removeProperty index) ∨
          s.deleteGeneric call index = (.done, s.removeProperty index)) ∧
        ∃ p, s.lookup index = some p ∧ p.attrs.permanent = false) := by
  rw [deleteGeneric]
  cases h : s.lookup index with
  | none => exact .inl ⟨rfl, rfl⟩
  | some p =>
    right
    simp only
    cases hpermanent : p.attrs.permanent with
    | true => exact .inl ⟨rfl, p, rfl, hpermanent⟩
    | false =>
      right
      cases call.removesProperty index with
      | false => exact .inl rfl
      | true =>
        right
        cases call.suppresses index with
        | false => exact ⟨.inl rfl, p, rfl, hpermanent⟩
        | true => exact ⟨.inr rfl, p, rfl, hpermanent⟩

lemma below_removeProperty {bound : Nat} (h : s.Below bound) (index : Nat) :
    (s.removeProperty index).Below bound := by
  intro i hi p hp
  rw [lookup_removeProperty] at hp
  split_ifs at hp
  exact h i hi p hp

lemma Below.mono {bound bound' : Nat} (h : s.Below bound) (hle : bound ≤ bound') :
    s.Below bound' :=
  fun i hi p hp => Nat.lt_of_lt_of_le (h i hi p hp) hle

lemma below_setLength {bound : Nat} (h : s.Below bound) (length : Nat) :
    ({ s with length := length } : SlowArray α).Below bound := h

/-- What an assignment of a smaller length leaves behind: the properties below the length, which is
the new one or just above the last property that is permanent. -/
structure ShrunkTo (s : SlowArray α) (newlen len : Nat) (s' : SlowArray α) : Prop where
  le : newlen ≤ len
  length : s'.length = len
  lookup : ∀ i ≤ maxArrayIndex, s'.lookup i = if i < len then s.lookup i else none
  deleted : ∀ i ≤ maxArrayIndex, len ≤ i → ∀ p, s.lookup i = some p → p.attrs.permanent = false
  stops : len = newlen ∨ ∃ p, s.lookup (len - 1) = some p ∧ p.attrs.permanent = true

lemma ShrunkTo.of_below {len : Nat} (h : s.Below len) :
    s.ShrunkTo len len { s with length := len } where
  le := Nat.le_refl _
  length := rfl
  lookup i hi := by
    split_ifs with hlt
    · rfl
    · cases hp : s.lookup i with
      | none => exact hp
      | some p => exact absurd (h i hi p hp) hlt
  deleted i hi hle p hp := absurd (h i hi p hp) (Nat.not_lt_of_le hle)
  stops := .inl rfl

/-- An index from the length on that is not there, or was deleted, makes no difference. -/
lemma ShrunkTo.of_gone {s s' s'' : SlowArray α} {newlen len k : Nat}
    (hlookup : ∀ i, s'.lookup i = if i = k then none else s.lookup i)
    (hdeleted : ∀ p, s.lookup k = some p → p.attrs.permanent = false) (hle : len ≤ k)
    (h : s'.ShrunkTo newlen len s'') : s.ShrunkTo newlen len s'' where
  le := h.le
  length := h.length
  lookup i hi := by
    rw [h.lookup i hi, hlookup]
    split_ifs with hlt heq
    · omega
    · rfl
    · rfl
  deleted i hi hlei p hp := by
    by_cases heq : i = k
    · subst heq
      exact hdeleted p hp
    · refine h.deleted i hi hlei p ?_
      rw [hlookup, if_neg heq]
      exact hp
  stops := by
    refine h.stops.imp id ?_
    rintro ⟨p, hp, hpermanent⟩
    rw [hlookup] at hp
    split_ifs at hp
    exact ⟨p, hp, hpermanent⟩

lemma Below.of_gone {s s' : SlowArray α} {k : Nat} (h : s.Below (k + 1))
    (hlookup : ∀ i, s'.lookup i = if i = k then none else s.lookup i) : s'.Below k := by
  intro i hi p hp
  rw [hlookup] at hp
  split_ifs at hp with heq
  have hlt := h i hi p hp
  omega

/-- The loop that deletes one index after the other. -/
lemma deleteLoop_spec (call : ArrayCall) {newlen oldlen : Nat} (hlt : newlen < oldlen)
    (hbelow : s.Below oldlen) :
    (s.deleteLoop call newlen oldlen).2.Below (s.deleteLoop call newlen oldlen).2.length ∧
      ((s.deleteLoop call newlen oldlen).1 ≠ .failed →
        ∃ len ≤ oldlen, s.ShrunkTo newlen len (s.deleteLoop call newlen oldlen).2) := by
  induction oldlen generalizing s with
  | zero => exact absurd hlt (Nat.not_lt_zero _)
  | succ k ih =>
    -- the rest of the loop, behind an index that is not there or was deleted
    have hrest {s' : SlowArray α} {r : ArrayResult × SlowArray α}
        (hlookup : ∀ i, s'.lookup i = if i = k then none else s.lookup i)
        (hdeleted : ∀ p, s.lookup k = some p → p.attrs.permanent = false)
        (hr : r = if k = newlen then (.done, { s' with length := newlen })
          else s'.deleteLoop call newlen k) :
        r.2.Below r.2.length ∧ (r.1 ≠ .failed → ∃ len ≤ k + 1, s.ShrunkTo newlen len r.2) := by
      have hbelow' := hbelow.of_gone hlookup
      by_cases hk : k = newlen
      · rw [if_pos hk] at hr
        subst hk hr
        exact ⟨hbelow', fun _ => ⟨k, Nat.le_succ k,
          .of_gone hlookup hdeleted (Nat.le_refl k) (.of_below hbelow')⟩⟩
      · rw [if_neg hk] at hr
        subst hr
        obtain ⟨hbelow'', hshrunk⟩ := ih (by omega) hbelow'
        refine ⟨hbelow'', fun hres => ?_⟩
        obtain ⟨len, hle, hlen⟩ := hshrunk hres
        exact ⟨len, Nat.le_succ_of_le hle, .of_gone hlookup hdeleted hle hlen⟩
    rw [deleteLoop]
    cases hlimit : call.withinLimit k with
    | false => exact ⟨below_setLength hbelow _, fun h => absurd rfl h⟩
    | true =>
      simp only [Bool.not_true, Bool.false_eq_true, if_false]
      rcases deleteGeneric_cases call s k with ⟨heq, hnone⟩ | ⟨heq, p, hp, hpermanent⟩ | heq |
        ⟨heq | heq, p, hp, hpermanent⟩
      · rw [heq]
        refine hrest (fun i => ?_) (fun p hp => ?_) rfl
        · split_ifs with hi
          · rw [hi, hnone]
          · rfl
        · rw [hnone] at hp
          cases hp
      · rw [heq]
        have hself := ShrunkTo.of_below hbelow
        exact ⟨below_setLength hbelow _, fun _ => ⟨k + 1, Nat.le_refl _,
          ⟨Nat.le_of_lt hlt, rfl, hself.lookup, hself.deleted, .inr ⟨p, hp, hpermanent⟩⟩⟩⟩
      · rw [heq]
        exact ⟨below_setLength hbelow _, fun h => absurd rfl h⟩
      · rw [heq]
        exact ⟨below_setLength (below_removeProperty hbelow k) _, fun h => absurd rfl h⟩
      · rw [heq]
        refine hrest (lookup_removeProperty s k) (fun q hq => ?_) rfl
        rw [hp] at hq
        cases hq
        exact hpermanent

/-- The properties from a new length on can all be deleted, and are all enumerated. -/
def Sweepable (s : SlowArray α) (newlen : Nat) : Prop :=
  ∀ i ≤ maxArrayIndex, newlen ≤ i → ∀ p, s.lookup i = some p →
    p.attrs.enumerate = true ∧ p.attrs.permanent = false

/-- The loop over the properties takes away some from the new length on. If it ends, these are all
that it goes over. -/
lemma sweepLoop_spec (call : ArrayCall) (newlen gap : Nat)
    (props : List (Nat × ElementProperty α)) (hsweep : s.Sweepable newlen) :
    (∀ i, (s.sweepLoop call newlen gap props).2.lookup i = s.lookup i ∨
        newlen ≤ i ∧ (s.sweepLoop call newlen gap props).2.lookup i = none) ∧
      (((s.sweepLoop call newlen gap props).1 = .failed ∧
          (s.sweepLoop call newlen gap props).2.length = s.length) ∨
        (s.sweepLoop call newlen gap props).1 = .done ∧
          (s.sweepLoop call newlen gap props).2.length = newlen ∧
          ∀ q ∈ props, q.2.attrs.enumerate = true → q.1 ≤ maxArrayIndex → newlen ≤ q.1 →
            q.1 - newlen < gap → (s.sweepLoop call newlen gap props).2.lookup q.1 = none) := by
  induction props generalizing s with
  | nil =>
    rw [sweepLoop]
    cases call.withinLimit 0 with
    | false => exact ⟨fun _ => .inl rfl, .inl ⟨rfl, rfl⟩⟩
    | true => exact ⟨fun _ => .inl rfl, .inr ⟨rfl, rfl, fun _ => nofun⟩⟩
  | cons q rest ih =>
    -- the rest of the loop, from an array without some of the properties
    have hrest {s' : SlowArray α} {r : ArrayResult × SlowArray α}
        (hlookup : ∀ i, s'.lookup i = s.lookup i ∨ newlen ≤ i ∧ s'.lookup i = none)
        (hlength : s'.length = s.length)
        (hq : q.2.attrs.enumerate = true → q.1 ≤ maxArrayIndex → newlen ≤ q.1 →
          q.1 - newlen < gap → s'.lookup q.1 = none)
        (hr : r = s'.sweepLoop call newlen gap rest) :
        (∀ i, r.2.lookup i = s.lookup i ∨ newlen ≤ i ∧ r.2.lookup i = none) ∧
          ((r.1 = .failed ∧ r.2.length = s.length) ∨
            r.1 = .done ∧ r.2.length = newlen ∧
              ∀ q' ∈ q :: rest, q'.2.attrs.enumerate = true → q'.1 ≤ maxArrayIndex →
                newlen ≤ q'.1 → q'.1 - newlen < gap → r.2.lookup q'.1 = none) := by
      subst hr
      have hsweep' : s'.Sweepable newlen := by
        intro i hi hle p hp
        rcases hlookup i with hsame | ⟨-, hnone⟩
        · exact hsweep i hi hle p (hsame ▸ hp)
        · rw [hnone] at hp
          cases hp
      obtain ⟨hsub, hend⟩ := ih hsweep'
      refine ⟨fun i => ?_, hend.imp (fun h => ⟨h.1, h.2.trans hlength⟩) fun h =>
        ⟨h.1, h.2.1, fun q' hq' henum hmax hle hgap => ?_⟩⟩
      · rcases hsub i with hsame | hgone
        · rw [hsame]
          exact hlookup i
        · exact .inr hgone
      · rcases mem_cons.mp hq' with rfl | hmem
        · rcases hsub q'.1 with hsame | ⟨-, hnone⟩
          · rw [hsame]
            exact hq henum hmax hle hgap
          · exact hnone
        · exact h.2.2 q' hmem henum hmax hle hgap
    rw [sweepLoop]
    cases henum : q.2.attrs.enumerate with
    | false =>
      refine hrest (fun _ => .inl rfl) rfl (fun h => ?_) rfl
      rw [henum] at h
      cases h
    | true =>
      simp only [Bool.not_true, Bool.false_eq_true, if_false]
      cases hlimit : call.withinLimit (rest.length + 1) with
      | false => exact ⟨fun _ => .inl rfl, .inl ⟨rfl, rfl⟩⟩
      | true =>
        simp only [Bool.not_true, Bool.false_eq_true, if_false]
        by_cases hrange : q.1 ≤ maxArrayIndex ∧ newlen ≤ q.1 ∧ q.1 - newlen < gap
        · rw [if_pos hrange]
          have hremoved (i : Nat) : (s.removeProperty q.1).lookup i = s.lookup i ∨
              newlen ≤ i ∧ (s.removeProperty q.1).lookup i = none := by
            rw [lookup_removeProperty]
            split_ifs with hi
            · exact .inr ⟨hi ▸ hrange.2.1, rfl⟩
            · exact .inl rfl
          rcases deleteGeneric_cases call s q.1 with ⟨heq, hnone⟩ | ⟨heq, p, hp, hpermanent⟩ | heq |
            ⟨heq | heq, p, hp, hpermanent⟩
          · rw [heq]
            exact hrest (fun _ => .inl rfl) rfl (fun _ _ _ _ => hnone) rfl
          · rw [(hsweep q.1 hrange.1 hrange.2.1 p hp).2] at hpermanent
            cases hpermanent
          · rw [heq]
            exact ⟨fun _ => .inl rfl, .inl ⟨rfl, rfl⟩⟩
          · rw [heq]
            exact ⟨hremoved, .inl ⟨rfl, rfl⟩⟩
          · rw [heq]
            refine hrest hremoved rfl (fun _ _ _ _ => ?_) rfl
            rw [lookup_removeProperty, if_pos rfl]
        · rw [if_neg hrange]
          exact hrest (fun _ => .inl rfl) rfl
            (fun _ hmax hle hgap => absurd ⟨hmax, hle, hgap⟩ hrange) rfl

lemma mem_of_lookup {props : List (Nat × ElementProperty α)} {i : Nat} {p : ElementProperty α}
    (h : props.lookup i = some p) : (i, p) ∈ props := by
  induction props with
  | nil => cases h
  | cons q props ih =>
    rw [lookup_cons_ite] at h
    split_ifs at h with hi
    · cases h
      rw [hi]
      exact mem_cons_self
    · exact mem_cons_of_mem _ (ih h)

/-- The assignment that goes over all properties. -/
lemma sweep_spec (call : ArrayCall) {newlen : Nat} (hlt : newlen < s.length)
    (hbelow : s.Below s.length) (hsweep : s.Sweepable newlen) :
    (s.sweepLoop call newlen (s.length - newlen) s.props).2.Below
        (s.sweepLoop call newlen (s.length - newlen) s.props).2.length ∧
      ((s.sweepLoop call newlen (s.length - newlen) s.props).1 ≠ .failed →
        s.ShrunkTo newlen newlen (s.sweepLoop call newlen (s.length - newlen) s.props).2) := by
  obtain ⟨hsub, hend⟩ := sweepLoop_spec call newlen (s.length - newlen) s.props hsweep
  rcases hend with ⟨hfailed, hlength⟩ | ⟨hdone, hlength, hgone⟩
  · refine ⟨fun i hi p hp => ?_, fun h => absurd hfailed h⟩
    rw [hlength]
    rcases hsub i with hsame | ⟨-, hnone⟩
    · exact hbelow i hi p (hsame ▸ hp)
    · rw [hnone] at hp
      cases hp
  · have hnone (i : Nat) (hi : i ≤ maxArrayIndex) (hle : newlen ≤ i) :
        (s.sweepLoop call newlen (s.length - newlen) s.props).2.lookup i = none := by
      rcases hsub i with hsame | ⟨-, hnone⟩
      · cases hp : s.lookup i with
        | none => rw [hsame, hp]
        | some p =>
          have hilt := hbelow i hi p hp
          exact hgone (i, p) (mem_of_lookup hp) (hsweep i hi hle p hp).1 hi hle (by omega)
      · exact hnone
    refine ⟨fun i hi p hp => ?_, fun _ => ⟨Nat.le_refl _, hlength, fun i hi => ?_,
      fun i hi hle p hp => (hsweep i hi hle p hp).2, .inl rfl⟩⟩
    · rw [hlength]
      by_contra hle
      rw [hnone i hi (Nat.le_of_not_lt hle)] at hp
      cases hp
    · split_ifs with hilt
      · rcases hsub i with hsame | ⟨hle, -⟩
        · exact hsame
        · omega
      · exact hnone i hi (Nat.le_of_not_lt hilt)

end SlowArray

/-! ## Conversion -/

/-- The properties that are added are those of the elements. -/
lemma lookup_addElements {call : ArrayCall} {elems : List (Option α)} {i : Nat}
    {props props' : List (Nat × ElementProperty α)} (hprops : ∀ j, i ≤ j → props.lookup j = none)
    (h : addElements call elems i props = some props') (j : Nat) :
    props'.lookup j =
      if j < i then props.lookup j else ((elems[j - i]?).join).map fun v => ⟨v, .plain⟩ := by
  induction elems generalizing i props with
  | nil =>
    rw [addElements] at h
    cases h
    split_ifs with hj
    · rfl
    · rw [hprops j (Nat.le_of_not_lt hj), List.getElem?_nil, Option.join_none, Option.map_none]
  | cons elem elems ih =>
    cases elem with
    | none =>
      rw [addElements] at h
      rw [ih (fun j hj => hprops j (Nat.le_of_succ_le hj)) h]
      rcases Nat.lt_trichotomy j i with hlt | rfl | hgt
      · rw [if_pos hlt, if_pos (Nat.lt_succ_of_lt hlt)]
      · rw [if_pos (Nat.lt_succ_self j), if_neg (Nat.lt_irrefl j), Nat.sub_self,
          hprops j (Nat.le_refl j)]
        rfl
      · obtain ⟨k, rfl⟩ := Nat.exists_eq_add_of_lt hgt
        rw [if_neg (by omega), if_neg (by omega), show i + k + 1 - i = k + 1 by omega,
          show i + k + 1 - (i + 1) = k by omega, List.getElem?_cons_succ]
    | some v =>
      rw [addElements] at h
      split_ifs at h with hadds
      have hprops' (j : Nat) (hj : i + 1 ≤ j) :
          ((i, (⟨v, .plain⟩ : ElementProperty α)) :: props).lookup j = none := by
        rw [SlowArray.lookup_cons_ite, if_neg (by omega)]
        exact hprops j (by omega)
      rw [ih hprops' h, SlowArray.lookup_cons_ite]
      rcases Nat.lt_trichotomy j i with hlt | rfl | hgt
      · rw [if_pos hlt, if_pos (Nat.lt_succ_of_lt hlt), if_neg (Nat.ne_of_lt hlt)]
      · rw [if_pos (Nat.lt_succ_self j), if_neg (Nat.lt_irrefl j), Nat.sub_self, if_pos rfl]
        rfl
      · obtain ⟨k, rfl⟩ := Nat.exists_eq_add_of_lt hgt
        rw [if_neg (by omega), if_neg (by omega), show i + k + 1 - i = k + 1 by omega,
          show i + k + 1 - (i + 1) = k by omega, List.getElem?_cons_succ]

namespace DenseArray

lemma growElements_ok {cx : ArrayContext} {d d' : DenseArray α} {newcap : Nat}
    (h : d.growElements cx newcap = .ok d') : d'.elements = d.elements ∧ d'.length = d.length := by
  rw [growElements] at h
  split_ifs at h <;> cases h <;> exact ⟨rfl, rfl⟩

/-- The vector is filled with holes up to an element that is to be set. -/
lemma ensureElements_ok {cx : ArrayContext} {d d' : DenseArray α} {index : Nat}
    (h : d.ensureElements cx index 1 = .ok (some d')) :
    d'.elements = d.elements ++ List.replicate (index + 1 - d.elements.length) none ∧
      d'.length = d.length := by
  rw [ensureElements] at h
  simp only [if_true] at h
  split_ifs at h with hfits hzero hsparse
  · cases h
    exact ⟨rfl, rfl⟩
  · cases h
  · cases h
  · cases hgrow : d.growElements cx ((index + 1) % 2 ^ 32) with
    | error e => rw [hgrow] at h; cases h
    | ok grown =>
      rw [hgrow] at h
      cases h
      obtain ⟨helements, hlength⟩ := growElements_ok hgrow
      rw [ensureInitializedLength, helements]
      exact ⟨rfl, hlength⟩

/-- A conversion keeps the elements, the holes and the length; if it fails, the array has them
still. -/
def KeptBy (d : DenseArray α) : Except (DenseArray α) (SlowArray α) → Prop
  | .ok s => s.length = d.length ∧ ∀ i, s.lookup i = (ArrayObject.dense d).own i
  | .error d' => d'.elements = d.elements ∧ d'.length = d.length

lemma makeDenseArraySlow_kept (call : ArrayCall) (d : DenseArray α) :
    d.KeptBy (d.makeDenseArraySlow call) := by
  rw [makeDenseArraySlow]
  have hgrown (elems : DenseArray α)
      (h : (if d.dynamic then .ok d else d.growElements call.elements d.capacity) = .ok elems) :
      elems.elements = d.elements ∧ elems.length = d.length := by
    split_ifs at h
    · cases h
      exact ⟨rfl, rfl⟩
    · exact growElements_ok h
  cases hgrow : if d.dynamic then .ok d else d.growElements call.elements d.capacity with
  | error e => exact ⟨rfl, rfl⟩
  | ok elems =>
    obtain ⟨helements, hlength⟩ := hgrown elems hgrow
    simp only
    split_ifs with hshape hprop
    · exact ⟨helements, hlength⟩
    · exact ⟨helements, hlength⟩
    · cases hadd : addElements call elems.elements 0 [] with
      | none => exact ⟨helements, hlength⟩
      | some props =>
        refine ⟨hlength, fun i => ?_⟩
        have hlookup := lookup_addElements (fun _ _ => lookup_nil) hadd i
        rw [if_neg (Nat.not_lt_zero i), Nat.sub_zero, helements] at hlookup
        exact hlookup

end DenseArray

/-! ## Runs -/

namespace ArrayObject

/-- Every index property is below the length, and the vector of a dense array is not longer. -/
def Valid : ArrayObject α → Prop
  | dense d => d.elements.length ≤ d.length
  | slow s => s.Below s.length

variable {a : ArrayObject α}

lemma Valid.below (h : a.Valid) {i : Nat} (hi : i ≤ maxArrayIndex) {p : ElementProperty α}
    (hp : a.own i = some p) : i < a.length := by
  cases a with
  | dense d =>
    by_contra hle
    rw [own, List.getElem?_eq_none (Nat.le_trans h (Nat.le_of_not_lt hle))] at hp
    cases hp
  | slow s => exact h i hi p hp

lemma valid_onSlow {call : ArrayCall} {d : DenseArray α} (h : (dense d).Valid)
    {f : SlowArray α → ArrayResult × SlowArray α}
    (hf : ∀ s : SlowArray α, s.Below s.length → (f s).2.Below (f s).2.length) :
    (onSlow call d f).2.Valid := by
  rw [onSlow]
  have hkept := d.makeDenseArraySlow_kept call
  cases hslow : d.makeDenseArraySlow call with
  | error d' =>
    rw [hslow] at hkept
    obtain ⟨helements, hlength⟩ := hkept
    simp only [Valid, helements, hlength]
    exact h
  | ok s =>
    rw [hslow] at hkept
    obtain ⟨hlength, hlookup⟩ := hkept
    refine hf s fun i hi p hp => ?_
    rw [hlength]
    exact h.below hi (hlookup i ▸ hp)

lemma valid_setDense {call : ArrayCall} {d : DenseArray α} (h : (dense d).Valid) (index : Nat)
    (v : α) {f : SlowArray α → ArrayResult × SlowArray α}
    (hf : ∀ s : SlowArray α, s.Below s.length → (f s).2.Below (f s).2.length) :
    (setDense call d index v f).2.Valid := by
  rw [setDense]
  cases hensure : d.ensureElements call.elements index 1 with
  | error e => exact h
  | ok ensured =>
    cases ensured with
    | none => exact valid_onSlow h hf
    | some d' =>
      obtain ⟨helements, hlength⟩ := DenseArray.ensureElements_ok hensure
      have hle : d.elements.length ≤ d.length := h
      simp only [Valid, DenseArray.setElement, length_set]
      split_ifs with hindex
      · simp only [helements, length_append, length_replicate]
        omega
      · simp only [helements, length_append, length_replicate]
        omega

lemma below_setPropertyHelper (call : ArrayCall) {s : SlowArray α} (h : s.Below s.length)
    (index : Nat) (v : α) :
    (s.setPropertyHelper call index v).2.Below (s.setPropertyHelper call index v).2.length := by
  rw [SlowArray.setPropertyHelper]
  cases hp : s.lookup index with
  | none =>
    simp only
    split_ifs
    · exact h
    · exact h
    · exact SlowArray.below_addProperty h index _
  | some p =>
    simp only
    split_ifs
    · exact h
    · exact h
    · intro i hi q hq
      rw [SlowArray.lookup_putProperty] at hq
      split_ifs at hq with hindex
      · subst hindex
        exact h i hi p hp
      · exact h i hi q hq

lemma below_defineNativeProperty (call : ArrayCall) {s : SlowArray α} (h : s.Below s.length)
    (index : Nat) (p : ElementProperty α) :
    (s.defineNativeProperty call index p).2.Below
      (s.defineNativeProperty call index p).2.length := by
  rw [SlowArray.defineNativeProperty]
  split_ifs
  · exact h
  · exact SlowArray.below_addProperty h index p

lemma valid_deleteElement (call : ArrayCall) (h : a.Valid) (index : Nat) :
    (a.deleteElement call index).2.Valid := by
  cases a with
  | dense d =>
    rw [deleteElement]
    simp only [Valid]
    split_ifs
    · simp only [DenseArray.setElement, length_set]
      exact h
    · exact h
  | slow s =>
    rw [deleteElement]
    have hs : s.Below s.length := h
    rcases s.deleteGeneric_cases call index with ⟨heq, -⟩ | ⟨heq, -⟩ | heq | ⟨heq | heq, -⟩
    · rw [heq]
      exact hs
    · rw [heq]
      exact hs
    · rw [heq]
      exact hs
    · rw [heq]
      exact SlowArray.below_removeProperty hs index
    · rw [heq]
      exact SlowArray.below_removeProperty hs index

/-- A length assignment that goes over the properties finds all of them, and can delete them. -/
def Meets : ArrayObject α → ArrayOp α → Prop
  | slow s, .setLength newlen => 2 ^ 24 ≤ s.length - newlen → s.Sweepable newlen
  | _, _ => True

/-- What an assignment of a smaller length leaves behind: the properties below the length, which is
the new one or just above the last property that is permanent. -/
def Shrunk (a : ArrayObject α) (newlen : Nat) (a' : ArrayObject α) : Prop :=
  ∃ len, newlen ≤ len ∧ a'.length = len ∧
    (∀ i ≤ maxArrayIndex, a'.own i = if i < len then a.own i else none) ∧
    (∀ i ≤ maxArrayIndex, len ≤ i → ∀ p, a.own i = some p → p.attrs.permanent = false) ∧
    (len = newlen ∨ ∃ p, a.own (len - 1) = some p ∧ p.attrs.permanent = true)

lemma shrunk_dense {d d' : DenseArray α} {newlen : Nat} (hlength : d'.length = newlen)
    (helements : d'.elements = d.elements.take newlen) :
    (dense d).Shrunk newlen (dense d') := by
  refine ⟨newlen, Nat.le_refl _, hlength, fun i _ => ?_, fun i _ _ p hp => ?_, .inl rfl⟩
  · rw [own, own, helements, List.getElem?_take]
    split_ifs <;> rfl
  · rw [own, Option.map_eq_some_iff] at hp
    obtain ⟨v, -, rfl⟩ := hp
    rfl

lemma setLength_dense (call : ArrayCall) {d : DenseArray α} {newlen : Nat}
    (hlt : newlen < d.length) (hmax : newlen < 2 ^ 32) :
    ∃ d', (dense d).setLength call newlen = (.done, dense d') ∧ d'.length = newlen ∧
      d'.elements = d.elements.take newlen := by
  have hlength : (dense d).length = d.length := rfl
  rw [setLength, if_neg (by omega), hlength, if_neg (by omega)]
  simp only
  rw [if_neg (by omega)]
  refine ⟨_, rfl, rfl, ?_⟩
  have hshrink (d : DenseArray α) : (d.shrinkElements call.elements newlen).elements = d.elements := by
    rw [DenseArray.shrinkElements]
    split_ifs <;> rfl
  have hcut : (if newlen < d.elements.length then d.setInitializedLength newlen else d).elements =
      d.elements.take newlen := by
    split_ifs with hcut
    · rfl
    · rw [take_of_length_le (Nat.le_of_not_lt hcut)]
  simp only
  split_ifs at hcut ⊢
  · exact (hshrink _).trans hcut
  · exact (hshrink _).trans hcut
  · exact hcut
  · exact hcut

/-- An assignment of a smaller length, by any of the three ways to shrink. -/
lemma setLength_spec (call : ArrayCall) (h : a.Valid) {newlen : Nat}
    (hmeets : a.Meets (.setLength newlen)) (hlt : newlen < a.length) (hmax : newlen < 2 ^ 32) :
    (a.setLength call newlen).2.Valid ∧
      ((a.setLength call newlen).1 ≠ .failed → a.Shrunk newlen (a.setLength call newlen).2) := by
  cases a with
  | dense d =>
    obtain ⟨d', heq, hlength, helements⟩ := setLength_dense call hlt hmax
    rw [heq]
    refine ⟨?_, fun _ => shrunk_dense hlength helements⟩
    rw [Valid, helements, hlength, length_take]
    exact Nat.min_le_left _ _
  | slow s =>
    have hlength : (slow s).length = s.length := rfl
    have hltS : newlen < s.length := hlt
    have hbelow : s.Below s.length := h
    rw [setLength.eq_def, if_neg (by omega), hlength, if_neg (by omega)]
    simp only
    rw [if_neg (by omega)]
    by_cases hgap : s.length - newlen < 2 ^ 24
    · rw [if_pos hgap]
      obtain ⟨hvalid, hshrunk⟩ := SlowArray.deleteLoop_spec call hltS hbelow
      refine ⟨hvalid, fun hres => ?_⟩
      obtain ⟨len, -, hlen⟩ := hshrunk hres
      exact ⟨len, hlen.le, hlen.length, hlen.lookup, hlen.deleted, hlen.stops⟩
    · rw [if_neg hgap]
      cases call.iterator with
      | false => exact ⟨hbelow, fun hres => absurd rfl hres⟩
      | true =>
        simp only [Bool.not_true, Bool.false_eq_true, if_false]
        obtain ⟨hvalid, hshrunk⟩ := SlowArray.sweep_spec call hltS hbelow
          (hmeets (Nat.le_of_not_lt hgap))
        refine ⟨hvalid, fun hres => ?_⟩
        have hlen := hshrunk hres
        exact ⟨newlen, hlen.le, hlen.length, hlen.lookup, hlen.deleted, .inl rfl⟩

lemma valid_setLength (call : ArrayCall) (h : a.Valid) {newlen : Nat}
    (hmeets : a.Meets (.setLength newlen)) : (a.setLength call newlen).2.Valid := by
  by_cases hmax : 2 ^ 32 ≤ newlen
  · rw [setLength.eq_def, if_pos hmax]
    exact h
  rcases Nat.lt_trichotomy newlen a.length with hlt | heq | hgt
  · exact (setLength_spec call h hmeets hlt (Nat.lt_of_not_le hmax)).1
  · rw [setLength.eq_def, if_neg hmax, if_pos heq.symm]
    exact h
  · rw [setLength.eq_def, if_neg hmax, if_neg (Nat.ne_of_lt hgt)]
    cases a with
    | dense d =>
      have hgtD : d.length < newlen := hgt
      have hle : d.elements.length ≤ d.length := h
      simp only
      rw [if_pos hgtD]
      exact Nat.le_trans hle (Nat.le_of_lt hgtD)
    | slow s =>
      have hgtS : s.length < newlen := hgt
      have hbelow : s.Below s.length := h
      simp only
      rw [if_pos hgtS]
      exact hbelow.mono (Nat.le_of_lt hgtS)

/-- Every operation of a run keeps the invariant. -/
lemma valid_perform (call : ArrayCall) (h : a.Valid) {op : ArrayOp α} (hmeets : a.Meets op) :
    (a.perform call op).2.Valid := by
  cases op with
  | set index v =>
    have hslow (s : SlowArray α) (hs : s.Below s.length) := below_setPropertyHelper call hs index v
    cases a with
    | dense d =>
      rw [perform, setElement]
      split_ifs
      · exact valid_onSlow h hslow
      · exact valid_setDense h index v hslow
    | slow s => exact hslow s h
  | define index p =>
    have hslow (s : SlowArray α) (hs : s.Below s.length) :=
      below_defineNativeProperty call hs index p
    cases a with
    | dense d =>
      rw [perform, defineElement]
      split_ifs
      · exact valid_onSlow h hslow
      · exact valid_setDense h index p.contents hslow
    | slow s => exact hslow s h
  | delete index => exact valid_deleteElement call h index
  | setLength newlen => exact valid_setLength call h hmeets
  | makeSlow =>
    cases a with
    | dense d => exact valid_onSlow h fun _ hs => hs
    | slow s => exact h

/-- The arrays of runs from a dense array, whose operations all meet the condition. -/
inductive Reaches : ArrayObject α → Prop
  | start (d : DenseArray α) : d.elements.length ≤ d.length → Reaches (dense d)
  | perform {a : ArrayObject α} (call : ArrayCall) (op : ArrayOp α) :
      Reaches a → a.Meets op → Reaches (a.perform call op).2

lemma Reaches.valid (h : Reaches a) : a.Valid := by
  induction h with
  | start d hd => exact hd
  | perform call op _ hmeets ih => exact valid_perform call ih hmeets

/-- In every such run the length is above every index, a smaller length leaves what it should, and
a conversion keeps the elements and the length. -/
theorem length_above_indices {a : ArrayObject α} (h : Reaches a) :
    (∀ i ≤ maxArrayIndex, ∀ p, a.own i = some p → i < a.length) ∧
      (∀ call newlen, newlen < a.length → newlen < 2 ^ 32 → a.Meets (.setLength newlen) →
        (a.setLength call newlen).1 ≠ .failed → a.Shrunk newlen (a.setLength call newlen).2) ∧
      ∀ call d, a = dense d → d.KeptBy (d.makeDenseArraySlow call) :=
  ⟨fun _ hi _ hp => h.valid.below hi hp,
    fun call _ hlt hmax hmeets => (setLength_spec call h.valid hmeets hlt hmax).2,
    fun call d _ => d.makeDenseArraySlow_kept call⟩

/-- Everything succeeds, and nothing is in the way. -/
def allSucceed : ArrayCall :=
  ⟨⟨fun _ => true⟩, true, true, true, fun _ => true, true, fun _ => true, fun _ => true,
    fun _ => true, true, false, true⟩

/-- An array of length 3 whose second element is defined with the attributes `attrs`, cut to
length 1. -/
def shortArray (attrs : ElementAttrs) : ArrayObject Nat :=
  (((dense ⟨[some 7], 8, 3, true⟩).perform allSucceed (.define 1 ⟨8, attrs⟩)).2.perform
    allSucceed (.setLength 1)).2

lemma reaches_shortArray : Reaches (shortArray ⟨false, false, true, false⟩) :=
  .perform _ _ (.perform _ _ (.start _ (by decide)) trivial) fun hgap _ _ _ =>
    absurd hgap (by decide)

/-- A property that is not configurable stays, and the length stops above it. -/
theorem length_above_indices_short :
    (shortArray ⟨false, false, true, false⟩).length = 2 ∧
      ∀ i ≤ maxArrayIndex, ∀ p, (shortArray ⟨false, false, true, false⟩).own i = some p →
        i < (shortArray ⟨false, false, true, false⟩).length :=
  ⟨by decide, (length_above_indices reaches_shortArray).1⟩

/-- An array of length 20000000 with one element that is not enumerable, cut to length 0. -/
def longArray : ArrayResult × ArrayObject Nat :=
  ((dense ⟨[], 0, 20000000, false⟩).perform allSucceed
    (.define 18000000 ⟨7, ⟨false, false, false, false⟩⟩)).2.setLength allSucceed 0

/-- The large gap makes the loop go over the properties, and it skips the element. -/
theorem length_below_index :
    longArray.1 = .done ∧ longArray.2.length = 0 ∧
      longArray.2.own 18000000 = some ⟨7, ⟨false, false, false, false⟩⟩ := by
  decide

end ArrayObject

end SpiderMonkey.Vm
