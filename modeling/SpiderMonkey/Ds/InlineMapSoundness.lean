import SpiderMonkey.Ds.InlineMap
import SpiderMonkey.Lib.FiniteMap

/-! # A small map is a finite map

Whether its elements are in the array or in the map, they are those of the finite map that the
successful operations make. The map that is left behind by `clear`, or by a switch that fails, is
some table: it is cleared before it is used again.
-/

namespace SpiderMonkey.Ds

open Lib Function Option Multiset

variable {Key Value : Type} [DecidableEq Key]

/-! ## The finite map -/

section Spec

variable [Zero Key]

namespace InlineOp

/-- What a success does to the finite map. -/
def apply : InlineOp Key Value → (Key → Option Value) → Key → Option Value
  | .lookupForAddThenAdd key value _, f =>
    if (f key).isSome then f else update f key (some value)
  | .put key value _, f => update f key (some value)
  | .remove key _, f => update f key none
  | .clear, _ => fun _ => none
  | _, f => f

/-- Zero is no key. -/
def KeyNeZero : InlineOp Key Value → Prop
  | .lookup key => key ≠ 0
  | .lookupForAdd key => key ≠ 0
  | .lookupForAddThenAdd key _ _ => key ≠ 0
  | .put key _ _ => key ≠ 0
  | .remove key _ => key ≠ 0
  | _ => True

end InlineOp

omit [DecidableEq Key] in
def InlineResult.succeeded : InlineResult Key Value → Bool
  | .done ok => ok
  | _ => true

omit [DecidableEq Key] [Zero Key] in
/-- The client is told of the finite map. Only what adds a key may fail. -/
def Tells (f : Key → Option Value) : InlineOp Key Value → InlineResult Key Value → Prop
  | .lookup key, .found o => o = f key
  | .lookupForAdd key, .found o => o = f key
  | .lookupForAddThenAdd key _ _, .done ok => (f key).isSome = true → ok = true
  | .put key _ _, .done ok => (f key).isSome = true → ok = true
  | .remove _ _, .done ok => ok = true
  | .clear, .done ok => ok = true
  | .count, .number n =>
    ∃ keys : Finset Key, (∀ k, k ∈ keys ↔ (f k).isSome = true) ∧ keys.card = n
  | .empty, .flag b => b = true ↔ ∀ k, f k = none
  | .all, .yielded ts => (ts.map Prod.fst).Nodup ∧ ∀ k v, (k, v) ∈ ts ↔ f k = some v
  | _, _ => False

end Spec

/-! ## The array -/

namespace InlineMap

variable [Zero Key] {inl : Nat → Key × Value} {n : Nat}

/-- The elements at some places of the array. -/
def elements (inl : Nat → Key × Value) (places : Multiset Nat) : Multiset (Key × Value) :=
  (places.map inl).filter fun t => t.1 ≠ 0

lemma mem_elements {places : Multiset Nat} {t : Key × Value} :
    t ∈ elements inl places ↔ (∃ it ∈ places, inl it = t) ∧ t.1 ≠ 0 := by
  rw [elements, Multiset.mem_filter, Multiset.mem_map]

lemma elements_cons (it : Nat) (places : Multiset Nat) :
    elements inl (it ::ₘ places) =
      if (inl it).1 ≠ 0 then inl it ::ₘ elements inl places else elements inl places := by
  rw [elements, map_cons]
  split_ifs with h
  · exact filter_cons_of_pos _ h
  · exact filter_cons_of_neg _ h

/-- What is put at another place does not matter. -/
lemma elements_update {it : Nat} {places : Multiset Nat} (h : it ∉ places) (t : Key × Value) :
    elements (update inl it t) places = elements inl places := by
  unfold elements
  refine congrArg _ (map_congr rfl fun j hj => update_of_ne ?_ _ _)
  rintro rfl
  exact h hj

/-- The elements, if there is another one at the next place. -/
lemma elements_push (inl : Nat → Key × Value) (n : Nat) {t : Key × Value} (ht : t.1 ≠ 0) :
    elements (update inl n t) (Multiset.range (n + 1)) =
      t ::ₘ elements inl (Multiset.range n) := by
  rw [range_succ, elements_cons, update_self, if_pos ht,
    elements_update notMem_range_self]

/-- The elements beside the one at a place. -/
def others (inl : Nat → Key × Value) (n it : Nat) : Multiset (Key × Value) :=
  elements inl ((Multiset.range n).erase it)

lemma elements_at (inl : Nat → Key × Value) {it : Nat} (h : it < n) (t : Key × Value) :
    elements (update inl it t) (Multiset.range n) =
      if t.1 ≠ 0 then t ::ₘ others inl n it else others inl n it := by
  have hnot : it ∉ (Multiset.range n).erase it := by
    rw [(nodup_range n).mem_erase_iff]
    exact fun h => h.1 rfl
  rw [← cons_erase (mem_range.mpr h), elements_cons, update_self,
    elements_update hnot]
  rfl

lemma elements_split {it : Nat} (h : it < n) (hne : (inl it).1 ≠ 0) :
    elements inl (Multiset.range n) = inl it ::ₘ others inl n it := by
  rw [← cons_erase (mem_range.mpr h), elements_cons, if_pos hne]
  rfl

/-! ### Searches -/

section

variable {m : InlineMap Key Value} {f : Key → Option Value} {key : Key} {it : Nat}

omit [Zero Key] in
lemma inlineLookup_eq_some (h : m.inlineLookup key = some it) :
    it < m.inlNext ∧ (m.inl it).1 = key := by
  unfold inlineLookup at h
  exact ⟨List.mem_range.mp (List.mem_of_find?_eq_some h), by simpa using List.find?_some h⟩

/-- What is found is the element of the key. -/
lemma inlineLookup_found (h : m.inlineLookup key = some it) (hkey : key ≠ 0) :
    elements m.inl (Multiset.range m.inlNext) =
      (key, (m.inl it).2) ::ₘ others m.inl m.inlNext it := by
  obtain ⟨hlt, rfl⟩ := inlineLookup_eq_some h
  exact elements_split hlt hkey

lemma inlineLookup_value (hlists : Lists (elements m.inl (Multiset.range m.inlNext)) f)
    (h : m.inlineLookup key = some it) (hkey : key ≠ 0) : f key = some (m.inl it).2 := by
  rw [← hlists.mem_iff, inlineLookup_found h hkey]
  exact mem_cons_self _ _

lemma inlineLookup_missing (hlists : Lists (elements m.inl (Multiset.range m.inlNext)) f)
    (h : m.inlineLookup key = none) : f key = none := by
  rw [hlists.eq_none_iff]
  intro t ht heq
  obtain ⟨⟨it, hit, rfl⟩, -⟩ := mem_elements.mp ht
  have hnone := List.find?_eq_none.mp h it (List.mem_range.mpr (mem_range.mp hit))
  exact hnone (decide_eq_true heq)

end

/-! ### Passes -/

section

variable {m : InlineMap Key Value} {last : Nat}

/-- The elements from a place on. -/
def inlineFrom (inl : Nat → Key × Value) (last cur : Nat) : List (Key × Value) :=
  ((List.range' cur (last - cur)).map inl).filter fun t => t.1 ≠ 0

lemma coe_inlineFrom_zero (inl : Nat → Key × Value) (last : Nat) :
    (inlineFrom inl last 0 : Multiset (Key × Value)) = elements inl (Multiset.range last) := by
  rw [inlineFrom, elements, Multiset.range, Multiset.map_coe, Multiset.filter_coe, Nat.sub_zero,
    List.range_eq_range']

lemma inlineFrom_of_lt {cur : Nat} (h : cur < last) :
    inlineFrom inl last cur =
      if (inl cur).1 ≠ 0 then inl cur :: inlineFrom inl last (cur + 1)
      else inlineFrom inl last (cur + 1) := by
  have hlen : last - cur = (last - (cur + 1)) + 1 := by omega
  rw [inlineFrom, hlen, List.range'_succ, List.map_cons, List.filter_cons]
  simp only [decide_eq_true_eq]
  rfl

lemma inlineFrom_last (inl : Nat → Key × Value) (last : Nat) : inlineFrom inl last last = [] := by
  rw [inlineFrom, Nat.sub_self]
  rfl

/-- Only holes are passed, and an element is reached if there is one. -/
lemma advancePastNulls_spec (fuel cur : Nat) (hcur : cur ≤ last) (hfuel : last ≤ cur + fuel) :
    let cur' := m.advancePastNulls last fuel cur
    cur ≤ cur' ∧ cur' ≤ last ∧ (cur' = last ∨ (m.inl cur').1 ≠ 0) ∧
      inlineFrom m.inl last cur' = inlineFrom m.inl last cur := by
  induction fuel generalizing cur with
  | zero => exact ⟨Nat.le_refl _, hcur, .inl (Nat.le_antisymm hcur hfuel), rfl⟩
  | succ fuel ih =>
    rw [advancePastNulls]
    split_ifs with hnull
    · obtain ⟨hle, hlast, hstop, hfrom⟩ := ih (cur + 1) hnull.1 (by omega)
      refine ⟨by omega, hlast, hstop, ?_⟩
      rw [hfrom, inlineFrom_of_lt hnull.1, if_neg (not_not.mpr hnull.2)]
    · refine ⟨Nat.le_refl _, hcur, ?_, rfl⟩
      rcases Nat.lt_or_eq_of_le hcur with hlt | heq
      · exact .inr fun hzero => hnull ⟨hlt, hzero⟩
      · exact .inl heq

lemma inlinePass_spec (fuel cur : Nat) (hcur : cur ≤ last)
    (hstop : cur = last ∨ (m.inl cur).1 ≠ 0) (hfuel : last < cur + fuel) :
    m.inlinePass last fuel cur = some (inlineFrom m.inl last cur) := by
  induction fuel generalizing cur with
  | zero => omega
  | succ fuel ih =>
    rw [inlinePass]
    split_ifs with hend
    · rw [hend, inlineFrom_last]
    · have hlt : cur < last := by omega
      obtain ⟨hle, hlast, hstop', hfrom⟩ :=
        advancePastNulls_spec (m := m) last (cur + 1) hlt (by omega)
      rw [ih _ hlast hstop' (by omega), hfrom, inlineFrom_of_lt hlt,
        if_pos (hstop.resolve_left hend)]
      rfl

/-- A pass over the array yields its elements. -/
lemma inlinePass_all :
    ∃ ts : List (Key × Value),
      m.inlinePass m.inlNext (m.inlNext + 1) (m.advancePastNulls m.inlNext m.inlNext 0) = some ts ∧
        (ts : Multiset (Key × Value)) = elements m.inl (Multiset.range m.inlNext) := by
  obtain ⟨-, hlast, hstop, hfrom⟩ :=
    advancePastNulls_spec (m := m) m.inlNext 0 (Nat.zero_le m.inlNext) (by omega)
  refine ⟨_, inlinePass_spec _ _ hlast hstop (by omega), ?_⟩
  rw [hfrom, coe_inlineFrom_zero]

end

/-! ## The map -/

section

variable {hash : Key → HashNumber}

omit [Zero Key] in
lemma wordMapPolicy_lawful (hash : Key → HashNumber) :
    (wordMapPolicy hash : HashPolicy (Key × Value) Key Key).Lawful where
  getKey_setKey _ _ := rfl
  hash_eq h h' := by
    rw [← of_decide_eq_true h, ← of_decide_eq_true h']
  trans h h' h'' := by
    refine decide_eq_true ?_
    rw [of_decide_eq_true h', ← of_decide_eq_true h, of_decide_eq_true h'']

omit [Zero Key] in
lemma absent_iff {ms : Multiset (Key × Value)} {f : Key → Option Value} (h : Lists ms f)
    (key : Key) : Absent (wordMapPolicy hash) ms key ↔ f key = none := by
  rw [h.eq_none_iff]
  exact forall₂_congr fun t _ => decide_eq_false_iff_not

omit [Zero Key] in
lemma yields_eq {ms : Multiset (Key × Value)} {f : Key → Option Value} (h : Lists ms f)
    {key : Key} {o : Option (Key × Value)} (hyields : Yields (wordMapPolicy hash) ms key o) :
    o.map Prod.snd = f key := by
  cases o with
  | none => exact ((absent_iff h key).mp hyields).symm
  | some t =>
    obtain ⟨k, v⟩ := t
    obtain ⟨hmem, hmatch⟩ := hyields
    rw [← of_decide_eq_true hmatch]
    exact ((h.mem_iff k v).mp hmem).symm

omit [Zero Key] in
/-- An addition to the map, as one to the finite map. -/
lemma adds_lists {ms ms' : Multiset (Key × Value)} {f : Key → Option Value} (h : Lists ms f)
    {key : Key} {value : Value} {found : Key × Value → Key × Value} {ok : Bool}
    (hadds : Adds (wordMapPolicy hash) ms key (key, value) found ok ms') :
    (∃ old, f key = some old ∧ ok = true ∧ ∃ rest, ms = (key, old) ::ₘ rest ∧
        ms' = found (key, old) ::ₘ rest) ∨
      f key = none ∧ Lists ms' (if ok then update f key (some value) else f) := by
  rcases hadds with ⟨t, rest, hms, hmatch, hok, hms'⟩ | ⟨habsent, hadd⟩
  · obtain ⟨k, old⟩ := t
    obtain rfl : k = key := of_decide_eq_true hmatch
    refine .inl ⟨old, (h.mem_iff k old).mp ?_, hok, rest, hms, hms'⟩
    rw [hms]
    exact mem_cons_self _ _
  · have hnone := (absent_iff h key).mp habsent
    refine .inr ⟨hnone, ?_⟩
    rcases hadd with ⟨rfl, rfl⟩ | ⟨rfl, rfl⟩
    · exact h.insert hnone
    · exact h

omit [Zero Key] in
/-- For a key that is there nothing is allocated. -/
lemma adds_succeeds {ms ms' : Multiset (Key × Value)} {f : Key → Option Value} (h : Lists ms f)
    {key : Key} {value : Value} {found : Key × Value → Key × Value} {ok : Bool}
    (hadds : Adds (wordMapPolicy hash) ms key (key, value) found ok ms') :
    (f key).isSome = true → ok = true := by
  rcases adds_lists h hadds with ⟨old, -, hok, -⟩ | ⟨hnone, -⟩
  · exact fun _ => hok
  · rw [hnone]
    exact fun h => absurd h Bool.false_ne_true

/-! ## The two representations -/

/-- The elements of a map, and where they are. -/
inductive Shows (hash : Key → HashNumber) (InlineElems : Nat) (m : InlineMap Key Value) :
    Multiset (Key × Value) → Prop
  | inline (hnext : m.inlNext ≤ InlineElems)
      (hcount : m.inlCount = (elements m.inl (Multiset.range m.inlNext)).card)
      (hmap : ∀ map, m.map = some map → ∃ old, Holds (wordMapPolicy hash) map old) :
      Shows hash InlineElems m (elements m.inl (Multiset.range m.inlNext))
  | hashed {map : HashTable (Key × Value)} {ms : Multiset (Key × Value)}
      (hnext : m.inlNext = InlineElems + 1) (hmap : m.map = some map)
      (hholds : Holds (wordMapPolicy hash) map ms) : Shows hash InlineElems m ms

def Represents (hash : Key → HashNumber) (InlineElems : Nat) (m : InlineMap Key Value)
    (f : Key → Option Value) : Prop :=
  ∃ ms, Shows hash InlineElems m ms ∧ Lists ms f

variable {InlineElems : Nat} {m : InlineMap Key Value} {f : Key → Option Value} {key : Key}

omit [DecidableEq Key] [Zero Key] in
lemma usingMap_of_le (h : m.inlNext ≤ InlineElems) : m.usingMap InlineElems = false :=
  decide_eq_false (Nat.not_lt.mpr h)

omit [DecidableEq Key] [Zero Key] in
lemma usingMap_of_eq (h : m.inlNext = InlineElems + 1) : m.usingMap InlineElems = true :=
  decide_eq_true (by omega)

lemma represents_new (inl : Nat → Key × Value) :
    Represents hash InlineElems (new inl) fun _ => none :=
  ⟨_, .inline (Nat.zero_le _) rfl (fun map hmap => absurd hmap (some_ne_none map).symm),
    .zero⟩

lemma Represents.clear (h : Represents hash InlineElems m f) :
    Represents hash InlineElems m.clear fun _ => none := by
  obtain ⟨ms, hshows, -⟩ := h
  refine ⟨_, .inline (Nat.zero_le _) rfl fun map hmap => ?_, .zero⟩
  cases hshows with
  | inline _ _ hold => exact hold map hmap
  | hashed _ hmap' hholds =>
    cases hmap'.symm.trans hmap
    exact ⟨_, hholds⟩

lemma Represents.lookupWith (h : Represents hash InlineElems m f) (hkey : key ≠ 0)
    {c : HashNumber} (hc : c = 0#32 ∨ c = sCollisionBit) :
    ∃ m', m.lookupWith hash InlineElems c key = some (f key, m') ∧
      Represents hash InlineElems m' f := by
  obtain ⟨ms, hshows, hlists⟩ := h
  rw [InlineMap.lookupWith]
  cases hshows with
  | inline hnext hcount hmap =>
    refine ⟨m, ?_, _, .inline hnext hcount hmap, hlists⟩
    rw [usingMap_of_le hnext, if_neg Bool.false_ne_true]
    cases hfind : m.inlineLookup key with
    | none =>
      rw [inlineLookup_missing hlists hfind]
      rfl
    | some it =>
      rw [inlineLookup_value hlists hfind hkey]
      rfl
  | hashed hnext hmap hholds =>
    obtain ⟨o, map', hlookup, hyields, hholds', -⟩ :=
      hholds.lookupWith (wordMapPolicy_lawful hash) hc key
    refine ⟨{ m with map := some map' }, ?_, _, .hashed hnext rfl hholds', hlists⟩
    rw [usingMap_of_eq hnext, if_pos rfl, hmap, ← yields_eq hlists hyields]
    simp only [bind_eq_bind, bind_some, hlookup]

/-! ### Additions -/

variable [Inhabited Key] [Inhabited Value]

omit [Zero Key] in
/-- Before the elements are put into the map, it is empty. -/
lemma clearedMap_holds {alloc : InlineAlloc} {map0 : HashTable (Key × Value)}
    (hmap : ∀ map, m.map = some map → ∃ old, Holds (wordMapPolicy hash) map old)
    (h : m.clearedMap alloc = some map0) : Holds (wordMapPolicy hash) map0 0 := by
  unfold clearedMap at h
  cases hold : m.map with
  | none =>
    rw [hold] at h
    exact (init_spec h).1
  | some map =>
    rw [hold] at h
    cases h
    obtain ⟨old, hholds⟩ := hmap map hold
    exact hholds.clear

/-- The elements at the places are put into the map, unless an allocation fails. -/
lemma copyInline_spec (copyOk : Nat → Bool) (its : List Nat) {map : HashTable (Key × Value)}
    {ms : Multiset (Key × Value)} (h : Holds (wordMapPolicy hash) map ms)
    (hnodup : ((ms + elements inl its).map Prod.fst).Nodup) :
    ∃ ok map' ms', copyInline hash inl copyOk its map = some (ok, map') ∧
      Holds (wordMapPolicy hash) map' ms' ∧ (ok = true → ms' = ms + elements inl its) := by
  induction its generalizing map ms with
  | nil =>
    refine ⟨true, map, ms, rfl, h, fun _ => ?_⟩
    rw [Multiset.coe_nil, elements, Multiset.map_zero, Multiset.filter_zero, Multiset.add_zero]
  | cons it its ih =>
    rw [copyInline]
    rw [← cons_coe, elements_cons] at hnodup ⊢
    split_ifs at hnodup ⊢ with hkey
    · rw [add_cons, ← cons_add] at hnodup ⊢
      have hnot : (inl it).1 ∉ ms.map Prod.fst := by
        rw [Multiset.cons_add, Multiset.map_cons, Multiset.nodup_cons, Multiset.map_add] at hnodup
        exact fun hmem => hnodup.1 (mem_add.mpr (.inl hmem))
      have habsent : Absent (wordMapPolicy hash) ms (inl it).1 := by
        intro t ht
        refine decide_eq_false fun heq => hnot ?_
        exact mem_map.mpr ⟨t, ht, heq⟩
      obtain ⟨ok, map', hput, hholds, -⟩ :=
        h.putNew (wordMapPolicy_lawful hash) (l := (inl it).1) (copyOk it) (decide_eq_true rfl) habsent
      rw [hput]
      cases ok with
      | false => exact ⟨false, map', ms, rfl, hholds, fun h => absurd h Bool.false_ne_true⟩
      | true => exact ih hholds hnodup
    · exact ih h hnodup

/-- The switch, from a full array. If it fails, the array is as before. -/
lemma switchToMap_spec (alloc : InlineAlloc) (hnext : m.inlNext = InlineElems)
    (hcount : m.inlCount = (elements m.inl (Multiset.range m.inlNext)).card)
    (hmap : ∀ map, m.map = some map → ∃ old, Holds (wordMapPolicy hash) map old)
    (hlists : Lists (elements m.inl (Multiset.range m.inlNext)) f) :
    ∃ ok m', m.switchToMap hash InlineElems alloc = some (ok, m') ∧
      Represents hash InlineElems m' f ∧
      (ok = true → ∃ map, m'.inlNext = InlineElems + 1 ∧ m'.map = some map ∧
        Holds (wordMapPolicy hash) map (elements m.inl (Multiset.range m.inlNext))) := by
  have hno : ∀ {p : Prop}, false = true → p := fun h => absurd h Bool.false_ne_true
  rw [switchToMap, if_neg (not_not.mpr hnext)]
  cases hclear : m.clearedMap alloc with
  | none => exact ⟨false, m, rfl, ⟨_, .inline hnext.le hcount hmap, hlists⟩, hno⟩
  | some map0 =>
    have hnodup : ((0 + elements m.inl (List.range m.inlNext)).map Prod.fst).Nodup := by
      rw [Multiset.zero_add]
      exact hlists.nodup
    obtain ⟨ok, map', ms', hcopy, hholds, hms⟩ :=
      copyInline_spec alloc.copyOk (List.range m.inlNext) (clearedMap_holds hmap hclear) hnodup
    simp only [hcopy, bind_eq_bind, bind_some]
    cases ok with
    | false =>
      refine ⟨false, { m with map := some map' }, rfl, ⟨_, .inline hnext.le hcount ?_, hlists⟩, hno⟩
      rintro map ⟨⟩
      exact ⟨ms', hholds⟩
    | true =>
      obtain rfl := hms rfl
      rw [Multiset.zero_add] at hholds
      have hsame : map'.entryCount = m.inlCount := hholds.count.trans hcount.symm
      refine ⟨true, { m with inlNext := InlineElems + 1, map := some map' }, ?_,
        ⟨_, .hashed rfl rfl hholds, hlists⟩, fun _ => ⟨map', rfl, rfl, hholds⟩⟩
      simp [hsame]

lemma addInline_spec (alloc : InlineAlloc) (hnext : m.inlNext ≤ InlineElems)
    (hcount : m.inlCount = (elements m.inl (Multiset.range m.inlNext)).card)
    (hmap : ∀ map, m.map = some map → ∃ old, Holds (wordMapPolicy hash) map old)
    (hlists : Lists (elements m.inl (Multiset.range m.inlNext)) f) (hkey : key ≠ 0)
    (hnone : f key = none) (value : Value) :
    ∃ ok m', m.addInline hash InlineElems key value alloc = some (ok, m') ∧
      Represents hash InlineElems m' (if ok then update f key (some value) else f) := by
  rw [addInline]
  split_ifs with hfull
  · obtain ⟨ok, m', hswitch, hrep, hhashed⟩ :=
      switchToMap_spec alloc hfull hcount hmap hlists
    rw [switchAndAdd, hswitch]
    cases ok with
    | false => exact ⟨false, m', rfl, hrep⟩
    | true =>
      obtain ⟨map, hnext', hmap', hholds⟩ := hhashed rfl
      have habsent : Absent (wordMapPolicy hash) _ key := (absent_iff hlists key).mpr hnone
      obtain ⟨ok, map', hput, hholds', -⟩ :=
        hholds.putNew (wordMapPolicy_lawful hash) (l := key) (t := (key, value)) alloc.addOk
          (decide_eq_true rfl) habsent
      refine ⟨ok, { m' with map := some map' }, ?_, _, .hashed hnext' rfl hholds', ?_⟩
      · simp only [bind_eq_bind, bind_some, hmap', hput]
        rfl
      · cases ok with
        | false => exact hlists
        | true => exact hlists.insert hnone
  · have hpush := elements_push m.inl m.inlNext (t := (key, value)) hkey
    have hlt : m.inlNext + 1 ≤ InlineElems := Nat.lt_of_le_of_ne hnext hfull
    refine ⟨true, _, rfl, _, .inline hlt ?_ hmap, ?_⟩
    · rw [hpush, card_cons, ← hcount]
    · rw [hpush]
      exact hlists.insert hnone

lemma Represents.lookupForAddThenAdd (h : Represents hash InlineElems m f) (hkey : key ≠ 0)
    (value : Value) (alloc : InlineAlloc) :
    ∃ ok m', m.lookupForAddThenAdd hash InlineElems key value alloc = some (ok, m') ∧
      ((f key).isSome = true → ok = true) ∧ Represents hash InlineElems m'
        (if ok && (f key).isNone then update f key (some value) else f) := by
  obtain ⟨ms, hshows, hlists⟩ := h
  rw [InlineMap.lookupForAddThenAdd]
  cases hshows with
  | inline hnext hcount hmap =>
    rw [usingMap_of_le hnext, if_neg Bool.false_ne_true]
    cases hfind : m.inlineLookup key with
    | some it =>
      refine ⟨true, m, rfl, fun _ => rfl, _, .inline hnext hcount hmap, ?_⟩
      rw [inlineLookup_value hlists hfind hkey]
      exact hlists
    | none =>
      have hnone := inlineLookup_missing hlists hfind
      obtain ⟨ok, m', hadd, hrep⟩ := addInline_spec alloc hnext hcount hmap hlists hkey hnone value
      refine ⟨ok, m', hadd, ?_, ?_⟩
      · rw [hnone]
        exact fun h => absurd h Bool.false_ne_true
      · rw [hnone, isNone_none, Bool.and_true]
        exact hrep
  | hashed hnext hmap hholds =>
    obtain ⟨ok, map', ms', hadd, hadds, hholds', -⟩ :=
      hholds.findOrAdd (wordMapPolicy_lawful hash) (l := key) (t := (key, value)) id alloc.addOk
        (decide_eq_true rfl) fun _ => rfl
    refine ⟨ok, { m with map := some map' }, ?_, adds_succeeds hlists hadds, ms',
      .hashed hnext rfl hholds', ?_⟩
    · rw [usingMap_of_eq hnext, if_pos rfl, hmap]
      simp only [bind_eq_bind, bind_some, HashTable.lookupForAddThenAdd, hadd]
    · rcases adds_lists hlists hadds with ⟨old, hsome, -, rest, hms, hms'⟩ | ⟨hnone, hlists'⟩
      · rw [hsome, isNone_some, Bool.and_false, if_neg Bool.false_ne_true, hms']
        rwa [hms] at hlists
      · rwa [hnone, isNone_none, Bool.and_true]

lemma Represents.put (h : Represents hash InlineElems m f) (hkey : key ≠ 0) (value : Value)
    (alloc : InlineAlloc) :
    ∃ ok m', m.put hash InlineElems key value alloc = some (ok, m') ∧
      ((f key).isSome = true → ok = true) ∧ Represents hash InlineElems m'
        (if ok then update f key (some value) else f) := by
  obtain ⟨ms, hshows, hlists⟩ := h
  rw [InlineMap.put]
  cases hshows with
  | inline hnext hcount hmap =>
    rw [usingMap_of_le hnext, if_neg Bool.false_ne_true]
    cases hfind : m.inlineLookup key with
    | some it =>
      obtain ⟨hlt, hkeyAt⟩ := inlineLookup_eq_some hfind
      have hsplit := inlineLookup_found hfind hkey
      have hset := elements_at m.inl hlt (key, value)
      rw [if_pos hkey] at hset
      rw [hsplit, card_cons] at hcount
      rw [hsplit] at hlists
      refine ⟨true, _, rfl, fun _ => rfl, _, .inline hnext ?_ hmap, ?_⟩
      · rw [hkeyAt, hset, card_cons, ← hcount]
      · rw [hkeyAt, hset]
        exact hlists.assign
    | none =>
      have hnone := inlineLookup_missing hlists hfind
      obtain ⟨ok, m', hadd, hrep⟩ := addInline_spec alloc hnext hcount hmap hlists hkey hnone value
      refine ⟨ok, m', hadd, ?_, hrep⟩
      rw [hnone]
      exact fun h => absurd h Bool.false_ne_true
  | hashed hnext hmap hholds =>
    obtain ⟨ok, map', ms', hadd, hadds, hholds', -⟩ :=
      hholds.findOrAdd (wordMapPolicy_lawful hash) (l := key) (t := (key, value))
        (fun t => (t.1, value)) alloc.addOk (decide_eq_true rfl) fun _ => rfl
    refine ⟨ok, { m with map := some map' }, ?_, adds_succeeds hlists hadds, ms',
      .hashed hnext rfl hholds', ?_⟩
    · rw [usingMap_of_eq hnext, if_pos rfl, hmap]
      simp only [bind_eq_bind, bind_some, HashTable.put, hadd]
    · rcases adds_lists hlists hadds with ⟨old, -, hok, rest, hms, hms'⟩ | ⟨-, hlists'⟩
      · rw [hok, if_pos rfl, hms']
        rw [hms] at hlists
        exact hlists.assign
      · exact hlists'

lemma Represents.remove (h : Represents hash InlineElems m f) (hkey : key ≠ 0)
    (alloc : InlineAlloc) :
    ∃ m', m.remove hash InlineElems key alloc = some m' ∧
      Represents hash InlineElems m' (update f key none) := by
  obtain ⟨ms, hshows, hlists⟩ := h
  rw [InlineMap.remove]
  cases hshows with
  | inline hnext hcount hmap =>
    rw [usingMap_of_le hnext, if_neg Bool.false_ne_true]
    cases hfind : m.inlineLookup key with
    | some it =>
      obtain ⟨hlt, -⟩ := inlineLookup_eq_some hfind
      have hsplit := inlineLookup_found hfind hkey
      have hset := elements_at m.inl hlt (0, (m.inl it).2)
      rw [if_neg (not_not.mpr rfl)] at hset
      rw [hsplit, card_cons] at hcount
      rw [hsplit] at hlists
      simp only
      rw [if_neg (by omega)]
      refine ⟨_, rfl, _, .inline hnext ?_ hmap, ?_⟩
      · rw [hset, hcount, Nat.add_sub_cancel]
      · rw [hset]
        exact hlists.erase
    | none =>
      refine ⟨m, rfl, _, .inline hnext hcount hmap, ?_⟩
      rwa [Lists.update_none (inlineLookup_missing hlists hfind)]
  | hashed hnext hmap hholds =>
    obtain ⟨map', ms', hremove, hholds', hspec⟩ :=
      hholds.remove (wordMapPolicy_lawful hash) key alloc.addOk
    refine ⟨{ m with map := some map' }, ?_, ms', .hashed hnext rfl hholds', ?_⟩
    · rw [usingMap_of_eq hnext, if_pos rfl, hmap]
      simp only [bind_eq_bind, bind_some, hremove]
    · rcases hspec with ⟨t, hms, hmatch⟩ | ⟨habsent, rfl⟩
      · obtain ⟨k, old⟩ := t
        obtain rfl : k = key := of_decide_eq_true hmatch
        rw [hms] at hlists
        exact hlists.erase
      · rwa [Lists.update_none ((absent_iff hlists key).mp habsent)]

/-! ### Contents -/

omit [Inhabited Key] [Inhabited Value] in
lemma Represents.count (h : Represents hash InlineElems m f) :
    ∃ n, m.count InlineElems = some n ∧
      ∃ keys : Finset Key, (∀ k, k ∈ keys ↔ (f k).isSome = true) ∧ keys.card = n := by
  obtain ⟨ms, hshows, hlists⟩ := h
  refine ⟨ms.card, ?_, hlists.exists_keys⟩
  rw [InlineMap.count]
  cases hshows with
  | inline hnext hcount hmap =>
    rw [usingMap_of_le hnext, if_neg Bool.false_ne_true, hcount]
  | hashed hnext hmap hholds =>
    rw [usingMap_of_eq hnext, if_pos rfl, hmap, ← hholds.count]
    rfl

omit [Inhabited Key] [Inhabited Value] in
lemma Represents.empty (h : Represents hash InlineElems m f) :
    ∃ b, m.empty InlineElems = some b ∧ (b = true ↔ ∀ k, f k = none) := by
  obtain ⟨ms, hshows, hlists⟩ := h
  refine ⟨decide (ms.card = 0), ?_, decide_eq_true_iff.trans hlists.card_eq_zero_iff⟩
  rw [InlineMap.empty]
  cases hshows with
  | inline hnext hcount hmap =>
    rw [usingMap_of_le hnext, if_neg Bool.false_ne_true, hcount]
  | hashed hnext hmap hholds =>
    rw [usingMap_of_eq hnext, if_pos rfl, hmap, ← hholds.count]
    rfl

lemma Represents.all (h : Represents hash InlineElems m f) :
    ∃ ts, m.all InlineElems = some ts ∧
      (ts.map Prod.fst).Nodup ∧ ∀ k v, (k, v) ∈ ts ↔ f k = some v := by
  obtain ⟨ms, hshows, hlists⟩ := h
  have hyields : ∃ ts, m.all InlineElems = some ts ∧ (ts : Multiset (Key × Value)) = ms := by
    rw [InlineMap.all]
    cases hshows with
    | inline hnext hcount hmap =>
      rw [usingMap_of_le hnext, if_neg Bool.false_ne_true]
      exact inlinePass_all
    | hashed hnext hmap hholds =>
      obtain ⟨e, ts, -, -, hdrain, -, hts, -⟩ :=
        hholds.enumerate (wordMapPolicy_lawful hash) (fun _ => false) true
      refine ⟨ts, ?_, hts.symm⟩
      rw [usingMap_of_eq hnext, if_pos rfl, hmap]
      simp only [bind_eq_bind, bind_some, hdrain]
  obtain ⟨ts, hall, rfl⟩ := hyields
  exact ⟨ts, hall, hlists.nodup, hlists.mem_iff⟩

end

end InlineMap

/-! ## Runs -/

section

variable [Zero Key] [Inhabited Key] [Inhabited Value] {hash : Key → HashNumber}
  {InlineElems : Nat} {m : InlineMap Key Value} {f : Key → Option Value}

/-- An operation tells of the finite map, and does to it what it says. -/
lemma inlineStep_represents (h : m.Represents hash InlineElems f) {op : InlineOp Key Value}
    (hop : op.KeyNeZero) :
    ∃ m' r, inlineStep hash InlineElems m op = some (m', r) ∧ Tells f op r ∧
      m'.Represents hash InlineElems (if r.succeeded then op.apply f else f) := by
  cases op with
  | lookup key =>
    obtain ⟨m', hlookup, hrep⟩ := h.lookupWith hop (.inl rfl)
    refine ⟨m', .found (f key), ?_, rfl, hrep⟩
    rw [inlineStep, InlineMap.lookup, hlookup]
    rfl
  | lookupForAdd key =>
    obtain ⟨m', hlookup, hrep⟩ := h.lookupWith hop (.inr rfl)
    refine ⟨m', .found (f key), ?_, rfl, hrep⟩
    rw [inlineStep, InlineMap.lookupForAdd, hlookup]
    rfl
  | lookupForAddThenAdd key value alloc =>
    obtain ⟨ok, m', hadd, hok, hrep⟩ := h.lookupForAddThenAdd hop value alloc
    refine ⟨m', .done ok, ?_, hok, ?_⟩
    · rw [inlineStep, hadd]
      rfl
    · cases hf : f key with
      | none => simpa [InlineOp.apply, InlineResult.succeeded, hf] using hrep
      | some old => simpa [InlineOp.apply, InlineResult.succeeded, hf] using hrep
  | put key value alloc =>
    obtain ⟨ok, m', hput, hok, hrep⟩ := h.put hop value alloc
    refine ⟨m', .done ok, ?_, hok, hrep⟩
    rw [inlineStep, hput]
    rfl
  | remove key alloc =>
    obtain ⟨m', hremove, hrep⟩ := h.remove hop alloc
    refine ⟨m', .done true, ?_, rfl, hrep⟩
    rw [inlineStep, hremove]
    rfl
  | clear => exact ⟨m.clear, .done true, rfl, rfl, h.clear⟩
  | count =>
    obtain ⟨n, hcount, hkeys⟩ := h.count
    refine ⟨m, .number n, ?_, hkeys, h⟩
    rw [inlineStep, hcount]
    rfl
  | empty =>
    obtain ⟨b, hempty, hb⟩ := h.empty
    refine ⟨m, .flag b, ?_, hb, h⟩
    rw [inlineStep, hempty]
    rfl
  | all =>
    obtain ⟨ts, hall, hts⟩ := h.all
    refine ⟨m, .yielded ts, ?_, hts, h⟩
    rw [inlineStep, hall]
    rfl

/-- All operations return, and tell of the finite map that the successful ones make. -/
def Agrees (hash : Key → HashNumber) (InlineElems : Nat) :
    InlineMap Key Value → (Key → Option Value) → List (InlineOp Key Value) → Prop
  | _, _, [] => True
  | m, f, op :: ops => ∃ m' r, inlineStep hash InlineElems m op = some (m', r) ∧ Tells f op r ∧
      Agrees hash InlineElems m' (if r.succeeded then op.apply f else f) ops

lemma agrees_of_represents (ops : List (InlineOp Key Value)) (hops : ∀ op ∈ ops, op.KeyNeZero)
    (h : m.Represents hash InlineElems f) : Agrees hash InlineElems m f ops := by
  induction ops generalizing m f with
  | nil => trivial
  | cons op ops ih =>
    obtain ⟨m', r, hstep, htells, hrep⟩ := inlineStep_represents h (hops op List.mem_cons_self)
    exact ⟨m', r, hstep, htells, ih (fun op' hop' => hops op' (List.mem_cons_of_mem _ hop')) hrep⟩

/-- A new map agrees with the empty finite map in all runs, whatever its array contains, whatever
the hash function is and whichever allocations fail. -/
theorem inlineMap_agrees (hash : Key → HashNumber) (InlineElems : Nat) (inl : Nat → Key × Value)
    (ops : List (InlineOp Key Value)) (hops : ∀ op ∈ ops, op.KeyNeZero) :
    Agrees hash InlineElems (InlineMap.new inl) (fun _ => none) ops :=
  agrees_of_represents ops hops (InlineMap.represents_new inl)

end

/-- A switch that fails, and one that does not. -/
theorem inlineMap_agrees_switch :
    let fails : InlineAlloc := ⟨true, fun _ => false, true⟩
    let succeeds : InlineAlloc := ⟨true, fun _ => true, true⟩
    Agrees (fun k : Nat => BitVec.ofNat 32 k) 1 (InlineMap.new fun _ => (0, 0)) (fun _ => none)
      [.put 7 1 succeeds, .put 8 2 fails, .put 8 2 succeeds, .remove 7 succeeds, .count, .all,
        .clear, .lookup 8] := by
  intro fails succeeds
  refine inlineMap_agrees _ 1 _ _ fun op hop => ?_
  simp only [List.mem_cons, List.not_mem_nil, or_false] at hop
  rcases hop with rfl | rfl | rfl | rfl | rfl | rfl | rfl | rfl <;>
    first | trivial | exact (by decide : (7 : Nat) ≠ 0) | exact (by decide : (8 : Nat) ≠ 0)

end SpiderMonkey.Ds
