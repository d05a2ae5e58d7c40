import SpiderMonkey.Infer.HashSet
import SpiderMonkey.Lib.OpenAddressing

/-! # The hash sets of type inference are sets

In a hash table each element can be reached along slots that are not null, from the first slot of
its key, and at least half of the slots are null. So every probe ends, and a search finds the key.
-/

namespace SpiderMonkey.Infer.HashSet

open Lib List Option

variable {U K : Type} {P : KeyOps U K}

/-! ## Slots -/

/-- A slot of an array of `2 ^ s`. -/
abbrev Slot (s : ℕ) : Type := Fin (2 ^ s)

def next {s : ℕ} (i : Slot s) : Slot s :=
  ⟨(i.val + 1) &&& (2 ^ s - 1), by
    rw [Nat.and_two_pow_sub_one_eq_mod]
    exact Nat.mod_lt _ (Nat.two_pow_pos s)⟩

lemma next_covers (s : ℕ) : StepsCover (@next (s + 1)) (2 ^ (s + 1)) := by
  refine stepsCover_odd (d := 2 ^ (s + 1) - 1) ?_ ?_
  · rw [Nat.pow_succ]
    have := Nat.two_pow_pos s
    omega
  · intro i
    have hpos := Nat.two_pow_pos (s + 1)
    have hval : (next i).val = (i.val + 1) % 2 ^ (s + 1) := Nat.and_two_pow_sub_one_eq_mod _ _
    rw [hval, Nat.mod_add_mod,
      show i.val + 1 + (2 ^ (s + 1) - 1) = i.val + 2 ^ (s + 1) by omega, Nat.add_mod_right]

def first (P : KeyOps U K) (s : ℕ) (key : K) : Slot s :=
  ⟨firstPos P (2 ^ s) key, by
    rw [firstPos, Nat.and_two_pow_sub_one_eq_mod]
    exact Nat.mod_lt _ (Nat.two_pow_pos s)⟩

/-- An element that is not a hit keeps a probe going. -/
def Passed (slots : List (Option U)) (hit : U → Bool) {s : ℕ} (i : Slot s) : Prop :=
  ∃ u, slots[i.val]? = some (some u) ∧ hit u = false

/-- A slot that is not null. -/
def Occupied (slots : List (Option U)) {s : ℕ} (i : Slot s) : Prop :=
  ∃ u, slots[i.val]? = some (some u)

variable {slots : List (Option U)} {s : ℕ}

lemma Passed.occupied {hit : U → Bool} {i : Slot s} (h : Passed slots hit i) :
    Occupied slots i := by
  obtain ⟨u, hu, -⟩ := h
  exact ⟨u, hu⟩

lemma probe_eq (hlength : slots.length = 2 ^ s) {hit : U → Bool} {k : ℕ} {i j : Slot s}
    (h : Probe next (Passed slots hit) k i j) (hj : ¬Passed slots hit j) {fuel : ℕ}
    (hfuel : k < fuel) :
    probe slots (2 ^ s) hit fuel i.val = some j.val := by
  induction h generalizing fuel with
  | here i =>
    obtain ⟨fuel, rfl⟩ : ∃ n, fuel = n + 1 := ⟨fuel - 1, by omega⟩
    have hlt : i.val < slots.length := i.isLt.trans_eq hlength.symm
    rw [probe, List.getElem?_eq_getElem hlt]
    cases hslot : slots[i.val] with
    | none => rfl
    | some u =>
      have hhit : hit u = true := by
        by_contra hmiss
        refine hj ⟨u, ?_, Bool.eq_false_of_not_eq_true hmiss⟩
        rw [List.getElem?_eq_getElem hlt, hslot]
      exact if_pos hhit
  | @step k i j hi _ ih =>
    obtain ⟨fuel, rfl⟩ : ∃ n, fuel = n + 1 := ⟨fuel - 1, by omega⟩
    obtain ⟨u, hu, hmiss⟩ := hi
    rw [probe, hu]
    simp only [hmiss, Bool.false_eq_true, if_false]
    exact ih hj (Nat.lt_of_succ_lt_succ hfuel)

/-- Where there is a null slot, a probe ends at one or at a hit. -/
lemma exists_probe (hlength : slots.length = 2 ^ (s + 1)) (hnull : none ∈ slots) (hit : U → Bool)
    (i : Slot (s + 1)) :
    ∃ k j, Probe next (Passed slots hit) k i j ∧ ¬Passed slots hit j ∧
      probe slots (2 ^ (s + 1)) hit (2 ^ (s + 1)) i.val = some j.val := by
  obtain ⟨n, hn⟩ := mem_iff_getElem?.1 hnull
  have hlt : n < 2 ^ (s + 1) := (List.getElem?_eq_some_iff.1 hn).1.trans_eq hlength
  have hstop : ¬Passed slots hit (⟨n, hlt⟩ : Slot (s + 1)) := by
    rintro ⟨u, hu, -⟩
    rw [hn] at hu
    cases hu
  obtain ⟨k, hk, j, hprobe, hj⟩ := (next_covers s).exists_probe _ _ hstop i
  exact ⟨k, j, hprobe, hj, probe_eq hlength hprobe hj hk⟩

/-! ## Hash tables -/

/-- Each element can be reached from the first slot of its key. -/
structure Hashed (P : KeyOps U K) (s : ℕ) (slots : List (Option U)) : Prop where
  length : slots.length = 2 ^ s
  placed : ∀ (i : Slot s) (u : U), slots[i.val]? = some (some u) →
    Reaches next (Occupied slots) (first P s (P.getKey u)) i

lemma reduceOption_set {j : ℕ} (h : slots[j]? = some none) (u : U) :
    (slots.set j (some u)).reduceOption.Perm (u :: slots.reduceOption) := by
  obtain ⟨hj, hnone⟩ := List.getElem?_eq_some_iff.1 h
  have hslots : slots = slots.take j ++ none :: slots.drop (j + 1) := by
    rw [← hnone, ← drop_eq_getElem_cons hj, take_append_drop]
  have hset : slots.set j (some u) = slots.take j ++ some u :: slots.drop (j + 1) := by
    rw [set_eq_take_append_cons_drop, if_pos hj]
  rw [hset]
  conv_rhs => rw [hslots]
  rw [reduceOption_append, reduceOption_append, reduceOption_cons_of_some,
    reduceOption_cons_of_none]
  exact perm_middle

/-- An element is put where its probe ends. -/
lemma Hashed.set (h : Hashed P s slots) {j : Slot s} {u : U} (hj : slots[j.val]? = some none)
    (hreach : Reaches next (Occupied slots) (first P s (P.getKey u)) j) :
    Hashed P s (slots.set j.val (some u)) := by
  have hmono : ∀ i : Slot s, Occupied slots i → Occupied (slots.set j.val (some u)) i := by
    rintro i ⟨v, hv⟩
    refine ⟨v, ?_⟩
    rw [List.getElem?_set_ne]
    · exact hv
    · rintro heq
      rw [← heq, hj] at hv
      cases hv
  refine ⟨(length_set ..).trans h.length, ?_⟩
  intro i v hv
  by_cases hi : j.val = i.val
  · rw [hi, List.getElem?_set_self (i.isLt.trans_eq h.length.symm)] at hv
    rw [← some.inj (some.inj hv), ← Fin.ext hi]
    exact hreach.mono hmono
  · rw [List.getElem?_set_ne hi] at hv
    exact (h.placed i v hv).mono hmono

/-- The probe for a null slot. -/
lemma Hashed.search_null (h : Hashed P (s + 1) slots) (hnull : none ∈ slots) (key : K) :
    ∃ j : Slot (s + 1),
      probe slots (2 ^ (s + 1)) (fun _ => false) (2 ^ (s + 1)) (firstPos P (2 ^ (s + 1)) key) =
        some j.val ∧
      slots[j.val]? = some none ∧ Reaches next (Occupied slots) (first P (s + 1) key) j := by
  obtain ⟨k, j, hprobe, hj, hfound⟩ :=
    exists_probe h.length hnull (fun _ => false) (first P (s + 1) key)
  refine ⟨j, hfound, ?_, k, hprobe.mono fun _ => Passed.occupied⟩
  have hlt : j.val < slots.length := j.isLt.trans_eq h.length.symm
  rw [List.getElem?_eq_getElem hlt]
  cases hslot : slots[j.val] with
  | none => rfl
  | some u => exact absurd ⟨u, by rw [List.getElem?_eq_getElem hlt, hslot], rfl⟩ hj

/-- The loop that moves the elements. -/
lemma rehash_spec {values newValues : List (Option U)} (h : Hashed P (s + 1) newValues)
    (hroom : newValues.reduceOption.length + values.reduceOption.length < 2 ^ (s + 1)) :
    ∃ newValues', rehash P (2 ^ (s + 1)) values newValues = some newValues' ∧
      Hashed P (s + 1) newValues' ∧
      newValues'.reduceOption.Perm (values.reduceOption ++ newValues.reduceOption) := by
  induction values generalizing newValues with
  | nil => exact ⟨newValues, rfl, h, .refl _⟩
  | cons value values ih =>
    cases value with
    | none =>
      rw [reduceOption_cons_of_none] at hroom ⊢
      exact ih h hroom
    | some u =>
      rw [reduceOption_cons_of_some, length_cons] at hroom
      have hnull : none ∈ newValues := by
        rw [← reduceOption_length_lt_iff, h.length]
        omega
      obtain ⟨j, hfound, hj, hreach⟩ := h.search_null hnull (P.getKey u)
      have hperm := reduceOption_set hj u
      obtain ⟨newValues', hrehash, hhashed, hperm'⟩ := ih (h.set hj hreach) (by
        rw [hperm.length_eq, length_cons]
        omega)
      refine ⟨newValues', ?_, hhashed, ?_⟩
      · rw [rehash, hfound]
        exact hrehash
      · rw [reduceOption_cons_of_some]
        refine hperm'.trans ((List.Perm.append_left _ hperm).trans ?_)
        exact perm_middle

lemma hashed_replicate (P : KeyOps U K) (s : ℕ) :
    Hashed P s (List.replicate (2 ^ s) (none : Option U)) := by
  refine ⟨length_replicate, ?_⟩
  intro i u hu
  rw [List.getElem?_replicate] at hu
  split at hu
  · cases hu
  · cases hu

/-- The keys of the elements are different. -/
def KeysNodup (P : KeyOps U K) (elements : List U) : Prop := (elements.map P.getKey).Nodup

lemma mem_reduceOption_iff {u : U} :
    u ∈ slots.reduceOption ↔ ∃ i : ℕ, slots[i]? = some (some u) := by
  rw [reduceOption_mem_iff]
  exact mem_iff_getElem?

variable {elements : List U}

variable [DecidableEq K]

/-- The search finds the element with the key, or the null slot where it belongs. -/
lemma Hashed.search (h : Hashed P (s + 1) slots) (hnull : none ∈ slots) (key : K) :
    ∃ j : Slot (s + 1),
      probe slots (2 ^ (s + 1)) (fun u => P.getKey u = key) (2 ^ (s + 1))
        (firstPos P (2 ^ (s + 1)) key) = some j.val ∧
      ((∃ u, slots[j.val]? = some (some u) ∧ P.getKey u = key) ∨
        slots[j.val]? = some none ∧ (∀ u ∈ slots.reduceOption, P.getKey u ≠ key) ∧
          Reaches next (Occupied slots) (first P (s + 1) key) j) := by
  obtain ⟨k, j, hprobe, hj, hfound⟩ :=
    exists_probe h.length hnull (fun u => P.getKey u = key) (first P (s + 1) key)
  refine ⟨j, hfound, ?_⟩
  have hlt : j.val < slots.length := j.isLt.trans_eq h.length.symm
  cases hslot : slots[j.val] with
  | some u =>
    have hget : slots[j.val]? = some (some u) := by rw [List.getElem?_eq_getElem hlt, hslot]
    refine .inl ⟨u, hget, ?_⟩
    by_contra hkey
    exact hj ⟨u, hget, decide_eq_false hkey⟩
  | none =>
    have hget : slots[j.val]? = some none := by rw [List.getElem?_eq_getElem hlt, hslot]
    refine .inr ⟨hget, ?_, k, hprobe.mono fun _ => Passed.occupied⟩
    -- an element with the key would have been met on the way
    rintro u hu rfl
    obtain ⟨i, hi⟩ := mem_reduceOption_iff.1 hu
    have hi' : i < 2 ^ (s + 1) := (List.getElem?_eq_some_iff.1 hi).1.trans_eq h.length
    obtain ⟨m, hm⟩ := h.placed ⟨i, hi'⟩ u hi
    rcases hprobe.compare hm with ⟨-, v, hv⟩ | ⟨-, v, hv, hmiss⟩ | ⟨-, heq⟩
    · rw [hget] at hv
      cases hv
    · rw [hi] at hv
      rw [← some.inj (some.inj hv)] at hmiss
      exact absurd rfl (of_decide_eq_false hmiss)
    · rw [heq, hi] at hget
      cases hget

/-! ## Arrays that are not hashed -/

lemma scan_cases (done todo : List U) (rest : List (Option U)) (key : K) :
    (∃ A v B, todo = A ++ v :: B ∧ P.getKey v = key ∧
      scan P (done.map some ++ (todo.map some ++ rest)) key todo.length done.length =
        some (some (done.length + A.length))) ∨
    (∀ v ∈ todo, P.getKey v ≠ key) ∧
      scan P (done.map some ++ (todo.map some ++ rest)) key todo.length done.length =
        some none := by
  induction todo generalizing done with
  | nil => exact .inr ⟨nofun, rfl⟩
  | cons v todo ih =>
    have hget : (done.map some ++ ((v :: todo).map some ++ rest))[done.length]? =
        some (some v) := by
      rw [List.getElem?_append_right (length_map _).le, length_map, Nat.sub_self]
      rfl
    rw [length_cons, scan, hget]
    simp only
    by_cases hkey : P.getKey v = key
    · exact .inl ⟨[], v, todo, rfl, hkey, if_pos hkey⟩
    · rw [if_neg hkey]
      have hnext := ih (done ++ [v])
      rw [map_append, map_singleton, append_assoc, length_append,
        length_singleton] at hnext
      rcases hnext with ⟨A, w, B, rfl, hw, hscan⟩ | ⟨habsent, hscan⟩
      · refine .inl ⟨v :: A, w, B, rfl, hw, ?_⟩
        rw [length_cons, show done.length + (A.length + 1) = done.length + 1 + A.length by omega]
        exact hscan
      · refine .inr ⟨?_, hscan⟩
        intro x hx
        rcases mem_cons.1 hx with rfl | hx
        · exact hkey
        · exact habsent x hx

lemma scan_elements (elements : List U) (rest : List (Option U)) (key : K) :
    (∃ A v B, elements = A ++ v :: B ∧ P.getKey v = key ∧
      scan P (elements.map some ++ rest) key elements.length 0 = some (some A.length)) ∨
    (∀ v ∈ elements, P.getKey v ≠ key) ∧
      scan P (elements.map some ++ rest) key elements.length 0 = some none := by
  rcases scan_cases (P := P) [] elements rest key with ⟨A, v, B, helements, hkey, hscan⟩ | habsent
  · rw [length_nil, Nat.zero_add] at hscan
    exact .inl ⟨A, v, B, helements, hkey, hscan⟩
  · exact .inr habsent

/-! ## Representations -/

lemma hashSetCapacity_of_lt {count : ℕ} (h : setArraySize < count) :
    hashSetCapacity count = 2 ^ (Nat.log 2 count + 1 + 1) := by
  rw [hashSetCapacity, if_neg (Nat.not_le.2 h), Nat.one_shiftLeft]

/-- A hash table is at most half full. -/
lemma two_mul_le_hashSetCapacity {count : ℕ} (h : setArraySize < count) :
    2 * count ≤ hashSetCapacity count := by
  rw [hashSetCapacity_of_lt h, Nat.pow_succ _ (Nat.log 2 count + 1)]
  have := Nat.lt_pow_succ_log_self Nat.one_lt_two count
  rw [Nat.succ_eq_add_one] at this
  omega

/-- What `values` is for these elements. -/
def Represents (P : KeyOps U K) : Values U → List U → Prop
  | .null, elements => elements = []
  | .element u, elements => elements = [u]
  | .array slots, elements => 2 ≤ elements.length ∧
    if elements.length ≤ setArraySize then
      slots = elements.map some ++ List.replicate (setArraySize - elements.length) none
    else
      Hashed P (Nat.log 2 elements.length + 1 + 1) slots ∧ slots.reduceOption.Perm elements

/-- The set has an element with the key. -/
def HasKey (P : KeyOps U K) (elements : List U) (key : K) : Prop :=
  ∃ u ∈ elements, P.getKey u = key

/-- What an insertion comes to: the element with the key, an empty slot for it, or no slot. -/
inductive Inserted (P : KeyOps U K) (values : Values U) (elements : List U) (u : U)
    (malloc : Bool) : Option (Bool × Values U × ℕ) → Prop
  | found (h : HasKey P elements (P.getKey u)) :
      Inserted P values elements u malloc (some (true, values, elements.length))
  | added {values' : Values U} (h : ¬HasKey P elements (P.getKey u))
      (hvalues : Represents P values' (elements ++ [u])) :
      Inserted P values elements u malloc (some (true, values', elements.length + 1))
  | failed (h : ¬HasKey P elements (P.getKey u)) (hmalloc : malloc = false) :
      Inserted P values elements u malloc (some (false, values, elements.length))

omit [DecidableEq K] in
/-- A slot for an element, which is then in the table. -/
lemma represents_set (hlength : setArraySize ≤ elements.length)
    (hs : s + 1 = Nat.log 2 (elements.length + 1) + 1 + 1) (h : Hashed P (s + 1) slots)
    (hperm : slots.reduceOption.Perm elements) {key : K} {j : Slot (s + 1)}
    (hj : slots[j.val]? = some none)
    (hreach : Reaches next (Occupied slots) (first P (s + 1) key) j) {u : U}
    (hu : P.getKey u = key) :
    Represents P (.array (slots.set j.val (some u))) (elements ++ [u]) := by
  have hcount : (elements ++ [u]).length = elements.length + 1 := by
    rw [length_append, length_singleton]
  have hbig : ¬elements.length + 1 ≤ setArraySize := by omega
  refine ⟨?_, ?_⟩
  · rw [hcount]
    rw [setArraySize] at hlength
    omega
  · rw [hcount, if_neg hbig, ← hs]
    refine ⟨h.set hj (hu ▸ hreach), ?_⟩
    exact ((reduceOption_set hj u).trans (hperm.cons u)).trans
      (perm_append_singleton u elements).symm

omit [DecidableEq K] in
/-- Growing to the capacity for one more element. -/
lemma grow_spec {values : List (Option U)} (hlength : setArraySize ≤ elements.length)
    (hperm : values.reduceOption.Perm elements) (key : K) :
    ∃ newValues j, rehash P (hashSetCapacity (elements.length + 1)) values
        (List.replicate (hashSetCapacity (elements.length + 1)) none) = some newValues ∧
      probe newValues (hashSetCapacity (elements.length + 1)) (fun _ => false)
        (hashSetCapacity (elements.length + 1))
        (firstPos P (hashSetCapacity (elements.length + 1)) key) = some j ∧
      newValues[j]? = some none ∧
      ∀ u, P.getKey u = key → Represents P (.array (newValues.set j (some u))) (elements ++ [u]) := by
  have hbig : setArraySize < elements.length + 1 := Nat.lt_succ_of_le hlength
  have hroom := two_mul_le_hashSetCapacity hbig
  rw [hashSetCapacity_of_lt hbig] at hroom ⊢
  obtain ⟨newValues, hrehash, hhashed, hperm'⟩ := rehash_spec
    (hashed_replicate P (Nat.log 2 (elements.length + 1) + 1 + 1))
    (show _ + values.reduceOption.length < _ by
      rw [reduceOption_replicate_none, hperm.length_eq, length_nil]
      omega)
  rw [reduceOption_replicate_none, append_nil] at hperm'
  have hnull : none ∈ newValues := by
    rw [← reduceOption_length_lt_iff, (hperm'.trans hperm).length_eq, hhashed.length]
    omega
  obtain ⟨j, hfound, hj, hreach⟩ := hhashed.search_null hnull key
  refine ⟨newValues, j.val, hrehash, hfound, hj, ?_⟩
  intro u hu
  exact represents_set hlength rfl hhashed (hperm'.trans hperm) hj hreach hu

/-- What `HashSetInsertTry` comes to, for a key that is not in the set. -/
def TriedNew (P : KeyOps U K) (slots : List (Option U)) (elements : List U) (key : K)
    (malloc : Bool) : Prop :=
  malloc = false ∧ hashSetInsertTry P slots elements.length key malloc =
      some (none, slots, elements.length + 1) ∨
    ∃ j slots', hashSetInsertTry P slots elements.length key malloc =
        some (some j, slots', elements.length + 1) ∧ slots'[j]? = some none ∧
      ∀ u, P.getKey u = key → Represents P (.array (slots'.set j (some u))) (elements ++ [u])

lemma insertTry_hashed (hlength : setArraySize < elements.length)
    (h : Hashed P (Nat.log 2 elements.length + 1 + 1) slots)
    (hperm : slots.reduceOption.Perm elements) (key : K) (malloc : Bool) :
    (∃ j u, slots[j]? = some (some u) ∧ P.getKey u = key ∧
      hashSetInsertTry P slots elements.length key malloc =
        some (some j, slots, elements.length)) ∨
    ¬HasKey P elements key ∧ TriedNew P slots elements key malloc := by
  have hroom := two_mul_le_hashSetCapacity hlength
  have hcapacity := hashSetCapacity_of_lt hlength
  have hnull : none ∈ slots := by
    rw [← reduceOption_length_lt_iff, hperm.length_eq, h.length, ← hcapacity]
    omega
  have hconverting : ¬elements.length = setArraySize := hlength.ne'
  obtain ⟨j, hfound, hcases⟩ := h.search hnull key
  have hfound' : probe slots (hashSetCapacity elements.length) (fun u => P.getKey u = key)
      (hashSetCapacity elements.length) (firstPos P (hashSetCapacity elements.length) key) =
        some j.val := by
    rw [hcapacity]
    exact hfound
  rcases hcases with ⟨u, hu, hkey⟩ | ⟨hj, habsent, hreach⟩
  · refine .inl ⟨j.val, u, hu, hkey, ?_⟩
    rw [hashSetInsertTry]
    simp only [hconverting, if_false, hfound', bind_eq_bind, bind_some, hu]
    rfl
  · right
    refine ⟨?_, ?_⟩
    · rintro ⟨u, hu, hkey⟩
      exact habsent u (hperm.mem_iff.2 hu) hkey
    · rw [TriedNew, hashSetInsertTry]
      simp only [hconverting, if_false, hfound', bind_eq_bind, bind_some, hj]
      rw [if_neg (by simp)]
      by_cases hsame : hashSetCapacity (elements.length + 1) = hashSetCapacity elements.length
      · -- the table stays
        rw [if_pos hsame]
        refine .inr ⟨j.val, slots, rfl, hj, ?_⟩
        intro u hu
        have hlog : Nat.log 2 elements.length + 1 + 1 =
            Nat.log 2 (elements.length + 1) + 1 + 1 := by
          rw [hcapacity, hashSetCapacity_of_lt (by omega)] at hsame
          exact (Nat.pow_right_injective (Nat.le_refl 2) hsame).symm
        exact represents_set hlength.le hlog h hperm hj hreach hu
      · rw [if_neg hsame]
        cases malloc with
        | false => exact .inl ⟨rfl, rfl⟩
        | true =>
          have hfull : slots.length = hashSetCapacity elements.length := h.length.trans hcapacity.symm
          obtain ⟨newValues, j', hrehash, hprobe, hj', hrep⟩ := grow_spec hlength.le hperm key
          rw [if_neg (by decide), if_neg hfull.not_lt, ← hfull, take_length, hrehash]
          simp only [bind_some, hprobe]
          exact .inr ⟨j', newValues, rfl, hj', hrep⟩

/-- The array that is not hashed is full. -/
lemma insertTry_convert (hlength : elements.length = setArraySize) (key : K) (malloc : Bool) :
    TriedNew P (elements.map some) elements key malloc := by
  have hperm : ((elements.map some).reduceOption).Perm elements := by
    rw [List.reduceOption, filterMap_map]
    exact .of_eq (filterMap_some)
  have hcapacity : hashSetCapacity elements.length = setArraySize := by
    rw [hlength]
    rfl
  have hnew : ¬hashSetCapacity (elements.length + 1) = hashSetCapacity elements.length := by
    rw [hlength]
    decide
  rw [TriedNew, hashSetInsertTry]
  simp only [hlength.symm, if_true, bind_eq_bind, bind_some]
  rw [if_neg (by simp), if_neg hnew]
  cases malloc with
  | false => exact .inl ⟨rfl, rfl⟩
  | true =>
    have hfull : (elements.map some).length = hashSetCapacity elements.length := by
      rw [length_map, hcapacity, hlength]
    obtain ⟨newValues, j', hrehash, hprobe, hj', hrep⟩ := grow_spec hlength.ge hperm key
    rw [if_neg (by decide), if_neg hfull.not_lt, ← hfull, take_length, hrehash]
    simp only [bind_some, hprobe]
    exact .inr ⟨j', newValues, rfl, hj', hrep⟩

/-! ## The operations -/

/-- Filling the slot that an insertion returns. -/
lemma addObject_eq {values values' : Values U} {count count' : ℕ} {u : U} {malloc : Bool}
    {entry : Entry} (h : hashSetInsert P values count (P.getKey u) malloc =
      some (some entry, values', count')) {old : Option U} (hread : values'.read entry = some old) :
    addObject P values count u malloc =
      some (if old.isSome then (true, values', count) else (true, values'.write u entry, count')) := by
  rw [addObject, h]
  simp only [bind_eq_bind, bind_some, hread]
  cases old with
  | none => rfl
  | some v => rfl

lemma addObject_none {values values' : Values U} {count count' : ℕ} {u : U} {malloc : Bool}
    (h : hashSetInsert P values count (P.getKey u) malloc = some (none, values', count')) :
    addObject P values count u malloc = some (false, values', count) := by
  rw [addObject, h]
  rfl

/-- The end of an insertion in an array, with what `HashSetInsertTry` returns. -/
lemma inserted_of_triedNew {u : U} {malloc : Bool} (habsent : ¬HasKey P elements (P.getKey u))
    (h : TriedNew P slots elements (P.getKey u) malloc)
    (hinsert : hashSetInsert P (.array slots) elements.length (P.getKey u) malloc =
      (hashSetInsertTry P slots elements.length (P.getKey u) malloc).map fun r =>
        (r.1.map Entry.slot, .array r.2.1, r.2.2)) :
    Inserted P (.array slots) elements u malloc
      (addObject P (.array slots) elements.length u malloc) := by
  rcases h with ⟨hmalloc, htry⟩ | ⟨j, slots', htry, hj, hrep⟩
  · rw [htry] at hinsert
    rw [addObject_none hinsert]
    exact .failed habsent hmalloc
  · rw [htry] at hinsert
    rw [addObject_eq hinsert hj]
    exact .added habsent (hrep u rfl)

omit [DecidableEq K] in
lemma not_hasKey_of_forall {key : K} (h : ∀ u ∈ elements, P.getKey u ≠ key) :
    ¬HasKey P elements key := by
  rintro ⟨u, hu, hkey⟩
  exact h u hu hkey

/-- In an array that is not hashed. -/
lemma hashSetInsert_array {length : Nat} (htwo : 2 ≤ length) (hlength : length ≤ setArraySize)
    (slots : List (Option U)) (key : K) (malloc : Bool) :
    hashSetInsert P (.array slots) length key malloc =
      match scan P slots key length 0 with
      | none => none
      | some (some i) => some (some (.slot i), .array slots, length)
      | some none =>
        if length < setArraySize then some (some (.slot length), .array slots, length + 1)
        else (hashSetInsertTry P slots length key malloc).map fun r =>
          (r.1.map Entry.slot, .array r.2.1, r.2.2) := by
  obtain ⟨n, rfl⟩ : ∃ n, length = n + 2 := ⟨length - 2, by omega⟩
  exact if_pos hlength

lemma addObject_array (htwo : 2 ≤ elements.length) (hlength : elements.length ≤ setArraySize)
    (u : U) (malloc : Bool) :
    Inserted P
      (.array (elements.map some ++ List.replicate (setArraySize - elements.length) none)) elements
      u malloc
      (addObject P
        (.array (elements.map some ++ List.replicate (setArraySize - elements.length) none))
        elements.length u malloc) := by
  have hscan := scan_elements (P := P) elements
    (List.replicate (setArraySize - elements.length) none) (P.getKey u)
  generalize hslots : elements.map some ++ List.replicate (setArraySize - elements.length) none =
    slots at hscan ⊢
  have hinsert := hashSetInsert_array (P := P) htwo hlength slots (P.getKey u) malloc
  rcases hscan with ⟨A, v, B, helements, hkey, hscan⟩ | ⟨habsent, hscan⟩
  · rw [hscan] at hinsert
    have hread : (Values.array slots).read (.slot A.length) = some (some v) := by
      rw [Values.read, ← hslots, helements, map_append, map_cons, append_assoc,
        List.getElem?_append_right (length_map _).le, length_map, Nat.sub_self]
      rfl
    rw [addObject_eq hinsert hread]
    refine .found ⟨v, ?_, hkey⟩
    rw [helements]
    exact mem_append_right _ mem_cons_self
  · rw [hscan] at hinsert
    have hnot := not_hasKey_of_forall habsent
    rcases hlength.lt_or_eq with hlt | heq
    · -- the first slot that is null
      simp only [if_pos hlt] at hinsert
      obtain ⟨m, hm⟩ : ∃ m, setArraySize - elements.length = m + 1 :=
        ⟨setArraySize - elements.length - 1, by omega⟩
      rw [hm, replicate_succ] at hslots
      have hread : (Values.array slots).read (.slot elements.length) = some none := by
        rw [Values.read, ← hslots, List.getElem?_append_right (length_map _).le,
          length_map, Nat.sub_self]
        rfl
      rw [addObject_eq hinsert hread]
      refine .added hnot ⟨?_, ?_⟩
      · rw [length_append]
        omega
      · rw [length_append, length_singleton, if_pos (Nat.succ_le_of_lt hlt),
          show setArraySize - (elements.length + 1) = m by omega, ← hslots, map_append,
          set_append_right _ _ (length_map _).le, length_map, Nat.sub_self,
          append_assoc]
        rfl
    · simp only [if_neg heq.not_lt] at hinsert
      have hconvert := insertTry_convert (P := P) heq (P.getKey u) malloc
      rw [heq, Nat.sub_self, replicate_zero, append_nil] at hslots
      rw [hslots] at hconvert
      exact inserted_of_triedNew hnot hconvert hinsert

variable {values : Values U}

/-- An insertion ends, and does what an insertion into a set does. -/
lemma addObject_spec (h : Represents P values elements) (u : U) (malloc : Bool) :
    Inserted P values elements u malloc (addObject P values elements.length u malloc) := by
  cases values with
  | null =>
    obtain rfl : elements = [] := h
    refine .added ?_ rfl
    rintro ⟨v, hv, -⟩
    cases hv
  | element v =>
    obtain rfl : elements = [v] := h
    by_cases hkey : P.getKey v = P.getKey u
    · have hinsert : hashSetInsert P (.element v) 1 (P.getKey u) malloc =
          some (some .values, .element v, 1) := if_pos hkey
      rw [length_singleton, addObject_eq hinsert rfl]
      exact .found ⟨v, mem_singleton_self v, hkey⟩
    · have habsent : ¬HasKey P [v] (P.getKey u) := by
        rintro ⟨w, hw, hwkey⟩
        rw [mem_singleton.1 hw] at hwkey
        exact hkey hwkey
      cases malloc with
      | false =>
        have hinsert : hashSetInsert P (.element v) 1 (P.getKey u) false =
            some (none, .element v, 1) := if_neg hkey
        rw [length_singleton, addObject_none hinsert]
        exact .failed habsent rfl
      | true =>
        have hinsert : hashSetInsert P (.element v) 1 (P.getKey u) true =
            some (some (.slot 1), .array ((List.replicate setArraySize none).set 0 (some v)), 2) :=
          if_neg hkey
        rw [length_singleton, addObject_eq hinsert rfl]
        refine .added habsent ⟨Nat.le_refl 2, ?_⟩
        exact (if_pos (Nat.le_of_ble_eq_true rfl)).mpr rfl
  | array slots =>
    obtain ⟨htwo, hslots⟩ := h
    split_ifs at hslots with hlength
    · rw [hslots]
      exact addObject_array htwo hlength u malloc
    · obtain ⟨hhashed, hperm⟩ := hslots
      obtain ⟨n, hn⟩ : ∃ n, elements.length = n + 2 := ⟨elements.length - 2, by omega⟩
      have hinsert : hashSetInsert P (.array slots) elements.length (P.getKey u) malloc =
          (hashSetInsertTry P slots elements.length (P.getKey u) malloc).map fun r =>
            (r.1.map Entry.slot, .array r.2.1, r.2.2) := by
        rw [hn] at hlength ⊢
        exact if_neg hlength
      rcases insertTry_hashed (Nat.lt_of_not_le hlength) hhashed hperm (P.getKey u) malloc with
        ⟨j, v, hv, hkey, htry⟩ | ⟨habsent, htried⟩
      · rw [htry] at hinsert
        rw [addObject_eq hinsert hv]
        refine .found ⟨v, ?_, hkey⟩
        exact hperm.mem_iff.1 (mem_reduceOption_iff.2 ⟨j, hv⟩)
      · exact inserted_of_triedNew habsent htried hinsert

/-- A lookup finds the element with the key. -/
lemma hashSetLookup_spec (h : Represents P values elements) (key : K) :
    (∃ u ∈ elements, P.getKey u = key ∧
      hashSetLookup P values elements.length key = some (some u)) ∨
    ¬HasKey P elements key ∧ hashSetLookup P values elements.length key = some none := by
  cases values with
  | null =>
    obtain rfl : elements = [] := h
    refine .inr ⟨?_, rfl⟩
    rintro ⟨v, hv, -⟩
    cases hv
  | element v =>
    obtain rfl : elements = [v] := h
    by_cases hkey : P.getKey v = key
    · refine .inl ⟨v, mem_singleton_self v, hkey, ?_⟩
      exact congrArg some (if_pos hkey)
    · refine .inr ⟨?_, congrArg some (if_neg hkey)⟩
      rintro ⟨w, hw, hwkey⟩
      rw [mem_singleton.1 hw] at hwkey
      exact hkey hwkey
  | array slots =>
    obtain ⟨htwo, hslots⟩ := h
    obtain ⟨n, hn⟩ : ∃ n, elements.length = n + 2 := ⟨elements.length - 2, by omega⟩
    split_ifs at hslots with hlength
    · have hscan := scan_elements (P := P) elements
        (List.replicate (setArraySize - elements.length) none) key
      rw [← hslots] at hscan
      have hlookup : hashSetLookup P (.array slots) elements.length key =
          (scan P slots key elements.length 0).map fun i => i.bind fun i => (slots[i]?).join := by
        rw [hn] at hlength ⊢
        exact if_pos hlength
      rw [hlookup]
      rcases hscan with ⟨A, v, B, helements, hkey, hscan⟩ | ⟨habsent, hscan⟩
      · refine .inl ⟨v, ?_, hkey, ?_⟩
        · rw [helements]
          exact mem_append_right _ mem_cons_self
        · rw [hscan, hslots, helements, map_some, bind_some, map_append,
            map_cons, append_assoc,
            List.getElem?_append_right (length_map _).le, length_map, Nat.sub_self]
          rfl
      · exact .inr ⟨not_hasKey_of_forall habsent, congrArg (Option.map _) hscan⟩
    · obtain ⟨hhashed, hperm⟩ := hslots
      have hbig := Nat.lt_of_not_le hlength
      have hroom := two_mul_le_hashSetCapacity hbig
      have hcapacity := hashSetCapacity_of_lt hbig
      have hlookup : hashSetLookup P (.array slots) elements.length key =
          (probe slots (hashSetCapacity elements.length) (fun u => P.getKey u = key)
            (hashSetCapacity elements.length)
            (firstPos P (hashSetCapacity elements.length) key)).map
              fun pos => (slots[pos]?).join := by
        rw [hn] at hlength ⊢
        exact if_neg hlength
      have hnull : none ∈ slots := by
        rw [← reduceOption_length_lt_iff, hperm.length_eq, hhashed.length, ← hcapacity]
        omega
      obtain ⟨j, hfound, hcases⟩ := hhashed.search hnull key
      rw [hlookup, hcapacity, hfound, map_some]
      rcases hcases with ⟨u, hu, hkey⟩ | ⟨hj, habsent, -⟩
      · refine .inl ⟨u, hperm.mem_iff.1 (mem_reduceOption_iff.2 ⟨j.val, hu⟩), hkey, ?_⟩
        rw [hu]
        rfl
      · refine .inr ⟨?_, ?_⟩
        · exact not_hasKey_of_forall fun u hu => habsent u (hperm.mem_iff.2 hu)
        · rw [hj]
          rfl

/-! ## Runs -/

omit [DecidableEq K] in
lemma elements_perm (h : Represents P values elements) :
    values.elements.Perm elements := by
  cases values with
  | null => exact .of_eq h.symm
  | element u => exact .of_eq h.symm
  | array slots =>
    obtain ⟨-, hslots⟩ := h
    split_ifs at hslots with hlength
    · rw [Values.elements, hslots, reduceOption_append, reduceOption_replicate_none,
        append_nil, List.reduceOption, filterMap_map]
      exact .of_eq filterMap_some
    · exact hslots.2

omit [DecidableEq K] in
/-- An array has the capacity that is computed from the number of elements. -/
lemma length_slots (h : Represents P (.array slots) elements) :
    2 ≤ elements.length ∧ slots.length = hashSetCapacity elements.length := by
  obtain ⟨htwo, hslots⟩ := h
  refine ⟨htwo, ?_⟩
  split_ifs at hslots with hlength
  · rw [hslots, length_append, length_map, length_replicate, hashSetCapacity,
      if_pos hlength]
    omega
  · rw [hslots.1.length, hashSetCapacity_of_lt (Nat.lt_of_not_le hlength)]

/-- The invariant of runs. -/
def Sound (P : KeyOps U K) (values : Values U) (count : ℕ) (keys : List K) : Prop :=
  ∃ elements, Represents P values elements ∧ count = elements.length ∧ KeysNodup P elements ∧
    ∀ key, HasKey P elements key ↔ key ∈ keys

lemma Sound.add {values values' : Values U} {count count' : ℕ} {keys : List K} {u : U}
    {malloc ok : Bool} (h : Sound P values count keys)
    (hadd : addObject P values count u malloc = some (ok, values', count')) :
    Sound P values' count' (if ok then P.getKey u :: keys else keys) := by
  obtain ⟨elements, hrep, rfl, hnodup, hkeys⟩ := h
  have hspec := addObject_spec hrep u malloc
  rw [hadd] at hspec
  cases hspec with
  | found hfound =>
    refine ⟨elements, hrep, rfl, hnodup, ?_⟩
    intro key
    rw [if_pos rfl, mem_cons, hkeys key]
    refine ⟨.inr, ?_⟩
    rintro (rfl | hkey)
    · exact (hkeys _).1 hfound
    · exact hkey
  | added habsent hvalues =>
    refine ⟨elements ++ [u], hvalues, ?_, ?_, ?_⟩
    · rw [length_append, length_singleton]
    · rw [KeysNodup, map_append, map_singleton, nodup_append]
      refine ⟨hnodup, nodup_singleton _, ?_⟩
      intro key hkey key' hkey' heq
      rw [mem_singleton.1 hkey'] at heq
      subst heq
      exact habsent (mem_map.1 hkey)
    · intro key
      rw [if_pos rfl, mem_cons, ← hkeys key]
      constructor
      · rintro ⟨v, hv, hkey⟩
        rcases mem_append.1 hv with hv | hv
        · exact .inr ⟨v, hv, hkey⟩
        · rw [mem_singleton.1 hv] at hkey
          exact .inl hkey.symm
      · rintro (rfl | ⟨v, hv, hkey⟩)
        · exact ⟨u, mem_append_right _ mem_cons_self, rfl⟩
        · exact ⟨v, mem_append_left _ hv, hkey⟩
  | failed _ _ => exact ⟨elements, hrep, rfl, hnodup, hkeys⟩

lemma SetRuns.sound {count : ℕ} {keys : List K} (h : SetRuns P values count keys) :
    Sound P values count keys := by
  induction h with
  | init =>
    refine ⟨[], rfl, rfl, nodup_nil, ?_⟩
    intro key
    refine ⟨?_, nofun⟩
    rintro ⟨u, hu, -⟩
    cases hu
  | add _ hadd ih => exact ih.add hadd

/-- After any calls: a lookup finds the keys of the calls that succeeded, each is stored once, the
array has the capacity for the number of elements and is at most half full if it is hashed, and the
next call ends, with nothing changed if its allocation fails. -/
theorem hashSet_exact {values : Values U} {count : ℕ} {keys : List K}
    (h : SetRuns P values count keys) :
    (∀ key, ∃ r, hashSetLookup P values count key = some r ∧ (r.isSome ↔ key ∈ keys) ∧
      ∀ u, r = some u → P.getKey u = key) ∧
    (values.elements.map P.getKey).Nodup ∧ values.elements.length = count ∧
    (∀ key, key ∈ values.elements.map P.getKey ↔ key ∈ keys) ∧
    (∀ slots, values = .array slots → slots.length = hashSetCapacity count ∧
      (setArraySize < count → 2 * count ≤ slots.length)) ∧
    ∀ u malloc, ∃ ok values' count', addObject P values count u malloc = some (ok, values', count') ∧
      (ok = false → malloc = false ∧ values' = values ∧ count' = count) := by
  obtain ⟨elements, hrep, rfl, hnodup, hkeys⟩ := h.sound
  have hperm := elements_perm hrep
  refine ⟨?_, ?_, hperm.length_eq, ?_, ?_, ?_⟩
  · intro key
    rcases hashSetLookup_spec hrep key with ⟨u, hu, hkey, hlookup⟩ | ⟨habsent, hlookup⟩
    · refine ⟨some u, hlookup, ?_, ?_⟩
      · rw [← hkeys key]
        exact ⟨fun _ => ⟨u, hu, hkey⟩, fun _ => rfl⟩
      · intro v hv
        rw [← some.inj hv, hkey]
    · refine ⟨none, hlookup, ?_, nofun⟩
      rw [← hkeys key]
      exact ⟨nofun, fun hkey => absurd hkey habsent⟩
  · exact (hperm.map P.getKey).nodup_iff.2 hnodup
  · intro key
    rw [(hperm.map P.getKey).mem_iff, List.mem_map]
    exact hkeys key
  · rintro slots rfl
    obtain ⟨-, hlength⟩ := length_slots hrep
    refine ⟨hlength, ?_⟩
    intro hbig
    rw [hlength]
    exact two_mul_le_hashSetCapacity hbig
  · intro u malloc
    have hspec := addObject_spec hrep u malloc
    generalize addObject P values elements.length u malloc = r at hspec ⊢
    cases hspec with
    | found _ => exact ⟨true, _, _, rfl, nofun⟩
    | added _ _ => exact ⟨true, _, _, rfl, nofun⟩
    | failed _ hmalloc => exact ⟨false, _, _, rfl, fun _ => ⟨hmalloc, rfl, rfl⟩⟩

/-- Numbers as their own keys. -/
def numbers : KeyOps ℕ ℕ := ⟨id, BitVec.ofNat 32⟩

/-- Two numbers, the second after an allocation that failed. -/
theorem hashSet_exact_numbers : ∃ values, SetRuns numbers values 2 [5, 3] ∧
    ∃ r, hashSetLookup numbers values 2 5 = some r ∧ (r.isSome ↔ 5 ∈ [5, 3]) ∧
      ∀ u, r = some u → numbers.getKey u = 5 := by
  have h₁ := (SetRuns.init (P := numbers)).add
    (show addObject numbers _ _ 3 true = some (true, _) from rfl)
  have h₂ := h₁.add (show addObject numbers _ _ 5 false = some (false, _) from rfl)
  have h₃ := h₂.add (show addObject numbers _ _ 5 true = some (true, _) from rfl)
  exact ⟨_, h₃, (hashSet_exact h₃).1 5⟩

end SpiderMonkey.Infer.HashSet
