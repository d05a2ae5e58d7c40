import Mathlib

/-! # Open addressing

Slots, some of which hold an element. An element is looked for along a path of slots, which goes on
at a slot that is blocked and ends at one that is not.
-/

namespace SpiderMonkey.Lib

open Multiset

variable {ι α : Type*}

/-! ## What the slots hold -/

section Contents

variable [Fintype ι]

/-- The elements in the slots. -/
def contents (f : ι → Option α) : Multiset α := Finset.univ.val.filterMap f

lemma mem_contents {f : ι → Option α} {a : α} : a ∈ contents f ↔ ∃ i, f i = some a := by
  simp [contents, mem_filterMap]

lemma contents_none : contents (fun _ : ι => (none : Option α)) = 0 := by
  refine eq_zero_of_forall_notMem fun a ha => ?_
  obtain ⟨_, h⟩ := mem_contents.mp ha
  cases h

lemma contents_equiv (f : ι → Option α) (σ : ι ≃ ι) :
    contents (fun i => f (σ i)) = contents f := by
  have hmap : (Finset.univ : Finset ι).val.map σ = Finset.univ.val := by
    have h := congrArg Finset.val (Finset.map_univ_equiv σ)
    rwa [Finset.map_val] at h
  rw [contents, contents]
  conv_rhs => rw [← hmap, filterMap_map]
  rfl

variable [DecidableEq ι]

lemma contents_split (f : ι → Option α) (i : ι) :
    contents f = (i ::ₘ (Finset.univ.erase i).val).filterMap f := by
  rw [contents, ← Finset.insert_val_of_notMem (Finset.notMem_erase i _),
    Finset.insert_erase (Finset.mem_univ i)]

lemma filterMap_erase_update (f : ι → Option α) (i : ι) (o : Option α) :
    (Finset.univ.erase i).val.filterMap (Function.update f i o) =
      (Finset.univ.erase i).val.filterMap f := by
  have hsame : ∀ j ∈ (Finset.univ.erase i).val, Function.update f i o j = f j := fun j hj =>
    Function.update_of_ne (Finset.ne_of_mem_erase hj) o f
  revert hsame
  induction (Finset.univ.erase i).val using Multiset.induction_on with
  | empty => exact fun _ => rfl
  | cons j s ih =>
    intro hsame
    have hj := hsame j (mem_cons_self j s)
    have hs := ih fun j' hj' => hsame j' (mem_cons_of_mem hj')
    cases hf : f j with
    | none =>
      rw [filterMap_cons_none _ _ hf, filterMap_cons_none _ _ (hj.trans hf), hs]
    | some a =>
      rw [filterMap_cons_some _ _ _ hf, filterMap_cons_some _ _ _ (hj.trans hf),
        hs]

/-- An element is put in an empty slot. -/
lemma contents_update_some {f : ι → Option α} {i : ι} (a : α) (h : f i = none) :
    contents (Function.update f i (some a)) = a ::ₘ contents f := by
  rw [contents_split f i, contents_split _ i, filterMap_cons_none _ _ h,
    filterMap_cons_some _ _ _ (Function.update_self i (some a) f),
    filterMap_erase_update]

/-- An element is taken out. -/
lemma contents_update_none {f : ι → Option α} {i : ι} {a : α} (h : f i = some a) :
    contents f = a ::ₘ contents (Function.update f i none) := by
  have hback := contents_update_some a (Function.update_self i none f)
  rwa [Function.update_idem, ← h, Function.update_eq_self] at hback

omit [DecidableEq ι] in
lemma card_contents (f : ι → Option α) :
    (contents f).card = (Finset.univ.filter fun i => (f i).isSome = true).card := by
  rw [contents, Finset.card, Finset.filter_val]
  induction (Finset.univ : Finset ι).val using Multiset.induction_on with
  | empty => rfl
  | cons i s ih =>
    cases hi : f i with
    | none =>
      rw [filterMap_cons_none _ _ hi, filter_cons_of_neg _ (by simp [hi]), ih]
    | some a =>
      rw [filterMap_cons_some _ _ _ hi, filter_cons_of_pos _ (by simp [hi]),
        card_cons, card_cons, ih]

end Contents

/-! ## Paths -/

/-- The steps reach every slot, in fewer than `n` steps. -/
def StepsCover (next : ι → ι) (n : Nat) : Prop := ∀ i j, ∃ k < n, next^[k] i = j

/-- So many steps along blocked slots. -/
inductive Probe (next : ι → ι) (blocked : ι → Prop) : Nat → ι → ι → Prop
  | here (i : ι) : Probe next blocked 0 i i
  | step {k : Nat} {i j : ι} : blocked i → Probe next blocked k (next i) j →
      Probe next blocked (k + 1) i j

/-- A slot that can be reached along blocked slots. -/
def Reaches (next : ι → ι) (blocked : ι → Prop) (i j : ι) : Prop :=
  ∃ k, Probe next blocked k i j

namespace Probe

variable {next : ι → ι} {p q : ι → Prop}

lemma mono (hpq : ∀ i, p i → q i) {k : Nat} {i j : ι} (h : Probe next p k i j) :
    Probe next q k i j := by
  induction h with
  | here i => exact .here i
  | step hi _ ih => exact .step (hpq _ hi) ih

/-- Of two paths from the same slot one is the beginning of the other. -/
lemma compare {k m : Nat} {i j j' : ι} (h : Probe next p k i j) (h' : Probe next q m i j') :
    (k < m ∧ q j) ∨ (m < k ∧ p j') ∨ (k = m ∧ j = j') := by
  induction h generalizing m with
  | here i =>
    cases h' with
    | here => exact .inr (.inr ⟨rfl, rfl⟩)
    | step hi _ => exact .inl ⟨Nat.succ_pos _, hi⟩
  | step hi _ ih =>
    cases h' with
    | here => exact .inr (.inl ⟨Nat.succ_pos _, hi⟩)
    | step hi' hrest =>
      rcases ih hrest with ⟨hlt, hj⟩ | ⟨hlt, hj⟩ | ⟨heq, hj⟩
      · exact .inl ⟨Nat.succ_lt_succ hlt, hj⟩
      · exact .inr (.inl ⟨Nat.succ_lt_succ hlt, hj⟩)
      · exact .inr (.inr ⟨congrArg (· + 1) heq, hj⟩)

end Probe

lemma Reaches.mono {next : ι → ι} {p q : ι → Prop} (hpq : ∀ i, p i → q i) {i j : ι}
    (h : Reaches next p i j) : Reaches next q i j := by
  obtain ⟨k, hk⟩ := h
  exact ⟨k, hk.mono hpq⟩

/-- The first slot that is not blocked. -/
lemma StepsCover.exists_probe {next : ι → ι} {n : Nat} (hcovers : StepsCover next n)
    (blocked : ι → Prop) (j : ι) (hj : ¬ blocked j) (i : ι) :
    ∃ k < n, ∃ j', Probe next blocked k i j' ∧ ¬ blocked j' := by
  obtain ⟨k, hk, rfl⟩ := hcovers i j
  clear hcovers
  induction k generalizing i n with
  | zero => exact ⟨0, hk, i, .here i, hj⟩
  | succ k ih =>
    by_cases hi : blocked i
    · obtain ⟨m, hm, j', hprobe, hj'⟩ := ih (n := n - 1) (next i) (by omega) hj
      exact ⟨m + 1, by omega, j', .step hi hprobe, hj'⟩
    · exact ⟨0, by omega, i, .here i, hi⟩

/-! ## Steps of an odd length -/

/-- Steps back of an odd length, round a power of two, reach everything. -/
lemma stepsCover_odd {s : Nat} {next : Fin (2 ^ s) → Fin (2 ^ s)} {d : Nat} (hd : d % 2 = 1)
    (hnext : ∀ i, ((next i).val + d) % 2 ^ s = i.val % 2 ^ s) : StepsCover next (2 ^ s) := by
  have hiter : ∀ k i, ((next^[k] i).val + k * d) % 2 ^ s = i.val % 2 ^ s := by
    intro k
    induction k with
    | zero => intro i; simp
    | succ k ih =>
      intro i
      rw [Function.iterate_succ_apply, Nat.add_mul, Nat.one_mul, ← Nat.add_assoc, Nat.add_mod, ih,
        ← Nat.add_mod, hnext]
  have hcoprime : Nat.Coprime (2 ^ s) d :=
    Nat.Coprime.pow_left s (Nat.coprime_two_left.mpr (Nat.odd_iff.mpr hd))
  intro i
  have hinj : Function.Injective fun k : Fin (2 ^ s) => next^[k.val] i := by
    intro k k' heq
    have hsame : (k.val * d) % 2 ^ s = (k'.val * d) % 2 ^ s := by
      have h := (hiter k.val i).trans (hiter k'.val i).symm
      rw [show next^[k.val] i = next^[k'.val] i from heq] at h
      exact Nat.ModEq.add_left_cancel' _ h
    have hmod : k.val % 2 ^ s = k'.val % 2 ^ s :=
      Nat.ModEq.cancel_right_of_coprime hcoprime hsame
    rw [Nat.mod_eq_of_lt k.isLt, Nat.mod_eq_of_lt k'.isLt] at hmod
    exact Fin.ext hmod
  intro j
  obtain ⟨k, hk⟩ := (Finite.injective_iff_surjective.mp hinj) j
  exact ⟨k.val, k.isLt, hk⟩

end SpiderMonkey.Lib
