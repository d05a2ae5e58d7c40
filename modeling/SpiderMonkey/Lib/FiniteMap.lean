import Mathlib

/-! # Finite maps

A finite map as a partial function, and the multisets of pairs that list it.
-/

namespace SpiderMonkey.Lib

open Function Multiset

variable {Key Value : Type}

/-- The pairs of the map, each once. -/
structure Lists (m : Multiset (Key × Value)) (f : Key → Option Value) : Prop where
  nodup : (m.map Prod.fst).Nodup
  mem_iff : ∀ k v, (k, v) ∈ m ↔ f k = some v

namespace Lists

variable {m : Multiset (Key × Value)} {f : Key → Option Value} {k : Key} {v w : Value}

lemma zero : Lists (0 : Multiset (Key × Value)) fun _ => none where
  nodup := by simp
  mem_iff := by simp

/-- A key of the map is listed. -/
lemma key_mem_iff (h : Lists m f) : k ∈ m.map Prod.fst ↔ (f k).isSome = true := by
  rw [mem_map, Option.isSome_iff_exists]
  constructor
  · rintro ⟨⟨k', v⟩, hmem, rfl⟩
    exact ⟨v, (h.mem_iff k' v).mp hmem⟩
  · rintro ⟨v, hv⟩
    exact ⟨(k, v), (h.mem_iff k v).mpr hv, rfl⟩

lemma eq_none_iff (h : Lists m f) : f k = none ↔ ∀ t ∈ m, t.1 ≠ k := by
  rw [← Option.not_isSome_iff_eq_none, ← h.key_mem_iff, mem_map]
  exact ⟨fun hnot t ht heq => hnot ⟨t, ht, heq⟩, fun hne ⟨t, ht, heq⟩ => hne t ht heq⟩

/-- The map has as many keys as pairs are listed. -/
lemma exists_keys (h : Lists m f) :
    ∃ keys : Finset Key, (∀ k, k ∈ keys ↔ (f k).isSome = true) ∧ keys.card = m.card :=
  ⟨⟨m.map Prod.fst, h.nodup⟩, fun _ => h.key_mem_iff, card_map _ _⟩

lemma card_eq_zero_iff (h : Lists m f) : m.card = 0 ↔ ∀ k, f k = none := by
  rw [card_eq_zero]
  constructor
  · rintro rfl k
    exact h.eq_none_iff.mpr fun t ht => absurd ht (notMem_zero t)
  · intro hnone
    refine eq_zero_of_forall_notMem fun t ht => ?_
    exact h.eq_none_iff.mp (hnone t.1) t ht rfl

variable [DecidableEq Key]

lemma insert (h : Lists m f) (hk : f k = none) :
    Lists ((k, v) ::ₘ m) (update f k (some v)) where
  nodup := by
    rw [map_cons, nodup_cons, h.key_mem_iff, hk]
    exact ⟨Bool.false_ne_true, h.nodup⟩
  mem_iff k' v' := by
    rw [mem_cons, Prod.mk.injEq, h.mem_iff]
    by_cases hkey : k' = k
    · subst hkey
      rw [update_self, hk]
      simp [eq_comm]
    · rw [update_of_ne hkey]
      simp [hkey]

lemma erase (h : Lists ((k, w) ::ₘ m) f) : Lists m (update f k none) where
  nodup := by
    have hnodup := h.nodup
    rw [map_cons, nodup_cons] at hnodup
    exact hnodup.2
  mem_iff k' v' := by
    have hnodup := h.nodup
    rw [map_cons, nodup_cons] at hnodup
    by_cases hkey : k' = k
    · subst hkey
      rw [update_self]
      refine iff_of_false (fun hmem => hnodup.1 ?_) (by simp)
      exact mem_map.mpr ⟨_, hmem, rfl⟩
    · rw [update_of_ne hkey, ← h.mem_iff, mem_cons, Prod.mk.injEq]
      simp [hkey]

lemma assign (h : Lists ((k, w) ::ₘ m) f) :
    Lists ((k, v) ::ₘ m) (update f k (some v)) := by
  have hinsert := h.erase.insert (v := v) (update_self k none f)
  rwa [update_idem] at hinsert

/-- Nothing changes when a key that is not there is removed. -/
lemma update_none (hk : f k = none) : update f k none = f := by
  rw [← hk, update_eq_self]

end Lists

end SpiderMonkey.Lib
