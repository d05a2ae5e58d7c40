import Mathlib

/-! # Growable vectors

A vector with what has been reserved for it and with its capacity. It grows to the next power of
two, if the allocation succeeds, and never shrinks.
-/

namespace SpiderMonkey.Lib

structure GrowableVector (α : Type) where
  items : List α
  reserved : ℕ
  capacity : ℕ
  length_le : items.length ≤ reserved
  reserved_le : reserved ≤ capacity

namespace GrowableVector

variable {α : Type} (v : GrowableVector α)

/-- A vector with room for so many items inside of it. -/
def empty (capacity : ℕ) : GrowableVector α := ⟨[], 0, capacity, Nat.le_refl _, Nat.zero_le _⟩

/-- The storage stays. -/
def clear : GrowableVector α := { v with items := [], length_le := Nat.zero_le _ }

/-- The capacity once there is room for `n` items. -/
def grownCapacity (n : ℕ) : ℕ := if v.capacity < n then 2 ^ Nat.clog 2 n else v.capacity

lemma capacity_le_grown (n : ℕ) : v.capacity ≤ v.grownCapacity n := by
  rw [grownCapacity]
  split
  · rename_i h
    exact h.le.trans (Nat.le_pow_clog Nat.one_lt_two n)
  · exact Nat.le_refl _

lemma le_grownCapacity (n : ℕ) : n ≤ v.grownCapacity n := by
  rw [grownCapacity]
  split
  · exact Nat.le_pow_clog Nat.one_lt_two n
  · rename_i h
    exact Nat.le_of_not_lt h

/-- Room for `n` items; none if it takes an allocation, and that fails. -/
def reserve (n : ℕ) (malloc : Bool) : Option (GrowableVector α) :=
  if v.capacity < n ∧ malloc = false then none
  else some
    { v with
      reserved := max v.reserved n
      capacity := v.grownCapacity n
      length_le := v.length_le.trans (Nat.le_max_left _ _)
      reserved_le := Nat.max_le.2 ⟨v.reserved_le.trans (v.capacity_le_grown n), v.le_grownCapacity n⟩ }

/-- Items at the end, in room that has been reserved. -/
def infallibleAppend (l : List α) : Option (GrowableVector α) :=
  if h : v.items.length + l.length ≤ v.reserved then
    some { v with items := v.items ++ l, length_le := (List.length_append).trans_le h }
  else none

/-- As many items as that; new ones are `x`. None if the vector has to grow and cannot. -/
def resize (x : α) (n : ℕ) (malloc : Bool) : Option (GrowableVector α) :=
  if v.capacity < n ∧ malloc = false then none
  else some
    { items := v.items.take n ++ List.replicate (n - v.items.length) x
      reserved := max v.reserved n
      capacity := v.grownCapacity n
      length_le := by
        rw [List.length_append, List.length_take, List.length_replicate]
        omega
      reserved_le := Nat.max_le.2 ⟨v.reserved_le.trans (v.capacity_le_grown n), v.le_grownCapacity n⟩ }

def set (i : ℕ) (x : α) : GrowableVector α :=
  { v with items := v.items.set i x, length_le := (List.length_set ..).trans_le v.length_le }

@[simp] lemma items_clear : v.clear.items = [] := rfl

@[simp] lemma reserved_clear : v.clear.reserved = v.reserved := rfl

@[simp] lemma items_set (i : ℕ) (x : α) : (v.set i x).items = v.items.set i x := rfl

@[simp] lemma reserved_set (i : ℕ) (x : α) : (v.set i x).reserved = v.reserved := rfl

variable {v} {v' : GrowableVector α}

lemma reserve_eq_some {n : ℕ} {malloc : Bool} (h : v.reserve n malloc = some v') :
    v'.items = v.items ∧ n ≤ v'.reserved := by
  rw [reserve] at h
  split at h
  · cases h
  · obtain rfl := Option.some.inj h
    exact ⟨rfl, Nat.le_max_right _ _⟩

lemma infallibleAppend_clear {l : List α} (h : l.length ≤ v.reserved) :
    ∃ v', v.clear.infallibleAppend l = some v' ∧ v'.items = l ∧ v'.reserved = v.reserved := by
  have hroom : v.clear.items.length + l.length ≤ v.clear.reserved := by
    rw [items_clear, List.length_nil, Nat.zero_add]
    exact h
  rw [infallibleAppend, dif_pos hroom]
  exact ⟨_, rfl, rfl, rfl⟩

lemma resize_eq_some {x : α} {n : ℕ} {malloc : Bool} (h : v.resize x n malloc = some v') :
    v'.items.length = n ∧ v.reserved ≤ v'.reserved := by
  rw [resize] at h
  split at h
  · cases h
  · obtain rfl := Option.some.inj h
    refine ⟨?_, Nat.le_max_left _ _⟩
    rw [List.length_append, List.length_take, List.length_replicate]
    omega

end GrowableVector

end SpiderMonkey.Lib
