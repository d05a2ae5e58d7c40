import Mathlib

/-! # Parallel moves in sequence

Moves between locations that are to happen at once, carried out one after the other with a
single extra slot. A move may be marked as part of a cycle: with no cycle open it saves its
destination in the slot and opens one, with one open it takes its value from the slot.
`Sequenced` says which orders are right, and `Sequenced.run` that they are.
-/

namespace SpiderMonkey.Lib

open Function

/-- A move: where it reads, where it writes, and its mark. -/
structure ParallelMove (Loc : Type) where
  src : Loc
  dst : Loc
  marked : Bool

variable {Loc V : Type} [DecidableEq Loc]

/-- The store, the slot, and whether a cycle is open. -/
structure MoveState (Loc V : Type) where
  store : Loc → V
  slot : V
  isOpen : Bool

/-- One move. -/
def MoveState.step (s : MoveState Loc V) (m : ParallelMove Loc) : MoveState Loc V :=
  if m.marked then
    if s.isOpen then
      { s with store := update s.store m.dst s.slot, isOpen := false }
    else
      { store := update s.store m.dst (s.store m.src)
        slot := s.store m.dst
        isOpen := true }
  else { s with store := update s.store m.dst (s.store m.src) }

/-- The moves in order. -/
def MoveState.run (s : MoveState Loc V) (ms : List (ParallelMove Loc)) : MoveState Loc V :=
  ms.foldl MoveState.step s

lemma MoveState.run_concat (s : MoveState Loc V) (ms : List (ParallelMove Loc))
    (m : ParallelMove Loc) : s.run (ms ++ [m]) = (s.run ms).step m := by
  simp [MoveState.run]

/-- `Sequenced ms c`: each move of `ms` reads a location not yet written, or closes the cycle
that is open and was opened by the move to the location it reads. `c` is the location saved
in the slot while a cycle is open. -/
inductive Sequenced : List (ParallelMove Loc) → Option Loc → Prop where
  | nil : Sequenced [] none
  | plain {ms c m} : Sequenced ms c → m.marked = false → (∀ m' ∈ ms, m'.dst ≠ m.src) →
      (∀ m' ∈ ms, m'.dst ≠ m.dst) → Sequenced (ms ++ [m]) c
  | opens {ms m} : Sequenced ms none → m.marked = true → (∀ m' ∈ ms, m'.dst ≠ m.src) →
      (∀ m' ∈ ms, m'.dst ≠ m.dst) → Sequenced (ms ++ [m]) (some m.dst)
  | closes {ms m} : Sequenced ms (some m.src) → m.marked = true →
      (∀ m' ∈ ms, m'.dst ≠ m.dst) → Sequenced (ms ++ [m]) none

omit [DecidableEq Loc] in
/-- An open cycle was opened by a move to the location saved. -/
lemma Sequenced.exists_dst {ms : List (ParallelMove Loc)} {l : Loc}
    (h : Sequenced ms (some l)) : ∃ m ∈ ms, m.dst = l := by
  generalize hc : some l = c at h
  induction h with
  | nil => cases hc
  | plain _ _ _ _ ih =>
    rcases ih hc with ⟨m', hm', hdst⟩
    exact ⟨m', List.mem_append_left _ hm', hdst⟩
  | opens =>
    cases hc
    exact ⟨_, List.mem_append_right _ (List.mem_singleton_self _), rfl⟩
  | closes => cases hc

/-- The marks in order, while `saved` is in the slot: a marked move opens a cycle if none is
open, and else closes the one that is, reading the location saved. In the end none is open. -/
def CyclesPaired : Option Loc → List (ParallelMove Loc) → Prop
  | saved, [] => saved = none
  | saved, m :: ms =>
    if m.marked then
      match saved with
      | none => CyclesPaired (some m.dst) ms
      | some l => m.src = l ∧ CyclesPaired none ms
    else CyclesPaired saved ms

omit [DecidableEq Loc] in
lemma Sequenced.paired_append {ms : List (ParallelMove Loc)} {c : Option Loc}
    (h : Sequenced ms c) (rest : List (ParallelMove Loc)) (hrest : CyclesPaired c rest) :
    CyclesPaired none (ms ++ rest) := by
  induction h generalizing rest with
  | nil => exact hrest
  | @plain ms c m _ hmark _ _ ih =>
    rw [List.append_assoc]
    refine ih (m :: rest) ?_
    show CyclesPaired c (m :: rest)
    cases c <;> simpa [CyclesPaired, hmark] using hrest
  | @opens ms m _ hmark _ _ ih =>
    rw [List.append_assoc]
    refine ih (m :: rest) ?_
    rw [CyclesPaired, if_pos hmark]
    exact hrest
  | @closes ms m _ hmark _ ih =>
    rw [List.append_assoc]
    refine ih (m :: rest) ?_
    rw [CyclesPaired, if_pos hmark]
    exact ⟨rfl, hrest⟩

omit [DecidableEq Loc] in
lemma Sequenced.paired {ms : List (ParallelMove Loc)} (h : Sequenced ms none) :
    CyclesPaired none ms := by
  have hall := h.paired_append [] rfl
  rwa [List.append_nil] at hall

/-- What holds after the moves done so far, from `store` on: those destinations hold the old
values of their sources, nothing else has changed, and the slot holds the old value of the
location saved. -/
structure MoveState.Delivered (store : Loc → V) (ms : List (ParallelMove Loc)) (c : Option Loc)
    (s : MoveState Loc V) : Prop where
  dst : ∀ m ∈ ms, s.store m.dst = store m.src
  other : ∀ l, (∀ m ∈ ms, m.dst ≠ l) → s.store l = store l
  isOpen : s.isOpen = c.isSome
  slot : ∀ l, c = some l → s.slot = store l

/-- A move that writes the old value of its source, to a location not written before. -/
lemma MoveState.Delivered.write {store : Loc → V} {ms : List (ParallelMove Loc)}
    {c : Option Loc} {s : MoveState Loc V} (h : s.Delivered store ms c) {m : ParallelMove Loc}
    {v : V} (hv : v = store m.src) (hfresh : ∀ m' ∈ ms, m'.dst ≠ m.dst) :
    (∀ m' ∈ ms ++ [m], update s.store m.dst v m'.dst = store m'.src) ∧
      ∀ l, (∀ m' ∈ ms ++ [m], m'.dst ≠ l) → update s.store m.dst v l = store l := by
  constructor
  · intro m' hm'
    rw [List.mem_append, List.mem_singleton] at hm'
    rcases hm' with hm' | rfl
    · rw [update_of_ne (hfresh m' hm')]
      exact h.dst m' hm'
    · rw [update_self, hv]
  · intro l hl
    have hne : l ≠ m.dst := fun h => hl m (by simp) h.symm
    rw [update_of_ne hne]
    exact h.other l fun m' hm' => hl m' (List.mem_append_left _ hm')

/-- Moves in a right order deliver every value. -/
lemma Sequenced.run {ms : List (ParallelMove Loc)} {c : Option Loc} (h : Sequenced ms c)
    (s : MoveState Loc V) (hclosed : s.isOpen = false) : (s.run ms).Delivered s.store ms c := by
  induction h with
  | nil =>
    refine ⟨?_, fun _ _ => rfl, hclosed, ?_⟩
    · intro m hm
      cases hm
    · intro l hl
      cases hl
  | @plain ms c m _ hmark hsrc hdst ih =>
    have hstep : (s.run (ms ++ [m])) = { s.run ms with
        store := update (s.run ms).store m.dst ((s.run ms).store m.src) } := by
      rw [MoveState.run_concat, MoveState.step, hmark]
      rfl
    rcases ih.write (ih.other m.src hsrc) hdst with ⟨hwritten, hother⟩
    rw [hstep]
    exact ⟨hwritten, hother, ih.isOpen, ih.slot⟩
  | @opens ms m _ hmark hsrc hdst ih =>
    -- the destination is saved before it is overwritten
    have hstep : (s.run (ms ++ [m])) = {
        store := update (s.run ms).store m.dst ((s.run ms).store m.src)
        slot := (s.run ms).store m.dst
        isOpen := true } := by
      rw [MoveState.run_concat, MoveState.step, if_pos hmark, ih.isOpen]
      rfl
    rcases ih.write (ih.other m.src hsrc) hdst with ⟨hwritten, hother⟩
    rw [hstep]
    refine ⟨hwritten, hother, rfl, ?_⟩
    intro l hl
    cases hl
    exact ih.other m.dst hdst
  | @closes ms m _ hmark hdst ih =>
    -- the source has been overwritten, but its old value is in the slot
    have hstep : (s.run (ms ++ [m])) = { s.run ms with
        store := update (s.run ms).store m.dst (s.run ms).slot
        isOpen := false } := by
      rw [MoveState.run_concat, MoveState.step, if_pos hmark, ih.isOpen]
      rfl
    rcases ih.write (ih.slot m.src rfl) hdst with ⟨hwritten, hother⟩
    rw [hstep]
    refine ⟨hwritten, hother, rfl, ?_⟩
    intro l hl
    cases hl

end SpiderMonkey.Lib
