import SpiderMonkey.Lib.Transition
import SpiderMonkey.Ion.Snapshots

/-! # Stack slots

`StackSlotAllocator.h`. The words of a frame are numbered from 1. The index of a single slot is that
of its word; a double slot, or one for a value, takes 8 bytes, and its index is that of its last word.
-/

namespace SpiderMonkey.Ion

open Lib List Multiset

namespace Architecture

/-- `STACK_SLOT_SIZE` -/
def stackSlotSize : Architecture → Nat
  | x86 => 4
  | x64 => 8
  | arm => 4

/-- `DOUBLE_STACK_ALIGNMENT` -/
def doubleStackAlignment : Architecture → Nat
  | x86 => 2
  | x64 => 1
  | arm => 2

end Architecture

/-- `ComputeByteAlignment` -/
def computeByteAlignment (bytes alignment : Nat) : Nat := (alignment - bytes % alignment) % alignment

/-- The free slots, the one freed last first, and the number of words. -/
structure StackSlotAllocator where
  normalSlots : List Nat
  doubleSlots : List Nat
  height : Nat
deriving DecidableEq, Repr

namespace StackSlotAllocator

variable (arch : Architecture) (a : StackSlotAllocator)

def freeSlot (index : Nat) : StackSlotAllocator := { a with normalSlots := index :: a.normalSlots }

def freeDoubleSlot (index : Nat) : StackSlotAllocator :=
  { a with doubleSlots := index :: a.doubleSlots }

def freeValueSlot (index : Nat) : StackSlotAllocator := a.freeDoubleSlot index

/-- `allocateDoubleSlot`: a word that is left out for the alignment becomes a free slot. -/
def allocateDoubleSlot : Nat × StackSlotAllocator :=
  match a.doubleSlots with
  | index :: rest => (index, { a with doubleSlots := rest })
  | [] =>
    let a :=
      if computeByteAlignment a.height arch.doubleStackAlignment ≠ 0 then
        { a with normalSlots := (a.height + 1) :: a.normalSlots, height := a.height + 1 }
      else a
    let height := a.height + 8 / arch.stackSlotSize
    (height, { a with height })

def allocateSlot : Nat × StackSlotAllocator :=
  match a.normalSlots, a.doubleSlots with
  | index :: rest, _ => (index, { a with normalSlots := rest })
  | [], index :: rest => (index, { a with normalSlots := [index - 1], doubleSlots := rest })
  | [], [] => (a.height + 1, { a with height := a.height + 1 })

def allocateValueSlot : Nat × StackSlotAllocator := a.allocateDoubleSlot arch

end StackSlotAllocator

/-! ## The slots in use -/

inductive SlotKind where
  | single
  | double
  | value
deriving DecidableEq, Repr

/-- A slot in use. -/
structure StackSlot where
  kind : SlotKind
  index : Nat
deriving DecidableEq, Repr

/-- The words of 8 bytes that end with `index`. -/
def doubleWords (arch : Architecture) (index : Nat) : List Nat :=
  if arch.stackSlotSize = 4 then [index - 1, index] else [index]

def StackSlot.words (arch : Architecture) (slot : StackSlot) : List Nat :=
  match slot.kind with
  | .single => [slot.index]
  | .double => doubleWords arch slot.index
  | .value => doubleWords arch slot.index

/-- An allocator, and the slots that were allocated and not freed yet. -/
structure SlotUse where
  allocator : StackSlotAllocator
  live : List StackSlot
deriving DecidableEq, Repr

inductive SlotEvent where
  | allocate (kind : SlotKind)
  | free (slot : StackSlot)
deriving DecidableEq, Repr

namespace StackSlotAllocator

def allocate (arch : Architecture) (a : StackSlotAllocator) : SlotKind → Nat × StackSlotAllocator
  | .single => a.allocateSlot
  | .double => a.allocateDoubleSlot arch
  | .value => a.allocateValueSlot arch

def free (a : StackSlotAllocator) (slot : StackSlot) : StackSlotAllocator :=
  match slot.kind with
  | .single => a.freeSlot slot.index
  | .double => a.freeDoubleSlot slot.index
  | .value => a.freeValueSlot slot.index

end StackSlotAllocator

namespace SlotUse

/-- Only what was allocated and not freed yet is freed. -/
def step (arch : Architecture) (s : SlotUse) : SlotEvent → Option SlotUse
  | .allocate kind =>
    let (index, allocator) := s.allocator.allocate arch kind
    some ⟨allocator, ⟨kind, index⟩ :: s.live⟩
  | .free slot =>
    if slot ∈ s.live then some ⟨s.allocator.free slot, s.live.erase slot⟩ else none

end SlotUse

/-- The runs of an allocator. -/
def slotTransition (arch : Architecture) : Transition SlotUse SlotEvent where
  initial s := s = ⟨⟨[], [], 0⟩, []⟩
  step := SlotUse.step arch

namespace SlotUse

variable (arch : Architecture)

/-- The slots in use have no word in common, and their words are in the frame. -/
structure Sound (s : SlotUse) : Prop where
  disjoint : (s.live.flatMap (StackSlot.words arch)).Nodup
  inside : ∀ slot ∈ s.live, ∀ w ∈ slot.words arch, 1 ≤ w ∧ w ≤ s.allocator.height
  even : arch.stackSlotSize = 4 → ∀ slot ∈ s.live, slot.kind = .double → slot.index % 2 = 0

/-- `allocateSlot` takes a freed double slot apart that is a single word. -/
def SplitsWord (s : SlotUse) (e : SlotEvent) : Prop :=
  arch.stackSlotSize = 8 ∧ e = .allocate .single ∧ s.allocator.normalSlots = [] ∧
    s.allocator.doubleSlots ≠ []

instance (s : SlotUse) (e : SlotEvent) : Decidable (s.SplitsWord arch e) :=
  inferInstanceAs (Decidable (_ ∧ _))

/-! ## The invariant -/

/-- The words of the slots in use and of the free slots. -/
def words (s : SlotUse) : Multiset Nat :=
  ↑(s.live.flatMap (StackSlot.words arch)) +
    (↑s.allocator.normalSlots + ↑(s.allocator.doubleSlots.flatMap (doubleWords arch)))

structure Inv (s : SlotUse) : Prop where
  nodup : (s.words arch).Nodup
  inside : ∀ w ∈ s.words arch, 1 ≤ w ∧ w ≤ s.allocator.height
  even : arch.stackSlotSize = 4 →
    (∀ slot ∈ s.live, slot.kind ≠ .single → slot.index % 2 = 0) ∧
      ∀ index ∈ s.allocator.doubleSlots, index % 2 = 0

variable {arch} {s s' : SlotUse}

lemma Inv.sound (h : s.Inv arch) : s.Sound arch where
  disjoint := coe_nodup.mp (nodup_add.mp h.nodup).1
  inside slot hslot w hw :=
    h.inside w (mem_add.mpr (.inl (mem_flatMap.mpr ⟨slot, hslot, hw⟩)))
  even hsize slot hslot hkind := (h.even hsize).1 slot hslot (by rw [hkind]; decide)

/-- The words are the same, in whichever slots. -/
lemma Inv.of_eq (h : s.Inv arch) (hwords : s'.words arch = s.words arch)
    (hheight : s'.allocator.height = s.allocator.height)
    (heven : arch.stackSlotSize = 4 →
      (∀ slot ∈ s'.live, slot.kind ≠ .single → slot.index % 2 = 0) ∧
        ∀ index ∈ s'.allocator.doubleSlots, index % 2 = 0) : s'.Inv arch where
  nodup := by
    rw [hwords]
    exact h.nodup
  inside := by
    rw [hwords, hheight]
    exact h.inside
  even := heven

/-- The frame grows by the words of `fresh`. -/
lemma Inv.of_fresh (h : s.Inv arch) (fresh : List Nat)
    (hwords : s'.words arch = ↑fresh + s.words arch) (hnodup : fresh.Nodup)
    (hfresh : ∀ w ∈ fresh, s.allocator.height < w ∧ w ≤ s'.allocator.height)
    (hheight : s.allocator.height ≤ s'.allocator.height)
    (heven : arch.stackSlotSize = 4 →
      (∀ slot ∈ s'.live, slot.kind ≠ .single → slot.index % 2 = 0) ∧
        ∀ index ∈ s'.allocator.doubleSlots, index % 2 = 0) : s'.Inv arch where
  nodup := by
    rw [hwords]
    refine nodup_add.mpr ⟨coe_nodup.mpr hnodup, h.nodup, ?_⟩
    rw [Multiset.disjoint_left]
    intro w hw hold
    have hlow := (hfresh w hw).1
    have hhigh := (h.inside w hold).2
    omega
  inside w hw := by
    rw [hwords] at hw
    rcases mem_add.mp hw with hnew | hold
    · have hbounds := hfresh w hnew
      omega
    · have hbounds := h.inside w hold
      omega
  even := heven

lemma even_cons {P : StackSlot → Prop} {slot : StackSlot} {live : List StackSlot} (hslot : P slot)
    (h : ∀ slot ∈ live, P slot) : ∀ slot' ∈ slot :: live, P slot' := by
  intro slot' hslot'
  rcases mem_cons.mp hslot' with rfl | hmem
  · exact hslot
  · exact h slot' hmem

/-- The two layouts of a frame. -/
lemma layout_cases (arch : Architecture) :
    arch.stackSlotSize = 4 ∧ arch.doubleStackAlignment = 2 ∨
      arch.stackSlotSize = 8 ∧ arch.doubleStackAlignment = 1 := by
  cases arch with
  | x86 => exact .inl ⟨rfl, rfl⟩
  | x64 => exact .inr ⟨rfl, rfl⟩
  | arm => exact .inl ⟨rfl, rfl⟩

/-- A slot other than a single one has the words of a double slot. -/
lemma words_of_ne_single (arch : Architecture) {kind : SlotKind} (hkind : kind ≠ .single)
    (index : Nat) :
    StackSlot.words arch ⟨kind, index⟩ = doubleWords arch index := by
  cases kind with
  | single => exact absurd rfl hkind
  | double => rfl
  | value => rfl

lemma Inv.allocateDouble (h : s.Inv arch) {kind : SlotKind} (hkind : kind ≠ .single) :
    let r := s.allocator.allocateDoubleSlot arch
    (⟨r.2, ⟨kind, r.1⟩ :: s.live⟩ : SlotUse).Inv arch := by
  obtain ⟨⟨normal, double, height⟩, live⟩ := s
  have hwords := words_of_ne_single arch hkind
  unfold StackSlotAllocator.allocateDoubleSlot
  cases double with
  | cons index rest =>
    refine h.of_eq ?_ rfl fun hsize => ?_
    · simp only [words, flatMap_cons, hwords, ← coe_add]
      abel
    · obtain ⟨hlive, hdouble⟩ := h.even hsize
      exact ⟨even_cons (fun _ => hdouble index mem_cons_self) hlive,
        fun i hi => hdouble i (mem_cons_of_mem _ hi)⟩
  | nil =>
    rcases layout_cases arch with ⟨hsize, halign⟩ | ⟨hsize, halign⟩
    · have hdouble (index : Nat) : doubleWords arch index = [index - 1, index] := if_pos hsize
      simp only [computeByteAlignment, hsize, halign]
      rcases Nat.mod_two_eq_zero_or_one height with heven | hodd
      · -- the height is aligned
        rw [if_neg (by simp [heven])]
        refine h.of_fresh [height + 1, height + 2] ?_ (by simp) (by simp) (by simp) fun hsize => ?_
        · simp [words, hwords, hdouble]
        · exact ⟨even_cons (fun _ => by simp only; omega) (h.even hsize).1, nofun⟩
      · -- a word is left out, and becomes a free slot
        rw [if_pos (by simp [hodd])]
        refine h.of_fresh [height + 2, height + 3, height + 1] ?_ (by simp) (by simp)
          (by simp only; omega) fun hsize => ?_
        · simp only [words, flatMap_cons, hwords, hdouble, ← coe_add,
            ← cons_coe, ← singleton_add, coe_nil]
          simp only [Nat.reduceDiv, Nat.reduceAdd, Nat.add_assoc, Nat.reduceSubDiff]
          abel
        · exact ⟨even_cons (fun _ => by simp only; omega) (h.even hsize).1, nofun⟩
    · have hdouble (index : Nat) : doubleWords arch index = [index] := if_neg (by omega)
      simp only [computeByteAlignment, hsize, halign, Nat.mod_one, ne_eq, not_true_eq_false, if_false]
      refine h.of_fresh [height + 1] ?_ (by simp) (by simp) (by simp) fun hfour => ?_
      · simp [words, hwords, hdouble]
      · omega

lemma Inv.allocateSingle (h : s.Inv arch)
    (hsplits : ¬s.SplitsWord arch (.allocate .single)) :
    let r := s.allocator.allocateSlot
    (⟨r.2, ⟨.single, r.1⟩ :: s.live⟩ : SlotUse).Inv arch := by
  obtain ⟨⟨normal, double, height⟩, live⟩ := s
  have hwords (index : Nat) : StackSlot.words arch ⟨.single, index⟩ = [index] := rfl
  have hsingle (hsize : arch.stackSlotSize = 4) (index : Nat) :
      ∀ slot ∈ (⟨.single, index⟩ : StackSlot) :: live, slot.kind ≠ .single → slot.index % 2 = 0 :=
    even_cons (fun hne => absurd rfl hne) (h.even hsize).1
  unfold StackSlotAllocator.allocateSlot
  rcases normal with _ | ⟨index, rest⟩
  · rcases double with _ | ⟨index, rest⟩
    · refine h.of_fresh [height + 1] ?_ (by simp) (by simp) (by simp) fun hsize => ?_
      · simp [words, hwords]
      · exact ⟨hsingle hsize _, nofun⟩
    · -- a freed double slot is taken apart, which has two words
      rcases layout_cases arch with ⟨hsize, -⟩ | ⟨hsize, -⟩
      · have hdouble (index : Nat) : doubleWords arch index = [index - 1, index] := if_pos hsize
        refine h.of_eq ?_ rfl fun hsize => ?_
        · simp only [words, flatMap_cons, hwords, hdouble, ← coe_add,
            ← cons_coe, ← singleton_add, coe_nil]
          abel
        · exact ⟨hsingle hsize _, fun i hi => (h.even hsize).2 i (mem_cons_of_mem _ hi)⟩
      · exact absurd ⟨hsize, rfl, rfl, cons_ne_nil _ _⟩ hsplits
  · refine h.of_eq ?_ rfl fun hsize => ?_
    · simp only [words, flatMap_cons, hwords, ← coe_add, ← cons_coe,
        ← singleton_add, coe_nil]
      abel
    · exact ⟨hsingle hsize _, (h.even hsize).2⟩

lemma Inv.free (h : s.Inv arch) {slot : StackSlot} (hslot : slot ∈ s.live) :
    (⟨s.allocator.free slot, s.live.erase slot⟩ : SlotUse).Inv arch := by
  have hlive : (↑(s.live.flatMap (StackSlot.words arch)) : Multiset Nat) =
      ↑(slot.words arch) + ↑((s.live.erase slot).flatMap (StackSlot.words arch)) := by
    rw [coe_add, coe_eq_coe]
    exact (perm_cons_erase hslot).flatMap_right _
  have herase : arch.stackSlotSize = 4 →
      ∀ slot' ∈ s.live.erase slot, slot'.kind ≠ .single → slot'.index % 2 = 0 :=
    fun hsize slot' hmem => (h.even hsize).1 slot' (mem_of_mem_erase hmem)
  by_cases hkind : slot.kind = .single
  · have hfree : s.allocator.free slot = s.allocator.freeSlot slot.index := by
      rw [StackSlotAllocator.free, hkind]
    have hwords : slot.words arch = [slot.index] := by
      rw [StackSlot.words, hkind]
    rw [hfree]
    refine h.of_eq ?_ rfl fun hsize => ⟨herase hsize, (h.even hsize).2⟩
    simp only [words, hlive, hwords, StackSlotAllocator.freeSlot, ← cons_coe,
      ← singleton_add, coe_nil]
    abel
  · have hfree : s.allocator.free slot = s.allocator.freeDoubleSlot slot.index := by
      obtain ⟨kind, index⟩ := slot
      cases kind with
      | single => exact absurd rfl hkind
      | double => rfl
      | value => rfl
    have hwords : slot.words arch = doubleWords arch slot.index := words_of_ne_single arch hkind _
    rw [hfree]
    refine h.of_eq ?_ rfl fun hsize => ⟨herase hsize, ?_⟩
    · simp only [words, hlive, hwords, StackSlotAllocator.freeDoubleSlot, flatMap_cons,
        ← coe_add]
      abel
    · intro i hi
      rcases mem_cons.mp hi with rfl | hi
      · exact (h.even hsize).1 slot hslot hkind
      · exact (h.even hsize).2 i hi

lemma Inv.step (h : s.Inv arch) {e : SlotEvent} (hsplits : ¬s.SplitsWord arch e)
    (hstep : s.step arch e = some s') : s'.Inv arch := by
  cases e with
  | allocate kind =>
    cases hstep
    cases kind with
    | single => exact h.allocateSingle hsplits
    | double => exact h.allocateDouble (by decide)
    | value => exact h.allocateDouble (by decide)
  | free slot =>
    rw [SlotUse.step] at hstep
    split at hstep
    · rename_i hslot
      cases hstep
      exact h.free hslot
    · cases hstep

lemma inv_initial (arch : Architecture) : (⟨⟨[], [], 0⟩, []⟩ : SlotUse).Inv arch where
  nodup := nodup_zero
  inside := nofun
  even _ := ⟨nofun, nofun⟩

/-- The step leads to a state where the slots in use are apart. -/
def StepSound (arch : Architecture) (s : SlotUse) (e : SlotEvent) : Prop :=
  ∀ s', s.step arch e = some s' → s'.Sound arch

/-- In every run in which no freed double slot of a single word is taken apart, the slots in use
are apart, inside the frame and aligned after each call. -/
theorem slots_sound (arch : Architecture) {s : SlotUse} (hinit : (slotTransition arch).initial s)
    (events : List SlotEvent)
    (h : (slotTransition arch).AllSteps (fun s e => ¬s.SplitsWord arch e) s events) :
    (slotTransition arch).AllSteps (StepSound arch) s events := by
  have hinv : s.Inv arch := by
    rw [show s = ⟨⟨[], [], 0⟩, []⟩ from hinit]
    exact inv_initial arch
  refine Transition.allSteps_of_invariant (Inv arch) (fun hinv hsplits hstep => ?_) hinv h
  refine ⟨fun s' hs' => (hinv.step hsplits hs').sound, hinv.step hsplits hstep⟩

/-- Words of 4 bytes: a double slot is taken apart, and both its words are used. -/
theorem slots_sound_x86 :
    (slotTransition .x86).AllSteps (StepSound .x86) ⟨⟨[], [], 0⟩, []⟩
      [.allocate .double, .free ⟨.double, 2⟩, .allocate .single, .allocate .single] :=
  slots_sound .x86 rfl _ (by decide)

/-- Words of 8 bytes: the second single slot has the word of a double slot in use. -/
theorem slot_handed_out_twice :
    ¬∀ (arch : Architecture) (s : SlotUse), (slotTransition arch).initial s →
      ∀ events, (slotTransition arch).AllSteps (StepSound arch) s events := by
  intro hclaim
  have hrun := hclaim .x64 _ rfl
    [.allocate .double, .allocate .double, .free ⟨.double, 2⟩, .allocate .single, .allocate .single]
  have hlast := hrun.2.2.2.2.1 _ rfl
  exact absurd hlast.disjoint (by decide)

end SlotUse

end SpiderMonkey.Ion
