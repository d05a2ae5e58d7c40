import SpiderMonkey.Lib.Ranges

/-! # Live intervals

Code positions, the ranges of a live interval and its allocation, from `LinearScan.h` and
`LIR.h`.
-/

namespace SpiderMonkey.Ion.LinearScan

open SpiderMonkey.Lib List

/-- A `CodePosition` is a number; each instruction has two, its input and its output half. -/
def inputOf (id : Nat) : Nat := 2 * id

/-- The kinds of `LAllocation` that an interval can have. -/
inductive LAllocation where
  | use
  | gpr (code : Nat)
  | fpu (code : Nat)
  | stackSlot (slot : Nat)
  | doubleSlot (slot : Nat)
  | argument (index : Nat)
deriving DecidableEq

namespace LAllocation

def isGeneralReg : LAllocation → Bool
  | gpr _ => true
  | _ => false

def isStackSlot : LAllocation → Bool
  | stackSlot _ | doubleSlot _ => true
  | _ => false

def isArgument : LAllocation → Bool
  | argument _ => true
  | _ => false

def isMemory (a : LAllocation) : Bool := a.isStackSlot || a.isArgument

/-- The slot of a stack slot. -/
def slot : LAllocation → Nat
  | stackSlot slot | doubleSlot slot => slot
  | _ => 0

end LAllocation

/-- `LDefinition::Type`: `type` and `payload` are the halves of a value of 32 bit platforms, `box`
the whole value of the 64 bit ones. -/
inductive DefinitionType where
  | general
  | object
  | double
  | type
  | payload
  | box
deriving DecidableEq

/-- `IsNunbox`. -/
def isNunbox (t : DefinitionType) : Bool := t = .type ∨ t = .payload

/-- `IsTraceable`. -/
def isTraceable (t : DefinitionType) : Bool := t = .object ∨ t = .box

/-- `BaseOfNunboxSlot`. -/
def baseOfNunboxSlot (t : DefinitionType) (slot : Nat) : Nat :=
  if t = .payload then slot + 0 / 4 else slot + 4 / 4

/-- The loop of `LiveInterval::covers`. -/
def coversFrom : List (HalfOpen Nat) → Nat → Bool
  | [], _ => false
  | r :: rs, pos =>
    if pos < r.fromPos then false
    else if pos < r.toPos then true
    else coversFrom rs pos

variable {rs : List (HalfOpen Nat)}

lemma coversFrom_iff (h : Ordered rs) (pos : Nat) :
    coversFrom rs pos = true ↔ Covers rs pos := by
  induction rs with
  | nil => simp [coversFrom]
  | cons r rs ih =>
    have hrest := ih (ordered_cons.1 h).2
    rw [coversFrom]
    split_ifs with hbefore hin
    · constructor
      · intro hfalse
        cases hfalse
      · intro hcovers
        exact absurd (h.head_le hcovers) (not_le_of_gt hbefore)
    · have hmem : pos ∈ r := ⟨not_lt.1 hbefore, hin⟩
      simp [hmem]
    · have hmem : pos ∉ r := fun hmem => hin hmem.2
      simp [hmem, hrest]

/-! ## Building an interval -/

/-- `addRangeAtHead`. -/
def addRangeAtHead (rs : List (HalfOpen Nat)) (r : HalfOpen Nat) : List (HalfOpen Nat) :=
  match rs with
  | [] => [r]
  | first :: rest =>
    if r.toPos < first.fromPos then r :: first :: rest
    else if h : r.toPos = first.fromPos then
      ⟨r.fromPos, first.toPos, lt_trans (h ▸ r.lt) first.lt⟩ :: rest
    else
      ⟨min r.fromPos first.fromPos, max r.toPos first.toPos,
        lt_of_le_of_lt (min_le_left _ _) (lt_of_lt_of_le r.lt (le_max_left _ _))⟩ :: rest

/-- The second loop of `addRange`: the new range takes in the ranges that it overlaps. -/
def coalesce : List (HalfOpen Nat) → HalfOpen Nat → List (HalfOpen Nat)
  | [], new => [new]
  | i :: rest, new =>
    if new.toPos < i.fromPos then new :: i :: rest
    else coalesce rest
      ⟨new.fromPos, max new.toPos i.toPos, lt_of_lt_of_le new.lt (le_max_left _ _)⟩

/-- `addRange`. -/
def addRange : List (HalfOpen Nat) → HalfOpen Nat → List (HalfOpen Nat)
  | [], new => [new]
  | i :: rest, new =>
    if i.toPos < new.fromPos then i :: addRange rest new
    else coalesce (i :: rest)
      ⟨min i.fromPos new.fromPos, new.toPos, lt_of_le_of_lt (min_le_right _ _) new.lt⟩

/-- `setFrom`. -/
def setFrom : List (HalfOpen Nat) → Nat → List (HalfOpen Nat)
  | [], _ => []
  | r :: rest, pos =>
    if r.toPos < pos then setFrom rest pos
    else if pos = r.toPos then rest
    else if h' : pos < r.toPos then ⟨pos, r.toPos, h'⟩ :: rest else rest

lemma covers_addRangeAtHead {r : HalfOpen Nat} {p : Nat} (h : p ∈ r ∨ Covers rs p) :
    Covers (addRangeAtHead rs r) p := by
  cases rs with
  | nil => simpa [addRangeAtHead] using h
  | cons first rest =>
    rw [covers_cons] at h
    rw [addRangeAtHead]
    split_ifs with hbefore htouch
    · rw [covers_cons, covers_cons]
      exact h
    · rw [covers_cons]
      rcases h with h | h | h
      · have hlt := first.lt
        rw [HalfOpen.mem_iff] at h ⊢
        simp only
        omega
      · have hlt := r.lt
        rw [HalfOpen.mem_iff] at h ⊢
        simp only
        omega
      · exact Or.inr h
    · rw [covers_cons]
      rcases h with h | h | h
      · rw [HalfOpen.mem_iff] at h ⊢
        simp only
        omega
      · rw [HalfOpen.mem_iff] at h ⊢
        simp only
        omega
      · exact Or.inr h

variable {new : HalfOpen Nat}

lemma covers_coalesce (hfrom : ∀ r ∈ rs, new.fromPos ≤ r.fromPos) {p : Nat}
    (h : p ∈ new ∨ Covers rs p) :
    Covers (coalesce rs new) p := by
  induction rs generalizing new with
  | nil => simpa [coalesce] using h
  | cons i rest ih =>
    rw [covers_cons] at h
    rw [coalesce]
    split_ifs with hbefore
    · rw [covers_cons, covers_cons]
      exact h
    · refine ih (fun r hr => hfrom r (mem_cons_of_mem i hr)) ?_
      have hle := hfrom i mem_cons_self
      rcases h with h | h | h
      · rw [HalfOpen.mem_iff] at h
        left
        rw [HalfOpen.mem_iff]
        simp only
        omega
      · rw [HalfOpen.mem_iff] at h
        left
        rw [HalfOpen.mem_iff]
        simp only
        omega
      · exact Or.inr h

lemma coalesce_spec (hordered : Ordered rs) (hfrom : ∀ r ∈ rs, new.fromPos ≤ r.fromPos) :
    Ordered (coalesce rs new) ∧ ∀ r ∈ coalesce rs new, new.fromPos ≤ r.fromPos := by
  induction rs generalizing new with
  | nil =>
    refine ⟨pairwise_singleton _ _, ?_⟩
    intro r hr
    rw [mem_singleton.1 hr]
  | cons i rest ih =>
    rw [ordered_cons] at hordered
    rw [coalesce]
    split_ifs with hbefore
    · constructor
      · rw [ordered_cons]
        refine ⟨?_, ordered_cons.2 hordered⟩
        intro r hr
        rcases mem_cons.1 hr with rfl | hr
        · exact le_of_lt hbefore
        · have hle := hordered.1 r hr
          have hlt := i.lt
          omega
      · intro r hr
        rcases mem_cons.1 hr with rfl | hr
        · exact le_rfl
        · exact hfrom r hr
    · exact ih hordered.2 fun r hr => hfrom r (mem_cons_of_mem i hr)

lemma covers_addRange (hordered : Ordered rs) {p : Nat} (h : p ∈ new ∨ Covers rs p) :
    Covers (addRange rs new) p := by
  induction rs with
  | nil => simpa [addRange] using h
  | cons i rest ih =>
    rw [ordered_cons] at hordered
    rw [addRange]
    split_ifs with hafter
    · rw [covers_cons] at h ⊢
      rcases h with h | h | h
      · exact Or.inr (ih hordered.2 (Or.inl h))
      · exact Or.inl h
      · exact Or.inr (ih hordered.2 (Or.inr h))
    · refine covers_coalesce ?_ ?_
      · intro r hr
        have hlt := i.lt
        rcases mem_cons.1 hr with rfl | hr
        · exact min_le_left _ _
        · have hle := hordered.1 r hr
          simp only
          omega
      · rcases h with h | h
        · rw [HalfOpen.mem_iff] at h
          left
          rw [HalfOpen.mem_iff]
          simp only
          omega
        · exact Or.inr h

lemma addRange_spec (hordered : Ordered rs) {lo : Nat} (hlo : ∀ r ∈ rs, lo ≤ r.fromPos)
    (hnew : lo ≤ new.fromPos) :
    Ordered (addRange rs new) ∧ ∀ r ∈ addRange rs new, lo ≤ r.fromPos := by
  induction rs generalizing lo with
  | nil =>
    refine ⟨pairwise_singleton _ _, ?_⟩
    intro r hr
    rw [mem_singleton.1 hr]
    exact hnew
  | cons i rest ih =>
    rw [ordered_cons] at hordered
    have hi := hlo i mem_cons_self
    have hlt := i.lt
    rw [addRange]
    split_ifs with hafter
    · rcases ih hordered.2 hordered.1 (le_of_lt hafter) with ⟨hrest, hle⟩
      refine ⟨ordered_cons.2 ⟨hle, hrest⟩, ?_⟩
      intro r hr
      rcases mem_cons.1 hr with rfl | hr
      · exact hi
      · have hle := hle r hr
        omega
    · have hfrom : ∀ r ∈ i :: rest, min i.fromPos new.fromPos ≤ r.fromPos := by
        intro r hr
        rcases mem_cons.1 hr with rfl | hr
        · exact min_le_left _ _
        · have hle := hordered.1 r hr
          omega
      have hlt' : min i.fromPos new.fromPos < new.toPos := lt_of_le_of_lt (min_le_right _ _) new.lt
      have hmin : ∀ r ∈ i :: rest,
          (⟨min i.fromPos new.fromPos, new.toPos, hlt'⟩ : HalfOpen Nat).fromPos ≤ r.fromPos :=
        hfrom
      rcases coalesce_spec (ordered_cons.2 hordered) hmin with ⟨hspec, hle⟩
      refine ⟨hspec, fun r hr => ?_⟩
      have hle := hle r hr
      simp only at hle
      omega

end SpiderMonkey.Ion.LinearScan
