import SpiderMonkey.Ds.Sort
import SpiderMonkey.Lib.Triple

/-! # Merge sort in place

`MergeSort` of `ds/Sort.h` on its two arrays. A pointer into an array is an index, and an access
outside of the array stops the sort, as do a failed assertion and a comparator that fails.
-/

namespace SpiderMonkey.Ds.InPlace

open SpiderMonkey.Lib

inductive Stop
  | outOfBounds
  | assertion
  /-- The comparator returned false, and so does the sort. -/
  | failed
  deriving DecidableEq, Repr

variable {σ α : Type}

/-- Whether `a <= b`, if the comparator does not fail. `σ` is what it remembers: the answers may
differ from one call to the next. -/
abbrev Comparator (σ α : Type) := α → α → σ → Option (Bool × σ)

def compare (c : Comparator σ α) (a b : α) : EStateM Stop σ Bool := fun s =>
  match c a b s with
  | some (lessOrEqual, s') => .ok lessOrEqual s'
  | none => .error .failed s

def load (v : Array α) (i : ℕ) : EStateM Stop σ α :=
  match v[i]? with
  | some x => pure x
  | none => throw .outOfBounds

def store (v : Array α) (i : ℕ) (x : α) : EStateM Stop σ (Array α) :=
  if i < v.size then pure (v.setIfInBounds i x) else throw .outOfBounds

/-- `CopyNonEmptyArray(dst + d, src + s, nelems)` -/
def copyNonEmptyArray (dst : Array α) (d : ℕ) (src : Array α) (s : ℕ) :
    ℕ → EStateM Stop σ (Array α)
  | 0 => throw .assertion
  | nelems + 1 => do
    let dst ← store dst d (← load src s)
    if nelems = 0 then pure dst else copyNonEmptyArray dst (d + 1) src (s + 1) nelems

/-- The loop of `MergeArrayRuns`, for runs that have elements. What follows the loop copies
`run1 + run2` elements: it takes the array and the two positions that the loop ends with. -/
def mergeLoop (c : Comparator σ α) (src : Array α) (dst : Array α) (d a b : ℕ) :
    (run1 run2 : ℕ) → EStateM Stop σ (Array α × ℕ × ℕ × ℕ)
  | run1 + 1, run2 + 1 => do
    if ← compare c (← load src a) (← load src b) then
      let dst ← store dst d (← load src a)
      if run1 = 0 then pure (dst, d + 1, b, run1 + (run2 + 1))
      else mergeLoop c src dst (d + 1) (a + 1) b run1 (run2 + 1)
    else
      let dst ← store dst d (← load src b)
      if run2 = 0 then pure (dst, d + 1, a, run1 + 1 + run2)
      else mergeLoop c src dst (d + 1) a (b + 1) (run1 + 1) run2
  | _, _ => throw .assertion
termination_by run1 run2 => run1 + run2

/-- `MergeArrayRuns(dst + d, src + s, run1, run2, c)` -/
def mergeArrayRuns (c : Comparator σ α) (dst : Array α) (d : ℕ) (src : Array α) (s : ℕ)
    (run1 run2 : ℕ) : EStateM Stop σ (Array α) := do
  if run1 < 1 ∨ run2 < 1 then throw .assertion
  let b := s + run1
  if ← compare c (← load src (b - 1)) (← load src b) then
    copyNonEmptyArray dst d src s (run1 + run2)
  else
    let (dst, d, s, nelems) ← mergeLoop c src dst d s b run1 run2
    copyNonEmptyArray dst d src s nelems

/-- The loop on `j`. -/
def insertLoop (c : Comparator σ α) (lo : ℕ) (array : Array α) : ℕ → EStateM Stop σ (Array α)
  | 0 => throw .outOfBounds
  | j + 1 => do
    if ← compare c (← load array j) (← load array (j + 1)) then pure array
    else
      let tmp ← load array j
      let array ← store array j (← load array (j + 1))
      let array ← store array (j + 1) tmp
      if j = lo then pure array else insertLoop c lo array j

/-- The loop on `i`, with the number of steps up to `hi`. -/
def chunkLoop (c : Comparator σ α) (lo : ℕ) (array : Array α) (i : ℕ) :
    ℕ → EStateM Stop σ (Array α)
  | 0 => pure array
  | steps + 1 => do
    let array ← insertLoop c lo array i
    chunkLoop c lo array (i + 1) steps

/-- The loop over the chunks. -/
def sortChunks (c : Comparator σ α) (nelems : ℕ) (array : Array α) (lo : ℕ) :
    EStateM Stop σ (Array α) :=
  if lo < nelems then do
    let hi := if lo + insSortLimit ≥ nelems then nelems else lo + insSortLimit
    -- `lo + 1` is at most `hi`, so that `i != hi` ends the loop after the difference
    let array ← chunkLoop c lo array (lo + 1) (hi - (lo + 1))
    sortChunks c nelems array (lo + insSortLimit)
  else pure array
termination_by nelems - lo
decreasing_by
  simp only [insSortLimit]
  omega

/-- One pass over the runs of one array, to the other. -/
def mergePass (c : Comparator σ α) (nelems run : ℕ) (hrun : 0 < run) (vec1 vec2 : Array α)
    (lo : ℕ) : EStateM Stop σ (Array α) :=
  if lo < nelems then do
    let hi := lo + run
    if hi ≥ nelems then copyNonEmptyArray vec2 lo vec1 lo (nelems - lo)
    else
      let run2 := if run ≤ nelems - hi then run else nelems - hi
      let vec2 ← mergeArrayRuns c vec2 lo vec1 lo run run2
      mergePass c nelems run hrun vec1 vec2 (lo + 2 * run)
  else pure vec2
termination_by nelems - lo

/-- The passes. The arrays change their roles after each: the last component tells whether `vec1`
is the scratch array. -/
def mergePasses (c : Comparator σ α) (nelems run : ℕ) (hrun : 0 < run) (vec1 vec2 : Array α)
    (scratchFirst : Bool) : EStateM Stop σ (Array α × Array α × Bool) :=
  if run < nelems then do
    let vec2 ← mergePass c nelems run hrun vec1 vec2 0
    mergePasses c nelems (run * 2) (Nat.mul_pos hrun Nat.two_pos) vec2 vec1 !scratchFirst
  else pure (vec1, vec2, scratchFirst)
termination_by nelems - run

/-- `MergeSort`, with the contents that it leaves in the array and in the scratch array. -/
def mergeSort (c : Comparator σ α) (array : Array α) (nelems : ℕ) (scratch : Array α) :
    EStateM Stop σ (Array α × Array α) :=
  if nelems ≤ 1 then pure (array, scratch)
  else do
    let array ← sortChunks c nelems array 0
    let (vec1, vec2, scratchFirst) ←
      mergePasses c nelems insSortLimit (by decide) array scratch false
    if scratchFirst then
      let array ← copyNonEmptyArray vec2 0 vec1 0 nelems
      pure (array, vec1)
    else pure (vec1, vec2)

end SpiderMonkey.Ds.InPlace
