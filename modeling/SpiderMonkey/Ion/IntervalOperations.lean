import SpiderMonkey.Ion.LiveInterval

/-! # Operations of live intervals

`LiveInterval` of `LinearScan.cpp` with its uses and with the index of the range that was looked at
last. The ranges are in ascending order here and in descending order in the vector, so that the
index of a range is the number of ranges behind it. The functions return none where an assertion of
the source fails.
-/

namespace SpiderMonkey.Ion.LinearScan

open SpiderMonkey.Lib

/-- `CodePosition::MIN` -/
def minPosition : Nat := 0

/-- `LUse::Policy`. -/
inductive UsePolicy where
  | any
  | register
  | fixed (code : Nat)
  | keepalive
deriving DecidableEq

/-- `LUse`. -/
structure LUse where
  vreg : Nat
  policy : UsePolicy
  usedAtStart : Bool
deriving DecidableEq

/-- `UsePosition`. -/
structure UsePosition where
  use : LUse
  pos : Nat
deriving DecidableEq

/-- `addUse`. -/
def addUse : List UsePosition → UsePosition → List UsePosition
  | [], use => [use]
  | u :: rest, use => if use.pos ≤ u.pos then use :: u :: rest else u :: addUse rest use

structure LiveInterval where
  ranges : List (HalfOpen Nat)
  uses : List UsePosition
  lastProcessedRange : Nat

namespace LiveInterval

/-- The constructor. -/
def new : LiveInterval := ⟨[], [], 2 ^ 64 - 1⟩

variable (live : LiveInterval)

def start? : Option Nat := live.ranges.head?.map HalfOpen.fromPos

def end? : Option Nat := live.ranges.getLast?.map HalfOpen.toPos

/-- `ranges_[i]`, `ranges_[i - 1]` and so on. -/
def rangesFrom (i : Nat) : List (HalfOpen Nat) := live.ranges.drop (live.ranges.length - 1 - i)

def lastProcessedRangeIfValid (pos : Nat) : Nat :=
  if live.lastProcessedRange < live.ranges.length ∧
      (live.rangesFrom live.lastProcessedRange).head?.any fun r => r.fromPos ≤ pos then
    live.lastProcessedRange
  else live.ranges.length - 1

/-! ## Changes -/

def addRange (r : HalfOpen Nat) : LiveInterval :=
  { live with ranges := LinearScan.addRange live.ranges r }

def addRangeAtHead (r : HalfOpen Nat) : Option LiveInterval :=
  match live.ranges with
  | [] => some { live with ranges := LinearScan.addRangeAtHead live.ranges r }
  | first :: _ =>
    if first.fromPos < r.toPos ∧ first.toPos ≤ r.fromPos then none
    else some { live with ranges := LinearScan.addRangeAtHead live.ranges r }

def setFrom (pos : Nat) : LiveInterval := { live with ranges := LinearScan.setFrom live.ranges pos }

def addUse (use : UsePosition) : LiveInterval :=
  { live with uses := LinearScan.addUse live.uses use }

/-- The loop of `splitFrom` over the ranges: those that are moved back, and those that stay. -/
def splitRanges (pos : Nat) :
    List (HalfOpen Nat) → List (HalfOpen Nat) → List (HalfOpen Nat) × List (HalfOpen Nat)
  | earlier, [] => ([], earlier)
  | earlier, r :: rest =>
    if hto : r.toPos ≤ pos then splitRanges pos (earlier ++ [r]) rest
    else if hfrom : r.fromPos < pos then
      (earlier ++ [⟨r.fromPos, pos, hfrom⟩], ⟨pos, r.toPos, Nat.lt_of_not_le hto⟩ :: rest)
    else (earlier, r :: rest)

/-- `splitFrom`: the interval, and what `after` becomes. -/
def splitFrom (pos : Nat) (after : LiveInterval) : Option (LiveInterval × LiveInterval) := do
  let start ← live.start?
  let stop ← live.end?
  if pos < start ∨ stop ≤ pos then none
  else if after.ranges ≠ [] ∨ after.uses ≠ [] then none
  else
    let (before, behind) := splitRanges pos [] live.ranges
    some ({ live with ranges := before, uses := live.uses.takeWhile fun u => u.pos ≤ pos },
      { after with ranges := behind, uses := live.uses.dropWhile fun u => u.pos ≤ pos })

/-! ## Queries -/

/-- The loop of `covers`, and the range it looks at last. -/
def coversLoop (pos : Nat) : List (HalfOpen Nat) → Nat → Bool × Nat
  | [], last => (false, last)
  | r :: rest, last =>
    if pos < r.fromPos then (false, last)
    else if pos < r.toPos then (true, rest.length)
    else coversLoop pos rest rest.length

def covers (pos : Nat) : Option (Bool × LiveInterval) := do
  let start ← live.start?
  let stop ← live.end?
  if pos < start ∨ stop ≤ pos then some (false, live)
  else
    let ranges := live.rangesFrom (live.lastProcessedRangeIfValid pos)
    let (b, last) := coversLoop pos ranges live.lastProcessedRange
    some (b, { live with lastProcessedRange := last })

/-- The loop of `nextCoveredAfter`, from the last range to the first. -/
def nextCoveredLoop (pos : Nat) : Option (HalfOpen Nat) → List (HalfOpen Nat) → Nat
  | _, [] => minPosition
  | later, r :: rest =>
    if r.toPos ≤ pos then
      match later with
      | some r' => r'.fromPos
      | none => minPosition
    else if r.fromPos ≤ pos then pos
    else nextCoveredLoop pos (some r) rest

def nextCoveredAfter (pos : Nat) : Nat := nextCoveredLoop pos none live.ranges.reverse

/-- The loop of `intersect`, and the range of this interval it looks at last before the other
one starts. -/
def intersectLoop (otherStart thisEnd otherEnd : Nat) :
    List (HalfOpen Nat) → List (HalfOpen Nat) → Nat → Nat × Nat
  | r1 :: rest1, r2 :: rest2, last =>
    if r1.fromPos ≤ r2.fromPos then
      let last := if r1.fromPos ≤ otherStart then rest1.length else last
      if r2.fromPos < r1.toPos then (r2.fromPos, last)
      else if rest1.head?.any fun r => r.fromPos ≤ otherEnd then
        intersectLoop otherStart thisEnd otherEnd rest1 (r2 :: rest2) last
      else (minPosition, last)
    else if r1.fromPos < r2.toPos then (r1.fromPos, last)
    else if rest2.head?.any fun r => r.fromPos ≤ thisEnd then
      intersectLoop otherStart thisEnd otherEnd (r1 :: rest1) rest2 last
    else (minPosition, last)
  | _, _, last => (minPosition, last)
termination_by rs1 rs2 => rs1.length + rs2.length

/-- `intersect`, where this interval starts first. -/
def intersectFrom (other : LiveInterval) : Option (Nat × LiveInterval) := do
  let otherStart ← other.start?
  let thisEnd ← live.end?
  let otherEnd ← other.end?
  let ranges := live.rangesFrom (live.lastProcessedRangeIfValid otherStart)
  let (pos, last) :=
    intersectLoop otherStart thisEnd otherEnd ranges other.ranges live.lastProcessedRange
  some (pos, { live with lastProcessedRange := last })

def intersect (other : LiveInterval) : Option (Nat × LiveInterval × LiveInterval) := do
  let start ← live.start?
  let otherStart ← other.start?
  if otherStart < start then do
    let (pos, other) ← other.intersectFrom live
    some (pos, live, other)
  else do
    let (pos, live) ← live.intersectFrom other
    some (pos, live, other)

end LiveInterval

/-! ## Runs -/

/-- A call, with the numbers of the intervals. -/
inductive IntervalOp where
  | addRange (k : Nat) (r : HalfOpen Nat)
  | addRangeAtHead (k : Nat) (r : HalfOpen Nat)
  | setFrom (k pos : Nat)
  | addUse (k : Nat) (use : UsePosition)
  | splitFrom (k pos after : Nat)
  | covers (k pos : Nat)
  | nextCoveredAfter (k pos : Nat)
  | intersect (k other : Nat)

/-- What a call returns. -/
inductive IntervalResult where
  | done
  | covered (b : Bool)
  | position (pos : Nat)

/-- The intervals by their numbers. -/
abbrev Intervals := Nat → LiveInterval

def intervalStep (s : Intervals) : IntervalOp → Option (IntervalResult × Intervals)
  | .addRange k r => some (.done, Function.update s k ((s k).addRange r))
  | .addRangeAtHead k r => do
    let live ← (s k).addRangeAtHead r
    some (.done, Function.update s k live)
  | .setFrom k pos => some (.done, Function.update s k ((s k).setFrom pos))
  | .addUse k use => some (.done, Function.update s k ((s k).addUse use))
  | .splitFrom k pos after => do
    let (live, behind) ← (s k).splitFrom pos (s after)
    some (.done, Function.update (Function.update s after behind) k live)
  | .covers k pos => do
    let (b, live) ← (s k).covers pos
    some (.covered b, Function.update s k live)
  | .nextCoveredAfter k pos => some (.position ((s k).nextCoveredAfter pos), s)
  | .intersect k other => do
    let (pos, live, live') ← (s k).intersect (s other)
    some (.position pos, Function.update (Function.update s other live') k live)

end SpiderMonkey.Ion.LinearScan
