import SpiderMonkey.Vm.Chars

/-! # Searching for a string

`js_BoyerMooreHorspool`, `UnrolledMatch`, `StringMatch` and `RopeMatch` (`jsstr.cpp`), with
`StringSegmentRange` (`jsstrinlines.h`). A loop that has no bound of its own has fuel, and no result
when it runs out. A pointer into a string is its index.
-/

namespace SpiderMonkey.Vm

/-! ## js_BoyerMooreHorspool -/

/-- `sBMHCharSetSize` -/
abbrev bmhCharSetSize : Nat := 256

/-- `sBMHPatLenMax` -/
abbrev bmhPatLenMax : Nat := 255

/-- `sBMHBadPattern` -/
abbrev bmhBadPattern : Int := -2

/-- The loop that fills `skip`, from `pat[i]` on; `none` is the return of `sBMHBadPattern`. -/
def skipLoop (m : Nat) : List Jschar → Nat → List UInt8 → Option (List UInt8)
  | [], _, skip => some skip
  | c :: pat, i, skip =>
    if bmhCharSetSize ≤ c.toNat then none
    else skipLoop m pat (i + 1) (skip.set c.toNat (UInt8.ofNat (m - i)))

/-- The comparison from `text[i]` and `pat[j]` down to `pat[0]`. -/
def compareDown (text pat : List Jschar) : Nat → Nat → Option Nat
  | 0, i => if text[i]? ≠ pat[0]? then none else some i
  | j + 1, i => if text[i]? ≠ pat[j + 1]? then none else compareDown text pat j (i - 1)

/-- What is added to `k`. -/
def bmhShift (skip : List UInt8) (patlen : Nat) (c : Jschar) : Nat :=
  if bmhCharSetSize ≤ c.toNat then patlen else (skip.getD c.toNat 0).toNat

/-- The search itself, with the last unit of the pattern at `text[k]`. -/
def bmhLoop (text pat : List Jschar) (skip : List UInt8) : Nat → Nat → Option Int
  | 0, _ => none
  | fuel + 1, k =>
    if k < text.length then
      match compareDown text pat (pat.length - 1) k with
      | some i => some i
      | none => bmhLoop text pat skip fuel (k + bmhShift skip pat.length (text.getD k 0))
    else some (-1)

/-- `js_BoyerMooreHorspool` -/
def boyerMooreHorspool (text pat : List Jschar) : Option Int :=
  let m := pat.length - 1
  match skipLoop m (pat.take m) 0
    (List.replicate bmhCharSetSize (UInt8.ofNat pat.length)) with
  | none => some bmhBadPattern
  | some skip => bmhLoop text pat skip (text.length + 1) m

/-! ## UnrolledMatch -/

/-- `MemCmp::match` of what is left of the pattern: `(patlen - 1) * sizeof(jschar)` bytes. -/
def memCmpMatch (p t : List Jschar) : Bool := t.take p.length == p

/-- `ManualCmp::match` -/
def manualCmpMatch : List Jschar → List Jschar → Bool
  | [], _ => true
  | _ :: _, [] => false
  | a :: p, b :: t => if a ≠ b then false else manualCmpMatch p t

/-- Where a run of tests for the first unit ends: behind a hit, with what `fixup` is set to, or
behind the run. -/
inductive Scan where
  | hit (t fixup : Nat)
  | miss (t : Nat)
  deriving DecidableEq, Repr

/-- The cases of the `switch` from `count` down, each of which falls through to the next. The eight
tests of the loop are the same. -/
def scan (text : List Jschar) (p0 : Option Jschar) : Nat → Nat → Scan
  | 0, t => .miss t
  | count + 1, t => if text[t]? = p0 then .hit (t + 1) (count + 1) else scan text p0 count (t + 1)

/-- The `return` of an index, or the pointer at which the outer loop goes on. -/
inductive Resume where
  | found (i : Nat)
  | goOn (t : Nat)
  deriving DecidableEq, Repr

/-- The `do` loop with `fixup` iterations to go. -/
def fixupLoop (inner : List Jschar → List Jschar → Bool) (text pat : List Jschar) :
    Nat → Nat → Resume
  | 0, t => .goOn t
  | fixup + 1, t =>
    if text[t]? = pat[0]? then
      if inner pat.tail (text.drop (t + 1)) then .found t
      else fixupLoop inner text pat fixup (t + 1)
    else fixupLoop inner text pat fixup (t + 1)

/-- A run of tests and what `goto match` does after a hit. -/
def unrolledTests (inner : List Jschar → List Jschar → Bool) (text pat : List Jschar)
    (count t : Nat) : Resume :=
  match scan text pat[0]? count t with
  | .miss t => .goOn t
  | .hit t fixup =>
    if inner pat.tail (text.drop t) then .found (t - 1)
    else fixupLoop inner text pat (fixup - 1) t

/-- `while (t != textend)` -/
def unrolledLoop (inner : List Jschar → List Jschar → Bool) (text pat : List Jschar)
    (textend : Nat) : Nat → Nat → Option Int
  | 0, _ => none
  | fuel + 1, t =>
    if t = textend then some (-1)
    else
      match unrolledTests inner text pat 8 t with
      | .found i => some i
      | .goOn t => unrolledLoop inner text pat textend fuel t

/-- `UnrolledMatch<InnerMatch>` -/
def unrolledMatch (inner : List Jschar → List Jschar → Bool) (text pat : List Jschar) :
    Option Int :=
  let textend := text.length - (pat.length - 1)
  let entry := if textend &&& 7 = 0 then 8 else textend &&& 7
  match unrolledTests inner text pat entry 0 with
  | .found i => some i
  | .goOn t => unrolledLoop inner text pat textend (textend + 1) t

/-! ## StringMatch -/

/-- The macros of the platform that the search depends on. -/
structure Platform where
  i386 : Bool
  linux : Bool
  deriving DecidableEq, Repr

/-- The `return` at the end of `StringMatch`. -/
def unrolledSearch (platform : Platform) (text pat : List Jschar) : Option Int :=
  if ¬ platform.linux ∧ 128 < pat.length then unrolledMatch memCmpMatch text pat
  else unrolledMatch manualCmpMatch text pat

/-- `StringMatch` -/
def stringMatch (platform : Platform) (text pat : List Jschar) : Option Int :=
  if pat.length = 0 then some 0
  else if text.length < pat.length then some (-1)
  else if platform.i386 ∧ pat.length = 1 then
    match text.findIdx? fun c => some c == pat[0]? with
    | some i => some i
    | none => some (-1)
  else if 512 ≤ text.length ∧ 11 ≤ pat.length ∧ pat.length ≤ bmhPatLenMax then
    match boyerMooreHorspool text pat with
    | none => none
    | some index => if index ≠ bmhBadPattern then some index else unrolledSearch platform text pat
  else unrolledSearch platform text pat

/-! ## RopeMatch -/

/-- A `JSString`: a rope, or not. -/
inductive RopeString where
  | linear (chars : List Jschar)
  | rope (left right : RopeString)

def RopeString.chars : RopeString → List Jschar
  | .linear chars => chars
  | .rope left right => left.chars ++ right.chars

/-- Whether the allocations of a call succeed: the appends to the range's stack and those to the
list of leaves, each by its number, and the flattening. -/
structure RopeAlloc where
  stackOk : Nat → Bool
  strsOk : Nat → Bool
  flattenOk : Bool

/-- `StringSegmentRange`, with the number of appends to its stack. -/
structure SegmentRange where
  stack : List RopeString
  cur : Option (List Jschar)
  appends : Nat

/-- `StringSegmentRange::settle` -/
def SegmentRange.settle (stackOk : Nat → Bool) : RopeString → List RopeString → Nat →
    Option SegmentRange
  | .linear chars, stack, appends => some ⟨stack, some chars, appends⟩
  | .rope left right, stack, appends =>
    if stackOk appends then settle stackOk left (right :: stack) (appends + 1) else none

/-- `StringSegmentRange::popFront` -/
def SegmentRange.popFront (stackOk : Nat → Bool) (r : SegmentRange) : Option SegmentRange :=
  match r.stack with
  | [] => some { r with cur := none }
  | str :: stack => settle stackOk str stack r.appends

inductive Leaves where
  | outOfMemory
  /-- Too many leaves, or no memory for the list of them. -/
  | flatten
  | leaves (strs : List (List Jschar))
  deriving DecidableEq, Repr

/-- The loop over the range. -/
def collectLeaves (alloc : RopeAlloc) : Nat → SegmentRange → List (List Jschar) → Leaves
  | threshold, r, strs =>
    match r.cur with
    | none => .leaves strs
    | some chars =>
      match threshold with
      | 0 => .flatten
      | threshold + 1 =>
        if !alloc.strsOk strs.length then .flatten
        else
          match r.popFront alloc.stackOk with
          | none => .outOfMemory
          | some r => collectLeaves alloc threshold r (strs ++ [chars])

inductive Across where
  | matched
  | mismatched
  | ranOut
  deriving DecidableEq, Repr

/-- The comparison of the rest of the pattern with what is left of a leaf and the leaves behind. -/
def matchAcross (pp tt : List Jschar) (strs : List (List Jschar)) : Across :=
  match pp, tt, strs with
  | [], _, _ => .matched
  | _ :: _, [], [] => .ranOut
  | p :: pp, [], inner :: strs => matchAcross (p :: pp) inner strs
  | p :: pp, c :: tt, strs => if p ≠ c then .mismatched else matchAcross pp tt strs
termination_by pp.length + strs.length

inductive Start where
  | found (t : Nat)
  | ranOut
  | goOn
  deriving DecidableEq, Repr

/-- The search for a match that starts in a leaf at `t` and runs into others. -/
def startsIn (pat : List Jschar) (strs : List (List Jschar)) : List Jschar → Nat → Start
  | [], _ => .goOn
  | c :: tt, t =>
    if some c ≠ pat[0]? then startsIn pat strs tt (t + 1)
    else
      match matchAcross pat.tail tt strs with
      | .matched => .found t
      | .ranOut => .ranOut
      | .mismatched => startsIn pat strs tt (t + 1)

/-- The loop over the leaves; `pos` is the offset of the first of them. -/
def leafLoop (platform : Platform) (pat : List Jschar) : List (List Jschar) → Nat → Option Int
  | [], _ => some (-1)
  | outer :: strs, pos => do
    let matchResult ← stringMatch platform outer pat
    if matchResult ≠ -1 then return pos + matchResult
    let text := if outer.length < pat.length then 0 else outer.length - pat.length + 1
    match startsIn pat strs (outer.drop text) text with
    | .found t => return pos + t
    | .ranOut => return -1
    | .goOn => leafLoop platform pat strs (pos + outer.length)

/-- What `RopeMatch` returns: false, or true with the index. -/
inductive RopeResult where
  | outOfMemory
  | matched (index : Option Int)
  deriving DecidableEq, Repr

/-- `RopeMatch` -/
def ropeMatch (platform : Platform) (alloc : RopeAlloc) (textstr : RopeString)
    (pat : List Jschar) : RopeResult :=
  if pat.length = 0 then .matched (some 0)
  else if textstr.chars.length < pat.length then .matched (some (-1))
  else
    -- `sRopeMatchThresholdRatioLog2` is 5.
    let threshold := textstr.chars.length >>> 5
    match SegmentRange.settle alloc.stackOk textstr [] 0 with
    | none => .outOfMemory
    | some r =>
      match collectLeaves alloc threshold r [] with
      | .outOfMemory => .outOfMemory
      | .flatten =>
        if alloc.flattenOk then .matched (stringMatch platform textstr.chars pat) else .outOfMemory
      | .leaves strs => .matched (leafLoop platform pat strs 0)

end SpiderMonkey.Vm
