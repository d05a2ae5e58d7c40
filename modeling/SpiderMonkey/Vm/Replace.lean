import SpiderMonkey.Vm.Escape
import SpiderMonkey.Vm.Split

/-! # replace

`str_replace` of a string by a string, and the two ways in which a replacement is put together:
`BuildFlatReplacement`, `BuildDollarReplacement` for a string pattern, and `InterpretDollar`,
`FindReplaceLength`, `DoReplace` for a regular expression (`jsstr.cpp`,
`vm/RegExpStatics-inl.h`).
-/

namespace SpiderMonkey.Vm

inductive ReplaceError where
  | outOfMemory
  /-- A failed assertion, or a read or an append out of bounds. -/
  | assertion
  deriving DecidableEq, Repr

abbrev ReplaceM := Except ReplaceError

def assertSome {α : Type} : Option α → ReplaceM α
  | some a => .ok a
  | none => .error .assertion

/-- Whether the allocations succeed: those of `RopeMatch`, the appends to the stack of the range
over the leaves, and the flattening for the dollars. -/
structure ReplaceAlloc where
  ropeMatch : RopeAlloc
  rangeOk : Nat → Bool
  linearOk : Bool

/-! ## The match -/

/-- What becomes of the text in `RopeMatch`, which flattens a rope with too many leaves. -/
def ropeMatchText (alloc : RopeAlloc) (textstr : RopeString) (pat : List Jschar) : RopeString :=
  if pat.length = 0 ∨ textstr.chars.length < pat.length then textstr
  else
    match SegmentRange.settle alloc.stackOk textstr [] 0 with
    | none => textstr
    | some r =>
      match collectLeaves alloc (textstr.chars.length >>> 5) r [] with
      | .flatten => .linear textstr.chars
      | _ => textstr

/-- `StringRegExpGuard::tryFlatMatch` for a string pattern without flags: the index and the text
as it is afterwards. -/
def tryFlatMatch (platform : Platform) (alloc : RopeAlloc) (pat : List Jschar) :
    RopeString → ReplaceM (Int × RopeString)
  | .linear text => do
    let index ← assertSome (stringMatch platform text pat)
    return (index, .linear text)
  | .rope left right =>
    match ropeMatch platform alloc (.rope left right) pat with
    | .outOfMemory => .error .outOfMemory
    | .matched index => do
      let index ← assertSome index
      return (index, ropeMatchText alloc (.rope left right) pat)

/-! ## BuildFlatReplacement -/

/-- The part of a leaf before the match, and the replacement. -/
def appendLeftSide (repstr : List Jschar) (matchStart pos : Nat) (str builder : List Jschar) :
    Option (List Jschar) :=
  if pos ≤ matchStart then do
    let leftSide ← newDependentString str 0 (matchStart - pos)
    return builder ++ leftSide ++ repstr
  else some builder

/-- The part behind the match. -/
def appendRightSide (matchEnd pos : Nat) (str builder : List Jschar) : Option (List Jschar) :=
  if matchEnd < pos + str.length then do
    let rightSide ← newDependentString str (matchEnd - pos) (pos + str.length - matchEnd)
    return builder ++ rightSide
  else some builder

/-- What the builder has after a leaf. -/
def replaceLeaf (repstr : List Jschar) (matchStart matchEnd pos : Nat) (str builder : List Jschar) :
    Option (List Jschar) :=
  if pos < matchEnd ∧ matchStart < pos + str.length then do
    let builder ← appendLeftSide repstr matchStart pos str builder
    appendRightSide matchEnd pos str builder
  else some (builder ++ str)

def replaceLeaves (rangeOk : Nat → Bool) (repstr : List Jschar) (matchStart matchEnd : Nat) :
    (fuel : Nat) → SegmentRange → (pos : Nat) → (builder : List Jschar) → ReplaceM (List Jschar)
  | 0, _, _, _ => .error .assertion
  | fuel + 1, r, pos, builder =>
    match r.cur with
    | none => return builder
    | some str => do
      let builder ← assertSome (replaceLeaf repstr matchStart matchEnd pos str builder)
      match r.popFront rangeOk with
      | none => .error .outOfMemory
      | some r => replaceLeaves rangeOk repstr matchStart matchEnd fuel r (pos + str.length) builder

def RopeString.leafCount : RopeString → Nat
  | .linear _ => 1
  | .rope left right => left.leafCount + right.leafCount

/-- `BuildFlatReplacement` -/
def buildFlatReplacement (rangeOk : Nat → Bool) (repstr : List Jschar)
    (matchStart patternLength : Nat) : RopeString → ReplaceM (List Jschar)
  | .rope left right =>
    match SegmentRange.settle rangeOk (.rope left right) [] 0 with
    | none => .error .outOfMemory
    | some r =>
      replaceLeaves rangeOk repstr matchStart (matchStart + patternLength)
        ((RopeString.rope left right).leafCount + 1) r 0 []
  | .linear text => do
    let leftSide ← assertSome (newDependentString text 0 matchStart)
    let rightSide ← assertSome (newDependentString text (matchStart + patternLength)
      (text.length - matchStart - patternLength))
    return leftSide ++ repstr ++ rightSide

/-! ## BuildDollarReplacement -/

/-- `js_strchr_limit`: what is left from the first `c` on. -/
def strchrLimit (c : Jschar) : List Jschar → Option (List Jschar)
  | [] => none
  | a :: s => if a = c then some (a :: s) else strchrLimit c s

/-- The `for` loop: what is appended from `it` on. -/
def dollarLoop (text : List Jschar) (matchStart matchLimit : Nat) : List Jschar → List Jschar
  | [] => []
  | [c] => [c]
  | c :: d :: it =>
    if c ≠ 36 then c :: dollarLoop text matchStart matchLimit (d :: it)
    else if d = 36 then c :: dollarLoop text matchStart matchLimit it
    else if d = 38 then
      (text.take matchLimit).drop matchStart ++ dollarLoop text matchStart matchLimit it
    else if d = 96 then text.take matchStart ++ dollarLoop text matchStart matchLimit it
    else if d = 39 then text.drop matchLimit ++ dollarLoop text matchStart matchLimit it
    else c :: dollarLoop text matchStart matchLimit (d :: it)

/-- `BuildDollarReplacement` -/
def buildDollarReplacement (linearOk : Bool) (textstr : RopeString)
    (repstr firstDollar : List Jschar) (matchStart patternLength : Nat) :
    ReplaceM (List Jschar) :=
  if !linearOk then .error .outOfMemory
  else do
    let text := textstr.chars
    let matchLimit := matchStart + patternLength
    let newReplaceChars ← assertSome (ReservedBuffer.infallibleAppend
      ⟨[], text.length - patternLength + repstr.length⟩
      (repstr.take (repstr.length - firstDollar.length)))
    let newReplace := newReplaceChars.chars ++ dollarLoop text matchStart matchLimit firstDollar
    let leftSide ← assertSome (newDependentString text 0 matchStart)
    if text.length < matchLimit then .error .assertion
    else
      let rightSide ← assertSome (newDependentString text matchLimit (text.length - matchLimit))
      return leftSide ++ newReplace ++ rightSide

/-- `str_replace` of a string pattern by a string, without flags. -/
def strReplace (platform : Platform) (alloc : ReplaceAlloc) (textstr : RopeString)
    (pat repstr : List Jschar) : ReplaceM (List Jschar) := do
  let (index, textstr) ← tryFlatMatch platform alloc.ropeMatch pat textstr
  if index < 0 then return textstr.chars
  else
    match strchrLimit 36 repstr with
    | some dollar =>
      buildDollarReplacement alloc.linearOk textstr repstr dollar index.toNat pat.length
    | none => buildFlatReplacement alloc.rangeOk repstr index.toNat pat.length textstr

/-! ## Replacing what a regular expression matched -/

/-- `RegExpStatics` after a match, with its invariants: the first pair is of the whole match, the
pairs that are present are within the input. -/
structure RegExpStatics where
  matchPairsInput : List Jschar
  matchPairs : List (Option (Nat × Nat))
  whole : Nat × Nat
  first : matchPairs[0]? = some (some whole)
  valid : ∀ start limit, some (start, limit) ∈ matchPairs →
    start ≤ limit ∧ limit ≤ matchPairsInput.length

namespace RegExpStatics

variable (res : RegExpStatics)

def parenCount : Nat := res.matchPairs.length - 1

def matchStart : Nat := res.whole.1

def matchLimit : Nat := res.whole.2

/-- The code units of a pair. -/
def subString (pair : Nat × Nat) : List Jschar :=
  (res.matchPairsInput.take pair.2).drop pair.1

/-- `getParen`, for a pair of a capture only. -/
def getParen (pairNum : Nat) : Option (List Jschar) :=
  if 1 ≤ pairNum then
    match res.matchPairs[pairNum]? with
    | none => none
    | some none => some []
    | some (some pair) => some (res.subString pair)
  else none

def getLastMatch : List Jschar := res.subString res.whole

def getLastParen : Option (List Jschar) :=
  if res.matchPairs.length ≤ 1 then some [] else res.getParen (res.matchPairs.length - 1)

def getLeftContext : List Jschar := res.matchPairsInput.take res.matchStart

def getRightContext : List Jschar := res.matchPairsInput.drop res.matchLimit

end RegExpStatics

variable (res : RegExpStatics)

/-- `InterpretDollar` at `dp`: false (none inside), or what is inserted and how much is skipped. -/
def interpretDollar (dp : List Jschar) : Option (Option (List Jschar × Nat)) :=
  match dp with
  | [] => none
  | c :: dp =>
    if c ≠ 36 then none
    else
      match dp with
      | [] => some none
      | dc :: cp =>
        if isDec dc then
          let num := (unDec dc).toNat
          if res.parenCount < num then some none
          else
            let (num, skip) :=
              match cp with
              | [] => (num, 2)
              | dc :: _ =>
                if isDec dc then
                  let tmp := 10 * num + (unDec dc).toNat
                  if tmp ≤ res.parenCount then (tmp, 3) else (num, 2)
                else (num, 2)
            if num = 0 then some none
            else if num ≤ res.parenCount then do
              let out ← res.getParen num
              return some (out, skip)
            else none
        else if dc = 36 then some (some ([36], 2))
        else if dc = 38 then some (some (res.getLastMatch, 2))
        else if dc = 43 then do
          let out ← res.getLastParen
          return some (out, 2)
        else if dc = 96 then some (some (res.getLeftContext, 2))
        else if dc = 39 then some (some (res.getRightContext, 2))
        else some none

/-- The loop of `FindReplaceLength`, with a `size_t` of `w` bits. -/
def findLengthLoop (w : Nat) : (fuel : Nat) → (dp : Option (List Jschar)) → (replen : Nat) →
    Option Nat
  | 0, _, _ => none
  | _ + 1, none, replen => some replen
  | fuel + 1, some dp, replen => do
    match ← interpretDollar res dp with
    | some (sub, skip) =>
      findLengthLoop w fuel (strchrLimit 36 (dp.drop skip))
        ((replen + (sub.length + (2 ^ w - skip))) % 2 ^ w)
    | none => findLengthLoop w fuel (strchrLimit 36 (dp.drop 1)) replen

/-- `FindReplaceLength` for a replacement string. -/
def findReplaceLength (w : Nat) (repstr : List Jschar) : Option Nat :=
  findLengthLoop res w (repstr.length + 1) (strchrLimit 36 repstr) repstr.length

/-- The loop of `DoReplace` and the append behind it; `cp` and `dp` are what is left of the
replacement string from there on. -/
def doReplaceLoop : (fuel : Nat) → (cp : List Jschar) → (dp : Option (List Jschar)) →
    ReservedBuffer → Option ReservedBuffer
  | 0, _, _, _ => none
  | _ + 1, cp, none, sb => sb.infallibleAppend cp
  | fuel + 1, cp, some dp, sb => do
    let sb ← sb.infallibleAppend (cp.take (cp.length - dp.length))
    match ← interpretDollar res dp with
    | some (sub, skip) =>
      let sb ← sb.infallibleAppend sub
      doReplaceLoop fuel (dp.drop skip) (strchrLimit 36 (dp.drop skip)) sb
    | none => doReplaceLoop fuel dp (strchrLimit 36 (dp.drop 1)) sb

/-- `DoReplace` -/
def doReplace (repstr : List Jschar) (sb : ReservedBuffer) : Option ReservedBuffer :=
  doReplaceLoop res (repstr.length + 1) repstr (strchrLimit 36 repstr) sb

def ReservedBuffer.reserve (sb : ReservedBuffer) (n : Nat) : ReservedBuffer :=
  { sb with reserved := max sb.reserved n }

/-- `ReplaceRegExpCallback` with a replacement string; `str` is the input. -/
def replaceRegExpCallback (w : Nat) (repstr : List Jschar) (leftIndex : Nat)
    (sb : ReservedBuffer) : Option ReservedBuffer := do
  if res.matchStart < leftIndex then none
  let leftlen := res.matchStart - leftIndex
  let replen ← findReplaceLength res w repstr
  let growth := (leftlen + replen) % 2 ^ w
  let sb := sb.reserve ((sb.chars.length + growth) % 2 ^ w)
  let left ← newDependentString res.matchPairsInput leftIndex leftlen
  let sb ← sb.infallibleAppend left
  doReplace res repstr sb

/-- `str_replace_regexp` for an expression that is not global, after its match. -/
def strReplaceRegExp (w : Nat) (repstr : List Jschar) : Option (List Jschar) := do
  let sb ← replaceRegExpCallback res w repstr 0 ⟨[], 0⟩
  return sb.chars ++ res.getRightContext

end SpiderMonkey.Vm
