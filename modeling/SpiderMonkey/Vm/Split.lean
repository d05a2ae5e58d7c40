import SpiderMonkey.Vm.StringMatch

/-! # split

`SplitHelper` and `SplitStringMatcher` (`jsstr.cpp`). A failed assertion has no result.
-/

namespace SpiderMonkey.Vm

/-- An element of the array: a string, or `undefined` for a capture that took no part. -/
abbrev SplitPiece := Option (List Jschar)

/-- A `SplitMatchResult` that is no failure, with the captures that the `RegExpStatics` hold
after the match. -/
structure SplitMatchResult where
  length : Nat
  endIndex : Nat
  captures : List SplitPiece
deriving Repr, DecidableEq

/-- A matcher of a string: at an index, a failure (none inside) or what is found. -/
abbrev SplitMatcher := Nat → Option (Option SplitMatchResult)

/-- `SplitStringMatcher` -/
def splitStringMatcher (platform : Platform) (str sep : List Jschar) : SplitMatcher := fun index =>
  if index = 0 ∨ index < str.length then
    match stringMatch platform (str.drop index) sep with
    | none => none
    | some m =>
      if m = -1 then some none
      else some (some ⟨sep.length, ((index : Int) + m + sep.length).toNat, []⟩)
  else none

/-- `js_NewDependentString` -/
def newDependentString (base : List Jschar) (start length : Nat) : Option (List Jschar) :=
  if start + length ≤ base.length then some ((base.drop start).take length) else none

/-- The loop over the captures of a match; `true` is the return at the limit. -/
def appendCaptures (limit : Nat) : (captures splits : List SplitPiece) → List SplitPiece × Bool
  | [], splits => (splits, false)
  | cap :: captures, splits =>
    let splits := splits ++ [cap]
    if splits.length = limit then (splits, true) else appendCaptures limit captures splits

variable (str : List Jschar) (limit : Nat) (splitMatch : SplitMatcher)

/-- Steps 14 and 15. -/
def splitRest (lastEndIndex : Nat) (splits : List SplitPiece) : Option (List SplitPiece) := do
  let sub ← newDependentString str lastEndIndex (str.length - lastEndIndex)
  return splits ++ [some sub]

/-- The `while` loop of `SplitHelper`, and what follows it. -/
def splitLoop : (fuel index lastEndIndex : Nat) → (splits : List SplitPiece) →
    Option (List SplitPiece)
  | 0, _, _, _ => none
  | fuel + 1, index, lastEndIndex, splits =>
    if index < str.length then
      match splitMatch index with
      | none => none
      | some none => splitRest str lastEndIndex splits
      | some (some result) =>
        let sepLength := result.length
        let endIndex := result.endIndex
        if sepLength = 0 ∧ endIndex = str.length then splitRest str lastEndIndex splits
        else if endIndex = lastEndIndex then splitLoop fuel (index + 1) lastEndIndex splits
        else if lastEndIndex < endIndex ∧ sepLength ≤ str.length ∧
            lastEndIndex + sepLength ≤ endIndex then
          match newDependentString str lastEndIndex (endIndex - sepLength - lastEndIndex) with
          | none => none
          | some sub =>
            let splits := splits ++ [some sub]
            if splits.length = limit then some splits
            else
              match appendCaptures limit result.captures splits with
              | (splits, true) => some splits
              | (splits, false) => splitLoop fuel endIndex endIndex splits
        else none
    else splitRest str lastEndIndex splits

/-- `SplitHelper`. Twice the length bounds the rounds: one that moves the cut and one that
advances, at each index. -/
def splitHelper : Option (List SplitPiece) :=
  if str.length = 0 then
    match splitMatch 0 with
    | none => none
    | some (some _) => some []
    | some none => some [some str]
  else splitLoop str limit splitMatch (2 * str.length + 1) 0 0 []

end SpiderMonkey.Vm
