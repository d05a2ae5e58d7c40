import SpiderMonkey.Vm.JsonParser

/-! # escape and unescape

`str_escape` and `str_unescape` (`jsstr.cpp`). A read that is not of the string, or an append for
which nothing has been reserved, has no result.
-/

namespace SpiderMonkey.Vm

open SpiderMonkey.Json (isHex unHex)

/-! ## escape -/

/-- `digits` -/
def escapeDigits : List Jschar := asciiChars "0123456789ABCDEF"

/-- `shouldPassThrough`; the other half of the table is zero. -/
def shouldPassThrough : List Nat := [
  0, 0, 0, 0, 0, 0, 0, 0, 0, 0, 0, 0, 0, 0, 0, 0,
  0, 0, 0, 0, 0, 0, 0, 0, 0, 0, 0, 0, 0, 0, 0, 0,
  0, 0, 0, 0, 0, 0, 0, 0, 0, 0, 1, 1, 0, 1, 1, 1,
  1, 1, 1, 1, 1, 1, 1, 1, 1, 1, 0, 0, 0, 0, 0, 0,
  1, 1, 1, 1, 1, 1, 1, 1, 1, 1, 1, 1, 1, 1, 1, 1,
  1, 1, 1, 1, 1, 1, 1, 1, 1, 1, 1, 0, 0, 0, 0, 1,
  0, 1, 1, 1, 1, 1, 1, 1, 1, 1, 1, 1, 1, 1, 1, 1,
  1, 1, 1, 1, 1, 1, 1, 1, 1, 1, 1, 0, 0, 0, 0, 0]

def passesThrough (ch : Jschar) : Bool := ch < 128 && shouldPassThrough.getD ch.toNat 0 != 0

/-- The first pass. -/
def escapedLength (chars : List Jschar) : Nat :=
  chars.foldl (fun newlength ch =>
    if passesThrough ch then newlength else newlength + if ch < 256 then 2 else 5) chars.length

/-- A digit of `digits`. -/
def escapeDigit (d : Jschar) : Jschar := escapeDigits.getD d.toNat 0

/-- What the second pass writes for a code unit. -/
def escapeChar (ch : Jschar) : List Jschar :=
  if passesThrough ch then [ch]
  else if ch < 256 then [37, escapeDigit (ch >>> 4), escapeDigit (ch &&& 0xF)]
  else
    [37, 117, escapeDigit (ch >>> 12), escapeDigit ((ch &&& 0xF00) >>> 8),
      escapeDigit ((ch &&& 0xF0) >>> 4), escapeDigit (ch &&& 0xF)]

/-- `str_escape` -/
def strEscape (chars : List Jschar) : List Jschar := chars.flatMap escapeChar

/-! ## unescape -/

/-- `Unhex4` of the units at an index: none inside if they are not all digits. -/
def unhex4 (chars : List Jschar) (i : Nat) : Option (Option Jschar) := do
  let a ← chars[i]?
  let b ← chars[i + 1]?
  let c ← chars[i + 2]?
  let d ← chars[i + 3]?
  if !(isHex a && isHex b && isHex c && isHex d) then return none
  return some (UInt16.ofNat
    (((((unHex a).toNat * 16 + (unHex b).toNat) * 16) + (unHex c).toNat) * 16 + (unHex d).toNat))

/-- `Unhex2` -/
def unhex2 (chars : List Jschar) (i : Nat) : Option (Option Jschar) := do
  let a ← chars[i]?
  let b ← chars[i + 1]?
  if !(isHex a && isHex b) then return none
  return some (UInt16.ofNat ((unHex a).toNat * 16 + (unHex b).toNat))

/-- A `StringBuffer` with what has been reserved. -/
structure ReservedBuffer where
  chars : List Jschar
  reserved : Nat

/-- `infallibleAppend` -/
def ReservedBuffer.infallibleAppend (sb : ReservedBuffer) (cs : List Jschar) :
    Option ReservedBuffer :=
  if sb.chars.length + cs.length ≤ sb.reserved then some { sb with chars := sb.chars ++ cs }
  else none

/-- The local variables of `str_unescape`; `sb` is none until `building`. -/
structure Unescaping where
  k : Nat
  sb : Option ReservedBuffer

variable (chars : List Jschar)

/-- `ENSURE_BUILDING` -/
def ensureBuilding (s : Unescaping) : Option ReservedBuffer :=
  match s.sb with
  | some sb => some sb
  | none => ReservedBuffer.infallibleAppend ⟨[], chars.length⟩ (chars.take s.k)

/-- From `step_18` on, with an index that has been increased. -/
def step18 (c : Jschar) (k : Nat) (sb : Option ReservedBuffer) : Option Unescaping :=
  match sb with
  | none => some ⟨k + 1, none⟩
  | some sb => do
    let sb ← sb.infallibleAppend [c]
    return ⟨k + 1, some sb⟩

/-- From `step_14` on. -/
def step14 (c : Jschar) (s : Unescaping) : Option Unescaping :=
  if (chars.length : Int) - 3 < s.k then step18 c s.k s.sb
  else do
    match ← unhex2 chars (s.k + 1) with
    | none => step18 c s.k s.sb
    | some c =>
      let sb ← ensureBuilding chars s
      step18 c (s.k + 2) (some sb)

/-- One round of the loop, from step 6 on. -/
def unescapeStep (s : Unescaping) : Option Unescaping := do
  let c ← chars[s.k]?
  if c ≠ 37 then step18 c s.k s.sb
  else if (chars.length : Int) - 6 < s.k then step14 chars c s
  else
    let u ← chars[s.k + 1]?
    if u ≠ 117 then step14 chars c s
    else
      match ← unhex4 chars (s.k + 2) with
      | none => step14 chars c s
      | some c =>
        let sb ← ensureBuilding chars s
        step18 c (s.k + 5) (some sb)

def unescapeLoop : (fuel : Nat) → Unescaping → Option (List Jschar)
  | 0, _ => none
  | fuel + 1, s =>
    if s.k = chars.length then
      match s.sb with
      | some sb => some sb.chars
      | none => some chars
    else do
      let s ← unescapeStep chars s
      unescapeLoop fuel s

/-- `str_unescape` -/
def strUnescape : Option (List Jschar) := unescapeLoop chars (chars.length + 1) ⟨0, none⟩

end SpiderMonkey.Vm
