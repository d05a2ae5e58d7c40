import SpiderMonkey.Ds.Sort
import SpiderMonkey.Lib.Int32
import SpiderMonkey.Vm.Chars

/-! # Array.prototype.sort

`array_sort` of `jsarray.cpp`, called without a comparator.
-/

namespace SpiderMonkey

open SpiderMonkey.Ds

/-- A value that is not an object, with its string as code units. -/
inductive Primitive where
  | undefined
  | null
  | boolean (b : Bool)
  | int32 (n : Int32)
  | double (d : Float)
  | string (chars : List Jschar)
deriving DecidableEq

namespace Primitive

def isString : Primitive → Bool
  | string _ => true
  | _ => false

def isInt32 : Primitive → Bool
  | int32 _ => true
  | _ => false

/-- `toString`, of a string. -/
def toString : Primitive → List Jschar
  | string chars => chars
  | _ => []

/-- `toInt32`, of an int32. -/
def toInt32 : Primitive → Int32
  | int32 n => n
  | _ => 0

end Primitive

/-! ## Comparing int32s -/

/-- `powersOf10`. -/
def powersOf10 : List UInt64 :=
  [1, 10, 100, 1000, 10000, 100000, 1000000, 10000000, 100000000, 1000000000, 1000000000000]

/-- `JS_CEILING_LOG2`. -/
def ceilingLog2 (n : UInt32) : UInt32 := if n ≤ 1 then 0 else (n - 1).log2 + 1

/-- `NumDigitsBase10`. -/
def numDigitsBase10 (n : UInt32) : UInt32 :=
  let log2 := ceilingLog2 n
  let t := (log2 * 1233) >>> 12
  t - (if n.toUInt64 < powersOf10.getD t.toNat 0 then 1 else 0) + 1

/-- `NegateNegativeInt32`. -/
def negateNegativeInt32 (i : Int32) : UInt32 := ~~~i.toUInt32 + 1

/-- `CompareLexicographicInt32`. -/
def compareLexicographicInt32 (aint bint : Int32) : Bool :=
  if aint = bint then true
  else if aint < 0 ∧ 0 ≤ bint then true
  else if 0 ≤ aint ∧ bint < 0 then false
  else
    let auint := if 0 ≤ aint then aint.toUInt32 else negateNegativeInt32 aint
    let buint := if 0 ≤ aint then bint.toUInt32 else negateNegativeInt32 bint
    let digitsa := numDigitsBase10 auint
    let digitsb := numDigitsBase10 buint
    if digitsa = digitsb then auint ≤ buint
    else if digitsb < digitsa then
      auint.toUInt64 < buint.toUInt64 * powersOf10.getD (digitsa - digitsb).toNat 0
    else auint.toUInt64 * powersOf10.getD (digitsb - digitsa).toNat 0 ≤ buint.toUInt64

/-! ## The sort -/

section

variable (numberToCString : Float → List Jschar)

/-- `ValueToStringBuffer`. A double's string is that of `NumberToCString`. -/
def valueToStringBuffer : Primitive → List Jschar
  | .undefined => asciiChars "undefined"
  | .null => asciiChars "null"
  | .boolean b => if b then asciiChars "true" else asciiChars "false"
  | .int32 n => intToCString n
  | .double d => numberToCString d
  | .string chars => chars

/-- `StringifiedElement`. -/
structure StringifiedElement where
  charsBegin : Nat
  charsEnd : Nat
  elementIndex : Nat
deriving Inhabited

/-- The substring of the buffer that belongs to an element. -/
def StringifiedElement.chars (sb : List Jschar) (el : StringifiedElement) : List Jschar :=
  (sb.drop el.charsBegin).take (el.charsEnd - el.charsBegin)

/-- The loop that fills the string buffer, from the element with the index `i` on. -/
def stringify (vec : List Primitive) (i : Nat) (sb : List Jschar) :
    List Jschar × List StringifiedElement :=
  match vec with
  | [] => (sb, [])
  | v :: rest =>
    let sb' := sb ++ valueToStringBuffer numberToCString v
    let result := stringify rest (i + 1) sb'
    (result.1, ⟨sb.length, sb'.length, i⟩ :: result.2)

/-- The sorted elements, by one of three comparisons. -/
def sortElements (vec : List Primitive) : List Primitive :=
  if vec.all Primitive.isString then mergeSort (fun a b => charsLe a.toString b.toString) vec
  else if vec.all Primitive.isInt32 then
    mergeSort (fun a b => compareLexicographicInt32 a.toInt32 b.toInt32) vec
  else
    let strings := stringify numberToCString vec 0 []
    let strElements := mergeSort
      (fun a b => charsLe (a.chars strings.1) (b.chars strings.1)) strings.2
    strElements.map fun el => vec.getD el.elementIndex .undefined

/-- The elements, none if there is a hole. -/
abbrev Elements := List (Option Primitive)

/-- The elements that are sorted. -/
def definedElements (elements : Elements) : List Primitive :=
  elements.filterMap fun v => if v = some .undefined then none else v

/-- `InitArrayElements`, from the first element on. -/
def initArrayElements (elements : Elements) (vec : List Primitive) : Elements :=
  vec.map some ++ elements.drop vec.length

/-- The loop that sets what is undefined. -/
def setUndefined : Nat → Elements × Nat → Elements × Nat
  | 0, s => s
  | undefs + 1, (elements, n) => setUndefined undefs (elements.set n (some .undefined), n + 1)

/-- The loop that deletes elements from the end down to the `n`th. -/
def deleteElements (n : Nat) : Nat → Elements → Elements
  | 0, elements => elements
  | len + 1, elements =>
    if n < len + 1 then deleteElements n len (elements.set len none) else elements

/-- `array_sort`. -/
def arraySort (elements : Elements) : Elements :=
  let vec := definedElements elements
  let undefs := elements.count (some .undefined)
  let n := vec.length
  if n = 0 then elements
  else
    let result := sortElements numberToCString vec
    let (elements', n) := setUndefined undefs (initArrayElements elements result, n)
    deleteElements n elements.length elements'

end

end SpiderMonkey
