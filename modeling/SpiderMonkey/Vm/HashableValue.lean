import SpiderMonkey.Lib.Binary64
import SpiderMonkey.Vm.StringMatch

/-! # Keys of maps and sets

`HashableValue` of `MapObject.cpp`, over the two layouts of `jsval.h`, and `SameValue` of
`jsinterp.cpp`. A double is its stored bits here: NaNs with different bits are different values.
-/

namespace SpiderMonkey.Vm

open Lib

/-- A `Value` as it is stored. Strings and objects are known by their addresses. -/
inductive StoredValue where
  | undefined
  | null
  | boolean (b : Bool)
  | int32 (n : Int32)
  | double (bits : UInt64)
  | string (address : Nat)
  | object (address : Nat)
deriving DecidableEq

/-! ## Layouts -/

inductive ValueLayout where
  | nunbox32 | punbox64
deriving DecidableEq

namespace ValueLayout

variable (L : ValueLayout)

/-- `JSVAL_TYPE_*` -/
def typeCode : StoredValue → UInt64
  | .double _ => 0
  | .int32 _ => 1
  | .undefined => 2
  | .boolean _ => 3
  | .string _ => 5
  | .null => 6
  | .object _ => 7

def payload : StoredValue → UInt64
  | .boolean b => if b then 1 else 0
  | .int32 n => n.toUInt32.toUInt64
  | .string address => UInt64.ofNat address
  | .object address => UInt64.ofNat address
  | .undefined | .null | .double _ => 0

/-- `JSVAL_TAG_CLEAR`, `JSVAL_TAG_MAX_DOUBLE` -/
def maxDoubleTag : ValueLayout → UInt64
  | nunbox32 => 0xFFFFFF80
  | punbox64 => 0x1FFF0

/-- `JSVAL_TAG_SHIFT` -/
def tagShift : ValueLayout → UInt64
  | nunbox32 => 32
  | punbox64 => 47

def asRawBits : StoredValue → UInt64
  | .double bits => bits
  | v => ((L.maxDoubleTag ||| typeCode v) <<< L.tagShift) ||| payload v

/-- `JSVAL_IS_DOUBLE_IMPL` -/
def isDouble (bits : UInt64) : Bool :=
  match L with
  | nunbox32 => bits >>> 32 ≤ L.maxDoubleTag
  | punbox64 => bits ≤ ((L.maxDoubleTag <<< L.tagShift) ||| 0xFFFFFFFF)

/-- The first number that is no address. -/
def addressEnd : ValueLayout → Nat
  | nunbox32 => 2 ^ 32
  | punbox64 => 2 ^ 47

/-- What the layout can store. -/
def Stores : StoredValue → Prop
  | .double bits => L.isDouble bits = true
  | .string address => address < L.addressEnd
  | .object address => address < L.addressEnd
  | _ => True

end ValueLayout

/-! ## Doubles -/

/-- `MOZ_DOUBLE_IS_NEGATIVE_ZERO` -/
def doubleIsNegativeZero (bits : UInt64) : Bool := bits = 0x8000000000000000

/-- `MOZ_DOUBLE_IS_NaN` -/
def doubleIsNaN (bits : UInt64) : Bool := (Float.ofBits bits).isNaN

/-- `MOZ_DOUBLE_IS_INT32` -/
def doubleIsInt32 (bits : UInt64) : Option Int32 :=
  let d := Float.ofBits bits
  let i := Binary64.toInt32 d
  if !doubleIsNegativeZero bits && d == Binary64.ofInt32 i then some i else none

/-- `js_NaN` -/
def jsNaN : UInt64 := 0x7FF8000000000000

/-! ## Strings -/

/-- The strings at their addresses. -/
abbrev StringHeap := Nat → RopeString

/-- `EqualStrings`, of two strings with these characters. -/
def equalStrings (address address' : Nat) (chars chars' : List Jschar) : Bool :=
  if address = address' then true
  else if chars.length ≠ chars'.length then false
  else decide (chars = chars')

/-- `HashChars` -/
def hashChars (chars : List Jschar) : UInt32 :=
  chars.foldl (fun h c => ((h <<< 4) ||| (h >>> 28)) ^^^ c.toUInt32) 0

namespace StringHeap

variable (heap : StringHeap)

/-- `ensureLinear` of a rope, with the ropes inside that are flattened along. -/
def flatten (along : Nat → Bool) (address : Nat) : StringHeap := fun a =>
  if a = address || along a then .linear (heap a).chars else heap a

/-- `HashableValue::setValue`, with the ropes a flattening takes along, unless it runs out of
memory. -/
def setValue (alloc : Option (Nat → Bool)) : StoredValue → Option (StoredValue × StringHeap)
  | .string address =>
    match heap address with
    | .rope _ _ => alloc.map fun along => (.string address, heap.flatten along address)
    | .linear _ => some (.string address, heap)
  | .double bits =>
    match doubleIsInt32 bits with
    | some i => some (.int32 i, heap)
    | none =>
      if doubleIsNaN bits then some (.double jsNaN, heap)
      else some (.double bits, heap)
  | v => some (v, heap)

/-- `HashableValue::hash`, unless `asLinear` asserts. -/
def hash (L : ValueLayout) : StoredValue → Option UInt32
  | .string address =>
    match heap address with
    | .linear chars => some (hashChars chars)
    | .rope _ _ => none
  | v =>
    let u := L.asRawBits v
    some ((u >>> 3) ^^^ (u >>> 35) ^^^ (u <<< 29)).toUInt32

/-- `HashableValue::equals`, unless `asLinear` asserts. -/
def equals (L : ValueLayout) (v w : StoredValue) : Option Bool :=
  if L.asRawBits v = L.asRawBits w then some true
  else
    match v, w with
    | .string a, .string b =>
      match heap a, heap b with
      | .linear chars, .linear chars' => some (equalStrings a b chars chars')
      | _, _ => none
    | _, _ => some false

/-! ## SameValue -/

/-- `StrictlyEqual` -/
def strictlyEqual : StoredValue → StoredValue → Bool
  | .string a, .string b => equalStrings a b (heap a).chars (heap b).chars
  | .double x, .double y => Float.ofBits x == Float.ofBits y
  | .object a, .object b => a = b
  | .undefined, .undefined => true
  | .null, .null => true
  | .boolean b, .boolean c => b = c
  | .int32 m, .int32 n => m = n
  | .double x, .int32 n => Float.ofBits x == Binary64.ofInt32 n
  | .int32 n, .double y => Binary64.ofInt32 n == Float.ofBits y
  | _, _ => false

/-- `IsNegativeZero` -/
def isNegativeZero : StoredValue → Bool
  | .double bits => doubleIsNegativeZero bits
  | _ => false

/-- `IsNaN` -/
def isNaN : StoredValue → Bool
  | .double bits => doubleIsNaN bits
  | _ => false

/-- `SameValue` -/
def sameValue (v w : StoredValue) : Bool :=
  if isNegativeZero v then isNegativeZero w
  else if isNegativeZero w then false
  else if isNaN v && isNaN w then true
  else heap.strictlyEqual v w

end StringHeap

end SpiderMonkey.Vm
