import SpiderMonkey.Vm.Chars

/-! # Reading structured clones

`SCInput` and `JSStructuredCloneReader` of `jsclone.cpp`, without callbacks, on machines whose
words are little-endian. What must not go wrong is recorded in a trace: the bytes that are read,
the accesses to `allObjs`, the ids that are made and the errors that are reported.
-/

namespace SpiderMonkey.StructuredClone

/-! ## Values and objects -/

/-- A `jsid` that is not void. -/
inductive Id where
  | int (i : UInt32)
  | string (chars : List Jschar)
deriving DecidableEq

/-- `js::Value`. A number is known by the bits of its double, an object by its address. -/
inductive CloneValue where
  | undefined
  | null
  | boolean (b : Bool)
  | number (bits : UInt64)
  | string (chars : List Jschar)
  | object (address : Nat)
deriving DecidableEq

/-- The types of `TypedArray`. -/
inductive ArrayType where
  | int8
  | uint8
  | int16
  | uint16
  | int32
  | uint32
  | float32
  | float64
  | uint8Clamped
deriving DecidableEq

/-- The size of an element in bytes. -/
def ArrayType.size : ArrayType → Nat
  | int8 | uint8 | uint8Clamped => 1
  | int16 | uint16 => 2
  | int32 | uint32 | float32 => 4
  | float64 => 8

abbrev Properties := List (Id × CloneValue)

/-- An object, with its own enumerable properties in the order in which they were defined, or
the value that it wraps. Elements of typed arrays are known by their bits. -/
inductive CloneObject where
  | plain (props : Properties)
  | array (length : Nat) (props : Properties)
  | booleanObject (b : Bool)
  | numberObject (bits : UInt64)
  | stringObject (chars : List Jschar)
  | date (bits : UInt64)
  | regexp (source : List Jschar) (flags : UInt32)
  | arrayBuffer (bytes : List Nat)
  | typedArray (type : ArrayType) (elements : List Nat)
deriving DecidableEq

/-- Define a property: a new one comes last. -/
def setProperty (props : Properties) (id : Id) (v : CloneValue) : Properties :=
  match props with
  | [] => [(id, v)]
  | p :: rest => if p.1 = id then (id, v) :: rest else p :: setProperty rest id v

/-- `js_IdIsIndex`. -/
def Id.index : Id → Option UInt32
  | int i => some i
  | string chars => isIndex chars

/-- `defineGeneric`. The length of an array is no property of its own here. -/
def CloneObject.define (o : CloneObject) (id : Id) (v : CloneValue) : CloneObject :=
  match o with
  | plain props => plain (setProperty props id v)
  | array length props =>
    if id = .string (asciiChars "length") then o
    else
      match id.index with
      | some i => array (if length ≤ i.toNat then (i + 1).toNat else length)
          (setProperty props id v)
      | none => array length (setProperty props id v)
  | _ => o

/-! ## Tags -/

/-- `StructuredDataType`. -/
def floatMaxTag : UInt32 := 0xFFF00000
def nullTag : UInt32 := 0xFFFF0000
def undefinedTag : UInt32 := 0xFFFF0001
def booleanTag : UInt32 := 0xFFFF0002
def indexTag : UInt32 := 0xFFFF0003
def stringTag : UInt32 := 0xFFFF0004
def dateObjectTag : UInt32 := 0xFFFF0005
def regexpObjectTag : UInt32 := 0xFFFF0006
def arrayObjectTag : UInt32 := 0xFFFF0007
def objectObjectTag : UInt32 := 0xFFFF0008
def arrayBufferObjectTag : UInt32 := 0xFFFF0009
def booleanObjectTag : UInt32 := 0xFFFF000A
def stringObjectTag : UInt32 := 0xFFFF000B
def numberObjectTag : UInt32 := 0xFFFF000C
def backReferenceObjectTag : UInt32 := 0xFFFF000D

/-- `ArrayTypeToTag`. -/
def ArrayType.tag : ArrayType → UInt32
  | int8 => 0xFFFF0100
  | uint8 => 0xFFFF0101
  | int16 => 0xFFFF0102
  | uint16 => 0xFFFF0103
  | int32 => 0xFFFF0104
  | uint32 => 0xFFFF0105
  | float32 => 0xFFFF0106
  | float64 => 0xFFFF0107
  | uint8Clamped => 0xFFFF0108

/-- The type of a tag from `SCTAG_TYPED_ARRAY_MIN` to `SCTAG_TYPED_ARRAY_MAX`. -/
def arrayTypeOfTag (tag : UInt32) : Option ArrayType :=
  [ArrayType.int8, .uint8, .int16, .uint16, .int32, .uint32, .float32, .float64,
    .uint8Clamped].find? fun type => type.tag = tag

/-! ## The reader -/

inductive Event where
  /-- Bytes of the data are read. -/
  | readBytes (offset count : Nat)
  /-- `allObjs` is indexed. -/
  | readAllObjs (index length : Nat)
  /-- `INT_TO_JSID`. -/
  | intId (data : UInt32)
  /-- `NON_INTEGER_ATOM_TO_JSID`. -/
  | stringId (chars : List Jschar)
  /-- `JS_ReportErrorNumber`, or an allocation has failed. -/
  | report

/-- The rest of the engine: which allocations succeed, in their order, which regular expressions
can be compiled, `TimeClip`, and the width of `size_t`. -/
structure Engine where
  allocates : Nat → Bool
  compiles : List Jschar → UInt32 → Bool
  timeClip : UInt64 → UInt64
  sizeBits : Nat
  sizeBits_ge : 32 ≤ sizeBits

/-- `JSStructuredCloneReader` with its `SCInput`, and the objects that have been made. -/
structure Reader where
  point : Nat
  objs : List Nat
  allObjs : List Nat
  heap : List CloneObject
  allocs : Nat
  trace : List Event

/-- Steps that may return false. -/
abbrev ReadM := EStateM Unit Reader

def emit (e : Event) : ReadM Unit := modify fun s => { s with trace := e :: s.trace }

/-- Report an error and return false. -/
def reportError {α : Type} : ReadM α := do
  emit .report
  throw ()

section

variable (env : Engine) (data : List UInt64)

/-- An allocation. -/
def alloc : ReadM Unit := do
  let s ← get
  set { s with allocs := s.allocs + 1 }
  unless env.allocates s.allocs do reportError

def addObject (o : CloneObject) : ReadM Nat := do
  let s ← get
  set { s with heap := s.heap ++ [o] }
  return s.heap.length

def newObject (o : CloneObject) : ReadM Nat := do
  alloc env
  addObject o

/-- `SCInput::read`. -/
def readWord : ReadM UInt64 := do
  let s ← get
  if s.point = data.length then reportError
  else
    emit (.readBytes (8 * s.point) 8)
    modify fun s => { s with point := s.point + 1 }
    return data.getD s.point 0

/-- `SCInput::readPair`. -/
def readPair : ReadM (UInt32 × UInt32) := do
  let u ← readWord data
  return ((u >>> 32).toUInt32, u.toUInt32)

/-- The bits of a double are those of a NaN. -/
def isNaNBits (bits : UInt64) : Bool :=
  (bits &&& 0x7FF0000000000000) = 0x7FF0000000000000 && (bits &&& 0x000FFFFFFFFFFFFF) ≠ 0

/-- `CanonicalizeNan`. -/
def canonicalizeNan (bits : UInt64) : UInt64 :=
  if isNaNBits bits then 0x7FF8000000000000 else bits

/-- `SCInput::readDouble`. -/
def readDouble : ReadM UInt64 := do
  let u ← readWord data
  return canonicalizeNan u

/-- The elements of an array in memory. -/
def elementsAt (size point nelems : Nat) : List Nat :=
  (List.range nelems).map fun j =>
    (data.getD (point + j / (8 / size)) 0).toNat / 2 ^ (8 * size * (j % (8 / size))) %
      2 ^ (8 * size)

/-- `SCInput::readArray`. -/
def readArray (size nelems : Nat) : ReadM (List Nat) := do
  let s ← get
  let total := (nelems + 8 / size - 1) % 2 ^ env.sizeBits
  let nwords := total / (8 / size)
  if total < nelems ∨ data.length - s.point < nwords then reportError
  else
    emit (.readBytes (8 * s.point) (nelems * size))
    modify fun s => { s with point := s.point + nwords }
    return elementsAt data size s.point nelems

/-- `checkDouble`, with `JSVAL_IS_DOUBLE_IMPL` of 64 bit platforms. -/
def checkDouble (bits : UInt64) : ReadM Unit :=
  if bits ≤ 0xFFF8000000000000 then pure () else reportError

/-- `JSString::MAX_LENGTH`. -/
def maxStringLength : Nat := 2 ^ 28 - 1

/-- `readString`. -/
def readString (nchars : UInt32) : ReadM (List Jschar) := do
  if maxStringLength < nchars.toNat then reportError
  else
    alloc env
    let chars ← readArray env data 2 nchars.toNat
    alloc env
    return chars.map UInt16.ofNat

/-- `readTypedArray`: the buffer's size is checked where it is made. -/
def readTypedArray (type : ArrayType) (nelems : UInt32) : ReadM CloneValue := do
  if 2147483647 / type.size ≤ nelems.toNat then reportError
  else
    alloc env
    let elements ← readArray env data type.size nelems.toNat
    let address ← addObject (.typedArray type elements)
    return .object address

/-- `readArrayBuffer`. -/
def readArrayBuffer (nbytes : UInt32) : ReadM CloneValue := do
  alloc env
  let bytes ← readArray env data 1 nbytes.toNat
  let address ← addObject (.arrayBuffer bytes)
  return .object address

/-- A new array or object, whose properties are to be read. -/
def startObject (o : CloneObject) : ReadM CloneValue := do
  let address ← newObject env o
  alloc env
  modify fun s => { s with objs := address :: s.objs }
  alloc env
  modify fun s => { s with allObjs := s.allObjs ++ [address] }
  return .object address

/-- A date; its time must be one that `TimeClip` keeps. -/
def readDate : ReadM CloneValue := do
  let d ← readDouble data
  checkDouble d
  if !isNaNBits d && d != env.timeClip d then reportError
  else
    let address ← newObject env (.date d)
    return .object address

/-- A regular expression. -/
def readRegExp (flags : UInt32) : ReadM CloneValue := do
  let (tag2, nchars) ← readPair data
  if tag2 ≠ stringTag then reportError
  else
    let source ← readString env data nchars
    if !env.compiles source flags then reportError
    else
      let address ← newObject env (.regexp source flags)
      return .object address

/-- A reference to an object that has been read; the error of one that has not been does not
end the call. -/
def readBackReference (index : UInt32) : ReadM CloneValue := do
  let s ← get
  if s.allObjs.length ≤ index.toNat then emit .report
  emit (.readAllObjs index.toNat s.allObjs.length)
  return .object (s.allObjs.getD index.toNat 0)

/-- The cases of `startRead`. -/
def readTagged (tag d : UInt32) : ReadM CloneValue := do
  if tag = nullTag then return .null
  else if tag = undefinedTag then return .undefined
  else if tag = booleanTag then return .boolean (d != 0)
  else if tag = booleanObjectTag then return .object (← newObject env (.booleanObject (d != 0)))
  else if tag = stringTag then return .string (← readString env data d)
  else if tag = stringObjectTag then
    let chars ← readString env data d
    return .object (← newObject env (.stringObject chars))
  else if tag = numberObjectTag then
    let bits ← readDouble data
    checkDouble bits
    return .object (← newObject env (.numberObject bits))
  else if tag = dateObjectTag then readDate env data
  else if tag = regexpObjectTag then readRegExp env data d
  else if tag = arrayObjectTag then startObject env (.array 0 [])
  else if tag = objectObjectTag then startObject env (.plain [])
  else if tag = backReferenceObjectTag then readBackReference d
  else if tag = arrayBufferObjectTag then readArrayBuffer env data d
  else if tag ≤ floatMaxTag then
    let bits := (tag.toUInt64 <<< 32) ||| d.toUInt64
    checkDouble bits
    return .number bits
  else
    match arrayTypeOfTag tag with
    | some type => readTypedArray env data type d
    | none => reportError

/-- `startRead`. -/
def startRead : ReadM CloneValue := do
  let pair ← readPair data
  readTagged env data pair.1 pair.2

/-- The cases of `readId`. -/
def readTaggedId (tag d : UInt32) : ReadM (Option Id) := do
  if tag = indexTag then
    emit (.intId d)
    return some (.int d)
  else if tag = stringTag then
    let chars ← readString env data d
    alloc env
    emit (.stringId chars)
    return some (.string chars)
  else if tag = nullTag then return none
  else reportError

/-- `readId`; none is the void id, at the end of an object. -/
def readId : ReadM (Option Id) := do
  let pair ← readPair data
  readTaggedId env data pair.1 pair.2

/-- `defineGeneric`, on an object of the heap. -/
def defineGeneric (address : Nat) (id : Id) (v : CloneValue) : ReadM Unit := do
  alloc env
  modify fun s => { s with heap := s.heap.modify address fun o => o.define id v }

/-! ## The loop -/

/-- Where `read` is: before a call of `startRead`, for the whole value or for a property of an
object, or of `readId`; or it has returned. -/
inductive Control where
  | value (target : Option (Nat × Id)) (root : CloneValue)
  | id (root : CloneValue)
  | returned (root : CloneValue)
  | failed

/-- The head of the loop: it ends when no object has properties to be read. -/
def loopHead (root : CloneValue) (s : Reader) : Control × Reader :=
  if s.objs.isEmpty then (.returned root, s) else (.id root, s)

/-- The next call of `read`, up to the one after it. -/
def readStep : Control × Reader → Control × Reader
  | (.value none _, s) =>
    match startRead env data s with
    | .ok v s => loopHead v s
    | .error _ s => (.failed, s)
  | (.value (some (address, id)) root, s) =>
    match (startRead env data >>= defineGeneric env address id) s with
    | .ok _ s => loopHead root s
    | .error _ s => (.failed, s)
  | (.id root, s) =>
    match readId env data s with
    | .ok none s => loopHead root { s with objs := s.objs.tail }
    | .ok (some id) s => (.value (some (s.objs.headD 0, id)) root, s)
    | .error _ s => (.failed, s)
  | (.returned root, s) => (.returned root, s)
  | (.failed, s) => (.failed, s)

/-- `read` when it starts; `allObjs` and `objs` are empty. -/
def readStart (heap : List CloneObject) (allocs : Nat) : Control × Reader :=
  (.value none .undefined, ⟨0, [], [], heap, allocs, []⟩)

end

end SpiderMonkey.StructuredClone
