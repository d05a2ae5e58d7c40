import SpiderMonkey.Lib.Int32

/-! # Typed arrays

Views of array buffers (`jstypedarray.cpp`): construction from a length, an array or a buffer,
subarrays and slices, `DataView`, and the accesses to the bytes of a view. The contents of the
buffers are left out. Beside its result a call yields the 32-bit sums, differences and products that it
computes, and the bytes that it reads and writes.
-/

namespace SpiderMonkey.Vm

open SpiderMonkey.Lib

/-- The type of the elements. -/
inductive ArrayType where
  | int8
  | uint8
  | int16
  | uint16
  | int32
  | uint32
  | float32
  | float64
  | uint8Clamped
  deriving DecidableEq, Repr

/-- `sizeof(NativeType)` -/
def ArrayType.size : ArrayType → Nat
  | int8 => 1
  | uint8 => 1
  | int16 => 2
  | uint16 => 2
  | int32 => 4
  | uint32 => 4
  | float32 => 4
  | float64 => 8
  | uint8Clamped => 1

/-- An argument after `ToInt32`. -/
abbrev Int32Arg := { v : Int // IsInt32 v }

/-- An argument after `ToUint32`, or a length. -/
abbrev Uint32Arg := { v : Nat // v < 2 ^ 32 }

/-- A result modulo `2 ^ 32`. -/
def uint32 (x : Int) : Nat := (x % 2 ^ 32).toNat

/-- A 32-bit sum, difference or product, by its exact value. -/
inductive Calculation where
  | unsigned (exact : Int)
  | signed (exact : Int)
  deriving DecidableEq, Repr

/-- The exact value is what the code gets. -/
def Calculation.Fits : Calculation → Prop
  | unsigned exact => 0 ≤ exact ∧ exact < 2 ^ 32
  | signed exact => IsInt32 exact

/-- Bytes of a buffer. -/
structure ByteRange where
  buffer : Nat
  first : Nat
  count : Nat
  deriving DecidableEq, Repr

inductive ByteAccess where
  | read (bytes : ByteRange)
  | write (bytes : ByteRange)
  deriving DecidableEq, Repr

/-- A typed array. Its buffer is a number. -/
structure TypedArray where
  type : ArrayType
  buffer : Nat
  byteOffset : Nat
  length : Nat
  byteLength : Nat
  deriving DecidableEq, Repr

/-- `DataViewObject` -/
structure DataView where
  buffer : Nat
  byteOffset : Nat
  byteLength : Nat
  deriving DecidableEq, Repr

/-- The lengths of the buffers, and the views. -/
structure Buffers where
  byteLengths : List Nat
  arrays : List TypedArray
  dataViews : List DataView
  deriving DecidableEq, Repr

/-- What a call yields; a call that reports an error has no result. -/
structure ViewCall (α : Type) where
  result : Option α
  sums : List Calculation
  accesses : List ByteAccess

namespace Buffers

variable (b : Buffers)

/-- `ToClampedIndex` -/
def toClampedIndex (v : Int32Arg) (length : Nat) : Nat × List Calculation :=
  if v.1 < 0 then
    -- the sum is one of unsigned numbers, but only its value as an `int32_t` is used
    let result := wrap32 (v.1 + length)
    (if result < 0 then 0 else uint32 result, [.signed (v.1 + length)])
  else if length < uint32 v.1 then (length, [])
  else (uint32 v.1, [])

/-- `begin` and `end` of `slice` and `subarray`. -/
def clampedRange (args : List Int32Arg) (length : Nat) : Nat × Nat × List Calculation :=
  let (first, last, sums) : Nat × Nat × List Calculation :=
    match args with
    | [] => (0, length, [])
    | [v] => ((toClampedIndex v length).1, length, (toClampedIndex v length).2)
    | v :: w :: _ =>
      ((toClampedIndex v length).1, (toClampedIndex w length).1,
        (toClampedIndex v length).2 ++ (toClampedIndex w length).2)
  (if last < first then last else first, last, sums)

/-- `ArrayBufferObject::create`, where it succeeds. -/
def createBuffer (nbytes : Nat) : Buffers := { b with byteLengths := b.byteLengths ++ [nbytes] }

/-- `ArrayBufferObject::class_constructor` -/
def newArrayBuffer (nbytes : Int32Arg) : ViewCall Buffers :=
  if nbytes.1 < 0 then ⟨none, [], []⟩ else ⟨some (b.createBuffer (uint32 nbytes.1)), [], []⟩

/-- `ArrayBufferObject::fun_slice_impl` -/
def slice (buffer : Nat) (args : List Int32Arg) : ViewCall Buffers :=
  match b.byteLengths[buffer]? with
  | none => ⟨none, [], []⟩
  | some byteLength =>
    let (first, last, sums) := clampedRange args byteLength
    let length := uint32 (last - first)
    ⟨some (b.createBuffer length), sums ++ [.unsigned (last - first)],
      [.read ⟨buffer, first, length⟩, .write ⟨b.byteLengths.length, 0, length⟩]⟩

/-- `makeInstance` -/
def makeInstance (type : ArrayType) (buffer byteOffset len : Nat) : TypedArray × List Calculation :=
  (⟨type, buffer, byteOffset, len, uint32 (len * type.size)⟩, [.unsigned (len * type.size)])

def addArray (a : TypedArray) : Buffers := { b with arrays := b.arrays ++ [a] }

/-- `createBufferWithSizeAndCount` and `makeInstance` over all of the buffer. -/
def newArray (type : ArrayType) (count : Nat) : ViewCall (Buffers × TypedArray) :=
  if int32Max.toNat / type.size ≤ count then ⟨none, [], []⟩
  else
    let bytelen := uint32 (type.size * count)
    let (a, sums) := makeInstance type b.byteLengths.length 0 count
    ⟨some ((b.createBuffer bytelen).addArray a, a), .unsigned (type.size * count) :: sums, []⟩

/-- `fromLength` -/
def fromLength (type : ArrayType) (nelements : Uint32Arg) : ViewCall Buffers :=
  let r := b.newArray type nelements.1
  ⟨r.result.map Prod.fst, r.sums, r.accesses⟩

/-- The elements that `copyFromArray` writes: `stops` is where `getElement` fails. -/
def copyFromArray (a : TypedArray) (len offset : Nat) (stops : Option Nat) : List ByteAccess :=
  let count := match stops with | none => len | some n => min n len
  (List.range count).map fun i =>
    .write ⟨a.buffer, a.byteOffset + (offset + i) * a.type.size, a.type.size⟩

/-- `fromArray` -/
def fromArray (type : ArrayType) (len : Uint32Arg) (stops : Option Nat) : ViewCall Buffers :=
  let r := b.newArray type len.1
  match r.result with
  | none => ⟨none, r.sums, []⟩
  | some (b', a) =>
    let failed := stops.any (· < len.1)
    ⟨if failed then none else some b', r.sums, copyFromArray a len.1 0 stops⟩

/-- `fromBuffer`, once the number of elements is known. -/
def fromBufferLength (type : ArrayType) (buffer byteLength boffset len : Nat)
    (sums : List Calculation) : ViewCall Buffers :=
  let arrayByteLength := uint32 (len * type.size)
  let sums := sums ++ [.unsigned (len * type.size)]
  if int32Max.toNat / type.size ≤ len then ⟨none, sums, []⟩
  else
    let sums := sums ++ [.unsigned (int32Max - arrayByteLength)]
    if uint32 (int32Max - arrayByteLength) ≤ boffset then ⟨none, sums, []⟩
    else
      let sums := sums ++ [.unsigned (arrayByteLength + boffset)]
      if byteLength < uint32 (arrayByteLength + boffset) then ⟨none, sums, []⟩
      else
        let (a, sums') := makeInstance type buffer boffset len
        ⟨some (b.addArray a), sums ++ sums', []⟩

/-- `fromBuffer`, with the arguments that `create` passes on. -/
def fromBuffer (type : ArrayType) (buffer : Nat) (byteOffsetInt lengthInt : Int) :
    ViewCall Buffers :=
  match b.byteLengths[buffer]? with
  | none => ⟨none, [], []⟩
  | some byteLength =>
    let boffset := if byteOffsetInt = -1 then 0 else uint32 byteOffsetInt
    if byteLength < boffset ∨ boffset % type.size ≠ 0 then ⟨none, [], []⟩
    else if lengthInt = -1 then
      let len := uint32 (byteLength - boffset) / type.size
      let sums : List Calculation :=
        [.unsigned (byteLength - boffset), .unsigned (len * type.size),
          .unsigned (byteLength - boffset)]
      if uint32 (len * type.size) ≠ uint32 (byteLength - boffset) then ⟨none, sums, []⟩
      else b.fromBufferLength type buffer byteLength boffset len sums
    else b.fromBufferLength type buffer byteLength boffset (uint32 lengthInt) []

/-- `create`, of a buffer. -/
def create (type : ArrayType) (buffer : Nat) (args : List Int32Arg) : ViewCall Buffers :=
  match args with
  | [] => b.fromBuffer type buffer (-1) (-1)
  | [byteOffset] =>
    if byteOffset.1 < 0 then ⟨none, [], []⟩ else b.fromBuffer type buffer byteOffset.1 (-1)
  | byteOffset :: length :: _ =>
    if byteOffset.1 < 0 then ⟨none, [], []⟩
    else if length.1 < 0 then ⟨none, [], []⟩
    else b.fromBuffer type buffer byteOffset.1 length.1

/-- `fun_subarray_impl` and `createSubarray` -/
def subarray (tarray : TypedArray) (args : List Int32Arg) : ViewCall Buffers :=
  let (first, last, sums) := clampedRange args tarray.length
  let length := uint32 (last - first)
  let byteOffset := uint32 (tarray.byteOffset + uint32 (first * tarray.type.size))
  let (a, sums') := makeInstance tarray.type tarray.buffer byteOffset length
  ⟨some (b.addArray a),
    sums ++ [.unsigned (last - first), .unsigned (first * tarray.type.size),
      .unsigned (tarray.byteOffset + uint32 (first * tarray.type.size))] ++ sums', []⟩

/-- `fun_move_impl` -/
def move (tarray : TypedArray) (srcBegin srcEnd dest : Int32Arg) : ViewCall Buffers :=
  let (first, sums₁) := toClampedIndex srcBegin tarray.length
  let (last, sums₂) := toClampedIndex srcEnd tarray.length
  let (dest, sums₃) := toClampedIndex dest tarray.length
  let sums := sums₁ ++ sums₂ ++ sums₃
  if last < first then ⟨none, sums, []⟩
  else
    let nelts := uint32 (last - first)
    let sums := sums ++ [.unsigned (last - first), .unsigned (dest + nelts)]
    if tarray.length < uint32 (dest + nelts) then ⟨none, sums, []⟩
    else
      let byteDest := uint32 (dest * tarray.type.size)
      let byteSrc := uint32 (first * tarray.type.size)
      let byteSize := uint32 (nelts * tarray.type.size)
      ⟨some b, sums ++ [.unsigned (dest * tarray.type.size), .unsigned (first * tarray.type.size),
          .unsigned (nelts * tarray.type.size)],
        [.read ⟨tarray.buffer, tarray.byteOffset + byteSrc, byteSize⟩,
          .write ⟨tarray.buffer, tarray.byteOffset + byteDest, byteSize⟩]⟩

/-- `copyFromTypedArray` and `copyFromWithOverlap`: the bytes of the source, and those of the
elements that it is copied to. -/
def copyFromTypedArray (tarray src : TypedArray) (offset : Nat) : List ByteAccess :=
  let dest := tarray.byteOffset + offset * tarray.type.size
  if src.type = tarray.type then
    [.read ⟨src.buffer, src.byteOffset, src.byteLength⟩,
      .write ⟨tarray.buffer, dest, src.byteLength⟩]
  else if src.buffer = tarray.buffer then
    -- the source is copied first
    .read ⟨src.buffer, src.byteOffset, src.byteLength⟩ ::
      (List.range src.length).map fun i =>
        .write ⟨tarray.buffer, dest + i * tarray.type.size, tarray.type.size⟩
  else
    (List.range src.length).flatMap fun i =>
      [.read ⟨src.buffer, src.byteOffset + i * src.type.size, src.type.size⟩,
        .write ⟨tarray.buffer, dest + i * tarray.type.size, tarray.type.size⟩]

/-- The offset argument of `fun_set_impl`. -/
def setOffset (tarray : TypedArray) (args : List Int32Arg) : Option Nat :=
  match args with
  | [] => some 0
  | offset :: _ =>
    if offset.1 < 0 ∨ tarray.length < uint32 offset.1 then none else some (uint32 offset.1)

/-- `fun_set_impl` of a typed array. -/
def setTypedArray (tarray src : TypedArray) (args : List Int32Arg) : ViewCall Buffers :=
  match setOffset tarray args with
  | none => ⟨none, [], []⟩
  | some offset =>
    let sums : List Calculation := [.unsigned (tarray.length - offset)]
    if uint32 (tarray.length - offset) < src.length then ⟨none, sums, []⟩
    else ⟨some b, sums, copyFromTypedArray tarray src offset⟩

/-- `fun_set_impl` of an array with a length. -/
def setArray (tarray : TypedArray) (len : Uint32Arg) (args : List Int32Arg) (stops : Option Nat) :
    ViewCall Buffers :=
  match setOffset tarray args with
  | none => ⟨none, [], []⟩
  | some offset =>
    let sums : List Calculation := [.unsigned (tarray.length - offset)]
    if uint32 (tarray.length - offset) < len.1 then ⟨none, sums, []⟩
    else
      ⟨if stops.any (· < len.1) then none else some b, sums,
        copyFromArray tarray len.1 offset stops⟩

/-- `obj_getElement` and `obj_setElement`; an index out of range is not an error. -/
def element (tarray : TypedArray) (index : Uint32Arg) (isSet : Bool) : ViewCall Buffers :=
  if tarray.length ≤ index.1 then ⟨some b, [], []⟩
  else
    let bytes : ByteRange :=
      ⟨tarray.buffer, tarray.byteOffset + index.1 * tarray.type.size, tarray.type.size⟩
    ⟨some b, [], [if isSet then .write bytes else .read bytes]⟩

/-- `DataViewObject::construct`; the arguments are those after the buffer. -/
def newDataView (buffer : Nat) (args : List Uint32Arg) : ViewCall Buffers :=
  match b.byteLengths[buffer]? with
  | none => ⟨none, [], []⟩
  | some bufferLength =>
    let finish (byteOffset byteLength : Nat) (sums : List Calculation) : ViewCall Buffers :=
      let sums := sums ++ [.unsigned (byteOffset + byteLength)]
      if bufferLength < uint32 (byteOffset + byteLength) then ⟨none, sums, []⟩
      else
        ⟨some { b with dataViews := b.dataViews ++ [⟨buffer, byteOffset, byteLength⟩] }, sums, []⟩
    match args with
    | [] => finish 0 bufferLength []
    | [byteOffset] =>
      if int32Max.toNat < byteOffset.1 then ⟨none, [], []⟩
      else if bufferLength < byteOffset.1 then ⟨none, [], []⟩
      else
        finish byteOffset.1 (uint32 (bufferLength - byteOffset.1))
          [.unsigned (bufferLength - byteOffset.1)]
    | byteOffset :: byteLength :: _ =>
      if int32Max.toNat < byteOffset.1 then ⟨none, [], []⟩
      else if int32Max.toNat < byteLength.1 then ⟨none, [], []⟩
      else finish byteOffset.1 byteLength.1 []

/-- `getDataPointer`, and what `read` and `write` do with it. -/
def dataViewAccess (view : DataView) (offset : Uint32Arg) (type : ArrayType) (isSet : Bool) :
    ViewCall Buffers :=
  let sums : List Calculation := [.unsigned (4294967295 - type.size)]
  if uint32 (4294967295 - type.size) < offset.1 then ⟨none, sums, []⟩
  else
    let sums := sums ++ [.unsigned (offset.1 + type.size)]
    if view.byteLength < uint32 (offset.1 + type.size) then ⟨none, sums, []⟩
    else
      let bytes : ByteRange := ⟨view.buffer, view.byteOffset + offset.1, type.size⟩
      ⟨some b, sums, [if isSet then .write bytes else .read bytes]⟩

end Buffers

/-- The calls of a chain. A view is given by its number. -/
inductive ViewOp where
  | newArrayBuffer (nbytes : Int32Arg)
  | slice (buffer : Nat) (args : List Int32Arg)
  | fromLength (type : ArrayType) (nelements : Uint32Arg)
  | fromArray (type : ArrayType) (len : Uint32Arg) (stops : Option Nat)
  | create (type : ArrayType) (buffer : Nat) (args : List Int32Arg)
  | subarray (array : Nat) (args : List Int32Arg)
  | move (array : Nat) (srcBegin srcEnd dest : Int32Arg)
  | setTypedArray (array src : Nat) (args : List Int32Arg)
  | setArray (array : Nat) (len : Uint32Arg) (args : List Int32Arg) (stops : Option Nat)
  | element (array : Nat) (index : Uint32Arg) (isSet : Bool)
  | newDataView (buffer : Nat) (args : List Uint32Arg)
  | dataViewAccess (view : Nat) (offset : Uint32Arg) (type : ArrayType) (isSet : Bool)

namespace Buffers

/-- A call with a typed array. -/
def withArray (b : Buffers) (array : Nat) (f : TypedArray → ViewCall Buffers) : ViewCall Buffers :=
  match b.arrays[array]? with
  | none => ⟨none, [], []⟩
  | some tarray => f tarray

/-- One call. -/
def perform (b : Buffers) : ViewOp → ViewCall Buffers
  | .newArrayBuffer nbytes => b.newArrayBuffer nbytes
  | .slice buffer args => b.slice buffer args
  | .fromLength type nelements => b.fromLength type nelements
  | .fromArray type len stops => b.fromArray type len stops
  | .create type buffer args => b.create type buffer args
  | .subarray array args => b.withArray array (b.subarray · args)
  | .move array srcBegin srcEnd dest => b.withArray array (b.move · srcBegin srcEnd dest)
  | .setTypedArray array src args =>
    b.withArray array fun tarray => b.withArray src (b.setTypedArray tarray · args)
  | .setArray array len args stops => b.withArray array (b.setArray · len args stops)
  | .element array index isSet => b.withArray array (b.element · index isSet)
  | .newDataView buffer args => b.newDataView buffer args
  | .dataViewAccess view offset type isSet =>
    match b.dataViews[view]? with
    | none => ⟨none, [], []⟩
    | some view => b.dataViewAccess view offset type isSet

end Buffers

end SpiderMonkey.Vm
