import SpiderMonkey.Ion.CompactBuffer

/-! # Snapshots

`SnapshotWriter` and `SnapshotReader` of `Snapshots.cpp`. A snapshot tells how to rebuild
the interpreter frames at a bailout: a header, and for each frame a header and its slots. An
assertion that fails is `none`. `TRACK_SNAPSHOTS` is defined exactly in a `DEBUG` build.
-/

namespace SpiderMonkey.Ion

open Lib

inductive Architecture where
  | x86
  | x64
  | arm
deriving DecidableEq

/-- How a boxed value is held: type and payload apart, or in one word. -/
inductive Boxing where
  | nunbox32
  | punbox64
deriving DecidableEq

/-- What is fixed when the engine is built. -/
structure Build where
  arch : Architecture
  debug : Bool

namespace Build

def boxing (b : Build) : Boxing :=
  match b.arch with
  | .x86 => .nunbox32
  | .x64 => .punbox64
  | .arm => .nunbox32

/-- `Registers::Total`. -/
def registersTotal (b : Build) : Nat :=
  match b.arch with
  | .x86 => 8
  | .x64 => 16
  | .arm => 16

/-- `Registers::Invalid`. -/
def registersInvalid (b : Build) : Nat :=
  match b.arch with
  | .x86 => 8
  | .x64 => 16
  | .arm => 16

/-- `FloatRegisters::Total`. -/
def floatRegistersTotal (b : Build) : Nat :=
  match b.arch with
  | .x86 => 8
  | .x64 => 16
  | .arm => 16

/-- `FloatRegisters::Invalid`: on ARM the enumeration goes up to `d30` before it. -/
def floatRegistersInvalid (b : Build) : Nat :=
  match b.arch with
  | .x86 => 8
  | .x64 => 16
  | .arm => 31

/-- `sizeof(JSScript *)`. -/
def pointerSize (b : Build) : Nat :=
  match b.arch with
  | .x86 => 4
  | .x64 => 8
  | .arm => 4

end Build

/-- `Register`, by its code. -/
abbrev Register (b : Build) := Fin b.registersTotal

/-- `FloatRegister`, by its code. -/
abbrev FloatRegister (b : Build) := Fin b.floatRegistersTotal

/-- `Register::FromCode`. -/
def Register.fromCode (b : Build) (i : Nat) : Option (Register b) :=
  if h : i < b.registersTotal then some ⟨i, h⟩ else none

/-- `FloatRegister::FromCode`. -/
def FloatRegister.fromCode (b : Build) (i : Nat) : Option (FloatRegister b) :=
  if h : i < b.floatRegistersTotal then some ⟨i, h⟩ else none

inductive JSValueType where
  | double
  | int32
  | undefined
  | boolean
  | magic
  | string
  | null
  | object
deriving DecidableEq

def JSValueType.code : JSValueType → BitVec 32
  | double => 0
  | int32 => 1
  | undefined => 2
  | boolean => 3
  | magic => 4
  | string => 5
  | null => 6
  | object => 7

/-- `JSValueType(b & 0x7)`. -/
def JSValueType.ofByte (b : Byte) : JSValueType :=
  match (b &&& 7#8).toNat with
  | 0 => double
  | 1 => int32
  | 2 => undefined
  | 3 => boolean
  | 4 => magic
  | 5 => string
  | 6 => null
  | _ => object

inductive BailoutKind where
  | normal
  | argumentCheck
  | typeBarrier
  | monitor
  | recompileCheck
  | boundsCheck
  | invalidate
deriving DecidableEq

def BailoutKind.code : BailoutKind → BitVec 32
  | normal => 0
  | argumentCheck => 1
  | typeBarrier => 2
  | monitor => 3
  | recompileCheck => 4
  | boundsCheck => 5
  | invalidate => 6

/-- `BailoutKind(bits)`, for a number that is one. -/
def BailoutKind.ofCode (bits : BitVec 32) : Option BailoutKind :=
  match bits.toNat with
  | 0 => some normal
  | 1 => some argumentCheck
  | 2 => some typeBarrier
  | 3 => some monitor
  | 4 => some recompileCheck
  | 5 => some boundsCheck
  | 6 => some invalidate
  | _ => none

def bailoutKindShift : Nat := 0
def bailoutKindBits : Nat := 3
def bailoutResumeBits : Nat := 1
def bailoutKindMask : BitVec 32 := (1#32 <<< bailoutKindBits) - 1#32
def bailoutResumeShift : Nat := bailoutKindShift + bailoutKindBits
def bailoutFramecountShift : Nat := bailoutKindBits + bailoutResumeBits
def bailoutFramecountBits : Nat := 32 - bailoutFramecountShift

def maxRegFieldValue : Nat := 31
def escRegFieldIndex : Nat := 31
def escRegFieldConst : Nat := 30
def minRegFieldEsc : Nat := 30

def nunbox32StackStack : Nat := 0
def nunbox32StackReg : Nat := 1
def nunbox32RegStack : Nat := 2
def nunbox32RegReg : Nat := 3

def snapshotMaxNargs : Nat := 127
def snapshotMaxStack : Nat := 127

/-! ## The writer -/

/-- What is passed for a slot: one constructor for each of the writer's entry points. -/
inductive SlotCall (b : Build) where
  | doubleReg (reg : FloatRegister b)
  | typedReg (type : JSValueType) (reg : Register b)
  | typedStack (type : JSValueType) (stackIndex : BitVec 32)
  | regReg (type payload : Register b)
  | regStack (type : Register b) (payloadStackIndex : BitVec 32)
  | stackReg (typeStackIndex : BitVec 32) (payload : Register b)
  | stackStack (typeStackIndex payloadStackIndex : BitVec 32)
  | valueReg (value : Register b)
  | valueStack (valueStackSlot : BitVec 32)
  | undefined
  | null
  | int32 (value : BitVec 32)
  | constantPool (index : BitVec 32)

/-- The arguments of `startFrame` as the frame header has them: the bytes of the script
pointer, `CountArgSlots(fun)`, `script->nfixed`, and the offset of `pc` in the code. -/
structure FrameStart (b : Build) where
  script : Vector Byte b.pointerSize
  formalArgs : Nat
  nfixed : BitVec 16
  exprStack : Nat
  pcOffset : BitVec 32

/-- The arguments of `trackFrame`. -/
structure TrackedFrame where
  pcOpcode : BitVec 32
  mirOpcode : BitVec 32
  mirId : BitVec 32
  lirOpcode : BitVec 32
  lirId : BitVec 32
deriving DecidableEq

inductive SnapshotCall (b : Build) where
  | startSnapshot (frameCount : BitVec 32) (kind : BailoutKind) (resumeAfter : Bool)
  | startFrame (frame : FrameStart b)
  | trackFrame (track : TrackedFrame)
  | addSlot (slot : SlotCall b)
  | endFrame
  | endSnapshot

/-- The five numbers of `trackFrame`. -/
def CompactBuffer.writeTrackedFrame (buffer : CompactBuffer) (track : TrackedFrame) :
    CompactBuffer :=
  let buffer := buffer.writeUnsigned track.pcOpcode
  let buffer := buffer.writeUnsigned track.mirOpcode
  let buffer := buffer.writeUnsigned track.mirId
  let buffer := buffer.writeUnsigned track.lirOpcode
  buffer.writeUnsigned track.lirId

structure SnapshotWriter where
  writer : CompactBuffer
  nslots : Nat
  slotsWritten : Nat
  nframes : Nat
  framesWritten : Nat
  lastStart : Nat

namespace SnapshotWriter

def startSnapshot (w : SnapshotWriter) (frameCount : BitVec 32) (kind : BailoutKind)
    (resumeAfter : Bool) : Option SnapshotWriter := do
  guard (frameCount > 0#32)
  guard (frameCount.toNat < 2 ^ bailoutFramecountBits)
  guard (kind.code.toNat < 2 ^ bailoutKindBits)
  let bits := (kind.code <<< bailoutKindShift) ||| (frameCount <<< bailoutFramecountShift)
  let bits := if resumeAfter then bits ||| (1#32 <<< bailoutResumeShift) else bits
  pure { w with
    nframes := frameCount.toNat
    framesWritten := 0
    lastStart := w.writer.length
    writer := w.writer.writeUnsigned bits }

def startFrame {b : Build} (w : SnapshotWriter) (frame : FrameStart b) : Option SnapshotWriter := do
  guard (frame.formalArgs < snapshotMaxNargs)
  guard (frame.exprStack < snapshotMaxStack)
  let nslots := frame.formalArgs + frame.nfixed.toNat + frame.exprStack
  let writer := if b.debug then frame.script.toList.foldl CompactBuffer.writeByte w.writer
    else w.writer
  pure { w with
    nslots := nslots
    slotsWritten := 0
    writer := (writer.writeUnsigned frame.pcOffset).writeUnsigned (BitVec.ofNat 32 nslots) }

def trackFrame (w : SnapshotWriter) (track : TrackedFrame) : SnapshotWriter :=
  { w with writer := w.writer.writeTrackedFrame track }

def endFrame (w : SnapshotWriter) : Option SnapshotWriter := do
  guard (w.nslots = w.slotsWritten)
  pure { w with nslots := 0, slotsWritten := 0, framesWritten := w.framesWritten + 1 }

def writeSlotHeader (w : SnapshotWriter) (type : JSValueType) (regCode : Nat) :
    Option SnapshotWriter := do
  guard (regCode ≤ maxRegFieldValue)
  guard (w.slotsWritten + 1 ≤ w.nslots)
  let byte := type.code ||| (BitVec.ofNat 32 regCode <<< 3)
  pure { w with writer := w.writer.writeByte (byte.setWidth 8), slotsWritten := w.slotsWritten + 1 }

def writeByte (w : SnapshotWriter) (byte : Byte) : SnapshotWriter :=
  { w with writer := w.writer.writeByte byte }

def writeUnsigned (w : SnapshotWriter) (value : BitVec 32) : SnapshotWriter :=
  { w with writer := w.writer.writeUnsigned value }

def writeSigned (w : SnapshotWriter) (v : BitVec 32) : SnapshotWriter :=
  { w with writer := w.writer.writeSigned v }

def addInt32Slot (w : SnapshotWriter) (value : BitVec 32) : Option SnapshotWriter :=
  if ¬ value.slt 0#32 ∧ value.toNat < minRegFieldEsc then
    w.writeSlotHeader .null value.toNat
  else do
    let w ← w.writeSlotHeader .null escRegFieldIndex
    pure (w.writeSigned value)

def addConstantPoolSlot (w : SnapshotWriter) (index : BitVec 32) : Option SnapshotWriter :=
  if index.toNat < minRegFieldEsc then
    w.writeSlotHeader .undefined index.toNat
  else do
    let w ← w.writeSlotHeader .undefined escRegFieldIndex
    pure (w.writeUnsigned index)

/-- `addSlot(JSValueType type, int32 stackIndex)`. -/
def addStackSlot (b : Build) (w : SnapshotWriter) (type : JSValueType) (stackIndex : BitVec 32) :
    Option SnapshotWriter := do
  let w ← w.writeSlotHeader type
    (if type = .double then b.floatRegistersInvalid else b.registersInvalid)
  pure (w.writeSigned stackIndex)

/-- The entry points for slots. Those for boxed values exist in builds with that boxing. -/
def addSlot {b : Build} (w : SnapshotWriter) : SlotCall b → Option SnapshotWriter
  | .doubleReg reg => w.writeSlotHeader .double reg
  | .typedReg type reg => do
    guard (type ≠ .double)
    w.writeSlotHeader type reg
  | .typedStack type stackIndex => w.addStackSlot b type stackIndex
  | .regReg type payload => do
    let w ← w.writeSlotHeader .magic nunbox32RegReg
    pure ((w.writeByte (BitVec.ofNat 8 type)).writeByte (BitVec.ofNat 8 payload))
  | .regStack type payloadStackIndex => do
    let w ← w.writeSlotHeader .magic nunbox32RegStack
    pure ((w.writeByte (BitVec.ofNat 8 type)).writeSigned payloadStackIndex)
  | .stackReg typeStackIndex payload => do
    let w ← w.writeSlotHeader .magic nunbox32StackReg
    pure ((w.writeSigned typeStackIndex).writeByte (BitVec.ofNat 8 payload))
  | .stackStack typeStackIndex payloadStackIndex => do
    let w ← w.writeSlotHeader .magic nunbox32StackStack
    pure ((w.writeSigned typeStackIndex).writeSigned payloadStackIndex)
  | .valueReg value => w.writeSlotHeader .magic value
  | .valueStack valueStackSlot => do
    let w ← w.writeSlotHeader .magic b.registersInvalid
    pure (w.writeSigned valueStackSlot)
  | .undefined => w.writeSlotHeader .undefined escRegFieldConst
  | .null => w.writeSlotHeader .null escRegFieldConst
  | .int32 value => w.addInt32Slot value
  | .constantPool index => w.addConstantPoolSlot index

/-- In a `DEBUG` build a sentinel is placed behind the snapshot. -/
def endSnapshot (b : Build) (w : SnapshotWriter) : Option SnapshotWriter := do
  guard (w.nframes = w.framesWritten)
  pure (if b.debug then w.writeSigned (-1#32) else w)

/-- One call. -/
def call {b : Build} (w : SnapshotWriter) : SnapshotCall b → Option SnapshotWriter
  | .startSnapshot frameCount kind resumeAfter => w.startSnapshot frameCount kind resumeAfter
  | .startFrame frame => w.startFrame frame
  | .trackFrame track => some (w.trackFrame track)
  | .addSlot slot => w.addSlot slot
  | .endFrame => w.endFrame
  | .endSnapshot => w.endSnapshot b

/-- A sequence of calls. -/
def run {b : Build} (w : SnapshotWriter) (calls : List (SnapshotCall b)) : Option SnapshotWriter :=
  calls.foldlM call w

end SnapshotWriter

/-! ## The reader -/

def invalidStackSlot : BitVec 32 := -1#32

/-- `SnapshotReader::Location`. -/
structure Location (b : Build) where
  reg : Nat
  stackSlot : BitVec 32
deriving DecidableEq

namespace Location

variable {b : Build}

def fromRegister (reg : Register b) : Location b := ⟨reg, invalidStackSlot⟩

def fromStackSlot (stackSlot : BitVec 32) : Location b := ⟨0, stackSlot⟩

def isStackSlot (l : Location b) : Bool := l.stackSlot ≠ invalidStackSlot

end Location

/-- `SnapshotReader::Slot`: the mode with the part of the union it selects. -/
inductive Slot (b : Build) where
  | constant (index : BitVec 32)
  | doubleReg (fpu : FloatRegister b)
  | typedReg (type : JSValueType) (payload : Location b)
  | typedStack (type : JSValueType) (payload : Location b)
  | untypedNunbox (type payload : Location b)
  | untypedPunbox (value : Location b)
  | undefined
  | null
  | int32 (value : BitVec 32)
deriving DecidableEq

/-- What `readSnapshotHeader` finds. -/
structure SnapshotHeader where
  frameCount : Nat
  bailoutKind : BailoutKind
  resumeAfter : Bool
deriving DecidableEq

/-- What `readFrameHeader` finds; the script and the tracked opcodes in a `DEBUG` build. -/
structure FrameHeader where
  script : List Byte
  pcOffset : BitVec 32
  slotCount : Nat
  track : Option TrackedFrame
deriving DecidableEq

section Decoding

open CompactBuffer

def readSnapshotHeader : Reader Byte SnapshotHeader := do
  let bits ← readUnsigned
  Reader.ofOption (guard ((bits >>> bailoutFramecountShift).toNat > 0))
  let kind ← Reader.ofOption (BailoutKind.ofCode ((bits >>> bailoutKindShift) &&& bailoutKindMask))
  pure {
    frameCount := (bits >>> bailoutFramecountShift).toNat
    bailoutKind := kind
    resumeAfter := bits &&& (1#32 <<< bailoutResumeShift) ≠ 0#32 }

/-- The five numbers of `TRACK_SNAPSHOTS`. -/
def readTrackedFrame : Reader Byte TrackedFrame := do
  let pcOpcode ← readUnsigned
  let mirOpcode ← readUnsigned
  let mirId ← readUnsigned
  let lirOpcode ← readUnsigned
  let lirId ← readUnsigned
  pure { pcOpcode, mirOpcode, mirId, lirOpcode, lirId }

def readFrameHeader (b : Build) : Reader Byte FrameHeader := do
  let script ← readByte.times (if b.debug then b.pointerSize else 0)
  let pcOffset ← readUnsigned
  let slotCount ← readUnsigned
  let track ← readTrackedFrame.times (if b.debug then 1 else 0)
  pure { script, pcOffset, slotCount := slotCount.toNat, track := track.head? }

/-- A location that is a register, from its byte. -/
def readRegister (b : Build) : Reader Byte (Location b) := do
  let code ← readByte
  let reg ← Reader.ofOption (Register.fromCode b code.toNat)
  pure (Location.fromRegister reg)

/-- A location that is a stack slot. -/
def readStackSlot (b : Build) : Reader Byte (Location b) := do
  let stackSlot ← readSigned
  pure (Location.fromStackSlot stackSlot)

/-- A slot whose type is known: in the register `code`, or on the stack. -/
def readTypedSlot (b : Build) (type : JSValueType) (code : Nat) : Reader Byte (Slot b) :=
  if code ≠ b.registersInvalid then do
    let reg ← Reader.ofOption (Register.fromCode b code)
    pure (.typedReg type (Location.fromRegister reg))
  else do
    let loc ← readStackSlot b
    pure (.typedStack type loc)

/-- A boxed value of a `JS_NUNBOX32` build. -/
def readNunbox32 (b : Build) (code : Nat) : Reader Byte (Slot b) :=
  if code = nunbox32StackStack then do
    let type ← readStackSlot b
    let payload ← readStackSlot b
    pure (.untypedNunbox type payload)
  else if code = nunbox32StackReg then do
    let type ← readStackSlot b
    let payload ← readRegister b
    pure (.untypedNunbox type payload)
  else if code = nunbox32RegStack then do
    let type ← readRegister b
    let payload ← readStackSlot b
    pure (.untypedNunbox type payload)
  else do
    Reader.ofOption (guard (code = nunbox32RegReg))
    let type ← readRegister b
    let payload ← readRegister b
    pure (.untypedNunbox type payload)

/-- A boxed value of a `JS_PUNBOX64` build. -/
def readPunbox64 (b : Build) (code : Nat) : Reader Byte (Slot b) :=
  if code ≠ b.registersInvalid then do
    let reg ← Reader.ofOption (Register.fromCode b code)
    pure (.untypedPunbox (Location.fromRegister reg))
  else do
    let loc ← readStackSlot b
    pure (.untypedPunbox loc)

/-- The lazy arguments object of `JSVAL_TYPE_MAGIC` with code 30, which no entry point of the
writer makes. -/
def readLazyArguments (b : Build) : Reader Byte (Slot b) := do
  let reg2 ← readUnsigned
  let reg2 : Byte := reg2.setWidth 8
  if reg2.toNat ≠ escRegFieldIndex then do
    let reg ← Reader.ofOption (Register.fromCode b reg2.toNat)
    pure (.typedReg .magic (Location.fromRegister reg))
  else do
    let loc ← readStackSlot b
    pure (.typedReg .magic loc)

/-- The cases of `readSlot`, after its first byte. -/
def readSlotBody (b : Build) (type : JSValueType) (code : Nat) : Reader Byte (Slot b) :=
  match type with
  | .double =>
    if code ≠ b.floatRegistersInvalid then do
      let reg ← Reader.ofOption (FloatRegister.fromCode b code)
      pure (.doubleReg reg)
    else do
      let loc ← readStackSlot b
      pure (.typedStack .double loc)
  | .int32 => readTypedSlot b .int32 code
  | .string => readTypedSlot b .string code
  | .object => readTypedSlot b .object code
  | .boolean => readTypedSlot b .boolean code
  | .null =>
    if code = escRegFieldConst then pure .null
    else if code = escRegFieldIndex then do
      let value ← readSigned
      pure (.int32 value)
    else pure (.int32 (BitVec.ofNat 32 code))
  | .undefined =>
    if code = escRegFieldConst then pure .undefined
    else if code = escRegFieldIndex then do
      let index ← readUnsigned
      pure (.constant index)
    else pure (.constant (BitVec.ofNat 32 code))
  | .magic =>
    if code = escRegFieldConst then readLazyArguments b
    else match b.boxing with
      | .nunbox32 => readNunbox32 b code
      | .punbox64 => readPunbox64 b code

/-- `readSlot`, but for its counter. -/
def readSlot (b : Build) : Reader Byte (Slot b) := do
  let byte ← readByte
  readSlotBody b (JSValueType.ofByte byte) (byte >>> 3).toNat

end Decoding

structure SnapshotReader where
  reader : List Byte
  header : SnapshotHeader
  frame : FrameHeader
  framesRead : Nat
  slotsRead : Nat

namespace SnapshotReader

def moreFrames (r : SnapshotReader) : Bool := r.framesRead < r.header.frameCount

def moreSlots (r : SnapshotReader) : Bool := r.slotsRead < r.frame.slotCount

/-- `nextFrame`, that is `readFrameHeader`. -/
def nextFrame (b : Build) (r : SnapshotReader) : Option SnapshotReader := do
  guard r.moreFrames
  guard (r.slotsRead = r.frame.slotCount)
  let (frame, reader) ← (Ion.readFrameHeader b).run r.reader
  pure { r with reader, frame, framesRead := r.framesRead + 1, slotsRead := 0 }

/-- The constructor: it reads the header of the snapshot and of the first frame. -/
def new (b : Build) (buffer : List Byte) : Option SnapshotReader := do
  let (header, reader) ← Ion.readSnapshotHeader.run buffer
  nextFrame b {
    reader, header
    frame := { script := [], pcOffset := 0#32, slotCount := 0, track := none }
    framesRead := 0
    slotsRead := 0 }

/-- `readSlot`. -/
def readSlot (b : Build) (r : SnapshotReader) : Option (Slot b × SnapshotReader) := do
  guard r.moreSlots
  let (slot, reader) ← (Ion.readSlot b).run r.reader
  pure (slot, { r with reader, slotsRead := r.slotsRead + 1 })

/-- `resumeAfter()`: only the last frame of a snapshot resumes after its instruction. -/
def resumeAfter (r : SnapshotReader) : Bool := if r.moreFrames then false else r.header.resumeAfter

/-- A frame read to its end: `readSlot` while there are `moreSlots`. -/
def readSlots (b : Build) : Nat → SnapshotReader → Option (List (Slot b) × SnapshotReader)
  | 0, r => some ([], r)
  | n + 1, r => do
    let (slot, r) ← r.readSlot b
    let (slots, r) ← readSlots b n r
    pure (slot :: slots, r)

/-- A frame, as it is read: its header, its slots and what `resumeAfter()` says in it. -/
structure Frame (b : Build) where
  header : FrameHeader
  slots : List (Slot b)
  resumeAfter : Bool

/-- The current frame and the `n` frames behind it. -/
def readFrames (b : Build) : Nat → SnapshotReader → Option (List (Frame b) × SnapshotReader)
  | 0, r => do
    let (slots, r') ← r.readSlots b r.frame.slotCount
    guard (r'.moreSlots = false ∧ r'.moreFrames = false)
    pure ([⟨r.frame, slots, r.resumeAfter⟩], r')
  | n + 1, r => do
    let (slots, r') ← r.readSlots b r.frame.slotCount
    guard (r'.moreSlots = false ∧ r'.moreFrames)
    let next ← r'.nextFrame b
    let (frames, last) ← readFrames b n next
    pure (⟨r.frame, slots, r.resumeAfter⟩ :: frames, last)

/-- A snapshot read to its end: each frame while there are `moreFrames`. -/
def readAll (b : Build) (buffer : List Byte) : Option (List (Frame b) × SnapshotReader) := do
  let r ← new b buffer
  r.readFrames b (r.header.frameCount - 1)

end SnapshotReader

end SpiderMonkey.Ion
