import SpiderMonkey.Ion.Snapshots

/-! # The safepoint table

`SafepointWriter` and `SafepointReader` of `Safepoints.cpp`, with `BitSet` of `BitSet.h`. Slots
are bits of a bitmap; the halves of torn values are entries with a header. An assertion that fails
is `none`.
-/

namespace SpiderMonkey.Ion

open Lib

/-! ## Bit sets -/

/-- `RawLengthForBits`. -/
def rawLengthForBits (bits : Nat) : Nat := 1 + bits / 32

/-- `BitSet`: the values up to `max`, a bit for each. -/
structure BitSet where
  max : Nat
  words : List (BitVec 32)
  length_words : words.length = rawLengthForBits max

namespace BitSet

def new (max : Nat) : BitSet where
  max := max
  words := List.replicate (rawLengthForBits max) 0#32
  length_words := List.length_replicate

def clear (set : BitSet) : BitSet where
  max := set.max
  words := set.words.map fun _ => 0#32
  length_words := by rw [List.length_map, set.length_words]

def insert (set : BitSet) (value : BitVec 32) : Option BitSet :=
  if value.toNat ≤ set.max then
    some {
      max := set.max
      words := set.words.modify (value.toNat / 32) fun w => w ||| (1#32 <<< (value.toNat % 32))
      length_words := by rw [List.length_modify, set.length_words] }
  else none

end BitSet

/-! ## What is written -/

/-- Where a half of a torn value is. -/
inductive NunboxPart (b : Build) where
  | register (reg : Register b)
  | stackSlot (slot : BitVec 32)
  | argument (index : BitVec 32)
deriving DecidableEq

/-- `LSafepoint`, as far as it is written; the sets of registers are bits. Values are torn only
where they are in two words. -/
structure LSafepoint (b : Build) where
  osiCallPointOffset : BitVec 32
  gcRegs : BitVec 32
  liveRegs : BitVec 32
  gcRegs_subset : gcRegs &&& ~~~liveRegs = 0#32
  gcSlots : List (BitVec 32)
  valueSlots : List (BitVec 32)
  nunboxParts : List (NunboxPart b × NunboxPart b)
  length_nunboxParts : nunboxParts.length < 2 ^ 32
  valueSlots_punbox : b.boxing = .punbox64 → valueSlots = []
  nunboxParts_punbox : b.boxing = .punbox64 → nunboxParts = []

/-- `sizeof(PackedRegisterMask)`. -/
def Build.packedRegisterMaskSize (b : Build) : Nat :=
  match b.arch with
  | .x86 => 1
  | .x64 => 2
  | .arm => 2

/-! ## The writer -/

structure SafepointWriter where
  stream : CompactBuffer
  frameSlots : BitSet

/-- `NunboxPartKind`. -/
abbrev partReg : BitVec 16 := 0#16
abbrev partStack : BitVec 16 := 1#16
abbrev partArg : BitVec 16 := 2#16

abbrev partKindMask : BitVec 16 := 7#16
abbrev partInfoMask : BitVec 16 := 31#16
abbrev maxInfoValue : BitVec 32 := 31#32
abbrev typeKindShift : Nat := 13
abbrev payloadKindShift : Nat := 10
abbrev typeInfoShift : Nat := 5
abbrev payloadInfoShift : Nat := 0

section

variable {b : Build}

/-- `AllocationToPartKind`. -/
def allocationToPartKind : NunboxPart b → BitVec 16
  | .register _ => partReg
  | .stackSlot _ => partStack
  | .argument _ => partArg

/-- `CanEncodeInfoInHeader`, with what it puts out. -/
def canEncodeInfoInHeader : NunboxPart b → Bool × BitVec 32
  | .register reg => (true, BitVec.ofNat 32 reg.val)
  | .stackSlot slot => (slot < maxInfoValue, slot)
  | .argument index => (index < maxInfoValue, index)

/-- The header of an entry. -/
def nunboxHeader (type payload : NunboxPart b) : BitVec 16 :=
  let header := 0#16
  let header := header ||| (allocationToPartKind type <<< typeKindShift)
  let header := header ||| (allocationToPartKind payload <<< payloadKindShift)
  let typeInfo :=
    if (canEncodeInfoInHeader type).1 then (canEncodeInfoInHeader type).2 else maxInfoValue
  let header := header ||| (typeInfo <<< typeInfoShift).setWidth 16
  let payloadInfo :=
    if (canEncodeInfoInHeader payload).1 then (canEncodeInfoInHeader payload).2 else maxInfoValue
  header ||| (payloadInfo <<< payloadInfoShift).setWidth 16

/-- What does not fit in the header. -/
def writeExtra (stream : CompactBuffer) (part : NunboxPart b) : CompactBuffer :=
  if !(canEncodeInfoInHeader part).1 then stream.writeUnsigned (canEncodeInfoInHeader part).2
  else stream

/-- The body of the loop of `writeNunboxParts`. -/
def writeNunboxEntry (stream : CompactBuffer) (entry : NunboxPart b × NunboxPart b) :
    CompactBuffer :=
  let stream := stream.writeFixedUint16 (nunboxHeader entry.1 entry.2)
  let stream := writeExtra stream entry.1
  writeExtra stream entry.2

variable (b)

/-- `WriteRegisterMask`. -/
def writeRegisterMask (stream : CompactBuffer) (bits : BitVec 32) : Option CompactBuffer :=
  if b.packedRegisterMaskSize = 8 then
    if bits ≤ 0xFF#32 then some (stream.writeByte (bits.setWidth 8)) else none
  else some (stream.writeUnsigned bits)

/-- `MapSlotsToBitset`. Slots start at index 1. -/
def mapSlotsToBitset (set : BitSet) (stream : CompactBuffer) (slots : List (BitVec 32)) :
    Option (BitSet × CompactBuffer) := do
  let set ← slots.foldlM (fun set slot => set.insert (slot - 1#32)) set.clear
  some (set, set.words.foldl CompactBuffer.writeUnsigned stream)

namespace SafepointWriter

/-- `init`. -/
def init (slotCount : BitVec 32) : SafepointWriter := ⟨[], BitSet.new slotCount.toNat⟩

/-- `startEntry`. The table is shorter than `2 ^ 32`, as its size is a `uint32`. -/
def startEntry (w : SafepointWriter) : Nat := w.stream.length

def writeOsiCallPointOffset (w : SafepointWriter) (osiCallPointOffset : BitVec 32) :
    SafepointWriter :=
  { w with stream := w.stream.writeUnsigned osiCallPointOffset }

def writeGcRegs (w : SafepointWriter) (gc spilled : BitVec 32) : Option SafepointWriter := do
  let stream ← writeRegisterMask b w.stream spilled
  let stream ← (if spilled ≠ 0#32 then writeRegisterMask b stream gc else some stream)
  if gc &&& ~~~spilled = 0#32 then some { w with stream := stream } else none

def writeSlots (w : SafepointWriter) (slots : List (BitVec 32)) : Option SafepointWriter := do
  let (set, stream) ← mapSlotsToBitset w.frameSlots w.stream slots
  some ⟨stream, set⟩

def writeGcSlots (w : SafepointWriter) (slots : List (BitVec 32)) : Option SafepointWriter :=
  w.writeSlots slots

def writeValueSlots (w : SafepointWriter) (slots : List (BitVec 32)) : Option SafepointWriter :=
  w.writeSlots slots

variable {b}

def writeNunboxParts (w : SafepointWriter) (entries : List (NunboxPart b × NunboxPart b)) :
    SafepointWriter :=
  { w with
    stream := entries.foldl writeNunboxEntry
      (w.stream.writeUnsigned (BitVec.ofNat 32 entries.length)) }

/-- `encodeSafepoint`: the writer and the offset of the entry. -/
def encodeSafepoint (w : SafepointWriter) (safepoint : LSafepoint b) :
    Option (SafepointWriter × Nat) := do
  let safepointOffset := w.startEntry
  let w := w.writeOsiCallPointOffset safepoint.osiCallPointOffset
  let w ← w.writeGcRegs b safepoint.gcRegs safepoint.liveRegs
  let w ← w.writeGcSlots safepoint.gcSlots
  match b.boxing with
  | .nunbox32 =>
    let w ← w.writeValueSlots safepoint.valueSlots
    some (w.writeNunboxParts safepoint.nunboxParts, safepointOffset)
  | .punbox64 => some (w, safepointOffset)

/-- `encodeSafepoints`: the writer and the offsets of the entries. -/
def encodeSafepoints (w : SafepointWriter) :
    List (LSafepoint b) → Option (SafepointWriter × List Nat)
  | [] => some (w, [])
  | safepoint :: rest => do
    let (w, safepointOffset) ← w.encodeSafepoint safepoint
    let (w, offsets) ← w.encodeSafepoints rest
    some (w, safepointOffset :: offsets)

end SafepointWriter

end

/-! ## The reader -/

/-- `SafepointReader`. Before it is set, `nunboxSlotsRemaining_` is not there. -/
structure SafepointReader where
  stream : List Byte
  frameSlots : BitVec 32
  currentSlotChunk : BitVec 32
  currentSlotChunkNumber : Nat
  osiCallPointOffset : BitVec 32
  gcSpills : BitVec 32
  allSpills : BitVec 32
  nunboxSlotsRemaining : Option (BitVec 32)

namespace SafepointReader

/-- What the constructor reads, from the entry on. -/
def readStart (frameSlots : BitVec 32) : Reader Byte (List Byte → SafepointReader) := do
  let osiCallPointOffset ← CompactBuffer.readUnsigned
  let allSpills ← CompactBuffer.readUnsigned
  let gcSpills ← (if allSpills = 0#32 then pure allSpills else CompactBuffer.readUnsigned)
  -- `advanceFromGcRegs`
  let chunk ← CompactBuffer.readUnsigned
  pure fun stream => {
    stream := stream
    frameSlots := frameSlots
    currentSlotChunk := chunk
    currentSlotChunkNumber := 0
    osiCallPointOffset := osiCallPointOffset
    gcSpills := gcSpills
    allSpills := allSpills
    nunboxSlotsRemaining := none }

/-- The constructor. -/
def new (frameSlots : BitVec 32) (stream : List Byte) : Option SafepointReader := do
  let (reader, stream) ← readStart frameSlots stream
  some (reader stream)

/-- `JS_FLOOR_LOG2`. -/
def floorLog2 (n : BitVec 32) : Nat := n.toNat.log2

/-- `getSlotFromBitmap`: a slot, or that there are no more. -/
def getSlotFromBitmap (r : SafepointReader) : Option (Option (BitVec 32) × SafepointReader) :=
  if r.currentSlotChunk = 0#32 then
    let number := r.currentSlotChunkNumber + 1
    if number = rawLengthForBits r.frameSlots.toNat then
      some (none, { r with currentSlotChunkNumber := number })
    else
      match h : CompactBuffer.readUnsigned r.stream with
      | none => none
      | some (chunk, stream) =>
        getSlotFromBitmap
          { r with currentSlotChunkNumber := number, currentSlotChunk := chunk, stream := stream }
  else
    let bit := floorLog2 r.currentSlotChunk
    some (some (BitVec.ofNat 32 (r.currentSlotChunkNumber * 32 + bit + 1)),
      { r with currentSlotChunk := r.currentSlotChunk &&& ~~~(1#32 <<< bit) })
termination_by r.stream.length
decreasing_by exact CompactBuffer.readVariableLength_length h

variable (b : Build)

/-- `advanceFromGcSlots`. -/
def advanceFromGcSlots (r : SafepointReader) : Option SafepointReader :=
  let r := { r with currentSlotChunkNumber := 0 }
  match b.boxing with
  | .nunbox32 => do
    let (chunk, stream) ← CompactBuffer.readUnsigned r.stream
    some { r with currentSlotChunk := chunk, stream := stream }
  | .punbox64 => some r

/-- `advanceFromValueSlots`. -/
def advanceFromValueSlots (r : SafepointReader) : Option SafepointReader :=
  match b.boxing with
  | .nunbox32 => do
    let (remaining, stream) ← CompactBuffer.readUnsigned r.stream
    some { r with nunboxSlotsRemaining := some remaining, stream := stream }
  | .punbox64 => some { r with nunboxSlotsRemaining := some 0#32 }

def getGcSlot (r : SafepointReader) : Option (Option (BitVec 32) × SafepointReader) := do
  let (slot, r) ← r.getSlotFromBitmap
  match slot with
  | some slot => some (some slot, r)
  | none => do
    let r ← r.advanceFromGcSlots b
    some (none, r)

def getValueSlot (r : SafepointReader) : Option (Option (BitVec 32) × SafepointReader) :=
  match b.boxing with
  | .nunbox32 => do
    let (slot, r) ← r.getSlotFromBitmap
    match slot with
    | some slot => some (some slot, r)
    | none => do
      let r ← r.advanceFromValueSlots b
      some (none, r)
  | .punbox64 => some (none, r)

/-- `PartFromStream`. -/
def partFromStream (kind : BitVec 16) (info : BitVec 16) : Reader Byte (NunboxPart b) :=
  if kind = partReg then
    Reader.ofOption
      (if h : info.toNat < b.registersTotal then some (.register ⟨info.toNat, h⟩) else none)
  else do
    let info ←
      (if info.setWidth 32 = maxInfoValue then CompactBuffer.readUnsigned
      else pure (info.setWidth 32))
    if kind = partStack then pure (.stackSlot info)
    else if kind = partArg then pure (.argument info)
    else Reader.ofOption none

/-- What `getNunboxSlot` reads of an entry. -/
def readNunboxEntry : Reader Byte (NunboxPart b × NunboxPart b) := do
  let header ← CompactBuffer.readFixedUint16
  let typeKind := (header >>> typeKindShift) &&& partKindMask
  let payloadKind := (header >>> payloadKindShift) &&& partKindMask
  let typeInfo := (header >>> typeInfoShift) &&& partInfoMask
  let payloadInfo := (header >>> payloadInfoShift) &&& partInfoMask
  let type ← partFromStream b typeKind typeInfo
  let payload ← partFromStream b payloadKind payloadInfo
  pure (type, payload)

def getNunboxSlot (r : SafepointReader) :
    Option (Option (NunboxPart b × NunboxPart b) × SafepointReader) := do
  let remaining ← r.nunboxSlotsRemaining
  let r := { r with nunboxSlotsRemaining := some (remaining - 1#32) }
  if remaining = 0#32 then some (none, r)
  else do
    let (entry, stream) ← readNunboxEntry b r.stream
    some (some entry, { r with stream := stream })

end SafepointReader

end SpiderMonkey.Ion
