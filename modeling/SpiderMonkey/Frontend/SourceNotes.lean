import SpiderMonkey.Lib.Codec

/-! # Source notes

The notes on the bytecode of a script, as `BytecodeEmitter.cpp` writes them: one byte with the type
and the distance from the bytecode of the note before, then the operands, each of one byte or of
three. A greater distance takes extended notes before it.
-/

namespace SpiderMonkey.Frontend

open Lib

/-- The types of notes, of which 21 is not used. -/
inductive SrcNoteType where
  | srcNull
  | srcIf
  | srcIfElse
  | srcFor
  | srcWhile
  | srcContinue
  | srcDecl
  | srcPcDelta
  | srcAssignOp
  | srcCond
  | srcBrace
  | srcHidden
  | srcPcBase
  | srcLabel
  | srcLabelBrace
  | srcEndBrace
  | srcBreak2Label
  | srcCont2Label
  | srcSwitch
  | srcFuncDef
  | srcCatch
  | srcNewline
  | srcSetLine
  | srcXDelta
deriving DecidableEq, Repr

namespace SrcNoteType

def code : SrcNoteType → Nat
  | srcNull => 0
  | srcIf => 1
  | srcIfElse => 2
  | srcFor => 3
  | srcWhile => 4
  | srcContinue => 5
  | srcDecl => 6
  | srcPcDelta => 7
  | srcAssignOp => 8
  | srcCond => 9
  | srcBrace => 10
  | srcHidden => 11
  | srcPcBase => 12
  | srcLabel => 13
  | srcLabelBrace => 14
  | srcEndBrace => 15
  | srcBreak2Label => 16
  | srcCont2Label => 17
  | srcSwitch => 18
  | srcFuncDef => 19
  | srcCatch => 20
  | srcNewline => 22
  | srcSetLine => 23
  | srcXDelta => 24

/-- All of them. -/
def all : List SrcNoteType :=
  [srcNull, srcIf, srcIfElse, srcFor, srcWhile, srcContinue, srcDecl, srcPcDelta, srcAssignOp,
    srcCond, srcBrace, srcHidden, srcPcBase, srcLabel, srcLabelBrace, srcEndBrace, srcBreak2Label,
    srcCont2Label, srcSwitch, srcFuncDef, srcCatch, srcNewline, srcSetLine, srcXDelta]

def ofCode? (n : Nat) : Option SrcNoteType := all.find? fun t => t.code = n

/-- The arity in `js_SrcNoteSpec`. -/
def arity : SrcNoteType → Nat
  | srcNull => 0
  | srcIf => 0
  | srcIfElse => 2
  | srcFor => 3
  | srcWhile => 1
  | srcContinue => 0
  | srcDecl => 1
  | srcPcDelta => 1
  | srcAssignOp => 0
  | srcCond => 1
  | srcBrace => 1
  | srcHidden => 0
  | srcPcBase => 1
  | srcLabel => 1
  | srcLabelBrace => 1
  | srcEndBrace => 0
  | srcBreak2Label => 1
  | srcCont2Label => 1
  | srcSwitch => 2
  | srcFuncDef => 1
  | srcCatch => 1
  | srcNewline => 0
  | srcSetLine => 1
  | srcXDelta => 0

end SrcNoteType

open SrcNoteType

/-! ## The bytes of a note -/

abbrev snDeltaBits : Nat := 3
abbrev snXDeltaBits : Nat := 6
abbrev snDeltaMask : Nat := 2 ^ snDeltaBits - 1
abbrev snXDeltaMask : Nat := 2 ^ snXDeltaBits - 1
abbrev snDeltaLimit : Nat := 1 <<< snDeltaBits

def snMakeNote (t : SrcNoteType) (d : Nat) : Byte :=
  BitVec.ofNat 8 ((t.code <<< snDeltaBits) ||| (d &&& snDeltaMask))

def snMakeXDelta (d : Nat) : Byte :=
  BitVec.ofNat 8 ((srcXDelta.code <<< snDeltaBits) ||| (d &&& snXDeltaMask))

def snIsXDelta (sn : Byte) : Bool := srcXDelta.code ≤ sn.toNat >>> snDeltaBits

def snType? (sn : Byte) : Option SrcNoteType :=
  if snIsXDelta sn then some srcXDelta else ofCode? (sn.toNat >>> snDeltaBits)

def snDelta (sn : Byte) : Nat :=
  if snIsXDelta sn then sn.toNat &&& snXDeltaMask else sn.toNat &&& snDeltaMask

abbrev sn3ByteOffsetFlag : Nat := 0x80
abbrev sn3ByteOffsetMask : Nat := 0x7f
abbrev snMaxOffset : Nat := (0x80 <<< 16) - 1

/-- The test of the flag. -/
def has3ByteFlag (sn : Byte) : Bool := sn.toNat &&& sn3ByteOffsetFlag ≠ 0

abbrev snTerminator : Byte := 0#8

/-! ## Reading -/

/-- The loop of `js_SrcNoteLength`. -/
def lengthLoop : Nat → List Byte → Option Nat
  | 0, _ => some 0
  | _ + 1, [] => none
  | arity + 1, sn :: rest =>
    if has3ByteFlag sn then (lengthLoop arity (rest.drop 2)).map (· + 3)
    else (lengthLoop arity rest).map (· + 1)

/-- `SN_LENGTH`, from the note on; none if it is read past the end. -/
def snLength : List Byte → Option Nat
  | [] => none
  | sn :: rest => do
    let type ← snType? sn
    (lengthLoop type.arity rest).map (· + 1)

/-- The value of an operand. -/
def readOffset : List Byte → Option Nat
  | [] => none
  | sn :: rest =>
    if has3ByteFlag sn then
      match rest with
      | sn1 :: sn2 :: _ =>
        some (((sn.toNat &&& sn3ByteOffsetMask) <<< 16) ||| (sn1.toNat <<< 8) ||| sn2.toNat)
      | _ => none
    else some sn.toNat

/-- The loop of `js_GetSrcNoteOffset`, and what it comes to. -/
def offsetLoop : Nat → List Byte → Option Nat
  | 0, sn => readOffset sn
  | _ + 1, [] => none
  | which + 1, sn :: rest =>
    if has3ByteFlag sn then offsetLoop which (rest.drop 2) else offsetLoop which rest

def getSrcNoteOffset (sn : List Byte) (which : Nat) : Option Nat := offsetLoop which sn.tail

/-- A note, with the offset of its bytecode. -/
structure SrcNote where
  type : SrcNoteType
  offset : Nat
  operands : List Nat
deriving DecidableEq

/-- The walk with `SN_NEXT` until the terminator, adding up the deltas: the notes, but for the
extended deltas, and where it ends. -/
def walk : Nat → Nat → List Byte → Option (List SrcNote × List Byte)
  | 0, _, _ => none
  | _ + 1, _, [] => none
  | fuel + 1, offset, sn :: rest =>
    if sn = snTerminator then some ([], sn :: rest)
    else do
      let offset := offset + snDelta sn
      let type ← snType? sn
      let length ← snLength (sn :: rest)
      let operands ← (List.range type.arity).mapM (getSrcNoteOffset (sn :: rest))
      let (notes, last) ← walk fuel offset ((sn :: rest).drop length)
      if type = srcXDelta then some (notes, last) else some (⟨type, offset, operands⟩ :: notes, last)

/-! ## Writing -/

abbrev srcNoteChunkLength : Nat := 1024

/-- The notes of a section of bytecode. -/
structure EmitSection where
  notes : List Byte
  noteLimit : Nat
  lastNoteOffset : Nat

namespace EmitSection

def new : EmitSection := ⟨[], 0, 0⟩

variable (s : EmitSection)

def noteCount : Nat := s.notes.length

/-- `AllocSrcNote`, with the note that is then written there. -/
def allocSrcNote (sn : Byte) : EmitSection :=
  { s with
    notes := s.notes ++ [sn]
    noteLimit :=
      if s.noteCount = s.noteLimit then
        if s.noteLimit = 0 then srcNoteChunkLength else s.noteLimit * 2
      else s.noteLimit }

/-- The loop of `NewSrcNote`, and the delta that is left. -/
def xdeltaLoop (s : EmitSection) (delta : Nat) : EmitSection × Nat :=
  if snDeltaLimit ≤ delta then
    let xdelta := min delta snXDeltaMask
    xdeltaLoop (s.allocSrcNote (snMakeXDelta xdelta)) (delta - xdelta)
  else (s, delta)
termination_by delta
decreasing_by
  simp only [snDeltaLimit, snDeltaBits, snXDeltaMask, snXDeltaBits] at *
  omega

/-- `NewSrcNote` without the operands, at an offset in the bytecode. -/
def newSrcNoteByte (offset : Nat) (type : SrcNoteType) : Nat × EmitSection :=
  let delta := offset - s.lastNoteOffset
  let (s, delta) := xdeltaLoop { s with lastNoteOffset := offset } delta
  (s.noteCount, s.allocSrcNote (snMakeNote type delta))

/-- `NewSrcNote`; an operand is a note of the type `SRC_NULL` to begin with. -/
def newSrcNote (offset : Nat) (type : SrcNoteType) : Nat × EmitSection :=
  let (index, s) := s.newSrcNoteByte offset type
  (index, Nat.iterate (fun s => (newSrcNoteByte s offset srcNull).2) type.arity s)

def growSrcNotes : EmitSection := { s with noteLimit := s.noteLimit * 2 }

/-- The loop of `SetSrcNoteOffset`. -/
def skipOffsets (notes : List Byte) : Nat → Nat → Option Nat
  | 0, sn => some sn
  | which + 1, sn => do
    let b ← notes[sn]?
    skipOffsets notes which (if has3ByteFlag b then sn + 3 else sn + 1)

/-- Two more bytes for an operand. -/
def widen (sn : Nat) : EmitSection :=
  let s := if s.noteLimit ≤ s.noteCount + 1 then s.growSrcNotes else s
  -- the two bytes in between are written next
  { s with notes := s.notes.take (sn + 1) ++ [0#8, 0#8] ++ s.notes.drop (sn + 1) }

/-- `SetSrcNoteOffset`, and whether the offset is not too large. -/
def setSrcNoteOffset (index which offset : Nat) : Option (Bool × EmitSection) :=
  if snMaxOffset < offset then some (false, s)
  else do
    let sn ← skipOffsets s.notes which (index + 1)
    let b ← s.notes[sn]?
    if sn3ByteOffsetMask < offset || has3ByteFlag b then
      let s := if !has3ByteFlag b then s.widen sn else s
      some (true, { s with
        notes := ((s.notes.set sn (BitVec.ofNat 8 (sn3ByteOffsetFlag ||| (offset >>> 16)))).set
          (sn + 1) (BitVec.ofNat 8 (offset >>> 8))).set (sn + 2) (BitVec.ofNat 8 offset) })
    else some (true, { s with notes := s.notes.set sn (BitVec.ofNat 8 offset) })

end EmitSection

end SpiderMonkey.Frontend
