import SpiderMonkey.Frontend.SourceNotesRuns

/-! # Final source notes

`FinishTakingSrcNotes` and `AddToSrcNoteDelta` (`frontend/BytecodeEmitter.cpp`), with the count of
`countFinalSourceNotes` (`frontend/BytecodeEmitter.h`). A failed assertion and a reported error have
no result.
-/

namespace SpiderMonkey.Frontend

open Lib SrcNoteType EmitSection

abbrev snXDeltaLimit : Nat := 1 <<< snXDeltaBits

/-- `SN_SET_DELTA` -/
def snSetDelta (sn : Byte) (delta : Nat) : Option Byte :=
  if snIsXDelta sn then some (snMakeXDelta delta)
  else (snType? sn).map fun type => snMakeNote type delta

/-- The delta that a note has still room for. -/
def spareDelta (sn : Byte) : Nat :=
  if snIsXDelta sn then snXDeltaMask - (sn.toNat &&& snXDeltaMask)
  else snDeltaMask - (sn.toNat &&& snDeltaMask)

/-! ## The notes of a section -/

/-- `NewSrcNote2` -/
def newSrcNote2 (e : Emitted) (offset : Nat) (type : SrcNoteType) (value : Nat) :
    Option Emitted := do
  let e' ← e.step (.newSrcNote type offset)
  if snMaxOffset < value then none
  e'.step (.setSrcNoteOffset e.notes.length 0 value)

/-- Several `SRC_NEWLINE` notes. -/
def newLines (offset : Nat) : Nat → Emitted → Option Emitted
  | 0, e => some e
  | delta + 1, e => do
    let e ← e.step (.newSrcNote srcNewline offset)
    newLines offset delta e

/-- `UpdateLineNumberNotes`, but for the current line, which becomes `line`. -/
def updateLineNumberNotes (e : Emitted) (currentLine : UInt32) (offset : Nat) (line : UInt32) :
    Option Emitted :=
  let delta := line - currentLine
  if delta = 0 then some e
  else if 2 + (if 127 < line then 2 else 0) ≤ delta then
    newSrcNote2 e offset srcSetLine line.toNat
  else newLines offset delta.toNat e

/-- What the emitter builds in a section: its notes, its current line and the offset of the next
bytecode. The current line is assigned without a note in the main section only. -/
inductive SectionBuilt (main : Bool) (firstLine : UInt32) : Emitted → UInt32 → Nat → Prop
  | start : SectionBuilt main firstLine .new firstLine 0
  | emit {e line offset} (n : Nat) (h : SectionBuilt main firstLine e line offset) :
      SectionBuilt main firstLine e line (offset + n)
  | newSrcNote {e e' line offset type} (h : SectionBuilt main firstLine e line offset)
      (hnull : type ≠ srcNull) (hxdelta : type ≠ srcXDelta)
      (hstep : e.step (.newSrcNote type offset) = some e') :
      SectionBuilt main firstLine e' line offset
  | setSrcNoteOffset {e e' line offset note which value}
      (h : SectionBuilt main firstLine e line offset)
      (hallowed : NoteAllowed e (.setSrcNoteOffset note which value))
      (hstep : e.step (.setSrcNoteOffset note which value) = some e') :
      SectionBuilt main firstLine e' line offset
  | updateLine {e e' line offset} (line' : UInt32) (h : SectionBuilt main firstLine e line offset)
      (hstep : updateLineNumberNotes e line offset line' = some e') :
      SectionBuilt main firstLine e' line' offset
  | assignLine {e line offset} (line' : UInt32) (h : SectionBuilt main firstLine e line offset)
      (hmain : main = true) : SectionBuilt main firstLine e line' offset

/-! ## The end -/

/-- `AddToSrcNoteDelta` -/
def EmitSection.addToSrcNoteDelta (s : EmitSection) (sn delta : Nat) : Option EmitSection :=
  if snXDeltaLimit ≤ delta then none
  else do
    let b ← s.notes[sn]?
    let limit := if snIsXDelta b then snXDeltaLimit else snDeltaLimit
    let newdelta := snDelta b + delta
    if newdelta < limit then
      let b ← snSetDelta b newdelta
      return { s with notes := s.notes.set sn b }
    else
      let s := if s.noteCount = s.noteLimit then s.growSrcNotes else s
      return { s with notes := s.notes.take sn ++ snMakeXDelta delta :: s.notes.drop sn }

/-- The loop of `FinishTakingSrcNotes`. -/
def deltaLoop : (fuel : Nat) → EmitSection → (offset delta : Nat) → Option EmitSection
  | 0, _, _, _ => none
  | fuel + 1, main, offset, delta => do
    let main ← main.addToSrcNoteDelta 0 delta
    let offset := offset - delta
    if offset = 0 then return main
    else deltaLoop fuel main offset (min offset snXDeltaMask)

variable (prolog main : EmitSection) (currentLine firstLine : UInt32) (prologOffset : Nat)

/-- The main notes, adjusted for the prolog bytecodes behind the last annotated one. -/
def adjustMain : Option EmitSection :=
  if prologOffset < prolog.lastNoteOffset then none
  else
    let offset := prologOffset - prolog.lastNoteOffset
    if 0 < offset ∧ main.noteCount ≠ 0 then do
      let sn ← main.notes[0]?
      deltaLoop (offset + 2) main offset (min offset (spareDelta sn))
    else some main

/-- `FinishTakingSrcNotes`: what is written; the current line is that of the prolog. -/
def finishTakingSrcNotes : Option (List Byte) :=
  if prolog.noteCount ≠ 0 ∧ currentLine ≠ firstLine then do
    let (index, prolog) := prolog.newSrcNote prologOffset srcSetLine
    let (ok, prolog) ← prolog.setSrcNoteOffset index 0 firstLine.toNat
    if ok then return prolog.notes ++ main.notes ++ [snTerminator] else none
  else do
    let main ← adjustMain prolog main prologOffset
    return prolog.notes ++ main.notes ++ [snTerminator]

/-- `JS_HOWMANY` -/
def howMany (x y : Int) : Int := (x + y - 1) / y

/-- `countFinalSourceNotes` -/
def countFinalSourceNotes : Int :=
  let diff : Int := (prologOffset : Int) - prolog.lastNoteOffset
  let cnt : Int := prolog.noteCount + main.noteCount + 1
  if prolog.noteCount ≠ 0 ∧ currentLine ≠ firstLine then
    let cnt := if snDeltaMask < diff then cnt + howMany (diff - snDeltaMask) snXDeltaMask else cnt
    cnt + (2 + if sn3ByteOffsetMask < firstLine.toNat then 2 else 0)
  else if 0 < diff then
    let diff :=
      match main.notes with
      | [] => diff
      | sn :: _ => diff - spareDelta sn
    if 0 < diff then cnt + howMany diff snXDeltaMask else cnt
  else cnt

end SpiderMonkey.Frontend
