import SpiderMonkey.Frontend.FinalNotes

/-! # Line numbers

`PCToLineNumber` and `js_LineNumberToPC` (`jsscript.cpp`) over the notes of a script, and the line
updates of `frontend/BytecodeEmitter.cpp` together with the bytecodes that are emitted between them.
-/

namespace SpiderMonkey.Frontend

open Lib SrcNoteType EmitSection

/-! ## Reading -/

/-- The line behind a note, from its first byte on. -/
def noteLine (lineno : UInt32) (type : SrcNoteType) (sn : List Byte) : Option UInt32 :=
  match type with
  | srcSetLine => (getSrcNoteOffset sn 0).map UInt32.ofNat
  | srcNewline => some (lineno + 1)
  | _ => some lineno

/-- The loop of `PCToLineNumber`; none if it reads past the end. -/
def pcToLineLoop (target : Nat) : Nat → Nat → UInt32 → List Byte → Option UInt32
  | 0, _, _, _ => none
  | _ + 1, _, _, [] => none
  | fuel + 1, offset, lineno, sn :: rest =>
    if sn = snTerminator then some lineno
    else do
      let offset := offset + snDelta sn
      let type ← snType? sn
      -- a note behind the bytecode is not read, and is the last
      if target < offset then some lineno
      else do
        let lineno ← noteLine lineno type (sn :: rest)
        let length ← snLength (sn :: rest)
        pcToLineLoop target fuel offset lineno ((sn :: rest).drop length)

def pcToLineNumber (startLine : UInt32) (notes : List Byte) (pc : Nat) : Option UInt32 :=
  pcToLineLoop pc notes.length 0 startLine notes

abbrev snLineLimit : UInt32 := (0x80 : UInt32) <<< 16

/-- The loop of `js_LineNumberToPC`. -/
def lineToPcLoop (target : UInt32) (mainOffset : Nat) :
    Nat → Nat → UInt32 → Option Nat → UInt32 → List Byte → Option Nat
  | 0, _, _, _, _, _ => none
  | _ + 1, _, _, _, _, [] => none
  | fuel + 1, offset, lineno, best, bestdiff, sn :: rest =>
    if sn = snTerminator then some (best.getD offset)
    else if lineno = target ∧ mainOffset ≤ offset then some offset
    else do
      let nearer : Bool := target ≤ lineno ∧ lineno - target < bestdiff
      let type ← snType? sn
      let lineno' ← noteLine lineno type (sn :: rest)
      let length ← snLength (sn :: rest)
      lineToPcLoop target mainOffset fuel (offset + snDelta sn) lineno'
        (if nearer then some offset else best) (if nearer then lineno - target else bestdiff)
        ((sn :: rest).drop length)

/-- `js_LineNumberToPC` -/
def lineNumberToPc (startLine : UInt32) (notes : List Byte) (mainOffset : Nat) (target : UInt32) :
    Option Nat :=
  lineToPcLoop target mainOffset notes.length 0 startLine none snLineLimit notes

/-- All notes, the extended deltas too. -/
def walkAll : Nat → Nat → List Byte → Option (List SrcNote × List Byte)
  | 0, _, _ => none
  | _ + 1, _, [] => none
  | fuel + 1, offset, sn :: rest =>
    if sn = snTerminator then some ([], sn :: rest)
    else do
      let offset := offset + snDelta sn
      let type ← snType? sn
      let length ← snLength (sn :: rest)
      let operands ← (List.range type.arity).mapM (getSrcNoteOffset (sn :: rest))
      let (notes, last) ← walkAll fuel offset ((sn :: rest).drop length)
      some (⟨type, offset, operands⟩ :: notes, last)

/-- A script with notes that end in a terminator; `length` is that of its bytecode. -/
structure NotedScript where
  lineno : UInt32
  notes : List Byte
  mainOffset : Nat
  length : Nat
  items : List SrcNote
  walks : walkAll notes.length 0 notes = some (items, [snTerminator])

/-! ## Writing -/

/-- A section of bytecode: its notes, its current line, the offset of the next bytecode, and the
bytecodes with the lines that were current. Notes of other types are written in between. -/
inductive LineRuns (firstLine : UInt32) :
    Emitted → UInt32 → Nat → List (Nat × UInt32) → Prop
  | start : LineRuns firstLine .new firstLine 0 []
  | emit {e line offset code} (n : Nat) (h : LineRuns firstLine e line offset code) (hn : 0 < n) :
      LineRuns firstLine e line (offset + n) (code ++ [(offset, line)])
  | updateLine {e e' line offset code} (line' : UInt32) (h : LineRuns firstLine e line offset code)
      (hstep : updateLineNumberNotes e line offset line' = some e') :
      LineRuns firstLine e' line' offset code
  | newSrcNote {e e' line offset code type} (h : LineRuns firstLine e line offset code)
      (hnull : type ≠ srcNull) (hxdelta : type ≠ srcXDelta) (hsetLine : type ≠ srcSetLine)
      (hnewline : type ≠ srcNewline) (hstep : e.step (.newSrcNote type offset) = some e') :
      LineRuns firstLine e' line offset code
  | setSrcNoteOffset {e e' line offset code note which value}
      (h : LineRuns firstLine e line offset code)
      (hallowed : NoteAllowed e (.setSrcNoteOffset note which value))
      (hsetLine : ∀ n, e.notes[note]? = some n → n.type ≠ srcSetLine)
      (hstep : e.step (.setSrcNoteOffset note which value) = some e') :
      LineRuns firstLine e' line offset code

/-! ## The stretches of a line -/

/-- The line behind a note. -/
def SrcNote.line (n : SrcNote) (lineno : UInt32) : UInt32 :=
  match n.type with
  | srcSetLine => UInt32.ofNat (n.operands.headD 0)
  | srcNewline => lineno + 1
  | _ => lineno

/-- The line at an offset. -/
def lineAt (pc : Nat) (notes : List SrcNote) (lineno : UInt32) : UInt32 :=
  notes.foldl (fun lineno n => if n.offset ≤ pc then n.line lineno else lineno) lineno

/-- The stretches before each of the notes, where they begin and with their lines. -/
def stretches : Nat → UInt32 → List SrcNote → List (Nat × UInt32)
  | _, _, [] => []
  | offset, lineno, n :: rest => (offset, lineno) :: stretches n.offset (n.line lineno) rest

/-- Where the stretch behind the last note begins. -/
def lastStart (offset : Nat) (notes : List SrcNote) : Nat :=
  (notes.getLast?.map SrcNote.offset).getD offset

/-- The first of the stretches that begins in the main code and has the line. -/
def exactStretch (target : UInt32) (mainOffset : Nat) (cs : List (Nat × UInt32)) :
    Option (Nat × UInt32) :=
  cs.find? fun c => c.2 = target ∧ mainOffset ≤ c.1

/-- The first of the stretches with the nearest line from the target on. -/
def nearestStretch (target : UInt32) (cs : List (Nat × UInt32)) : Option (Nat × UInt32) :=
  (cs.filter fun c => target ≤ c.2 ∧ c.2 - target < snLineLimit).argmin fun c =>
    (c.2 - target).toNat

namespace NotedScript

variable (s : NotedScript)

/-- The line at an offset, from the notes at or before it. -/
def lineOf (pc : Nat) : UInt32 := lineAt pc s.items s.lineno

/-- Of the stretches before a note, the one for a line. -/
def stretchFor (target : UInt32) : Option (Nat × UInt32) :=
  (exactStretch target s.mainOffset (stretches 0 s.lineno s.items)).or
    (nearestStretch target (stretches 0 s.lineno s.items))

end NotedScript

end SpiderMonkey.Frontend
