import SpiderMonkey.Vm.Xdr

/-! # Scripts and their encoding

`Bindings::add` and `XDRScript` of `jsscript.cpp`. The source has one function for encoding
and decoding, templated by the mode. Atoms, nested functions, block objects, regexps and the
source text have codecs of their own.
-/

namespace SpiderMonkey

open Lib Xdr

/-- `BindingKind`. -/
inductive BindingKind where
  | argument
  | var
  | constant
deriving DecidableEq

/-- `Binding`: a destructuring formal has no name. -/
structure Binding (A : Type) where
  maybeName : Option A
  kind : BindingKind
deriving DecidableEq

/-- The property id of a binding. -/
inductive BindingId (A : Type) where
  | int (n : Nat)
  | atom (name : A)
deriving DecidableEq

/-- A shape of the lineage that holds the bindings. -/
structure BindingShape (A : Type) where
  id : BindingId A
  slot : Nat
  writable : Bool
  shortid : Nat
deriving DecidableEq

/-- `Bindings`. The shapes are the lineage of `lastBinding`, the last one first. -/
structure Bindings (A : Type) where
  nargs : Nat
  nvars : Nat
  shapes : List (BindingShape A)
deriving DecidableEq

/-- `CallObject::RESERVED_SLOTS`. -/
def callObjectReservedSlots : Nat := 2

def bindingCountLimit : Nat := 0xFFFF

namespace Bindings

variable {A : Type}

def empty : Bindings A := ⟨0, 0, []⟩

/-- `Bindings::add`. -/
def add (b : Bindings A) (name : Option A) (kind : BindingKind) : Option (Bindings A) := do
  guard (b.nargs + b.nvars ≠ bindingCountLimit)
  match kind with
  | .argument =>
    guard (b.nvars = 0)
    let id := match name with
      | none => BindingId.int b.nargs
      | some name => .atom name
    some {
      nargs := b.nargs + 1
      nvars := b.nvars
      shapes := ⟨id, callObjectReservedSlots + b.nargs, true, b.nargs⟩ :: b.shapes }
  | kind =>
    let name ← name
    some {
      nargs := b.nargs
      nvars := b.nvars + 1
      shapes := ⟨.atom name, callObjectReservedSlots + (b.nargs + b.nvars),
        decide (kind ≠ .constant), b.nvars⟩ :: b.shapes }

/-- `BindingIter::settle`, at one shape. -/
def settle (b : Bindings A) (shape : BindingShape A) : Binding A where
  maybeName := match shape.id with
    | .int _ => none
    | .atom name => some name
  kind := if shape.slot - callObjectReservedSlots < b.nargs then .argument
    else if shape.writable then .var else .constant

/-- `GetOrderedBindings`. -/
def getOrderedBindings (b : Bindings A) : List (Binding A) := (b.shapes.map b.settle).reverse

end Bindings

/-- `JSTryNote`. -/
structure TryNote where
  kind : BitVec 8
  stackDepth : BitVec 16
  start : BitVec 32
  length : BitVec 32
deriving DecidableEq

/-- A constant of a script: any primitive value. A double is its bits. -/
inductive ScriptConst (A : Type) where
  | int32 (i : BitVec 32)
  | double (bits : BitVec 64)
  | atom (a : A)
  | true
  | false
  | null
  | undefined
deriving DecidableEq

/-- A nested function or block, with the index of the block around it, if it is in one. -/
inductive ScriptObject (F B : Type) where
  | function (enclosing : Option Nat) (f : F)
  | block (enclosing : Option Nat) (block : B)
deriving DecidableEq

/-- `ScriptSource`, known by an identity, with its data if it has any. -/
structure ScriptSource (S : Type) where
  id : Nat
  data : Option S
deriving DecidableEq

/-- What an encoded script has of a `JSScript`. -/
structure Script (A F B R S : Type) where
  bindings : Bindings A
  code : List Byte
  mainOffset : BitVec 32
  version : BitVec 16
  nfixed : BitVec 16
  nslots : BitVec 16
  staticLevel : BitVec 16
  lineno : BitVec 32
  sourceStart : BitVec 32
  sourceEnd : BitVec 32
  nTypeSets : BitVec 16
  notes : List Byte
  atoms : List A
  objects : List (ScriptObject F B)
  regexps : List R
  closedArgs : List (BitVec 32)
  closedVars : List (BitVec 32)
  trynotes : List TryNote
  consts : List (ScriptConst A)
  noScriptRval : Bool
  savedCallerFun : Bool
  strictModeCode : Bool
  explicitUseStrict : Bool
  bindingsAccessedDynamically : Bool
  funHasExtensibleScope : Bool
  isGenerator : Bool
  isGeneratorExp : Bool
  argsHasVarBinding : Bool
  needsArgsAnalysis : Bool
  needsArgsObj : Bool
  filename : Option CString
  scriptSource : ScriptSource S

/-- What is coded elsewhere. -/
structure ScriptCodecs (A F B R S : Type) where
  atom : Codec Byte A
  function : Codec Byte F
  block : Codec Byte B
  regexp : Codec Byte R
  sourceData : Codec Byte S

/-- The enclosing script, if there is one. Filenames are interned, so that equal ones are one. -/
structure EnclosingScript (S : Type) where
  filename : Option CString
  scriptSource : ScriptSource S

namespace Script

variable {A F B R S : Type}

/-- `analyzedArgsUsage() && needsArgsObj()`. -/
def knownToNeedArgsObj (s : Script A F B R S) : Bool := !s.needsArgsAnalysis && s.needsArgsObj

/-- `setArgumentsHasVarBinding`. -/
def setArgumentsHasVarBinding (s : Script A F B R S) : Script A F B R S :=
  { s with argsHasVarBinding := true, needsArgsAnalysis := true }

/-- `setNeedsArgsObj`. -/
def setNeedsArgsObj (s : Script A F B R S) (needsArgsObj : Bool) : Option (Script A F B R S) := do
  guard s.needsArgsAnalysis
  guard (needsArgsObj → s.argsHasVarBinding)
  pure { s with needsArgsAnalysis := false, needsArgsObj := needsArgsObj }

end Script

/-! ## The bitmap of names -/

/-- `bitmap[i >> 5] |= JS_BIT(i & 31)`. -/
def setBitmapBit (bitmap : List (BitVec 32)) (i : Nat) : List (BitVec 32) :=
  bitmap.modify (i / 32) fun word => word ||| (1#32 <<< (i % 32))

/-- `bitmap[i >> 5] & JS_BIT(i & 31)`. -/
def bitmapBit (bitmap : List (BitVec 32)) (i : Nat) : Bool :=
  bitmap.getD (i / 32) 0#32 &&& (1#32 <<< (i % 32)) ≠ 0#32

/-- `JS_HOWMANY(nameCount, JS_BITS_PER_UINT32)`. -/
def bitmapLength (nameCount : Nat) : Nat := (nameCount + 31) / 32

section Names

variable {A : Type}

/-- The bitmap of the encoder. The comment in the source also wants the bit of a variable
that is declared as `const`. -/
def makeBitmap (nargs : Nat) (names : List (Binding A)) : List (BitVec 32) :=
  names.zipIdx.foldl
    (fun bitmap p => if p.2 < nargs ∧ p.1.maybeName.isSome then setBitmapBit bitmap p.2 else bitmap)
    (List.replicate (bitmapLength names.length) 0#32)

/-- The names from index `i` on. -/
def encodeNames (atom : Codec Byte A) (nargs : Nat) (bitmap : List (BitVec 32)) :
    Nat → List (Binding A) → Option (List Byte)
  | _, [] => some []
  | i, binding :: names =>
    if i < nargs ∧ ¬ bitmapBit bitmap i then encodeNames atom nargs bitmap (i + 1) names
    else do
      let name ← binding.maybeName
      let bytes ← encodeNames atom nargs bitmap (i + 1) names
      some (atom.encode name ++ bytes)

/-- The bindings from index `i` on, `n` of them. -/
def decodeNames (atom : Codec Byte A) (nargs : Nat) (bitmap : List (BitVec 32)) :
    Nat → Nat → Bindings A → Reader Byte (Bindings A)
  | _, 0, bindings => pure bindings
  | i, n + 1, bindings =>
    if i < nargs ∧ ¬ bitmapBit bitmap i then do
      let bindings ← Reader.ofOption (bindings.add none .argument)
      decodeNames atom nargs bitmap (i + 1) n bindings
    else do
      let name ← atom.decode
      let kind := if i < nargs then BindingKind.argument
        else if bitmapBit bitmap i then .constant
        else .var
      let bindings ← Reader.ofOption (bindings.add (some name) kind)
      decodeNames atom nargs bitmap (i + 1) n bindings

/-- `nargs`, `nvars` and the names. -/
def encodeBindings (atom : Codec Byte A) (bindings : Bindings A) : Option (List Byte) := do
  let nargs := BitVec.ofNat 16 bindings.nargs
  let nvars := BitVec.ofNat 16 bindings.nvars
  let argsVars := (nargs.setWidth 32 <<< 16) ||| nvars.setWidth 32
  if nargs.toNat + nvars.toNat > 0 then
    let names := bindings.getOrderedBindings
    let bitmap := makeBitmap bindings.nargs names
    let bytes ← encodeNames atom nargs.toNat bitmap 0 names
    some (encodeUint32 argsVars ++ (bitmap.flatMap encodeUint32 ++ bytes))
  else some (encodeUint32 argsVars)

def decodeBindings (atom : Codec Byte A) : Reader Byte (Bindings A) := do
  let argsVars ← decodeUint32
  let nargs := ((argsVars >>> 16).setWidth 16).toNat
  let nvars := (argsVars.setWidth 16).toNat
  if nargs + nvars > 0 then do
    let bitmap ← decodeUint32.times (bitmapLength (nargs + nvars))
    decodeNames atom nargs bitmap 0 (nargs + nvars) Bindings.empty
  else pure Bindings.empty

end Names

/-! ## The parts of a script -/

/-- `XDRScriptConst`. -/
def encodeScriptConst {A : Type} (atom : Codec Byte A) : ScriptConst A → List Byte
  | .int32 i => encodeUint32 0 ++ encodeUint32 i
  | .double bits => encodeUint32 1 ++ encodeUint64 bits
  | .atom a => encodeUint32 2 ++ atom.encode a
  | .true => encodeUint32 3
  | .false => encodeUint32 4
  | .null => encodeUint32 5
  | .undefined => encodeUint32 6

def decodeScriptConst {A : Type} (atom : Codec Byte A) : Reader Byte (ScriptConst A) := do
  let tag ← decodeUint32
  match tag.toNat with
  | 0 => ScriptConst.int32 <$> decodeUint32
  | 1 => ScriptConst.double <$> decodeUint64
  | 2 => ScriptConst.atom <$> atom.decode
  | 3 => pure .true
  | 4 => pure .false
  | 5 => pure .null
  | 6 => pure .undefined
  | _ => Reader.ofOption none

/-- `kindAndDepth`, `start` and `length` of a try note. -/
def encodeTryNote (tn : TryNote) : List Byte :=
  let kindAndDepth := (tn.kind.setWidth 32 <<< 16) ||| tn.stackDepth.setWidth 32
  encodeUint32 kindAndDepth ++ (encodeUint32 tn.start ++ encodeUint32 tn.length)

def decodeTryNote : Reader Byte TryNote := do
  let kindAndDepth ← decodeUint32
  let start ← decodeUint32
  let length ← decodeUint32
  pure {
    kind := (kindAndDepth >>> 16).setWidth 8
    stackDepth := kindAndDepth.setWidth 16
    start, length }

/-- The index of an enclosing block, or `UINT32_MAX`. -/
def encodeScopeIndex : Option Nat → List Byte
  | none => encodeUint32 (-1#32)
  | some index => encodeUint32 (BitVec.ofNat 32 index)

/-- The same, for the object with index `i`: the enclosing block comes before it. -/
def decodeScopeIndex (i : Nat) : Reader Byte (Option Nat) := do
  let index ← decodeUint32
  if index = -1#32 then pure none
  else do
    Reader.ofOption (guard (index.toNat < i))
    pure (some index.toNat)

section Objects

variable {A F B R S : Type} (c : ScriptCodecs A F B R S)

def encodeObject : ScriptObject F B → List Byte
  | .function enclosing f => encodeUint32 0 ++ (encodeScopeIndex enclosing ++ c.function.encode f)
  | .block enclosing b => encodeUint32 1 ++ (encodeScopeIndex enclosing ++ c.block.encode b)

/-- The object with index `i`. -/
def decodeObject (i : Nat) : Reader Byte (ScriptObject F B) := do
  let isBlock ← decodeUint32
  if isBlock = 0#32 then do
    let enclosing ← decodeScopeIndex i
    let f ← c.function.decode
    pure (.function enclosing f)
  else do
    Reader.ofOption (guard (isBlock = 1#32))
    let enclosing ← decodeScopeIndex i
    let b ← c.block.decode
    pure (.block enclosing b)

/-- The objects from index `i` on, `n` of them. -/
def decodeObjects : Nat → Nat → Reader Byte (List (ScriptObject F B))
  | _, 0 => pure []
  | i, n + 1 => do
    let object ← decodeObject c i
    let rest ← decodeObjects (i + 1) n
    pure (object :: rest)

end Objects

/-! ## Flags -/

/-- `ScriptBits`, as the number of the bit. -/
inductive ScriptBit where
  | noScriptRval
  | savedCallerFun
  | strictModeCode
  | containsDynamicNameAccess
  | funHasExtensibleScope
  | argumentsHasVarBinding
  | needsArgsObj
  | ownFilename
  | parentFilename
  | isGenerator
  | isGeneratorExp
  | ownSource
  | hasSourceData
  | explicitUseStrict
deriving DecidableEq

namespace ScriptBit

def all : List ScriptBit :=
  [noScriptRval, savedCallerFun, strictModeCode, containsDynamicNameAccess, funHasExtensibleScope,
    argumentsHasVarBinding, needsArgsObj, ownFilename, parentFilename, isGenerator,
    isGeneratorExp, ownSource, hasSourceData, explicitUseStrict]

def index (bit : ScriptBit) : Nat := all.idxOf bit

/-- `scriptBits |= (1 << bit)`, for each bit that is to be set. -/
def pack (flag : ScriptBit → Bool) : BitVec 32 :=
  all.foldl (fun bits bit => if flag bit then bits ||| (1#32 <<< bit.index) else bits) 0#32

/-- `scriptBits & (1 << bit)`. -/
def isSet (bits : BitVec 32) (bit : ScriptBit) : Bool := bits &&& (1#32 <<< bit.index) ≠ 0#32

end ScriptBit

section XDRScript

variable {A F B R S : Type} [DecidableEq S]

/-- Which bits the encoder sets. -/
def Script.flag (s : Script A F B R S) (enclosing : Option (EnclosingScript S)) :
    ScriptBit → Bool
  | .noScriptRval => s.noScriptRval
  | .savedCallerFun => s.savedCallerFun
  | .strictModeCode => s.strictModeCode
  | .explicitUseStrict => s.explicitUseStrict
  | .containsDynamicNameAccess => s.bindingsAccessedDynamically
  | .funHasExtensibleScope => s.funHasExtensibleScope
  | .argumentsHasVarBinding => s.argsHasVarBinding
  | .needsArgsObj => s.knownToNeedArgsObj
  | .ownFilename => s.filename.isSome && !(enclosing.any fun e => e.filename = s.filename)
  | .parentFilename => s.filename.isSome && enclosing.any fun e => e.filename = s.filename
  | .isGenerator => s.isGenerator
  | .isGeneratorExp => s.isGeneratorExp
  | .ownSource => !(enclosing.any fun e => e.scriptSource = s.scriptSource)
  | .hasSourceData => !(enclosing.any fun e => e.scriptSource = s.scriptSource) &&
      s.scriptSource.data.isSome

variable (c : ScriptCodecs A F B R S) (enclosing : Option (EnclosingScript S))

/-- The filename, if it is the script's own. -/
def encodeFilename (flag : ScriptBit → Bool) : Option CString → List Byte
  | none => []
  | some filename => if flag .ownFilename then encodeCString filename else []

/-- The source text, if the source is the script's own and has it. -/
def encodeSourceData (flag : ScriptBit → Bool) : Option S → List Byte
  | none => []
  | some data => if flag .hasSourceData then c.sourceData.encode data else []

/-- `length` to `scriptBits`. -/
def encodeScriptHeader (s : Script A F B R S) : List Byte :=
  let count (n : Nat) : List Byte := encodeUint32 (BitVec.ofNat 32 n)
  let version := (s.nfixed.setWidth 32 <<< 16) ||| s.version.setWidth 32
  count s.code.length ++ (encodeUint32 s.mainOffset ++ (encodeUint32 version ++
    (count s.atoms.length ++ (count s.notes.length ++ (count s.trynotes.length ++
      (count s.objects.length ++ (count s.regexps.length ++ (count s.consts.length ++
        (count s.closedArgs.length ++ (count s.closedVars.length ++
          (encodeUint32 (s.nTypeSets.setWidth 32) ++
            encodeUint32 (ScriptBit.pack (s.flag enclosing)))))))))))))

/-- From the code to the constants. -/
def encodeScriptBody (s : Script A F B R S) : List Byte :=
  let nslots := (s.staticLevel.setWidth 32 <<< 16) ||| s.nslots.setWidth 32
  encodeBytes s.code ++ (encodeBytes s.notes ++ (encodeUint32 s.lineno ++
    (encodeUint32 nslots ++ (encodeFilename (s.flag enclosing) s.filename ++
      (encodeSourceData c (s.flag enclosing) s.scriptSource.data ++ (encodeUint32 s.sourceStart ++
        (encodeUint32 s.sourceEnd ++ (s.atoms.flatMap c.atom.encode ++
          (s.objects.flatMap (encodeObject c) ++ (s.regexps.flatMap c.regexp.encode ++
            (s.closedArgs.flatMap encodeUint32 ++ (s.closedVars.flatMap encodeUint32 ++
              (s.trynotes.reverse.flatMap encodeTryNote ++
                s.consts.flatMap (encodeScriptConst c.atom))))))))))))))

/-- `XDRScript<XDR_ENCODE>`. -/
def encodeScript (s : Script A F B R S) : Option (List Byte) := do
  let bindings ← encodeBindings c.atom s.bindings
  some (bindings ++ (encodeScriptHeader enclosing s ++ encodeScriptBody c enclosing s))

/-- The counts and flags that precede the script's data. -/
structure ScriptHeader where
  length : Nat
  prologLength : BitVec 32
  version : BitVec 32
  natoms : Nat
  nsrcnotes : Nat
  ntrynotes : Nat
  nobjects : Nat
  nregexps : Nat
  nconsts : Nat
  nClosedArgs : Nat
  nClosedVars : Nat
  nTypeSets : BitVec 32
  scriptBits : BitVec 32

/-- `length` to `scriptBits`. `partiallyInit` takes the counts of closed slots as `uint16_t`. -/
def decodeScriptHeader : Reader Byte ScriptHeader := do
  let length ← decodeUint32
  let prologLength ← decodeUint32
  let version ← decodeUint32
  let natoms ← decodeUint32
  let nsrcnotes ← decodeUint32
  let ntrynotes ← decodeUint32
  let nobjects ← decodeUint32
  let nregexps ← decodeUint32
  let nconsts ← decodeUint32
  let nClosedArgs ← decodeUint32
  let nClosedVars ← decodeUint32
  let nTypeSets ← decodeUint32
  let scriptBits ← decodeUint32
  Reader.ofOption (guard (nClosedArgs.toNat < 2 ^ 16 ∧ nClosedVars.toNat < 2 ^ 16))
  pure {
    length := length.toNat, prologLength, version, natoms := natoms.toNat
    nsrcnotes := nsrcnotes.toNat, ntrynotes := ntrynotes.toNat, nobjects := nobjects.toNat
    nregexps := nregexps.toNat, nconsts := nconsts.toNat
    nClosedArgs := nClosedArgs.toNat, nClosedVars := nClosedVars.toNat, nTypeSets, scriptBits }

/-- The filename of the decoded script. -/
def decodeFilename (scriptBits : BitVec 32) : Reader Byte (Option CString) :=
  if ScriptBit.isSet scriptBits .ownFilename then some <$> decodeCString
  else if ScriptBit.isSet scriptBits .parentFilename then do
    let enclosing ← Reader.ofOption enclosing
    pure enclosing.filename
  else pure none

/-- The source of the decoded script; a new one gets the identity `newSource`. -/
def decodeScriptSource (newSource : Nat) (scriptBits : BitVec 32) :
    Reader Byte (ScriptSource S) :=
  if ScriptBit.isSet scriptBits .ownSource then
    if ScriptBit.isSet scriptBits .hasSourceData then do
      let data ← c.sourceData.decode
      pure ⟨newSource, some data⟩
    else pure ⟨newSource, none⟩
  else do
    let enclosing ← Reader.ofOption enclosing
    pure enclosing.scriptSource

/-- `setArgumentsHasVarBinding` and `setNeedsArgsObj`, as the bits say. -/
def Script.setArgumentsFlags (s : Script A F B R S) (scriptBits : BitVec 32) :
    Option (Script A F B R S) :=
  let s := if ScriptBit.isSet scriptBits .argumentsHasVarBinding then s.setArgumentsHasVarBinding
    else s
  if ScriptBit.isSet scriptBits .needsArgsObj then s.setNeedsArgsObj true else some s

/-- `XDRScript<XDR_DECODE>`. -/
def decodeScript (newSource : Nat) : Reader Byte (Script A F B R S) := do
  let bindings ← decodeBindings c.atom
  let header ← decodeScriptHeader
  let code ← decodeBytes header.length
  let notes ← decodeBytes header.nsrcnotes
  let lineno ← decodeUint32
  let nslots ← decodeUint32
  let filename ← decodeFilename enclosing header.scriptBits
  let scriptSource ← decodeScriptSource c enclosing newSource header.scriptBits
  let sourceStart ← decodeUint32
  let sourceEnd ← decodeUint32
  let atoms ← c.atom.decode.times header.natoms
  let objects ← decodeObjects c 0 header.nobjects
  let regexps ← c.regexp.decode.times header.nregexps
  let closedArgs ← decodeUint32.times header.nClosedArgs
  let closedVars ← decodeUint32.times header.nClosedVars
  let trynotes ← decodeTryNote.times header.ntrynotes
  let consts ← (decodeScriptConst c.atom).times header.nconsts
  let isSet := ScriptBit.isSet header.scriptBits
  let script : Script A F B R S := {
    bindings, code
    mainOffset := header.prologLength
    version := header.version.setWidth 16
    nfixed := (header.version >>> 16).setWidth 16
    nslots := nslots.setWidth 16
    staticLevel := (nslots >>> 16).setWidth 16
    lineno, sourceStart, sourceEnd
    nTypeSets := header.nTypeSets.setWidth 16
    notes, atoms, objects, regexps, closedArgs, closedVars
    trynotes := trynotes.reverse
    consts
    noScriptRval := isSet .noScriptRval
    savedCallerFun := isSet .savedCallerFun
    strictModeCode := isSet .strictModeCode
    explicitUseStrict := isSet .explicitUseStrict
    bindingsAccessedDynamically := isSet .containsDynamicNameAccess
    funHasExtensibleScope := isSet .funHasExtensibleScope
    isGenerator := isSet .isGenerator
    isGeneratorExp := isSet .isGeneratorExp
    argsHasVarBinding := false
    needsArgsAnalysis := false
    needsArgsObj := false
    filename, scriptSource }
  Reader.ofOption (script.setArgumentsFlags header.scriptBits)

end XDRScript

end SpiderMonkey
