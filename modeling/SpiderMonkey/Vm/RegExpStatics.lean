import SpiderMonkey.Lib.GrowableVector

/-! # The statics of regular expressions

`RegExpStatics` of `vm/RegExpStatics.h`: the last match and the input, which a
`PreserveRegExpStatics` saves and restores. A scope copies nothing when it is opened; the first write
that follows copies what it overwrites to the buffer of the innermost scope.
-/

namespace SpiderMonkey.Vm.StaticsScopes

open Lib

variable {Str : Type}

abbrev RegExpFlag : Type := BitVec 8

def multilineFlag : RegExpFlag := 0x04

/-- The statics, or a buffer of them; `bufferLink` is left out. -/
structure RegExpStatics (Str : Type) where
  matchPairs : GrowableVector ℤ
  /-- The input of the last match. -/
  matchPairsInput : Option Str
  /-- The input last set. -/
  pendingInput : Option Str
  flags : RegExpFlag
  copied : Bool

namespace RegExpStatics

/-- `Pairs` has room for 20 numbers inside of it. -/
def pairsInline : ℕ := 20

/-- A new buffer, with `flags` that are not initialized. -/
def initBuffer (flags : RegExpFlag) : RegExpStatics Str :=
  ⟨.empty pairsInline, none, none, flags, false⟩

def new : RegExpStatics Str := initBuffer 0

/-- None if there is not enough room in `dst`. -/
def copyTo (src dst : RegExpStatics Str) : Option (RegExpStatics Str) := do
  let matchPairs ← dst.matchPairs.clear.infallibleAppend src.matchPairs.items
  some
    { matchPairs := matchPairs
      matchPairsInput := src.matchPairsInput
      pendingInput := src.pendingInput
      flags := src.flags
      copied := dst.copied }

/-- The loop of `updateFromMatchPairs`. -/
def fillPairs (matchPairs : GrowableVector ℤ) (i : ℕ) : List (ℤ × ℤ) → GrowableVector ℤ
  | [] => matchPairs
  | pair :: rest => fillPairs ((matchPairs.set (2 * i) pair.1).set (2 * i + 1) pair.2) (i + 1) rest

end RegExpStatics

/-- The statics and the buffers along their `bufferLink`, the innermost first. -/
structure LinkedStatics (Str : Type) where
  statics : RegExpStatics Str
  buffers : List (RegExpStatics Str)

/-- What changes the statics. -/
inductive StaticsWrite (Str : Type) where
  | updateFromMatchPairs (input : Str) (newPairs : List (ℤ × ℤ)) (malloc : Bool)
  | clear
  | setPendingInput (newInput : Option Str)
  | setMultiline (enabled : Bool)
  | reset (newInput : Option Str) (newMultiline : Bool)

namespace LinkedStatics

variable (s : LinkedStatics Str)

def new : LinkedStatics Str := ⟨.new, []⟩

def aboutToWrite : Option (LinkedStatics Str) :=
  match s.buffers with
  | [] => some s
  | buffer :: rest =>
    if buffer.copied then some s
    else do
      let buffer ← s.statics.copyTo buffer
      some { s with buffers := { buffer with copied := true } :: rest }

/-- `save`, of a new buffer: whether there is room for the pairs. -/
def save (flags : RegExpFlag) (malloc : Bool) : Bool × LinkedStatics Str :=
  let buffer : RegExpStatics Str := .initBuffer flags
  match buffer.matchPairs.reserve s.statics.matchPairs.items.length malloc with
  | none => (false, { s with buffers := buffer :: s.buffers })
  | some matchPairs =>
    (true, { s with buffers := { buffer with matchPairs := matchPairs } :: s.buffers })

def restore : Option (LinkedStatics Str) :=
  match s.buffers with
  | [] => none
  | buffer :: rest => do
    let statics ← if buffer.copied then buffer.copyTo s.statics else some s.statics
    some ⟨statics, rest⟩

/-- `updateFromMatchPairs`, and whether it succeeds. -/
def updateFromMatchPairs (input : Str) (newPairs : List (ℤ × ℤ)) (malloc : Bool) :
    Option (Bool × LinkedStatics Str) := do
  let s ← s.aboutToWrite
  let statics := { s.statics with pendingInput := some input, matchPairsInput := some input }
  match statics.matchPairs.resize 0 (2 * newPairs.length) malloc with
  | none => some (false, { s with statics := statics })
  | some matchPairs =>
    let matchPairs := RegExpStatics.fillPairs matchPairs 0 newPairs
    some (true, { s with statics := { statics with matchPairs := matchPairs } })

def clear : Option (LinkedStatics Str) := do
  let s ← s.aboutToWrite
  some
    { s with statics :=
        { s.statics with
          flags := 0, pendingInput := none, matchPairsInput := none
          matchPairs := s.statics.matchPairs.clear } }

def setPendingInput (newInput : Option Str) : Option (LinkedStatics Str) := do
  let s ← s.aboutToWrite
  some { s with statics := { s.statics with pendingInput := newInput } }

def setMultiline (enabled : Bool) : Option (LinkedStatics Str) := do
  let s ← s.aboutToWrite
  let flags :=
    if enabled then s.statics.flags ||| multilineFlag else s.statics.flags &&& ~~~multilineFlag
  some { s with statics := { s.statics with flags := flags } }

def reset (newInput : Option Str) (newMultiline : Bool) : Option (LinkedStatics Str) := do
  let s ← s.aboutToWrite
  let s ← s.clear
  setMultiline { s with statics := { s.statics with pendingInput := newInput } } newMultiline

/-- A write, and whether it succeeds. None is a failed assertion. -/
def write : StaticsWrite Str → Option (Bool × LinkedStatics Str)
  | .updateFromMatchPairs input newPairs malloc => s.updateFromMatchPairs input newPairs malloc
  | .clear => s.clear.map fun s => (true, s)
  | .setPendingInput newInput => (s.setPendingInput newInput).map fun s => (true, s)
  | .setMultiline enabled => (s.setMultiline enabled).map fun s => (true, s)
  | .reset newInput newMultiline => (s.reset newInput newMultiline).map fun s => (true, s)

end LinkedStatics

/-- What a scope is to restore. -/
structure StaticsContents (Str : Type) where
  matchPairs : List ℤ
  matchPairsInput : Option Str
  pendingInput : Option Str
  flags : RegExpFlag

def RegExpStatics.contents (r : RegExpStatics Str) : StaticsContents Str :=
  ⟨r.matchPairs.items, r.matchPairsInput, r.pendingInput, r.flags⟩

/-- Nested scopes, with the contents of the statics when each open one was entered. The scope of an
`init` that fails ends at once. -/
inductive ScopeRuns : LinkedStatics Str → List (StaticsContents Str) → Prop
  | new : ScopeRuns .new []
  | write {s s' : LinkedStatics Str} {entries : List (StaticsContents Str)} {op : StaticsWrite Str}
      {ok : Bool} (h : ScopeRuns s entries) (hwrite : s.write op = some (ok, s')) :
      ScopeRuns s' entries
  | enter {s s' : LinkedStatics Str} {entries : List (StaticsContents Str)} {flags : RegExpFlag}
      {malloc : Bool} (h : ScopeRuns s entries) (hsave : s.save flags malloc = (true, s')) :
      ScopeRuns s' (s.statics.contents :: entries)
  | fail {s s' s'' : LinkedStatics Str} {entries : List (StaticsContents Str)} {flags : RegExpFlag}
      {malloc : Bool} (h : ScopeRuns s entries) (hsave : s.save flags malloc = (false, s'))
      (hrestore : s'.restore = some s'') : ScopeRuns s'' entries
  | leave {s s' : LinkedStatics Str} {entry : StaticsContents Str}
      {entries : List (StaticsContents Str)} (h : ScopeRuns s (entry :: entries))
      (hrestore : s.restore = some s') : ScopeRuns s' entries

end SpiderMonkey.Vm.StaticsScopes
