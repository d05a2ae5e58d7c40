import Mathlib

/-! # Arenas and free spans

`FreeSpan` (`gc/Heap.h`), and `Arena::finalize` (`jsgc.cpp`). Addresses are numbers, and memory is a
function from the addresses of words to what they hold.
-/

namespace SpiderMonkey.Gc

/-- The sizes that the build and the kind of the things fix. -/
structure ThingKind where
  arenaShift : Nat
  wordSize : Nat
  thingSize : Nat
  firstThingOffset : Nat
  /-- `JS_STATIC_ASSERT(ArenaShift < 16)` -/
  shift_lt : arenaShift < 16
  word_pos : 0 < wordSize
  /-- `thingSize % Cell::CellSize == 0` -/
  cell_dvd : 8 ∣ thingSize
  /-- `sizeof(FreeSpan)` is the size of two words. -/
  holds_span : 2 * wordSize ≤ thingSize
  offset_pos : 0 < firstThingOffset
  offset_lt : firstThingOffset < 2 ^ arenaShift
  /-- The things end at the end of the arena. -/
  things_end : thingSize ∣ 2 ^ arenaShift - firstThingOffset

structure FreeSpan where
  first : Nat
  last : Nat
  deriving DecidableEq, Repr

abbrev Words := Nat → Nat

namespace ThingKind

variable (k : ThingKind)

def arenaSize : Nat := 2 ^ k.arenaShift

def arenaMask : Nat := k.arenaSize - 1

/-- The span in the first two words at an address. -/
def spanAt (words : Words) (addr : Nat) : FreeSpan := ⟨words addr, words (addr + k.wordSize)⟩

def putSpan (words : Words) (addr : Nat) (span : FreeSpan) : Words :=
  fun x => if x = addr then span.first else if x = addr + k.wordSize then span.last else words x

/-! ## `FreeSpan` -/

def encodeOffsets (firstOffset lastOffset : Nat) : Nat := firstOffset ||| lastOffset <<< 16

/-- `FullArenaOffsets` -/
def fullArenaOffsets : Nat := k.arenaSize ||| (k.arenaSize - 1) <<< 16

def decodeOffsets (arenaAddr offsets : Nat) : FreeSpan :=
  ⟨arenaAddr + (offsets &&& 0xFFFF), arenaAddr ||| offsets >>> 16⟩

/-- `initAsEmpty()` -/
def emptySpan : FreeSpan := ⟨k.arenaSize, k.arenaSize - 1⟩

def arenaAddress (span : FreeSpan) : Nat := span.last - (span.last &&& k.arenaMask)

def encodeAsOffsets (span : FreeSpan) : Nat :=
  encodeOffsets (span.first - k.arenaAddress span) (span.last &&& k.arenaMask)

/-- `FreeSpan::allocate` -/
def allocate (words : Words) (span : FreeSpan) : Option (Nat × FreeSpan) :=
  if span.first < span.last then some (span.first, ⟨span.first + k.thingSize, span.last⟩)
  else if span.first = span.last then some (span.first, k.spanAt words span.first)
  else none

def infallibleAllocate (words : Words) (span : FreeSpan) : Nat × FreeSpan :=
  if span.first < span.last then (span.first, ⟨span.first + k.thingSize, span.last⟩)
  else (span.first, k.spanAt words span.first)

def allocateFromNewArena (arenaAddr : Nat) : Nat × FreeSpan :=
  let thing := arenaAddr ||| k.firstThingOffset
  (thing, ⟨thing + k.thingSize, arenaAddr ||| k.arenaMask⟩)

end ThingKind

def FreeSpan.isEmpty (span : FreeSpan) : Bool := span.last < span.first

def FreeSpan.hasNext (span : FreeSpan) : Bool := span.last % 2 = 0

/-! ## `Arena::finalize` -/

/-- The finalizer of a kind, with the poison that may come after it. What it writes is in the
thing. -/
structure Finalizer (k : ThingKind) where
  run : Words → Nat → Words
  frame (words : Words) (thing x : Nat) :
    x < thing ∨ thing + k.thingSize ≤ x → run words thing x = words x

/-- The locals of `Arena::finalize`, the memory, and the things the finalizer was run on. A tail of
`none` is `&newListHead`. -/
structure FinalizeState where
  words : Words
  thing : Nat
  nextFree : FreeSpan
  newListHead : FreeSpan
  newListTail : Option Nat
  newFreeSpanStart : Nat
  allClear : Bool
  finalized : List Nat

namespace FinalizeState

/-- `newListTail->first = first; newListTail->last = last` -/
def setTail (k : ThingKind) (s : FinalizeState) (span : FreeSpan) : FinalizeState :=
  match s.newListTail with
  | none => { s with newListHead := span }
  | some addr => { s with words := k.putSpan s.words addr span }

/-- The part of the loop for a marked thing. -/
def closeSpan (k : ThingKind) (s : FinalizeState) : FinalizeState :=
  if s.newFreeSpanStart ≠ 0 then
    { s.setTail k ⟨s.newFreeSpanStart, s.thing - k.thingSize⟩ with
      newListTail := some (s.thing - k.thingSize), newFreeSpanStart := 0 }
  else s

/-- `if (!newFreeSpanStart) newFreeSpanStart = thing` -/
def openSpan (s : FinalizeState) : FinalizeState :=
  { s with newFreeSpanStart := if s.newFreeSpanStart = 0 then s.thing else s.newFreeSpanStart }

end FinalizeState

/-- The loop of `Arena::finalize`. -/
def finalizeLoop (k : ThingKind) (finalizer : Finalizer k) (isMarked : Nat → Bool) (lastByte : Nat) :
    Nat → FinalizeState → Option FinalizeState
  | 0, _ => none
  | fuel + 1, s =>
    if s.thing = s.nextFree.first then
      if s.nextFree.last = lastByte then some s
      else
        finalizeLoop k finalizer isMarked lastByte fuel
          { s.openSpan with
            nextFree := k.spanAt s.words s.nextFree.last
            thing := s.nextFree.last + k.thingSize }
    else if isMarked s.thing then
      finalizeLoop k finalizer isMarked lastByte fuel
        { s.closeSpan k with allClear := false, thing := s.thing + k.thingSize }
    else
      finalizeLoop k finalizer isMarked lastByte fuel
        { s.openSpan with
          words := finalizer.run s.words s.thing
          finalized := s.finalized ++ [s.thing]
          thing := s.thing + k.thingSize }

/-- What `Arena::finalize` leaves: `firstFreeSpanOffsets` is `none` where it says that all is clear. -/
structure Finalized where
  words : Words
  firstFreeSpanOffsets : Option Nat
  finalized : List Nat

/-- `Arena::finalize` -/
def ThingKind.finalize (k : ThingKind) (finalizer : Finalizer k) (isMarked : Nat → Bool)
    (words : Words) (arenaAddr firstFreeSpanOffsets : Nat) : Option Finalized :=
  let lastByte := arenaAddr + k.arenaSize - 1
  -- `newListHead` is not initialized
  let start : FinalizeState :=
    ⟨words, arenaAddr + k.firstThingOffset, ThingKind.decodeOffsets arenaAddr firstFreeSpanOffsets,
      ⟨0, 0⟩, none, 0, true, []⟩
  match finalizeLoop k finalizer isMarked lastByte k.arenaSize start with
  | none => none
  | some s =>
    if s.allClear then some ⟨s.words, none, s.finalized⟩
    else
      let first := if s.newFreeSpanStart ≠ 0 then s.newFreeSpanStart else s.nextFree.first
      let s := s.setTail k ⟨first, lastByte⟩
      some ⟨s.words, some (k.encodeAsOffsets s.newListHead), s.finalized⟩

end SpiderMonkey.Gc
