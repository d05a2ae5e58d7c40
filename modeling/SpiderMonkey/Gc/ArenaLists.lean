import SpiderMonkey.Gc.Heap

/-! # The lists of arenas

`ArenaList` and `ArenaLists` (`jsgc.h`, `jsgc.cpp`), of one kind of things. An arena is its address.
-/

namespace SpiderMonkey.Gc

/-- `ArenaList`; the cursor is where the arenas `fromCursor` start. -/
structure ArenaList where
  beforeCursor : List Nat
  fromCursor : List Nat
  deriving DecidableEq, Repr

namespace ArenaList

def all (list : ArenaList) : List Nat := list.beforeCursor ++ list.fromCursor

/-- `ArenaList::clear` -/
def clear : ArenaList := ⟨[], []⟩

/-- `ArenaList::insert` -/
def insert (list : ArenaList) (arena : Nat) (hasFreeThings : Bool) : ArenaList :=
  if hasFreeThings then ⟨list.beforeCursor, arena :: list.fromCursor⟩
  else ⟨list.beforeCursor ++ [arena], list.fromCursor⟩

end ArenaList

/-- `ArenaLists`, with the memory and the header field of each arena. -/
structure ArenaLists where
  words : Words
  firstFreeSpanOffsets : Nat → Nat
  arenaList : ArenaList
  freeList : FreeSpan

/-- What `finalizeNow` leaves, with the things that were finalized and the arenas that were
released. -/
structure Swept where
  lists : ArenaLists
  finalized : List Nat
  released : List Nat

namespace ArenaLists

variable (k : ThingKind)

/-- `ArenaLists::ArenaLists` -/
def empty (words : Words) (offsets : Nat → Nat) : ArenaLists := ⟨words, offsets, .clear, k.emptySpan⟩

def setOffsets (s : ArenaLists) (arena offsets : Nat) : ArenaLists :=
  { s with
    firstFreeSpanOffsets := fun a => if a = arena then offsets else s.firstFreeSpanOffsets a }

/-- `ArenaHeader::getFirstFreeSpan` -/
def getFirstFreeSpan (s : ArenaLists) (arena : Nat) : FreeSpan :=
  ThingKind.decodeOffsets arena (s.firstFreeSpanOffsets arena)

/-- `ArenaHeader::hasFreeThings` -/
def hasFreeThings (s : ArenaLists) (arena : Nat) : Bool :=
  s.firstFreeSpanOffsets arena ≠ k.fullArenaOffsets

/-- `allocateFromFreeList` -/
def allocateFromFreeList (s : ArenaLists) : Option (Nat × ArenaLists) :=
  match k.allocate s.words s.freeList with
  | none => none
  | some (thing, span) => some (thing, { s with freeList := span })

/-- `allocateFromArena`; `newArena` is what `allocateArena` gives. -/
def allocateFromArena (s : ArenaLists) (newArena : Option Nat) : Option (Nat × ArenaLists) :=
  match s.arenaList.fromCursor with
  | arena :: rest =>
    let r := k.infallibleAllocate s.words (s.getFirstFreeSpan arena)
    some (r.1,
      { s.setOffsets arena k.fullArenaOffsets with
        arenaList := ⟨s.arenaList.beforeCursor ++ [arena], rest⟩, freeList := r.2 })
  | [] =>
    match newArena with
    | none => none
    | some arena =>
      let r := k.allocateFromNewArena arena
      -- the arena goes before the head; the cursor is at the end, and stays there
      some (r.1,
        { s.setOffsets arena k.fullArenaOffsets with
          arenaList := ⟨arena :: s.arenaList.beforeCursor, []⟩, freeList := r.2 })

/-- An allocation, from the free list first. -/
def allocate (s : ArenaLists) (newArena : Option Nat) : Option (Nat × ArenaLists) :=
  match s.allocateFromFreeList k with
  | some r => some r
  | none => s.allocateFromArena k newArena

def purge (s : ArenaLists) : ArenaLists :=
  if s.freeList.isEmpty then s
  else
    { s.setOffsets (k.arenaAddress s.freeList) (k.encodeAsOffsets s.freeList) with
      freeList := k.emptySpan }

def copyFreeListToArena (s : ArenaLists) : ArenaLists :=
  if s.freeList.isEmpty then s
  else s.setOffsets (k.arenaAddress s.freeList) (k.encodeAsOffsets s.freeList)

def clearFreeListInArena (s : ArenaLists) : ArenaLists :=
  if s.freeList.isEmpty then s
  else s.setOffsets (k.arenaAddress s.freeList) k.fullArenaOffsets

/-- `FinalizeTypedArenas`, with a budget that is not exceeded. -/
def finalizeTypedArenas (finalizer : Finalizer k) (isMarked : Nat → Bool) :
    List Nat → ArenaLists → Option Swept
  | [], s => some ⟨s, [], []⟩
  | arena :: src, s =>
    match k.finalize finalizer isMarked s.words arena (s.firstFreeSpanOffsets arena) with
    | none => none
    | some r =>
      let s := { s with words := r.words }
      match r.firstFreeSpanOffsets with
      | none =>
        match finalizeTypedArenas finalizer isMarked src s with
        | none => none
        | some swept => some ⟨swept.lists, r.finalized ++ swept.finalized, arena :: swept.released⟩
      | some offsets =>
        let s := s.setOffsets arena offsets
        let s := { s with arenaList := s.arenaList.insert arena (s.hasFreeThings k arena) }
        match finalizeTypedArenas finalizer isMarked src s with
        | none => none
        | some swept => some ⟨swept.lists, r.finalized ++ swept.finalized, swept.released⟩

/-- `finalizeNow` -/
def finalizeNow (finalizer : Finalizer k) (isMarked : Nat → Bool) (s : ArenaLists) : Option Swept :=
  finalizeTypedArenas k finalizer isMarked s.arenaList.all { s with arenaList := .clear }

end ArenaLists

end SpiderMonkey.Gc
