import SpiderMonkey.Ds.HashTableSoundness

/-! # Tables of shapes

`ShapeTable` of `jsscope.cpp`: the hash table that stands for a search along the chain of shapes of
an object, from its last property on. The collision flag of an entry is a bit of the pointer that is
stored in it; an entry that others have been put behind is not freed but marked as removed.
-/

namespace SpiderMonkey.Vm

open Lib Ds

/-- An entry, which is a `Shape *` with the bit `SHAPE_COLLISION`. -/
structure ShapeEntry (S : Type) where
  shape : Option S
  hadCollision : Bool

namespace ShapeEntry

variable {S : Type}

/-- `SHAPE_IS_FREE`. -/
def isFree (e : ShapeEntry S) : Bool := e.shape.isNone && !e.hadCollision

/-- `SHAPE_IS_REMOVED`. -/
def isRemoved (e : ShapeEntry S) : Bool := e.shape.isNone && e.hadCollision

/-- The entries that `calloc_` makes. -/
def free : ShapeEntry S := ⟨none, false⟩

/-- `SHAPE_REMOVED`. -/
def removed : ShapeEntry S := ⟨none, true⟩

/-- `SHAPE_FLAG_COLLISION`. -/
def flagCollision (e : ShapeEntry S) : ShapeEntry S := { e with hadCollision := true }

/-- `SHAPE_STORE_PRESERVING_COLLISION`. -/
def storePreservingCollision (e : ShapeEntry S) (shape : S) : ShapeEntry S :=
  { e with shape := some shape }

end ShapeEntry

abbrev minSizeLog2 : Nat := 4
abbrev minSize : Nat := 1 <<< minSizeLog2

/-- `entries`. -/
abbrev ShapeEntries (S : Type) (hashShift : Nat) : Type := Slot hashShift → ShapeEntry S

structure ShapeTable (S : Type) where
  hashShift : Nat
  entryCount : Nat
  removedCount : Nat
  entries : ShapeEntries S hashShift

/-- `JS_CEILING_LOG2W`. -/
def ceilingLog2 (n : Nat) : Nat := if n ≤ 1 then 0 else 1 + Nat.log2 (n - 1)

section

variable {S Id : Type} [DecidableEq Id] (propid : S → Id) (hashId : Id → HashNumber)

/-- The test for a hit. -/
def ShapeEntry.hits (e : ShapeEntry S) (id : Id) : Bool := e.shape.any fun shape => propid shape = id

/-- What `search` does with an entry that is neither free nor a hit. -/
def passEntry {hashShift : Nat} (adding : Bool) (entries : ShapeEntries S hashShift)
    (spp : Slot hashShift) (firstRemoved : Option (Slot hashShift)) :
    ShapeEntries S hashShift × Option (Slot hashShift) :=
  if (entries spp).isRemoved then (entries, firstRemoved.or (some spp))
  else if adding && !(entries spp).hadCollision then
    (Function.update entries spp (entries spp).flagCollision, firstRemoved)
  else (entries, firstRemoved)

/-- The loop of `search`; its first round is written out in the source. After as many rounds as there
are entries it has come round, and would not end. -/
def searchLoop {hashShift : Nat} (id : Id) (adding : Bool) :
    Nat → ShapeEntries S hashShift → Slot hashShift → Option (Slot hashShift) →
      Option (Slot hashShift × ShapeEntries S hashShift)
  | 0, _, _, _ => none
  | fuel + 1, entries, spp, firstRemoved =>
    if (entries spp).isFree then
      some (if adding then firstRemoved.getD spp else spp, entries)
    else if (entries spp).hits propid id then some (spp, entries)
    else
      let (entries, firstRemoved) := passEntry adding entries spp firstRemoved
      searchLoop id adding fuel entries (nextSlot (hashId id) spp) firstRemoved

/-- `search`, of the entries: the place that it returns, and the entries with the collision flags
that it has set. -/
def searchEntries {hashShift : Nat} (entries : ShapeEntries S hashShift) (id : Id) (adding : Bool) :
    Option (Slot hashShift × ShapeEntries S hashShift) :=
  searchLoop propid hashId id adding (capacityOf hashShift) entries
    (firstSlot (hashId id) hashShift) none

/-- The loop of `init`. -/
def initLoop {hashShift : Nat} :
    List S → ShapeEntries S hashShift → Option (ShapeEntries S hashShift)
  | [], entries => some entries
  | shape :: rest, entries => do
    let (spp, entries) ← searchEntries propid hashId entries (propid shape) true
    -- the youngest shape must win
    if (entries spp).shape.isNone then
      initLoop rest (Function.update entries spp ((entries spp).storePreservingCollision shape))
    else initLoop rest entries

/-- The copy of the live entries of `change`. -/
def copyLoop {oldShift hashShift : Nat} (oldTable : ShapeEntries S oldShift) :
    List (Slot oldShift) → ShapeEntries S hashShift → Option (ShapeEntries S hashShift)
  | [], entries => some entries
  | oldspp :: rest, entries =>
    match (oldTable oldspp).shape with
    | none => copyLoop oldTable rest entries
    | some shape => do
      let (spp, entries) ← searchEntries propid hashId entries (propid shape) true
      copyLoop oldTable rest (Function.update entries spp ⟨some shape, false⟩)

namespace ShapeTable

/-- The constructor, and `init`, for the shapes from the last property on; `alloc` says whether the
entries can be allocated, which those of a size of more than 32 bits cannot. -/
def init (lineage : List S) (alloc : Bool) : Option (Option (ShapeTable S)) :=
  let entryCount := lineage.length
  let sizeLog2 := ceilingLog2 (2 * entryCount)
  let sizeLog2 := if sizeLog2 < minSizeLog2 then minSizeLog2 else sizeLog2
  if !alloc || sHashBits ≤ sizeLog2 then some none
  else do
    let hashShift := sHashBits - sizeLog2
    let entries ← initLoop propid hashId lineage (fun _ : Slot hashShift => ShapeEntry.free)
    some (some ⟨hashShift, entryCount, 0, entries⟩)

variable (t : ShapeTable S)

def capacity : Nat := capacityOf t.hashShift

def needsToGrow : Bool := t.capacity - (t.capacity >>> 2) ≤ t.entryCount + t.removedCount

def search (id : Id) (adding : Bool) : Option (Slot t.hashShift × ShapeEntries S t.hashShift) :=
  searchEntries propid hashId t.entries id adding

/-- `change`, and whether it has been done. -/
def change (log2Delta : Int) (alloc : Bool) : Option (Bool × ShapeTable S) :=
  let newlog2 := ((sHashBits - t.hashShift : Nat) + log2Delta).toNat
  if !alloc || sHashBits ≤ newlog2 then some (false, t)
  else do
    let hashShift := sHashBits - newlog2
    let entries ← copyLoop propid hashId t.entries (List.finRange _)
      (fun _ : Slot hashShift => ShapeEntry.free)
    some (true, ⟨hashShift, t.entryCount, 0, entries⟩)

def grow (alloc : Bool) : Option (Bool × ShapeTable S) := do
  let size := t.capacity
  let delta := if t.removedCount < size >>> 2 then 1 else 0
  let (changed, t') ← t.change propid hashId delta alloc
  some (changed || t'.entryCount + t'.removedCount ≠ size - 1, t')

/-- The store of a shape in the entry that the search has found; `made` says whether the shape can be
made. -/
def store (shape : S) (made : Bool) (spp : Slot t.hashShift) :
    Option (ShapeEntry S) × ShapeTable S :=
  if !made then (some (t.entries spp), t)
  else
    (some (t.entries spp), { t with
      entries := Function.update t.entries spp ((t.entries spp).storePreservingCollision shape)
      entryCount := t.entryCount + 1 })

/-- The part of `addProperty` and `addPropertyInternal` about the table of a dictionary, with the
entry that has been found; there is none if the table cannot grow. -/
def add (shape : S) (alloc made : Bool) : Option (Option (ShapeEntry S) × ShapeTable S) := do
  let (spp, entries) ← t.search propid hashId (propid shape) true
  if t.needsToGrow then do
    let (ok, t) ← grow propid hashId { t with entries := entries } alloc
    if !ok then some (none, t)
    else do
      let (spp, entries) ← t.search propid hashId (propid shape) true
      some (store { t with entries := entries } shape made spp)
  else some (store { t with entries := entries } shape made spp)

/-- The entry of a shape that is removed. -/
def removeEntry (spp : Slot t.hashShift) : ShapeTable S :=
  if (t.entries spp).hadCollision then
    { t with
      entries := Function.update t.entries spp ShapeEntry.removed
      removedCount := t.removedCount + 1
      entryCount := t.entryCount - 1 }
  else
    { t with
      entries := Function.update t.entries spp ShapeEntry.free
      entryCount := t.entryCount - 1 }

/-- The part of `removeProperty` about the table of a dictionary. -/
def remove (id : Id) (alloc : Bool) : Option (ShapeTable S) := do
  let (spp, _) ← t.search propid hashId id false
  if (t.entries spp).shape.isNone then some t
  else do
    let t := t.removeEntry spp
    let size := t.capacity
    if minSize < size && t.entryCount ≤ size >>> 2 then
      let (_, t) ← t.change propid hashId (-1) alloc
      some t
    else some t

end ShapeTable

end

end SpiderMonkey.Vm
