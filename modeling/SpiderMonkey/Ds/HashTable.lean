import SpiderMonkey.Lib.OpenAddressing

/-! # Hash tables

`HashTable` of `js/public/HashTable.h`: open addressing with double hashing. An entry that others
have been put behind has its collision bit set; it is not freed when it is removed, but marked as
removed. A loop over a path of entries gives up after as many steps as there are entries: then it
has come round, and it would not end.
-/

namespace SpiderMonkey.Ds

open Lib

abbrev HashNumber := BitVec 32

/-- A hash policy, with how keys are read and set in what is stored. -/
structure HashPolicy (T Key Lookup : Type) where
  getKey : T → Key
  setKey : T → Key → T
  hash : Lookup → HashNumber
  matchKey : Key → Lookup → Bool

/-! ## Entries -/

abbrev sFreeKey : HashNumber := 0#32
abbrev sRemovedKey : HashNumber := 1#32
abbrev sCollisionBit : HashNumber := 1#32

def isLiveHash (hash : HashNumber) : Bool := sRemovedKey < hash

/-- `HashTableEntry`. -/
structure Entry (T : Type) where
  keyHash : HashNumber
  t : T

namespace Entry

variable {T : Type}

/-- The constructor. -/
def new [Inhabited T] : Entry T := ⟨0#32, default⟩

def isFree (e : Entry T) : Bool := e.keyHash = sFreeKey

def setFree [Inhabited T] (_ : Entry T) : Entry T := ⟨sFreeKey, default⟩

def isRemoved (e : Entry T) : Bool := e.keyHash = sRemovedKey

def setRemoved [Inhabited T] (_ : Entry T) : Entry T := ⟨sRemovedKey, default⟩

def isLive (e : Entry T) : Bool := isLiveHash e.keyHash

def setLive (e : Entry T) (hn : HashNumber) : Entry T := { e with keyHash := hn }

/-- `setCollision`, with the bit to be set. -/
def setCollision (e : Entry T) (collisionBit : HashNumber) : Entry T :=
  { e with keyHash := e.keyHash ||| collisionBit }

def unsetCollision (e : Entry T) : Entry T := { e with keyHash := e.keyHash &&& ~~~sCollisionBit }

def hasCollision (e : Entry T) : Bool := e.keyHash &&& sCollisionBit ≠ 0#32

def matchHash (e : Entry T) (hn : HashNumber) : Bool := e.keyHash &&& ~~~sCollisionBit = hn

def getKeyHash (e : Entry T) : HashNumber := e.keyHash

end Entry

/-! ## Hash codes -/

abbrev sMinSizeLog2 : Nat := 2
abbrev sMinSize : Nat := 1 <<< sMinSizeLog2
abbrev sMaxInit : Nat := 1 <<< 23
abbrev sMaxCapacity : Nat := 1 <<< 24
abbrev sHashBits : Nat := 32
abbrev sMinAlphaFrac : Nat := 64
abbrev sMaxAlphaFrac : Nat := 192
abbrev sInvMaxAlpha : Nat := 171

/-- `ScrambleHashCode` of `Utility.h`. -/
def scrambleHashCode (h : HashNumber) : HashNumber := h * 0x9E3779B9#32

section

variable {T Key Lookup : Type} (P : HashPolicy T Key Lookup)

def prepareHash (l : Lookup) : HashNumber :=
  let keyHash := scrambleHashCode (P.hash l)
  -- avoid reserved hash codes
  let keyHash := if !isLiveHash keyHash then keyHash - (sRemovedKey + 1#32) else keyHash
  keyHash &&& ~~~sCollisionBit

end

def hash1 (hash0 : HashNumber) (shift : Nat) : HashNumber := hash0 >>> shift

structure DoubleHash where
  h2 : HashNumber
  sizeMask : HashNumber

def hash2 (curKeyHash : HashNumber) (hashShift : Nat) : DoubleHash :=
  let sizeLog2 := sHashBits - hashShift
  ⟨((curKeyHash <<< sizeLog2) >>> hashShift) ||| 1#32, (1#32 <<< sizeLog2) - 1#32⟩

def applyDoubleHash (h1 : HashNumber) (dh : DoubleHash) : HashNumber := (h1 - dh.h2) &&& dh.sizeMask

/-- `capacity`, which is that of the shift. -/
abbrev capacityOf (hashShift : Nat) : Nat := 2 ^ (sHashBits - hashShift)

/-- The places in the table. -/
abbrev Slot (hashShift : Nat) : Type := Fin (capacityOf hashShift)

lemma hash1_lt (keyHash : HashNumber) (hashShift : Nat) :
    (hash1 keyHash hashShift).toNat < capacityOf hashShift := by
  rw [hash1, BitVec.toNat_ushiftRight, Nat.shiftRight_eq_div_pow]
  refine Nat.div_lt_of_lt_mul (Nat.lt_of_lt_of_le keyHash.isLt ?_)
  rw [capacityOf, ← Nat.pow_add]
  exact Nat.pow_le_pow_right (by omega) (by simp only [sHashBits]; omega)

lemma sizeMask_toNat {s : Nat} (hs : s ≤ 32) : ((1#32 <<< s) - 1#32).toNat = 2 ^ s - 1 := by
  rcases Nat.lt_or_eq_of_le hs with hlt | rfl
  · have hpow : 2 ^ s < 2 ^ 32 := Nat.pow_lt_pow_right (by omega) hlt
    have hpos : 0 < 2 ^ s := Nat.two_pow_pos s
    rw [BitVec.toNat_sub, BitVec.toNat_shiftLeft, Nat.shiftLeft_eq]
    simp only [BitVec.toNat_ofNat]
    omega
  · rfl

lemma applyDoubleHash_lt (h1 keyHash : HashNumber) (hashShift : Nat) :
    (applyDoubleHash h1 (hash2 keyHash hashShift)).toNat < capacityOf hashShift := by
  rw [applyDoubleHash, hash2, BitVec.toNat_and, sizeMask_toNat (Nat.sub_le _ _),
    Nat.and_two_pow_sub_one_eq_mod]
  exact Nat.mod_lt _ (Nat.two_pow_pos _)

/-- Where the search for a hash code begins. -/
def firstSlot (keyHash : HashNumber) (hashShift : Nat) : Slot hashShift :=
  ⟨(hash1 keyHash hashShift).toNat, hash1_lt keyHash hashShift⟩

/-- Where it goes on. -/
def nextSlot (keyHash : HashNumber) {hashShift : Nat} (h1 : Slot hashShift) : Slot hashShift :=
  ⟨(applyDoubleHash (BitVec.ofNat 32 h1.val) (hash2 keyHash hashShift)).toNat,
    applyDoubleHash_lt _ keyHash hashShift⟩

/-! ## The table -/

/-- `Entry *table`. -/
abbrev Cells (T : Type) (hashShift : Nat) : Type := Slot hashShift → Entry T

/-- `HashTable`; the counts do not exceed the capacity. -/
structure HashTable (T : Type) where
  hashShift : Nat
  entryCount : Nat
  gen : BitVec 32
  removedCount : Nat
  table : Cells T hashShift

inductive RebuildStatus where
  | notOverloaded
  | rehashed
  | rehashFailed
deriving DecidableEq

section

variable {T Key Lookup : Type} (P : HashPolicy T Key Lookup)

/-- `match` of an entry. -/
def matchEntry (e : Entry T) (l : Lookup) : Bool := P.matchKey (P.getKey e.t) l

/-- The loop of `lookup`. -/
def lookupLoop {hashShift : Nat} (l : Lookup) (keyHash collisionBit : HashNumber) :
    Nat → Cells T hashShift → Slot hashShift → Option (Slot hashShift) →
      Option (Slot hashShift × Cells T hashShift)
  | 0, _, _, _ => none
  | fuel + 1, table, h1, firstRemoved =>
    let (firstRemoved, table) :=
      if (table h1).isRemoved then
        (if firstRemoved.isNone then some h1 else firstRemoved, table)
      else (firstRemoved, Function.update table h1 ((table h1).setCollision collisionBit))
    let h1 := nextSlot keyHash h1
    if (table h1).isFree then some (firstRemoved.getD h1, table)
    else if (table h1).matchHash keyHash && matchEntry P (table h1) l then some (h1, table)
    else lookupLoop l keyHash collisionBit fuel table h1 firstRemoved

/-- `lookup`: the entry that is found, or that a new one can be put in. -/
def lookupCells {hashShift : Nat} (table : Cells T hashShift) (l : Lookup)
    (keyHash collisionBit : HashNumber) : Option (Slot hashShift × Cells T hashShift) :=
  let h1 := firstSlot keyHash hashShift
  if (table h1).isFree then some (h1, table)
  else if (table h1).matchHash keyHash && matchEntry P (table h1) l then some (h1, table)
  else lookupLoop P l keyHash collisionBit (capacityOf hashShift) table h1 none

/-- The loop of `findFreeEntry`. -/
def findFreeLoop {hashShift : Nat} (keyHash : HashNumber) :
    Nat → Cells T hashShift → Slot hashShift → Option (Slot hashShift × Cells T hashShift)
  | 0, _, _ => none
  | fuel + 1, table, h1 =>
    let table := Function.update table h1 ((table h1).setCollision sCollisionBit)
    let h1 := nextSlot keyHash h1
    if !(table h1).isLive then some (h1, table) else findFreeLoop keyHash fuel table h1

/-- `findFreeEntry`. -/
def findFreeEntry {hashShift : Nat} (table : Cells T hashShift) (keyHash : HashNumber) :
    Option (Slot hashShift × Cells T hashShift) :=
  let h1 := firstSlot keyHash hashShift
  if !(table h1).isLive then some (h1, table)
  else findFreeLoop keyHash (capacityOf hashShift) table h1

/-- The copy of the live entries of `changeTableSize`. -/
def copyLive {oldShift hashShift : Nat} (oldTable : Cells T oldShift) :
    List (Slot oldShift) → Cells T hashShift → Option (Cells T hashShift)
  | [], table => some table
  | src :: rest, table =>
    if (oldTable src).isLive then do
      let e := (oldTable src).unsetCollision
      let (tgt, table) ← findFreeEntry table e.getKeyHash
      copyLive oldTable rest (Function.update table tgt e)
    else copyLive oldTable rest table

/-- The loop of `rehashTable` over the targets of an entry. -/
def targetLoop {hashShift : Nat} (table : Cells T hashShift) (keyHash : HashNumber) :
    Nat → Slot hashShift → Option (Slot hashShift)
  | 0, _ => none
  | fuel + 1, tgt =>
    if !(table tgt).hasCollision then some tgt
    else targetLoop table keyHash fuel (nextSlot keyHash tgt)

/-- The loop of `rehashTable` over the entries. -/
def rehashLoop {hashShift : Nat} : Nat → Cells T hashShift → Nat → Option (Cells T hashShift)
  | 0, _, _ => none
  | fuel + 1, table, i =>
    if h : i < capacityOf hashShift then
      let src : Slot hashShift := ⟨i, h⟩
      if !(table src).isLive || (table src).hasCollision then rehashLoop fuel table (i + 1)
      else do
        let keyHash := (table src).getKeyHash
        let tgt ← targetLoop table keyHash (capacityOf hashShift) (firstSlot keyHash hashShift)
        -- `Swap`
        let table : Cells T hashShift := fun j => table (Equiv.swap src tgt j)
        rehashLoop fuel (Function.update table tgt ((table tgt).setCollision sCollisionBit)) i
    else some table

namespace HashTable

variable (ht : HashTable T)

def capacity : Nat := capacityOf ht.hashShift

def overloaded : Bool := (sMaxAlphaFrac * ht.capacity) >>> 8 ≤ ht.entryCount + ht.removedCount

def underloaded : Bool :=
  sMinSize < ht.capacity && ht.entryCount ≤ (sMinAlphaFrac * ht.capacity) >>> 8

/-- `rehashTable`: each step of its outer loop places an entry or goes on to the next one. -/
def rehashTable : Option (HashTable T) := do
  let table ← rehashLoop (2 * ht.capacity + 1) (fun i => (ht.table i).unsetCollision) 0
  some { ht with removedCount := 0, table := table }

/-- `checkOverRemoved`, and whether its assertion holds. -/
def checkOverRemoved : Option (HashTable T × Bool) :=
  if ht.overloaded then do
    let ht ← ht.rehashTable
    some (ht, !ht.overloaded)
  else some (ht, true)

variable [Inhabited T]

/-- `changeTableSize`; `alloc` says whether the new table can be allocated. -/
def changeTableSize (deltaLog2 : Int) (alloc : Bool) : Option (RebuildStatus × HashTable T) :=
  let newLog2 := ((sHashBits - ht.hashShift : Nat) + deltaLog2).toNat
  if sMaxCapacity < 2 ^ newLog2 then some (.rehashFailed, ht)
  else if !alloc then some (.rehashFailed, ht)
  else do
    let newShift := sHashBits - newLog2
    let table : Cells T newShift ← copyLive ht.table (List.finRange _) fun _ => Entry.new
    some (.rehashed, {
      hashShift := newShift
      entryCount := ht.entryCount
      gen := ht.gen + 1#32
      removedCount := 0
      table := table })

def checkOverloaded (alloc : Bool) : Option (RebuildStatus × HashTable T) :=
  if !ht.overloaded then some (.notOverloaded, ht)
  else
    -- compress if a quarter or more of all entries are removed
    let deltaLog2 := if ht.capacity >>> 2 ≤ ht.removedCount then 0 else 1
    ht.changeTableSize deltaLog2 alloc

/-- `remove` of an entry. -/
def removeEntry (e : Slot ht.hashShift) : HashTable T :=
  if (ht.table e).hasCollision then
    { ht with
      table := Function.update ht.table e (ht.table e).setRemoved
      removedCount := ht.removedCount + 1
      entryCount := ht.entryCount - 1 }
  else
    { ht with
      table := Function.update ht.table e (ht.table e).setFree
      entryCount := ht.entryCount - 1 }

def checkUnderloaded (alloc : Bool) : Option (HashTable T) :=
  if ht.underloaded then do
    let (_, ht) ← ht.changeTableSize (-1) alloc
    some ht
  else some ht

def clear : HashTable T :=
  { ht with table := fun _ => Entry.new, removedCount := 0, entryCount := 0 }

/-- `putNewInfallible`. -/
def putNewInfallible (l : Lookup) (t : T) : Option (HashTable T) := do
  let keyHash := prepareHash P l
  let (entry, table) ← findFreeEntry ht.table keyHash
  let isRemoved := (table entry).isRemoved
  let keyHash := if isRemoved then keyHash ||| sCollisionBit else keyHash
  some { ht with
    table := Function.update table entry ⟨keyHash, t⟩
    removedCount := if isRemoved then ht.removedCount - 1 else ht.removedCount
    entryCount := ht.entryCount + 1 }

def putNew (l : Lookup) (t : T) (alloc : Bool) : Option (Bool × HashTable T) := do
  let (status, ht) ← ht.checkOverloaded alloc
  if status = .rehashFailed then some (false, ht)
  else do
    let ht ← ht.putNewInfallible P l t
    some (true, ht)

/-- `AddPtr`. -/
structure AddPtr (hashShift : Nat) where
  entry : Slot hashShift
  keyHash : HashNumber

/-- `lookup`; the entry is live if it has been found. -/
def lookup (l : Lookup) : Option (Slot ht.hashShift) := do
  let (entry, _) ← lookupCells P ht.table l (prepareHash P l) 0#32
  some entry

/-- `setLive` of an entry that is to be added, and the assignment of its value. -/
def addAt (entry : Slot ht.hashShift) (keyHash : HashNumber) (t : T) : HashTable T :=
  { ht with
    table := Function.update ht.table entry ⟨keyHash, t⟩
    entryCount := ht.entryCount + 1 }

/-- `add`. -/
def add (p : AddPtr ht.hashShift) (t : T) (alloc : Bool) : Option (Bool × HashTable T) :=
  -- a removed entry that becomes live does not change the load
  if (ht.table p.entry).isRemoved then
    some (true, { ht.addAt p.entry (p.keyHash ||| sCollisionBit) t with
      removedCount := ht.removedCount - 1 })
  else do
    let (status, ht') ← ht.checkOverloaded alloc
    match status with
    | .rehashFailed => some (false, ht')
    | .rehashed => do
      let (entry, table) ← findFreeEntry ht'.table p.keyHash
      some (true, addAt { ht' with table := table } entry p.keyHash t)
    | .notOverloaded => some (true, ht.addAt p.entry p.keyHash t)

/-- The search of `lookupForAdd` and `relookupOrAdd`, which sets the collision bit of the entries
that it passes, then an assignment to what has been found or `add`. -/
def findOrAdd (l : Lookup) (keyHash : HashNumber) (t : T) (found : T → T) (alloc : Bool) :
    Option (Bool × HashTable T) := do
  let (entry, table) ← lookupCells P ht.table l keyHash sCollisionBit
  if (table entry).isLive then
    some (true, { ht with
      table := Function.update table entry { table entry with t := found (table entry).t } })
  else add { ht with table := table } ⟨entry, keyHash⟩ t alloc

/-- `relookupOrAdd`, with the hash code of the pointer. -/
def relookupOrAdd (l : Lookup) (keyHash : HashNumber) (t : T) (alloc : Bool) :
    Option (Bool × HashTable T) :=
  ht.findOrAdd P l keyHash t id alloc

/-- `put` of `HashMap` and of `HashSet`; `found` assigns the value in the one and does nothing in
the other. -/
def put (l : Lookup) (t : T) (found : T → T) (alloc : Bool) : Option (Bool × HashTable T) :=
  ht.findOrAdd P l (prepareHash P l) t found alloc

/-- `lookupForAdd`, then `add` if there is nothing. -/
def lookupForAddThenAdd (l : Lookup) (t : T) (alloc : Bool) : Option (Bool × HashTable T) :=
  ht.findOrAdd P l (prepareHash P l) t id alloc

/-- `remove` of what is found. -/
def remove (l : Lookup) (alloc : Bool) : Option (HashTable T) := do
  let entry ← ht.lookup P l
  if (ht.table entry).isLive then (ht.removeEntry entry).checkUnderloaded alloc else some ht

end HashTable

/-- The loop of `init` that rounds up: the logarithm. -/
def roundUpLoop (capacity : Nat) : Nat → Nat → Nat
  | 0, roundUpLog2 => roundUpLog2
  | fuel + 1, roundUpLog2 =>
    if 2 ^ roundUpLog2 < capacity then roundUpLoop capacity fuel (roundUpLog2 + 1)
    else roundUpLog2

/-- `init`; none if it fails. -/
def HashTable.init [Inhabited T] (length : BitVec 32) (alloc : Bool) : Option (HashTable T) :=
  if sMaxInit < length.toNat then none
  else
    let capacity := ((length * BitVec.ofNat 32 sInvMaxAlpha) >>> 7).toNat
    let capacity := if capacity < sMinSize then sMinSize else capacity
    let roundUpLog2 := roundUpLoop capacity sHashBits sMinSizeLog2
    if !alloc then none
    else some {
      hashShift := sHashBits - roundUpLog2
      entryCount := 0
      gen := 0#32
      removedCount := 0
      table := fun _ => Entry.new }

/-! ## Enumeration -/

/-- `Range` and `Enum`. -/
structure Enum (T : Type) where
  ht : HashTable T
  cur : Nat
  validEntry : Bool
  rekeyed : Bool
  removed : Bool

/-- `++cur` as long as the entry is not live. -/
def HashTable.skipDead (ht : HashTable T) : Nat → Nat → Nat
  | 0, cur => cur
  | fuel + 1, cur =>
    if h : cur < ht.capacity then
      if (ht.table ⟨cur, h⟩).isLive then cur else ht.skipDead fuel (cur + 1)
    else cur

namespace Enum

/-- The constructor. -/
def start (ht : HashTable T) : Enum T where
  ht := ht
  cur := ht.skipDead ht.capacity 0
  validEntry := true
  rekeyed := false
  removed := false

variable (e : Enum T)

def empty : Bool := e.cur = e.ht.capacity

/-- The place of the current entry; none if there is none, or if it is not valid. -/
def slot? : Option (Slot e.ht.hashShift) :=
  if h : e.validEntry ∧ e.cur < e.ht.capacity then some ⟨e.cur, h.2⟩ else none

/-- `front`. -/
def front? : Option T := e.slot?.map fun i => (e.ht.table i).t

/-- `popFront`; none if the range is empty. -/
def popFront : Option (Enum T) :=
  if e.empty then none
  else some { e with cur := e.ht.skipDead e.ht.capacity (e.cur + 1), validEntry := true }

variable [Inhabited T]

def removeFront : Option (Enum T) := do
  let i ← e.slot?
  some { e with ht := e.ht.removeEntry i, removed := true, validEntry := false }

def rekeyFront (l : Lookup) (k : Key) : Option (Enum T) := do
  let i ← e.slot?
  if matchEntry P (e.ht.table i) l then some e
  else do
    let t := P.setKey (e.ht.table i).t k
    let ht ← (e.ht.removeEntry i).putNewInfallible P l t
    some { e with ht := ht, rekeyed := true, validEntry := false }

/-- The destructor, and whether the assertion that it comes to holds. -/
def finish (alloc : Bool) : Option (HashTable T × Bool) := do
  let (ht, held) ← (if e.rekeyed then e.ht.checkOverRemoved else some (e.ht, true))
  let ht ← (if e.removed then ht.checkUnderloaded alloc else some ht)
  some (ht, held)

end Enum

end

end SpiderMonkey.Ds
