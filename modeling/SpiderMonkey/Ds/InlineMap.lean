import SpiderMonkey.Ds.HashTableMap

/-! # Small maps

`InlineMap` of `ds/InlineMap.h`: an array of a few elements, which is searched from its beginning,
and a hash map in its place once the array is full. The key zero marks the places of the array from
which a key has been removed. The functions return none where an assertion of the source fails.
-/

namespace SpiderMonkey.Ds

open Lib

variable {Key Value : Type} [DecidableEq Key]

/-- The policy of `HashMap`, over a hash function for its keys. -/
def wordMapPolicy (hash : Key → HashNumber) : HashPolicy (Key × Value) Key Key where
  getKey := Prod.fst
  setKey t k := (k, t.2)
  hash := hash
  matchKey k l := k = l

/-- `map` is none until it is initialised. Of `inl` there are as many places as the map has inline
elements. -/
structure InlineMap (Key Value : Type) where
  inlNext : Nat
  inlCount : Nat
  inl : Nat → Key × Value
  map : Option (HashTable (Key × Value))

/-- Which allocations of an operation succeed: that of the table of the map, those for the elements
at the places of the array, and that for a new element or for a table that has become too large. -/
structure InlineAlloc where
  initOk : Bool
  copyOk : Nat → Bool
  addOk : Bool

namespace InlineMap

variable [Zero Key] (hash : Key → HashNumber) (InlineElems : Nat) (m : InlineMap Key Value)

/-- The constructor; the array is not initialised. -/
def new (inl : Nat → Key × Value) : InlineMap Key Value := ⟨0, 0, inl, none⟩

def usingMap : Bool := InlineElems < m.inlNext

def count : Option Nat :=
  if m.usingMap InlineElems then m.map.map HashTable.entryCount else some m.inlCount

def empty : Option Bool :=
  if m.usingMap InlineElems then m.map.map fun map => map.entryCount = 0
  else some (m.inlCount = 0)

def clear : InlineMap Key Value := { m with inlNext := 0, inlCount := 0 }

/-- The search of `lookup` and `lookupForAdd` in the array. -/
def inlineLookup (key : Key) : Option Nat :=
  (List.range m.inlNext).find? fun it => (m.inl it).1 = key

variable [Inhabited Key] [Inhabited Value]

/-! ## From the array to the map -/

/-- The loop of `switchToMap`. -/
def copyInline (inl : Nat → Key × Value) (copyOk : Nat → Bool) :
    List Nat → HashTable (Key × Value) → Option (Bool × HashTable (Key × Value))
  | [], map => some (true, map)
  | it :: rest, map =>
    if (inl it).1 ≠ 0 then do
      let (ok, map) ← map.putNew (wordMapPolicy hash) (inl it).1 (inl it) (copyOk it)
      if ok then copyInline inl copyOk rest map else some (false, map)
    else copyInline inl copyOk rest map

/-- The map before anything is put into it, unless it cannot be initialised. -/
def clearedMap (alloc : InlineAlloc) : Option (HashTable (Key × Value)) :=
  match m.map with
  | some map => some map.clear
  | none => HashTable.init (BitVec.ofNat 32 m.inlCount) alloc.initOk

def switchToMap (alloc : InlineAlloc) : Option (Bool × InlineMap Key Value) :=
  if m.inlNext ≠ InlineElems then none
  else
    match m.clearedMap alloc with
    | none => some (false, m)
    | some map => do
      let (ok, map) ← copyInline hash m.inl alloc.copyOk (List.range m.inlNext) map
      if !ok then some (false, { m with map := some map })
      else if map.entryCount ≠ m.inlCount then none
      else some (true, { m with inlNext := InlineElems + 1, map := some map })

def switchAndAdd (key : Key) (value : Value) (alloc : InlineAlloc) :
    Option (Bool × InlineMap Key Value) := do
  let (ok, m) ← m.switchToMap hash InlineElems alloc
  if !ok then some (false, m)
  else do
    let map ← m.map
    let (ok, map) ← map.putNew (wordMapPolicy hash) key (key, value) alloc.addOk
    some (ok, { m with map := some map })

/-! ## Operations -/

/-- What is found; a search that is made to add a key marks the entries of the map it passes. -/
def lookupWith (collisionBit : HashNumber) (key : Key) :
    Option (Option Value × InlineMap Key Value) :=
  if m.usingMap InlineElems then do
    let map ← m.map
    let (o, map) ← map.lookupWith (wordMapPolicy hash) key collisionBit
    some (o.map Prod.snd, { m with map := some map })
  else some ((m.inlineLookup key).map fun it => (m.inl it).2, m)

def lookup (key : Key) : Option (Option Value × InlineMap Key Value) :=
  m.lookupWith hash InlineElems 0#32 key

/-- `lookupForAdd`, if nothing is added then. -/
def lookupForAdd (key : Key) : Option (Option Value × InlineMap Key Value) :=
  m.lookupWith hash InlineElems sCollisionBit key

/-- `add` at the place that is next in the array. -/
def addInline (key : Key) (value : Value) (alloc : InlineAlloc) :
    Option (Bool × InlineMap Key Value) :=
  if m.inlNext = InlineElems then m.switchAndAdd hash InlineElems key value alloc
  else some (true, { m with
    inl := Function.update m.inl m.inlNext (key, value)
    inlCount := m.inlCount + 1
    inlNext := m.inlNext + 1 })

/-- `lookupForAdd`, then `add` if there is nothing. -/
def lookupForAddThenAdd (key : Key) (value : Value) (alloc : InlineAlloc) :
    Option (Bool × InlineMap Key Value) :=
  if m.usingMap InlineElems then do
    let map ← m.map
    let (ok, map) ← map.lookupForAddThenAdd (wordMapPolicy hash) key (key, value) alloc.addOk
    some (ok, { m with map := some map })
  else
    match m.inlineLookup key with
    | some _ => some (true, m)
    | none => m.addInline hash InlineElems key value alloc

def put (key : Key) (value : Value) (alloc : InlineAlloc) : Option (Bool × InlineMap Key Value) :=
  if m.usingMap InlineElems then do
    let map ← m.map
    let (ok, map) ← map.put (wordMapPolicy hash) key (key, value) (fun t => (t.1, value)) alloc.addOk
    some (ok, { m with map := some map })
  else
    match m.inlineLookup key with
    | some it =>
      some (true, { m with inl := Function.update m.inl it ((m.inl it).1, value) })
    | none => m.addInline hash InlineElems key value alloc

/-- `remove` of a key. -/
def remove (key : Key) (alloc : InlineAlloc) : Option (InlineMap Key Value) :=
  if m.usingMap InlineElems then do
    let map ← m.map
    let map ← map.remove (wordMapPolicy hash) key alloc.addOk
    some { m with map := some map }
  else
    match m.inlineLookup key with
    | some it =>
      if m.inlCount = 0 then none
      else some { m with
        inl := Function.update m.inl it (0, (m.inl it).2)
        inlCount := m.inlCount - 1 }
    | none => some m

/-! ## Ranges -/

/-- `advancePastNulls` -/
def advancePastNulls (last : Nat) : Nat → Nat → Nat
  | 0, cur => cur
  | fuel + 1, cur =>
    if cur < last ∧ (m.inl cur).1 = 0 then advancePastNulls last fuel (cur + 1) else cur

/-- `for (; !r.empty(); r.popFront())` over the array: what `front` is each time. -/
def inlinePass (last : Nat) : Nat → Nat → Option (List (Key × Value))
  | 0, _ => none
  | fuel + 1, cur =>
    if cur = last then some []
    else do
      let rest ← inlinePass last fuel (m.advancePastNulls last last (cur + 1))
      some (m.inl cur :: rest)

/-- A pass over `all()`. -/
def all : Option (List (Key × Value)) :=
  if m.usingMap InlineElems then do
    let map ← m.map
    let (_, ts) ← (Enum.start map).drain (fun _ => false) (map.capacity + 1)
    some ts
  else m.inlinePass m.inlNext (m.inlNext + 1) (m.advancePastNulls m.inlNext m.inlNext 0)

end InlineMap

/-! ## Runs -/

/-- What a client does. -/
inductive InlineOp (Key Value : Type) where
  | lookup (key : Key)
  | lookupForAdd (key : Key)
  | lookupForAddThenAdd (key : Key) (value : Value) (alloc : InlineAlloc)
  | put (key : Key) (value : Value) (alloc : InlineAlloc)
  | remove (key : Key) (alloc : InlineAlloc)
  | clear
  | count
  | empty
  | all

/-- What the client is told. -/
inductive InlineResult (Key Value : Type) where
  | done (ok : Bool)
  | found (value : Option Value)
  | number (n : Nat)
  | flag (b : Bool)
  | yielded (elements : List (Key × Value))

section

variable [Zero Key] [Inhabited Key] [Inhabited Value]

def inlineStep (hash : Key → HashNumber) (InlineElems : Nat) (m : InlineMap Key Value) :
    InlineOp Key Value → Option (InlineMap Key Value × InlineResult Key Value)
  | .lookup key => do
    let (o, m) ← m.lookup hash InlineElems key
    some (m, .found o)
  | .lookupForAdd key => do
    let (o, m) ← m.lookupForAdd hash InlineElems key
    some (m, .found o)
  | .lookupForAddThenAdd key value alloc => do
    let (ok, m) ← m.lookupForAddThenAdd hash InlineElems key value alloc
    some (m, .done ok)
  | .put key value alloc => do
    let (ok, m) ← m.put hash InlineElems key value alloc
    some (m, .done ok)
  | .remove key alloc => do
    let m ← m.remove hash InlineElems key alloc
    some (m, .done true)
  | .clear => some (m.clear, .done true)
  | .count => do
    let n ← m.count InlineElems
    some (m, .number n)
  | .empty => do
    let b ← m.empty InlineElems
    some (m, .flag b)
  | .all => do
    let ts ← m.all InlineElems
    some (m, .yielded ts)

end

end SpiderMonkey.Ds
