import Mathlib

/-! # The hash sets of type inference

`HashSetInsert` and `HashSetLookup` of `jsinferinlines.h`. There is no tag to tell the three
representations apart and no capacity: both follow from the number of elements.
-/

namespace SpiderMonkey.Infer.HashSet

variable {U K : Type} [DecidableEq K]

/-- `KEY`: the keys of the elements, and the bits of a key. -/
structure KeyOps (U K : Type) where
  getKey : U → K
  keyBits : K → BitVec 32

def setArraySize : ℕ := 8

/-- `HashSetCapacity`, for fewer than `2 ^ 28` elements. -/
def hashSetCapacity (count : ℕ) : ℕ :=
  if count ≤ setArraySize then setArraySize else 1 <<< (Nat.log 2 count + 2)

/-- `U **values`: null, an element, or an array of elements and null. -/
inductive Values (U : Type) where
  | null
  | element (u : U)
  | array (slots : List (Option U))

/-- `U **`, what an insertion returns: the address of `values`, or that of a slot. -/
inductive Entry where
  | values
  | slot (i : ℕ)
  deriving DecidableEq, Repr

variable (P : KeyOps U K)

/-- The FNV hash. -/
def hashKey (v : K) : BitVec 32 :=
  let nv := P.keyBits v
  let hash : BitVec 32 := 84696351#32 ^^^ (nv &&& 0xff#32)
  let hash := (hash * 16777619#32) ^^^ ((nv >>> 8) &&& 0xff#32)
  let hash := (hash * 16777619#32) ^^^ ((nv >>> 16) &&& 0xff#32)
  (hash * 16777619#32) ^^^ ((nv >>> 24) &&& 0xff#32)

def firstPos (capacity : ℕ) (key : K) : ℕ := (hashKey P key).toNat &&& (capacity - 1)

/-- The probe loops, with fuel: they end at null, or where there is a hit. None is a read beyond the
array, or a loop without end. -/
def probe (slots : List (Option U)) (capacity : ℕ) (hit : U → Bool) : ℕ → ℕ → Option ℕ
  | 0, _ => none
  | fuel + 1, pos =>
    match slots[pos]? with
    | none => none
    | some none => some pos
    | some (some u) =>
      if hit u then some pos else probe slots capacity hit fuel ((pos + 1) &&& (capacity - 1))

/-- The search in an array that is not hashed, `n` more elements from `i` on. -/
def scan (slots : List (Option U)) (key : K) : ℕ → ℕ → Option (Option ℕ)
  | 0, _ => some none
  | n + 1, i =>
    match slots[i]? with
    | some (some u) => if P.getKey u = key then some (some i) else scan slots key n (i + 1)
    | _ => none

/-- The loop that moves the elements to a new array. -/
def rehash (newCapacity : ℕ) : List (Option U) → List (Option U) → Option (List (Option U))
  | [], newValues => some newValues
  | none :: values, newValues => rehash newCapacity values newValues
  | some u :: values, newValues => do
    let pos ← probe newValues newCapacity (fun _ => false) newCapacity
      (firstPos P newCapacity (P.getKey u))
    rehash newCapacity values (newValues.set pos (some u))

/-- `HashSetInsertTry`: the slot, none if the allocation fails, and `values` and `count`. -/
def hashSetInsertTry (values : List (Option U)) (count : ℕ) (key : K) (malloc : Bool) :
    Option (Option ℕ × List (Option U) × ℕ) := do
  let capacity := hashSetCapacity count
  let insertpos := firstPos P capacity key
  let converting := count = setArraySize
  let insertpos ←
    if converting then some insertpos
    else probe values capacity (fun u => P.getKey u = key) capacity insertpos
  if ¬converting ∧ (values[insertpos]?).join.isSome then some (some insertpos, values, count)
  else
    let count := count + 1
    let newCapacity := hashSetCapacity count
    if newCapacity = capacity then some (some insertpos, values, count)
    else if malloc = false then some (none, values, count)
    else if values.length < capacity then none
    else do
      let newValues ← rehash P newCapacity (values.take capacity) (List.replicate newCapacity none)
      let insertpos ← probe newValues newCapacity (fun _ => false) newCapacity
        (firstPos P newCapacity key)
      some (some insertpos, newValues, count)

/-- `HashSetInsert`. None is a failed assertion, or `values` taken for what it is not. -/
def hashSetInsert (values : Values U) (count : ℕ) (key : K) (malloc : Bool) :
    Option (Option Entry × Values U × ℕ) :=
  let insertTry (slots : List (Option U)) : Option (Option Entry × Values U × ℕ) :=
    (hashSetInsertTry P slots count key malloc).map fun r =>
      (r.1.map Entry.slot, .array r.2.1, r.2.2)
  match count, values with
  | 0, .null => some (some .values, .null, 1)
  | 1, .element oldData =>
    if P.getKey oldData = key then some (some .values, .element oldData, 1)
    else if malloc = false then some (none, .element oldData, 1)
    else
      let slots := (List.replicate setArraySize none).set 0 (some oldData)
      some (some (.slot 1), .array slots, 2)
  | count + 2, .array slots =>
    if count + 2 ≤ setArraySize then
      match scan P slots key (count + 2) 0 with
      | none => none
      | some (some i) => some (some (.slot i), .array slots, count + 2)
      | some none =>
        if count + 2 < setArraySize then
          some (some (.slot (count + 2)), .array slots, count + 3)
        else insertTry slots
    else insertTry slots
  | _, _ => none

/-- `HashSetLookup` -/
def hashSetLookup (values : Values U) (count : ℕ) (key : K) : Option (Option U) :=
  match count, values with
  | 0, _ => some none
  | 1, .element u => some (if P.getKey u = key then some u else none)
  | count + 2, .array slots =>
    if count + 2 ≤ setArraySize then
      (scan P slots key (count + 2) 0).map fun i => i.bind fun i => (slots[i]?).join
    else
      let capacity := hashSetCapacity (count + 2)
      (probe slots capacity (fun u => P.getKey u = key) capacity (firstPos P capacity key)).map
        fun pos => (slots[pos]?).join
  | _, _ => none

/-! ## The caller -/

/-- `*pentry` -/
def Values.read (values : Values U) : Entry → Option (Option U)
  | .values =>
    match values with
    | .null => some none
    | .element u => some (some u)
    | .array _ => none
  | .slot i =>
    match values with
    | .array slots => slots[i]?
    | _ => none

/-- `*pentry = u` -/
def Values.write (values : Values U) (u : U) : Entry → Values U
  | .values => .element u
  | .slot i =>
    match values with
    | .array slots => .array (slots.set i (some u))
    | values => values

/-- What `addType` does with an object: it fills a slot that is null, and keeps the number of elements
if there is no slot, or one that is full. Whether there is a slot, `values` and `count`. -/
def addObject (values : Values U) (count : ℕ) (u : U) (malloc : Bool) :
    Option (Bool × Values U × ℕ) := do
  let (pentry, values, newCount) ← hashSetInsert P values count (P.getKey u) malloc
  match pentry with
  | none => some (false, values, count)
  | some pentry =>
    match ← values.read pentry with
    | some _ => some (true, values, count)
    | none => some (true, values.write u pentry, newCount)

/-- What is stored. -/
def Values.elements : Values U → List U
  | .null => []
  | .element u => [u]
  | .array slots => slots.reduceOption

/-- The sets that calls come to, with the keys of the calls that succeeded. -/
inductive SetRuns : Values U → ℕ → List K → Prop
  | init : SetRuns .null 0 []
  | add {values values' : Values U} {count count' : ℕ} {keys : List K} {u : U} {malloc ok : Bool}
      (h : SetRuns values count keys)
      (hadd : addObject P values count u malloc = some (ok, values', count')) :
      SetRuns values' count' (if ok then P.getKey u :: keys else keys)

end SpiderMonkey.Infer.HashSet
