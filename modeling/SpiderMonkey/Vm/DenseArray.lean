import Mathlib

/-! # Dense arrays

The vector of elements of a dense array, its capacity and its initialized length (`jsobj.cpp`,
`jsarrayinlines.h`). A hole is `none`.
-/

namespace SpiderMonkey.Vm

inductive ArrayError where
  | outOfMemory
  deriving DecidableEq, Repr

structure ArrayContext where
  /-- Whether an allocation for so many elements succeeds. -/
  allocates : Nat → Bool

/-- A dense array; `elements` is the vector up to the initialized length. -/
structure DenseArray (α : Type) where
  elements : List (Option α)
  capacity : Nat
  length : Nat
  dynamic : Bool

variable {α : Type}

/-! ## Dense elements -/

/-- `MIN_SPARSE_INDEX` -/
abbrev minSparseIndex : Nat := 256

/-- `JSObject::NELEMENTS_LIMIT` -/
abbrev nelementsLimit : Nat := 2 ^ 28

/-- `SLOT_CAPACITY_MIN` -/
abbrev slotCapacityMin : Nat := 8

namespace DenseArray

/-- The loop of `willBeSparseDenseArray`. -/
def sparseLoop : List (Option α) → Nat → Bool
  | [], _ => true
  | none :: elems, count => sparseLoop elems count
  | some _ :: elems, count => if count - 1 = 0 then false else sparseLoop elems (count - 1)

/-- `JSObject::willBeSparseDenseArray` -/
def willBeSparse (d : DenseArray α) (requiredCapacity newElementsHint : Nat) : Bool :=
  if nelementsLimit ≤ requiredCapacity then true
  else if requiredCapacity / 4 ≤ newElementsHint then false
  else if d.capacity < requiredCapacity / 4 - newElementsHint then true
  else sparseLoop d.elements (requiredCapacity / 4 - newElementsHint)

/-- `JSObject::growElements` -/
def growElements (cx : ArrayContext) (d : DenseArray α) (newcap : Nat) :
    Except ArrayError (DenseArray α) :=
  let doublingMax := 1024 * 1024
  let chunk := doublingMax / 8
  let nextsize := if d.capacity ≤ doublingMax then d.capacity * 2 else d.capacity + d.capacity >>> 3
  let wanted := max newcap nextsize
  let actual :=
    if chunk ≤ wanted then (wanted + chunk - 1) / chunk * chunk
    else if wanted < slotCapacityMin then slotCapacityMin else wanted
  if nelementsLimit ≤ actual ∨ actual < d.capacity ∨ actual < newcap then .error .outOfMemory
  else if !cx.allocates actual then .error .outOfMemory
  else .ok { d with capacity := actual, dynamic := true }

/-- `JSObject::shrinkElements` -/
def shrinkElements (cx : ArrayContext) (d : DenseArray α) (newcap : Nat) : DenseArray α :=
  if d.capacity ≤ slotCapacityMin ∨ !d.dynamic then d
  else if !cx.allocates (max newcap slotCapacityMin) then d
  else { d with capacity := max newcap slotCapacityMin }

/-- `JSObject::ensureDenseArrayInitializedLength` -/
def ensureInitializedLength (d : DenseArray α) (index extra : Nat) : DenseArray α :=
  { d with elements := d.elements ++ List.replicate (index + extra - d.elements.length) none }

/-- `JSObject::ensureDenseArrayElements`; `none` is `ED_SPARSE`. -/
def ensureElements (cx : ArrayContext) (d : DenseArray α) (index extra : Nat) :
    Except ArrayError (Option (DenseArray α)) :=
  let requiredCapacity := (index + extra) % 2 ^ 32
  let grow : Except ArrayError (Option (DenseArray α)) :=
    if minSparseIndex < requiredCapacity ∧ d.willBeSparse requiredCapacity extra = true then .ok none
    else
      match d.growElements cx requiredCapacity with
      | .error e => .error e
      | .ok d => .ok (some (d.ensureInitializedLength index extra))
  if extra = 1 then
    if index < d.capacity then .ok (some (d.ensureInitializedLength index 1))
    else if requiredCapacity = 0 then .ok none
    else grow
  else if requiredCapacity < index then .ok none
  else if requiredCapacity ≤ d.capacity then .ok (some (d.ensureInitializedLength index extra))
  else grow

/-- `JSObject::setDenseArrayInitializedLength`, to no more than the initialized length. -/
def setInitializedLength (d : DenseArray α) (length : Nat) : DenseArray α :=
  { d with elements := d.elements.take length }

/-- `JSObject::setDenseArrayElement` -/
def setElement (d : DenseArray α) (idx : Nat) (v : Option α) : DenseArray α :=
  { d with elements := d.elements.set idx v }

end DenseArray

end SpiderMonkey.Vm
