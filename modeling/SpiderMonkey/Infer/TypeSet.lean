import SpiderMonkey.Lib.Iteration

/-! # Type sets

The type sets of type inference, the constraints that listen to them, and the worklist of the
compartment that carries new types from one set to the next (`jsinfer.h`, `jsinferinlines.h`,
`jsinfer.cpp`).
-/

namespace SpiderMonkey.Infer

open Lib

/-- The types of values below `JSVAL_TYPE_OBJECT`. -/
inductive JSValueType where
  | double
  | int32
  | undefined
  | boolean
  | magic
  | string
  | null
  deriving DecidableEq, Repr

/-- The bits of `TYPE_FLAG_BASE_MASK`. -/
inductive TypeFlag where
  | undefined
  | null
  | boolean
  | int32
  | double
  | string
  | lazyArgs
  | anyObject
  | unknown
  deriving DecidableEq, Repr

instance : Fintype TypeFlag where
  elems := {.undefined, .null, .boolean, .int32, .double, .string, .lazyArgs, .anyObject, .unknown}
  complete flag := by cases flag <;> decide

/-- `types::Type`; a key is a `JSObject` or a `TypeObject`. -/
inductive InferenceType (Obj : Type) where
  | primitive (type : JSValueType)
  | anyObject
  | unknown
  | object (key : Obj)
  deriving DecidableEq, Repr

/-- What `addType` reads and writes of a `TypeObject`. -/
structure TypeObject where
  unknownProperties : Bool
  contribution : Nat
  deriving DecidableEq, Repr

/-- The objects of a compartment: those with a `TypeObject`, and the order in which the table of a
set is walked. -/
structure TypeObjects (Obj : Type) where
  typeObject : Obj → Option TypeObject
  order : List Obj → List Obj
  perm : ∀ objects, (order objects).Perm objects

/-- A constraint, by what its `newType` does: a subset constraint adds the type to its target; a
callback adds subset constraints, at the n-th notification of the compartment those of `calls n`. -/
inductive TypeConstraint (ι : Type) where
  | subset (target : ι)
  | callback (calls : Nat → List (ι × ι))

/-- `TypeSet`; the number of objects that the flags hold is the length of `objectSet`. -/
structure TypeSet (ι Obj : Type) where
  flags : TypeFlag → Bool
  objectSet : List Obj
  constraintList : List (TypeConstraint ι)

/-- `PendingWork` -/
structure PendingWork (ι Obj : Type) where
  constraint : TypeConstraint ι
  source : ι
  type : InferenceType Obj

/-- `TypeCompartment`; the first of `pendingArray` is the last that was added. -/
structure TypeCompartment (ι Obj : Type) where
  sets : ι → TypeSet ι Obj
  objects : TypeObjects Obj
  pendingArray : List (PendingWork ι Obj)
  /-- The number of notifications so far. -/
  resolved : Nat

/-- `TYPE_FLAG_OBJECT_COUNT_LIMIT` -/
abbrev objectCountLimit : Nat := 255

/-- `CONTRIBUTION_LIMIT` -/
abbrev contributionLimit : Nat := 2000

/-- `PrimitiveTypeFlag` -/
def primitiveTypeFlag : JSValueType → TypeFlag
  | .undefined => .undefined
  | .null => .null
  | .boolean => .boolean
  | .int32 => .int32
  | .double => .double
  | .string => .string
  | .magic => .lazyArgs

/-- The primitive types in the order of their flags. -/
def primitiveTypes : List JSValueType :=
  [.undefined, .null, .boolean, .int32, .double, .string, .magic]

variable {ι Obj : Type}

namespace TypeSet

/-- The constructor. -/
def empty : TypeSet ι Obj := ⟨fun _ => false, [], []⟩

/-- `unknown` -/
def unknown (set : TypeSet ι Obj) : Bool := set.flags .unknown

/-- `hasType` -/
def hasType [DecidableEq Obj] (set : TypeSet ι Obj) (type : InferenceType Obj) : Bool :=
  if set.unknown then true
  else
    match type with
    | .unknown => false
    | .primitive p => set.flags (primitiveTypeFlag p)
    | .anyObject => set.flags .anyObject
    | .object key => set.flags .anyObject || decide (key ∈ set.objectSet)

section

variable [DecidableEq Obj] (set : TypeSet ι Obj)

@[simp] lemma hasType_unknown : set.hasType .unknown = set.unknown := by
  cases h : set.unknown <;> simp [hasType, h]

@[simp] lemma hasType_primitive (p : JSValueType) :
    set.hasType (.primitive p) = (set.unknown || set.flags (primitiveTypeFlag p)) := by
  cases h : set.unknown <;> simp [hasType, h]

@[simp] lemma hasType_anyObject :
    set.hasType .anyObject = (set.unknown || set.flags .anyObject) := by
  cases h : set.unknown <;> simp [hasType, h]

@[simp] lemma hasType_object (key : Obj) :
    set.hasType (.object key) =
      (set.unknown || (set.flags .anyObject || decide (key ∈ set.objectSet))) := by
  cases h : set.unknown <;> simp [hasType, h]

end

/-- `clearObjects` -/
def clearObjects (set : TypeSet ι Obj) : TypeSet ι Obj := { set with objectSet := [] }

def setFlag (set : TypeSet ι Obj) (flag : TypeFlag) : TypeSet ι Obj :=
  { set with flags := Function.update set.flags flag true }

/-- `unknownObject:` -/
def unknownObject (set : TypeSet ι Obj) : TypeSet ι Obj := (set.setFlag .anyObject).clearObjects

/-- The part of `addType` for an object that is not in the set. -/
def addObject [DecidableEq Obj] (set : TypeSet ι Obj) (objects : TypeObjects Obj) (key : Obj) :
    TypeSet ι Obj × TypeObjects Obj × InferenceType Obj :=
  let objectCount := set.objectSet.length + 1
  if objectCount = objectCountLimit then (set.unknownObject, objects, .anyObject)
  else
    let added : TypeSet ι Obj := { set with objectSet := set.objectSet ++ [key] }
    match objects.typeObject key with
    | none => (added, objects, .object key)
    | some nobject =>
      if nobject.unknownProperties then (set.unknownObject, objects, .anyObject)
      else if 1 < objectCount then
        let contribution :=
          (nobject.contribution + (objectCount - 1) * (objectCount - 1)) % 2 ^ 32
        let nobject := { nobject with contribution := contribution }
        let objects :=
          { objects with typeObject := Function.update objects.typeObject key (some nobject) }
        if contributionLimit ≤ contribution then (set.unknownObject, objects, .anyObject)
        else (added, objects, .object key)
      else (added, objects, .object key)

/-- `addType` up to the notification of the constraints, with the type that they are notified of;
`none` where it returns early. -/
def insert [DecidableEq Obj] (set : TypeSet ι Obj) (objects : TypeObjects Obj)
    (type : InferenceType Obj) :
    Option (TypeSet ι Obj × TypeObjects Obj × InferenceType Obj) :=
  if set.unknown then none
  else
    match type with
    | .unknown => some ({ set with flags := fun _ => true }.clearObjects, objects, .unknown)
    | .primitive p =>
      let flag := primitiveTypeFlag p
      if set.flags flag then none
      else if flag = .double then some ((set.setFlag .double).setFlag .int32, objects, .primitive p)
      else some (set.setFlag flag, objects, .primitive p)
    | .anyObject =>
      if set.flags .anyObject then none else some (set.unknownObject, objects, .anyObject)
    | .object key =>
      if set.flags .anyObject then none
      else if key ∈ set.objectSet then none
      else some (set.addObject objects key)

lemma flags_setFlag (set : TypeSet ι Obj) (flag f : TypeFlag) :
    (set.setFlag flag).flags f = if f = flag then true else set.flags f :=
  Function.update_apply ..

/-- The types that `add` notifies a new constraint of. -/
def existingTypes (set : TypeSet ι Obj) (objects : TypeObjects Obj) : List (InferenceType Obj) :=
  if set.unknown then [.unknown]
  else
    (primitiveTypes.filter fun p => set.flags (primitiveTypeFlag p)).map .primitive ++
      if set.flags .anyObject then [.anyObject] else (objects.order set.objectSet).map .object

end TypeSet

namespace TypeCompartment

variable [DecidableEq ι] [DecidableEq Obj]

/-- `addPending` -/
def addPending (c : TypeCompartment ι Obj) (constraint : TypeConstraint ι) (source : ι)
    (type : InferenceType Obj) : TypeCompartment ι Obj :=
  { c with pendingArray := ⟨constraint, source, type⟩ :: c.pendingArray }

/-- `addType` up to `resolvePending`. -/
def propagateType (c : TypeCompartment ι Obj) (set : ι) (type : InferenceType Obj) :
    TypeCompartment ι Obj :=
  match (c.sets set).insert c.objects type with
  | none => c
  | some (s, objects, type) =>
    let c := { c with sets := Function.update c.sets set s, objects := objects }
    s.constraintList.foldl (fun c constraint => c.addPending constraint set type) c

/-- `add` up to `resolvePending`. -/
def propagateConstraint (c : TypeCompartment ι Obj) (set : ι) (constraint : TypeConstraint ι)
    (callExisting : Bool) : TypeCompartment ι Obj :=
  let s := c.sets set
  let c := { c with
    sets := Function.update c.sets set { s with constraintList := constraint :: s.constraintList } }
  if callExisting then
    (s.existingTypes c.objects).foldl (fun c type => c.addPending constraint set type) c
  else c

/-- `newType`. As `resolving` is set, the calls of `addType` and `addSubset` in it only add to the
pending array. -/
def newType (c : TypeCompartment ι Obj) (work : PendingWork ι Obj) : TypeCompartment ι Obj :=
  let c' := { c with resolved := c.resolved + 1 }
  match work.constraint with
  | .subset target => c'.propagateType target work.type
  | .callback calls =>
    (calls c.resolved).foldl
      (fun c call => c.propagateConstraint call.1 (.subset call.2) true) c'

/-- One round of the loop of `resolvePending`. -/
def resolveStep (c : TypeCompartment ι Obj) : Option (TypeCompartment ι Obj) :=
  match c.pendingArray with
  | [] => none
  | work :: pending => some ({ c with pendingArray := pending }.newType work)

/-- `resolvePending`, for at most `fuel` rounds. -/
def resolvePending (fuel : Nat) (c : TypeCompartment ι Obj) : Option (TypeCompartment ι Obj) :=
  untilNone resolveStep fuel c

/-- A call from outside: `addType`, `addSubset`, or `add` of a callback. -/
inductive Call (ι Obj : Type) where
  | addType (set : ι) (type : InferenceType Obj)
  | addSubset (set target : ι)
  | addCallback (set : ι) (calls : Nat → List (ι × ι)) (callExisting : Bool)

/-- The call up to `resolvePending`. -/
def propagate (c : TypeCompartment ι Obj) : Call ι Obj → TypeCompartment ι Obj
  | .addType set type => c.propagateType set type
  | .addSubset set target => c.propagateConstraint set (.subset target) true
  | .addCallback set calls callExisting => c.propagateConstraint set (.callback calls) callExisting

/-- The call. -/
def call (fuel : Nat) (c : TypeCompartment ι Obj) (e : Call ι Obj) :
    Option (TypeCompartment ι Obj) :=
  (c.propagate e).resolvePending fuel

/-- A compartment whose sets are empty. -/
def start (objects : TypeObjects Obj) : TypeCompartment ι Obj := ⟨fun _ => .empty, objects, [], 0⟩

end TypeCompartment

end SpiderMonkey.Infer
