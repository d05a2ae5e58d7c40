import SpiderMonkey.Vm.DenseArray

/-! # The length of an array

Elements of dense and slow arrays, and the length that stays above them (`jsarray.cpp`): setting,
defining and deleting an element, `array_length_setter` and `JSObject::makeDenseArraySlow`. An
element of a slow array is a property with attributes.
-/

namespace SpiderMonkey.Vm

/-- `JSPROP_ENUMERATE`, `JSPROP_READONLY`, `JSPROP_PERMANENT`, and whether one of `JSPROP_GETTER` and
`JSPROP_SETTER` is set. -/
structure ElementAttrs where
  enumerate : Bool
  readOnly : Bool
  permanent : Bool
  accessor : Bool
  deriving DecidableEq, Repr

/-- `JSPROP_ENUMERATE` alone. -/
def ElementAttrs.plain : ElementAttrs := ⟨true, false, false, false⟩

/-- A property; the contents are a value, or a getter and a setter. -/
structure ElementProperty (α : Type) where
  contents : α
  attrs : ElementAttrs
  deriving DecidableEq, Repr

/-- A slow array. `props` are the properties with an integer id from the last one on. -/
structure SlowArray (α : Type) where
  props : List (Nat × ElementProperty α)
  length : Nat
  deriving DecidableEq, Repr

inductive ArrayObject (α : Type) where
  | dense (d : DenseArray α)
  | slow (s : SlowArray α)

/-- How an operation ends. It is refused where a property is read-only, has no setter or is
permanent, where the object is not extensible, and where a length is no array length: that is an
error or not, depending on the mode. It fails where memory or time runs out. -/
inductive ArrayResult where
  | done
  | refused
  | failed
  deriving DecidableEq, Repr

/-- What is outside the array: what succeeds in a call, and the prototype chain. -/
structure ArrayCall where
  elements : ArrayContext
  /-- `getInitialShape` -/
  initialShape : Bool
  /-- `allocateSlowArrayElements` -/
  lengthElements : Bool
  /-- `addProperty` of the length -/
  lengthProperty : Bool
  /-- `addDataProperty` of an element -/
  addsElement : Nat → Bool
  putsProperty : Bool
  removesProperty : Nat → Bool
  /-- `js_SuppressDeletedElement`, `js_SuppressDeletedProperty` -/
  suppresses : Nat → Bool
  /-- `JS_CHECK_OPERATION_LIMIT` -/
  withinLimit : Nat → Bool
  /-- `JS_NewPropertyIterator` -/
  iterator : Bool
  /-- `js_PrototypeHasIndexedProperties` -/
  prototypeIndexed : Bool
  /-- Whether a property that is not there can be added: the object is extensible, and nothing on the
  prototype chain is in the way. -/
  extensible : Bool

variable {α : Type}

/-- `MAX_ARRAY_INDEX`; an id above it is no index. -/
abbrev maxArrayIndex : Nat := 4294967294

/-! ## Slow arrays -/

namespace SlowArray

/-- `nativeLookup` -/
def lookup (s : SlowArray α) (index : Nat) : Option (ElementProperty α) := s.props.lookup index

/-- `putProperty` -/
def putProperty (s : SlowArray α) (index : Nat) (p : ElementProperty α) : SlowArray α :=
  { s with
    props :=
      if (s.lookup index).isSome then s.props.map fun q => if q.1 = index then (index, p) else q
      else (index, p) :: s.props }

/-- `removeProperty` -/
def removeProperty (s : SlowArray α) (index : Nat) : SlowArray α :=
  { s with props := s.props.filter fun q => q.1 ≠ index }

/-- `slowarray_addProperty` -/
def addProperty (s : SlowArray α) (index : Nat) : SlowArray α :=
  if maxArrayIndex < index then s
  else if s.length ≤ index then { s with length := index + 1 }
  else s

/-- `baseops::SetPropertyHelper`. What a setter does are calls of their own. -/
def setPropertyHelper (call : ArrayCall) (s : SlowArray α) (index : Nat) (v : α) :
    ArrayResult × SlowArray α :=
  match s.lookup index with
  | some p =>
    if p.attrs.accessor then (.done, s)
    else if p.attrs.readOnly then (.refused, s)
    else (.done, s.putProperty index { p with contents := v })
  | none =>
    if !call.extensible then (.refused, s)
    else if !call.putsProperty then (.failed, s)
    else (.done, (s.putProperty index ⟨v, .plain⟩).addProperty index)

/-- `DefineNativeProperty` -/
def defineNativeProperty (call : ArrayCall) (s : SlowArray α) (index : Nat)
    (p : ElementProperty α) : ArrayResult × SlowArray α :=
  if !call.putsProperty then (.failed, s)
  else (.done, (s.putProperty index p).addProperty index)

/-- `baseops::DeleteGeneric` -/
def deleteGeneric (call : ArrayCall) (s : SlowArray α) (index : Nat) : ArrayResult × SlowArray α :=
  match s.lookup index with
  | none => (.done, s)
  | some p =>
    if p.attrs.permanent then (.refused, s)
    else if !call.removesProperty index then (.failed, s)
    else if !call.suppresses index then (.failed, s.removeProperty index)
    else (.done, s.removeProperty index)

/-- The loop of `array_length_setter` that deletes one index after the other; the first argument is
`oldlen`. -/
def deleteLoop (call : ArrayCall) (newlen : Nat) : Nat → SlowArray α → ArrayResult × SlowArray α
  | 0, s => (.done, { s with length := newlen })
  | oldlen + 1, s =>
    if !call.withinLimit oldlen then (.failed, { s with length := oldlen + 1 })
    else
      match s.deleteGeneric call oldlen with
      | (.failed, s) => (.failed, { s with length := oldlen + 1 })
      | (.refused, s) => (.refused, { s with length := oldlen + 1 })
      | (.done, s) =>
        if oldlen = newlen then (.done, { s with length := newlen })
        else deleteLoop call newlen oldlen s

/-- The loop of `array_length_setter` over the properties. `JS_NextProperty` skips those that are not
enumerable, and what `deleteElement` says is not looked at. -/
def sweepLoop (call : ArrayCall) (newlen gap : Nat) :
    List (Nat × ElementProperty α) → SlowArray α → ArrayResult × SlowArray α
  | [], s => if !call.withinLimit 0 then (.failed, s) else (.done, { s with length := newlen })
  | q :: rest, s =>
    if !q.2.attrs.enumerate then sweepLoop call newlen gap rest s
    else if !call.withinLimit (rest.length + 1) then (.failed, s)
    else if q.1 ≤ maxArrayIndex ∧ newlen ≤ q.1 ∧ q.1 - newlen < gap then
      match s.deleteGeneric call q.1 with
      | (.failed, s) => (.failed, s)
      | (_, s) => sweepLoop call newlen gap rest s
    else sweepLoop call newlen gap rest s

end SlowArray

/-! ## Conversion -/

/-- The loop of `makeDenseArraySlow`. -/
def addElements (call : ArrayCall) :
    List (Option α) → Nat → List (Nat × ElementProperty α) →
      Option (List (Nat × ElementProperty α))
  | [], _, props => some props
  | none :: elems, i, props => addElements call elems (i + 1) props
  | some v :: elems, i, props =>
    if !call.addsElement i then none
    else addElements call elems (i + 1) ((i, ⟨v, .plain⟩) :: props)

/-- `JSObject::makeDenseArraySlow`; where it fails, with the elements that `obj->elements` is set back
to. -/
def DenseArray.makeDenseArraySlow (call : ArrayCall) (d : DenseArray α) :
    Except (DenseArray α) (SlowArray α) :=
  let grown := if d.dynamic then .ok d else d.growElements call.elements d.capacity
  match grown with
  | .error _ => .error d
  | .ok elems =>
    if !call.initialShape then .error elems
    -- `obj->shape_` and `obj->elements` are replaced from here on, and set back on each failure
    else if !(call.lengthElements && call.lengthProperty) then .error elems
    else
      match addElements call elems.elements 0 [] with
      | none => .error elems
      | some props => .ok ⟨props, elems.length⟩

/-! ## Arrays -/

namespace ArrayObject

/-- `getArrayLength` -/
def length : ArrayObject α → Nat
  | dense d => d.length
  | slow s => s.length

/-- The own property of an index. -/
def own : ArrayObject α → Nat → Option (ElementProperty α)
  | dense d, index => (d.elements[index]?).join.map fun v => ⟨v, .plain⟩
  | slow s, index => s.lookup index

/-- What is left to do once the array is slow. -/
def onSlow (call : ArrayCall) (d : DenseArray α)
    (f : SlowArray α → ArrayResult × SlowArray α) : ArrayResult × ArrayObject α :=
  match d.makeDenseArraySlow call with
  | .error d => (.failed, dense d)
  | .ok s => ((f s).1, slow (f s).2)

/-- The elements that `array_setElement` and `array_defineElement` write to in a dense array. -/
def setDense (call : ArrayCall) (d : DenseArray α) (index : Nat) (v : α)
    (f : SlowArray α → ArrayResult × SlowArray α) : ArrayResult × ArrayObject α :=
  match d.ensureElements call.elements index 1 with
  | .error _ => (.failed, dense d)
  | .ok none => onSlow call d f
  | .ok (some d) =>
    let d := if d.length ≤ index then { d with length := index + 1 } else d
    (.done, dense (d.setElement index (some v)))

/-- `array_setElement`, and `array_setGeneric` of an index. -/
def setElement (call : ArrayCall) (a : ArrayObject α) (index : Nat) (v : α) :
    ArrayResult × ArrayObject α :=
  match a with
  | slow s => ((s.setPropertyHelper call index v).1, slow (s.setPropertyHelper call index v).2)
  | dense d =>
    if maxArrayIndex < index ∨ call.prototypeIndexed = true then
      onSlow call d (·.setPropertyHelper call index v)
    else setDense call d index v (·.setPropertyHelper call index v)

/-- `array_defineElement`, and `array_defineGeneric` of an index. -/
def defineElement (call : ArrayCall) (a : ArrayObject α) (index : Nat) (p : ElementProperty α) :
    ArrayResult × ArrayObject α :=
  match a with
  | slow s => ((s.defineNativeProperty call index p).1, slow (s.defineNativeProperty call index p).2)
  | dense d =>
    if p.attrs ≠ .plain ∨ maxArrayIndex < index then
      onSlow call d (·.defineNativeProperty call index p)
    else setDense call d index p.contents (·.defineNativeProperty call index p)

/-- `array_deleteElement` -/
def deleteElement (call : ArrayCall) (a : ArrayObject α) (index : Nat) :
    ArrayResult × ArrayObject α :=
  match a with
  | slow s => ((s.deleteGeneric call index).1, slow (s.deleteGeneric call index).2)
  | dense d =>
    let d := if index < d.elements.length then d.setElement index none else d
    (if call.suppresses index then .done else .failed, dense d)

/-- `array_length_setter`, of a value that converts to a natural number. -/
def setLength (call : ArrayCall) (a : ArrayObject α) (newlen : Nat) :
    ArrayResult × ArrayObject α :=
  if 2 ^ 32 ≤ newlen then (.refused, a)
  else if a.length = newlen then (.done, a)
  else
    match a with
    | dense d =>
      if d.length < newlen then (.done, dense { d with length := newlen })
      else
        let oldcap := d.capacity
        let d := if newlen < d.elements.length then d.setInitializedLength newlen else d
        let d := if newlen < oldcap then d.shrinkElements call.elements newlen else d
        (.done, dense { d with length := newlen })
    | slow s =>
      if s.length < newlen then (.done, slow { s with length := newlen })
      else if s.length - newlen < 2 ^ 24 then
        ((s.deleteLoop call newlen s.length).1, slow (s.deleteLoop call newlen s.length).2)
      else if !call.iterator then (.failed, slow s)
      else
        ((s.sweepLoop call newlen (s.length - newlen) s.props).1,
          slow (s.sweepLoop call newlen (s.length - newlen) s.props).2)

/-- `makeDenseArraySlow`, where something else asks for it. -/
def makeSlow (call : ArrayCall) : ArrayObject α → ArrayResult × ArrayObject α
  | dense d => onSlow call d (.done, ·)
  | slow s => (.done, slow s)

end ArrayObject

/-- The operations of a run. -/
inductive ArrayOp (α : Type) where
  | set (index : Nat) (v : α)
  | define (index : Nat) (p : ElementProperty α)
  | delete (index : Nat)
  | setLength (newlen : Nat)
  | makeSlow

/-- One operation. -/
def ArrayObject.perform (call : ArrayCall) (a : ArrayObject α) :
    ArrayOp α → ArrayResult × ArrayObject α
  | .set index v => a.setElement call index v
  | .define index p => a.defineElement call index p
  | .delete index => a.deleteElement call index
  | .setLength newlen => a.setLength call newlen
  | .makeSlow => a.makeSlow call

end SpiderMonkey.Vm
