import SpiderMonkey.Lib.Unicode
import SpiderMonkey.Vm.Chars
import SpiderMonkey.Vm.Number

/-! # Comparisons of values

`LooselyEqual` and `StrictlyEqual` of `jsinterp.cpp` and the relational operations of
`jsinterpinlines.h`. What is asked of objects and the numbers of strings are parameters; a
comparison that throws has no result.
-/

namespace SpiderMonkey

open Lib Lib.Binary64

/-- The classes of objects that are compared in a way of their own. -/
structure ObjectClasses where
  isXML : Nat → Bool
  /-- Whether the class has `ext.equality`. -/
  hasEquality : Nat → Bool

inductive TypeHint where
  | void | number
deriving DecidableEq

/-- What objects answer at some time. -/
structure ObjectHooks where
  testXMLEquality : Value → Value → Option Bool
  equality : Nat → Value → Option Bool
  defaultValue : Nat → TypeHint → Option Value

namespace Value

/-- The tags of values. -/
inductive Tag where
  | undefined | null | boolean | int32 | double | string | object | magic
deriving DecidableEq

def tag : Value → Tag
  | undefined => .undefined
  | null => .null
  | boolean _ => .boolean
  | int32 _ => .int32
  | double _ => .double
  | string _ => .string
  | object _ => .object
  | magic => .magic

def isNullOrUndefined : Value → Bool
  | undefined | null => true
  | _ => false

def isXML (C : ObjectClasses) : Value → Bool
  | object a => C.isXML a
  | _ => false

/-- `SameType` -/
def sameType (l r : Value) : Bool := l.tag = r.tag

/-- The code units of a string. -/
def stringChars (s : String) : List Jschar := s.toList.flatMap utf16EncodeChar

variable (stringToNumber : String → Float)

/-- `ToPrimitive` -/
def toPrimitive (hooks : ObjectHooks) (hint : TypeHint) : Value → Option Value
  | object a => hooks.defaultValue a hint
  | v => some v

/-- `ToNumber` of a primitive value. -/
def primitiveToNumber : Value → Option Float
  | undefined => some nan
  | null => some 0
  | boolean b => some (if b then 1 else 0)
  | int32 n => some (ofInt32 n)
  | double d => some d
  | string s => some (stringToNumber s)
  | object _ | magic => none

def strictlyEqual : Value → Value → Bool
  | string s, string t => s = t
  | double x, double y => x == y
  | double x, int32 n => x == ofInt32 n
  | int32 n, double y => ofInt32 n == y
  | l, r => l = r

variable (C : ObjectClasses) (hooks : ObjectHooks)

/-- The end of `LooselyEqual`, with two primitive values. -/
def primitivesLooselyEqual : Value → Value → Option Bool
  | string s, string t => some (s = t)
  | l, r => do
    let l ← l.primitiveToNumber stringToNumber
    let r ← r.primitiveToNumber stringToNumber
    some (l == r)

def looselyEqual (l r : Value) : Option Bool :=
  if l.isXML C || r.isXML C then hooks.testXMLEquality l r
  else if l.sameType r then
    match l, r with
    | string s, string t => some (s = t)
    | double x, double y => some (x == y)
    | object a, object b => if C.hasEquality a then hooks.equality a r else some (a = b)
    | _, _ => some (l = r)
  else if l.isNullOrUndefined then some r.isNullOrUndefined
  else if r.isNullOrUndefined then some false
  else do
    let l ← l.toPrimitive hooks .void
    let r ← r.toPrimitive hooks .void
    primitivesLooselyEqual stringToNumber l r

/-- `RELATIONAL_OP`, with its operator on integers and on numbers. -/
def relationalOp (intOp : Int → Int → Bool) (op : Float → Float → Bool) (l r : Value) :
    Option Bool :=
  match l, r with
  | int32 m, int32 n => some (intOp m.toInt n.toInt)
  | _, _ => do
    let l ← l.toPrimitive hooks .number
    let r ← r.toPrimitive hooks .number
    match l, r with
    | string s, string t => some (intOp (compareChars (stringChars s) (stringChars t)) 0)
    | _, _ => do
      let l ← l.primitiveToNumber stringToNumber
      let r ← r.primitiveToNumber stringToNumber
      some (op l r)

def lessThanOperation (l r : Value) : Option Bool :=
  relationalOp stringToNumber hooks (fun m n => m < n) (fun x y => x < y) l r

def lessThanOrEqualOperation (l r : Value) : Option Bool :=
  relationalOp stringToNumber hooks (fun m n => m ≤ n) (fun x y => x ≤ y) l r

def greaterThanOperation (l r : Value) : Option Bool :=
  relationalOp stringToNumber hooks (fun m n => m > n) (fun x y => x > y) l r

def greaterThanOrEqualOperation (l r : Value) : Option Bool :=
  relationalOp stringToNumber hooks (fun m n => m ≥ n) (fun x y => x ≥ y) l r

/-! ## What comes to the same at any time -/

section

variable {stringToNumber C hooks} {l r n u : Value}

/-- No hook is asked about primitive values. -/
lemma relationalOp_primitive (hooks' : ObjectHooks) {intOp : Int → Int → Bool}
    {op : Float → Float → Bool} (hl : ∀ a, l ≠ object a) (hr : ∀ a, r ≠ object a) :
    relationalOp stringToNumber hooks intOp op l r =
      relationalOp stringToNumber hooks' intOp op l r := by
  have hprimitive : ∀ {v : Value}, (∀ a, v ≠ object a) → ∀ hint,
      v.toPrimitive hooks hint = v.toPrimitive hooks' hint := by
    intro v hv hint
    cases v with
    | object a => exact absurd rfl (hv a)
    | _ => rfl
  unfold relationalOp
  rw [hprimitive hl, hprimitive hr]

lemma isXML_primitive (hl : ∀ a, l ≠ object a) : l.isXML C = false := by
  cases l with
  | object a => exact absurd rfl (hl a)
  | _ => rfl

lemma looselyEqual_primitive (hooks' : ObjectHooks) (hl : ∀ a, l ≠ object a)
    (hr : ∀ a, r ≠ object a) :
    looselyEqual stringToNumber C hooks l r = looselyEqual stringToNumber C hooks' l r := by
  cases l with
  | object a => exact absurd rfl (hl a)
  | _ =>
    cases r with
    | object a => exact absurd rfl (hr a)
    | _ => rfl

/-- With null or undefined, the type decides. -/
lemma looselyEqual_nullish (hn : n.isNullOrUndefined = true) (hu : u.isXML C = false) :
    looselyEqual stringToNumber C hooks u n = some u.isNullOrUndefined ∧
      looselyEqual stringToNumber C hooks n u = some u.isNullOrUndefined := by
  cases n with
  | undefined =>
    unfold looselyEqual
    rw [hu]
    cases u <;> exact ⟨rfl, rfl⟩
  | null =>
    unfold looselyEqual
    rw [hu]
    cases u <;> exact ⟨rfl, rfl⟩
  | _ => cases hn

/-- Objects without equalities of their own are compared by identity. -/
lemma looselyEqual_objects {a b : Nat} (ha : C.isXML a = false) (hb : C.isXML b = false)
    (heq : C.hasEquality a = false) :
    looselyEqual stringToNumber C hooks (object a) (object b) = some (decide (a = b)) := by
  unfold looselyEqual
  rw [isXML, isXML, ha, hb]
  simp only [Bool.or_self, Bool.false_eq_true, if_false, heq]
  rfl

/-- Of primitive values of one type, both equalities are the same. -/
lemma looselyEqual_sameType (hl : ∀ a, l ≠ object a) (h : l.sameType r = true) :
    looselyEqual stringToNumber C hooks l r = some (l.strictlyEqual r) := by
  cases l with
  | object a => exact absurd rfl (hl a)
  | _ => cases r <;> first | rfl | cases h

/-- Primitive values are compared without failure. -/
lemma looselyEqual_isSome (hl : ∀ a, l ≠ object a) (hr : ∀ a, r ≠ object a) (hl' : l ≠ magic)
    (hr' : r ≠ magic) : ∃ b, looselyEqual stringToNumber C hooks l r = some b := by
  cases l with
  | object a => exact absurd rfl (hl a)
  | magic => exact absurd rfl hl'
  | _ =>
    cases r with
    | object a => exact absurd rfl (hr a)
    | magic => exact absurd rfl hr'
    | _ => exact ⟨_, rfl⟩

lemma relationalOp_isSome {intOp : Int → Int → Bool} {op : Float → Float → Bool}
    (hl : ∀ a, l ≠ object a) (hr : ∀ a, r ≠ object a) (hl' : l ≠ magic) (hr' : r ≠ magic) :
    ∃ b, relationalOp stringToNumber hooks intOp op l r = some b := by
  cases l with
  | object a => exact absurd rfl (hl a)
  | magic => exact absurd rfl hl'
  | _ =>
    cases r with
    | object a => exact absurd rfl (hr a)
    | magic => exact absurd rfl hr'
    | _ => exact ⟨_, rfl⟩

end

end Value

end SpiderMonkey
