import SpiderMonkey.Lib.Int32

/-! # Values of the engine

`js::Value` as the compiler passes use it. A double is one of Lean's floats,
which have a single NaN as the engine's values do, and equality is equality of
the stored bits.
-/

namespace SpiderMonkey

/-- `js::Value`. An object is known by its address. -/
inductive Value where
  | undefined
  | null
  | boolean (b : Bool)
  | int32 (n : Int32)
  | double (d : Float)
  | string (s : String)
  | object (address : Nat)
  | magic
deriving DecidableEq

namespace Value

/-- The int32 a value holds. -/
def toInt32? : Value → Option Int32
  | int32 n => some n
  | _ => none

/-- `ToBoolean`. -/
def toBoolean : Value → Bool
  | undefined => false
  | null => false
  | boolean b => b
  | int32 n => n != 0
  | double d => !(d == 0 || d.isNaN)
  | string s => s != ""
  | object _ => true
  | magic => false

@[simp] lemma toBoolean_boolean (b : Bool) : (boolean b).toBoolean = b := rfl

end Value

end SpiderMonkey
