import Mathlib

/-! # Whether a script needs its arguments object

`ScriptAnalysis::needsArgsObj` (`jsanalyze.cpp`): a walk along the use chains from the value that
`JSOP_ARGUMENTS` pushes.
-/

namespace SpiderMonkey.Analyze

/-- `SSAValue`; `initial` and `written` are its kind `VAR`. A phi node is a number. -/
inductive SsaValue where
  | empty
  | pushed (offset index : Nat)
  | initial (slot : Nat)
  | written (slot offset : Nat)
  | phi (offset node : Nat)
  deriving DecidableEq, Repr

/-- A link of an `SSAUseChain`. -/
inductive SsaUse where
  | popped (offset which : Nat)
  | phi (offset node : Nat)
  deriving DecidableEq, Repr

/-- The opcodes that `needsArgsObj` tells apart. Of the others it matters how many values they pop and
which slot they have an extended use of. -/
inductive JsOp where
  | arguments
  | pop
  | popN (n : Nat)
  | getElem
  | length
  | funApply (argc : Nat)
  | setLocal (slot : Nat)
  | getLocal (slot : Nat)
  | other (nuses : Nat) (slot : Option Nat)
  deriving DecidableEq, Repr

/-- `GetUseCount` -/
def JsOp.useCount : JsOp → Nat
  | arguments => 0
  | pop => 1
  | popN n => n
  | getElem => 2
  | length => 1
  | funApply argc => argc + 2
  | setLocal _ => 1
  | getLocal _ => 0
  | other nuses _ => nuses

/-- The slot of an op with `ExtendedUse`. -/
def JsOp.extendedUse : JsOp → Option Nat
  | setLocal slot => some slot
  | getLocal slot => some slot
  | other _ slot => slot
  | _ => none

/-- What `needsArgsObj` reads of a script and its analysis. -/
structure ScriptAnalysis where
  op : Nat → JsOp
  trackSlot : Nat → Bool
  /-- The SSA values popped at an offset, and after them that of the slot of an extended use. -/
  poppedValues : Nat → Nat → SsaValue
  /-- The options of the phi node that was made at an offset. -/
  phiOptions : Nat → Nat → List SsaValue
  useChains : List (SsaValue × List SsaUse)
  bindingsAccessedDynamically : Bool
  numClosedArgs : Nat
  localsAliasStack : Bool
  debugMode : Bool
  isGenerator : Bool
  argumentsBytecode : Nat
  /-- `JSOP_ARGUMENTS` is in the prologue, once. -/
  arguments_eq : ∀ offset, op offset = .arguments → offset = argumentsBytecode

/-- `ScriptAnalysis::trackUseChain` -/
def SsaValue.trackUseChain : SsaValue → Bool
  | empty => false
  | initial _ => false
  | _ => true

namespace ScriptAnalysis

variable (a : ScriptAnalysis) (appends : Nat → Bool)

/-- `ScriptAnalysis::useChain` -/
def useChain (v : SsaValue) : List SsaUse := (a.useChains.lookup v).getD []

/-- `needsArgsObj` of a use; `value` is that of a value. Both yield the values seen. -/
def needsUse (value : List SsaValue → SsaValue → Option (Bool × List SsaValue))
    (seen : List SsaValue) : SsaUse → Option (Bool × List SsaValue)
  | .phi offset node => value seen (.phi offset node)
  | .popped offset which =>
    match a.op offset with
    | .pop => some (false, seen)
    | .popN _ => some (false, seen)
    | .funApply argc => some (!(argc == 2 && which == 0), seen)
    | .getElem => some (!(which == 1), seen)
    | .length => some (false, seen)
    | .setLocal slot =>
      if !a.trackSlot slot then some (true, seen)
      else
        match value seen (.pushed offset 0) with
        | some (false, seen) => value seen (.written slot offset)
        | r => r
    | .getLocal _ => value seen (.pushed offset 0)
    | .arguments => some (true, seen)
    | .other _ _ => some (true, seen)

/-- The loop over a use chain. -/
def needsUses (value : List SsaValue → SsaValue → Option (Bool × List SsaValue)) :
    List SsaValue → List SsaUse → Option (Bool × List SsaValue)
  | seen, [] => some (false, seen)
  | seen, use :: uses =>
    match a.needsUse value seen use with
    | some (false, seen) => needsUses value seen uses
    | r => r

/-- `needsArgsObj` of a value; `appends` says whether `seen.append` succeeds. -/
def needsValue : Nat → List SsaValue → SsaValue → Option (Bool × List SsaValue)
  | 0, _, _ => none
  | fuel + 1, seen, v =>
    if !v.trackUseChain then some (false, seen)
    else if v ∈ seen then some (false, seen)
    else if !appends seen.length then some (true, seen)
    else a.needsUses (needsValue fuel) (seen ++ [v]) (a.useChain v)

/-- The values that a use leads to. -/
def ledTo : SsaUse → List SsaValue
  | .phi offset node => [.phi offset node]
  | .popped offset _ =>
    match a.op offset with
    | .setLocal slot => [.pushed offset 0, .written slot offset]
    | .getLocal _ => [.pushed offset 0]
    | _ => []

/-- All values that the walk may come to. -/
def values : List SsaValue :=
  .pushed a.argumentsBytecode 0 :: a.useChains.flatMap fun chain => chain.2.flatMap a.ledTo

/-- `needsArgsObj` of the script. -/
def needsArgsObj : Option Bool :=
  if a.bindingsAccessedDynamically || 0 < a.numClosedArgs || a.localsAliasStack || a.debugMode ||
      a.isGenerator then
    some true
  else
    match a.needsValue appends (a.values.length + 1) [] (.pushed a.argumentsBytecode 0) with
    | some (needs, _) => some needs
    | none => none

end ScriptAnalysis

/-! ## Execution -/

/-- A value with the definition that it comes from, and whether it comes from `JSOP_ARGUMENTS`. -/
structure Traced (V : Type) where
  value : V
  definition : SsaValue
  fromArguments : Bool

/-- What an op pushes or writes: a value that it computes, or the value of an operand. A copy is a
definition of its own, or the operand's as with `JSOP_DUP`. -/
inductive Produced (V : Type) where
  | computed (v : V)
  | copied (operand : Nat) (sameDefinition : Bool)

/-- How an op ends. The values pushed are in order, the last one on the top of the stack. -/
inductive Outcome (V W : Type) where
  | next (world : W) (pushes : List (Produced V)) (write : Option (Produced V)) (offset : Nat)
  | thrown (world : W) (depth offset : Nat)
  | finished (world : W) (result : Option V)

/-- What is outside the stack and the tracked slots: the world that the ops act on. -/
structure Machine (V W : Type) where
  exec : Nat → W → List V → Outcome V W → Prop
  next : Nat → Nat

/-- The top of the stack is the head of the list. -/
structure Frame (V W : Type) where
  world : W
  offset : Nat
  stack : List (Traced V)
  slots : Nat → Traced V

variable {V W : Type}

namespace ScriptAnalysis

variable (a : ScriptAnalysis)

/-- The values that the op pops, and that of its slot, if that is tracked. -/
def operands (f : Frame V W) : List (Traced V) :=
  f.stack.take (a.op f.offset).useCount ++
    match (a.op f.offset).extendedUse with
    | some slot => if a.trackSlot slot then [f.slots slot] else []
    | none => []

/-- The ops that only move values. -/
def isMove (offset : Nat) : Bool :=
  match a.op offset with
  | .arguments => true
  | .pop => true
  | .popN _ => true
  | .setLocal slot => a.trackSlot slot
  | .getLocal slot => a.trackSlot slot
  | _ => false

end ScriptAnalysis

/-- The value produced, with `definition` for one that is not the operand's. -/
def Produced.eval (operands : List (Traced V)) (definition : SsaValue) :
    Produced V → Option (Traced V)
  | computed v => some ⟨v, definition, false⟩
  | copied operand sameDefinition =>
    match operands[operand]? with
    | none => none
    | some x => some (if sameDefinition then x else { x with definition })

/-- The values pushed, the last one first. -/
def pushAll (operands : List (Traced V)) (offset : Nat) :
    Nat → List (Produced V) → Option (List (Traced V))
  | _, [] => some []
  | index, p :: ps =>
    match p.eval operands (.pushed offset index), pushAll operands offset (index + 1) ps with
    | some x, some xs => some (xs ++ [x])
    | _, _ => none

/-- The slots after an op. -/
def writeSlot (a : ScriptAnalysis) (operands : List (Traced V)) (f : Frame V W) :
    Option (Produced V) → Option (Nat → Traced V)
  | none => some f.slots
  | some p =>
    match (a.op f.offset).extendedUse with
    | none => none
    | some slot =>
      if a.trackSlot slot then
        match p.eval operands (.written slot f.offset) with
        | none => none
        | some x => some fun i => if i = slot then { x with definition := .written slot f.offset } else f.slots i
      else some f.slots

/-- One op of the script; `arguments` is what `JSOP_ARGUMENTS` pushes. -/
inductive Step (a : ScriptAnalysis) (m : Machine V W) (arguments : V) :
    Frame V W → Frame V W → Prop
  | arguments {f : Frame V W} : a.op f.offset = .arguments →
      Step a m arguments f
        { f with
          offset := m.next f.offset, stack := ⟨arguments, .pushed f.offset 0, true⟩ :: f.stack }
  | pop {f : Frame V W} : a.op f.offset = .pop →
      Step a m arguments f { f with offset := m.next f.offset, stack := f.stack.drop 1 }
  | popN {f : Frame V W} {n : Nat} : a.op f.offset = .popN n →
      Step a m arguments f { f with offset := m.next f.offset, stack := f.stack.drop n }
  | getLocal {f : Frame V W} {slot : Nat} : a.op f.offset = .getLocal slot →
      a.trackSlot slot = true →
      Step a m arguments f
        { f with offset := m.next f.offset, stack := f.slots slot :: f.stack }
  | setLocal {f : Frame V W} {slot : Nat} {x : Traced V} {stack : List (Traced V)} :
      a.op f.offset = .setLocal slot → a.trackSlot slot = true → f.stack = x :: stack →
      Step a m arguments f
        { f with
          offset := m.next f.offset
          stack := { x with definition := .pushed f.offset 0 } :: stack
          slots := fun i =>
            if i = slot then { x with definition := .written slot f.offset } else f.slots i }
  | exec {f : Frame V W} {world : W} {pushes : List (Produced V)} {write : Option (Produced V)}
      {offset : Nat} {pushed : List (Traced V)} {slots : Nat → Traced V} :
      a.isMove f.offset = false →
      m.exec f.offset f.world ((a.operands f).map Traced.value) (.next world pushes write offset) →
      pushAll (a.operands f) f.offset 0 pushes = some pushed →
      writeSlot a (a.operands f) f write = some slots →
      Step a m arguments f
        ⟨world, offset, pushed ++ f.stack.drop (a.op f.offset).useCount, slots⟩
  /-- The stack is cut back to the depth of the handler. -/
  | thrown {f : Frame V W} {world : W} {depth offset : Nat} : a.isMove f.offset = false →
      m.exec f.offset f.world ((a.operands f).map Traced.value) (.thrown world depth offset) →
      Step a m arguments f
        ⟨world, offset, f.stack.drop (f.stack.length - depth), f.slots⟩

/-- The execution ends. -/
def Finishes (a : ScriptAnalysis) (m : Machine V W) (f : Frame V W) (world : W)
    (result : Option V) : Prop :=
  a.isMove f.offset = false ∧
    m.exec f.offset f.world ((a.operands f).map Traced.value) (.finished world result)

/-- The frames of an execution. -/
inductive Executes (a : ScriptAnalysis) (m : Machine V W) (arguments : V) (start : Frame V W) :
    Frame V W → Prop
  | start : Executes a m arguments start start
  | step {f f' : Frame V W} : Executes a m arguments start f → Step a m arguments f f' →
      Executes a m arguments start f'

end SpiderMonkey.Analyze
