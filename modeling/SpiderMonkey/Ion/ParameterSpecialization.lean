import SpiderMonkey.Lib.Transition
import SpiderMonkey.Vm.Value

/-! # Parameter specialization

The life of one script: the flags of `JSScript` that guard code specialized to
arguments, `hasArgumentsChangedSinceLastCall`, what `IonBuilder` bakes into the
code, `Compile`, `CanEnter` and `CanEnterAtBranch`, and the runs of calls, loop
entries, bailouts and invalidations they take part in.

What the rest of the engine decides at an attempt to enter the code (whether the
script is hot, whether the compilation succeeds, whether a garbage collection
throws the code away) is given with the attempt and may be anything.
-/

namespace SpiderMonkey.Ion

/-- The offset of a `JSOP_LOOPENTRY` in the bytecode. -/
abbrev Pc := Nat

/-- The members of `js_IonOptions` the attempts read. -/
structure IonOptions where
  ps : Bool
  osr : Bool
deriving DecidableEq, Repr

/-- `IonScript`: the compiled code, with the constants that stand for the arguments
at the entry, and for the arguments and locals at the OSR entry, if they do. -/
structure IonScript where
  id : Nat
  osrPc : Option Pc
  argConstants : Option (List Value)
  osrArgConstants : Option (List Value)
  osrLocalConstants : Option (List Value)
  bailoutExpected : Bool
deriving DecidableEq

/-- The pointer `script->ion`: `NULL`, `ION_DISABLED_SCRIPT` or the code. -/
inductive IonPointer where
  | null
  | disabled
  | code (ion : IonScript)
deriving DecidableEq

/-- What `JSScript` keeps for the compiler. `isFunction` says whether its frames are
function frames. -/
structure JSScript where
  isFunction : Bool
  disabledForPS : Bool
  isParameterSpecialized : Bool
  bailed : Bool
  argsOfLastCall : List Value
  ion : IonPointer
deriving DecidableEq

/-- A frame of the script: its formals and locals, the code that runs it (none in
the interpreter), and whether that code was entered by `Cannon` or `SideCannon`
(and not called by other compiled code). -/
structure StackFrame where
  formals : List Value
  locals : List Value
  running : Option Nat
  entered : Bool
deriving DecidableEq

/-- `MethodStatus`. -/
inductive MethodStatus where
  | error | cantCompile | skipped | compiled
deriving DecidableEq, Repr

/-- How far `IonCompile` gets: it fails before `initParameters`, or after it, with
or without an OSR block built, or succeeds, and the code may already be invalid. -/
inductive IonCompileOutcome where
  | failsEarly
  | fails (builtOsr : Bool)
  | succeeds (builtOsr valid : Bool)
deriving DecidableEq, Repr

/-- What the rest of the engine decides at one attempt. -/
structure Choices where
  createThis : Bool
  checkFrame : Bool
  debugMode : Bool
  checkScript : Bool
  checkScriptSize : Bool
  invalidates : Bool
  hot : Bool
  outcome : IonCompileOutcome
  enterJIT : Bool
  ionKept : Bool
deriving DecidableEq, Repr

namespace JSScript

/-- `script->ion && script->ion->bailoutExpected()`. -/
def bailoutExpected (script : JSScript) : Bool :=
  match script.ion with
  | .code ion => ion.bailoutExpected
  | _ => false

/-- `ForbidCompilation`. -/
def forbidCompilation (script : JSScript) : JSScript := { script with ion := .disabled }

/-- `hasIonScript`. -/
def hasIonScript (script : JSScript) : Bool :=
  match script.ion with
  | .code _ => true
  | _ => false

/-- The code, if there is some. -/
def ionScript? (script : JSScript) : Option IonScript :=
  match script.ion with
  | .code ion => some ion
  | _ => none

/-- `script->ion = NULL`, where it is code. -/
def dropIon (script : JSScript) : JSScript :=
  if script.hasIonScript then { script with ion := .null } else script

/-- `hasArgumentsChangedSinceLastCall`, which also saves the arguments. -/
def hasArgumentsChangedSinceLastCall (script : JSScript) (fp : StackFrame) : Bool × JSScript :=
  if script.disabledForPS then (true, script)
  else if !script.isFunction then (true, script)
  else
    let hasChanged := script.isParameterSpecialized && script.argsOfLastCall ≠ fp.formals
    if script.isParameterSpecialized && !hasChanged then (false, script)
    else (hasChanged, { script with argsOfLastCall := fp.formals })

/-! ## What is baked into the code -/

/-- `ParameterSpecialization::canSpecialize`. -/
def canSpecialize (script : JSScript) (fp : StackFrame) (osrPc : Option Pc) : Bool × JSScript :=
  if script.disabledForPS then (false, script)
  else if osrPc = none then (false, { script with disabledForPS := true })
  else if !script.isFunction then (false, { script with disabledForPS := true })
  else (!fp.formals.contains .undefined, script)

/-- `ParameterSpecialization::canSpecializeAtOsr`. -/
def canSpecializeAtOsr (script : JSScript) : Bool × JSScript :=
  if !script.isParameterSpecialized then (false, script)
  else if !script.isFunction then (false, { script with disabledForPS := true })
  else (true, script)

/-- `IonBuilder::initParameters`: the constants put in place of the arguments. -/
def initParameters (o : IonOptions) (script : JSScript) (fp : StackFrame) (osrPc : Option Pc) :
    Option (List Value) × JSScript :=
  if script.isFunction && o.ps && !script.isParameterSpecialized then
    match script.canSpecialize fp osrPc with
    | (true, script) => (some fp.formals, { script with isParameterSpecialized := true })
    | (false, script) => (none, script)
  else (none, script)

/-- `IonBuilder::newOsrPreheader`: the constants put in place of the arguments and of
the locals, for a function and for any script. -/
def newOsrPreheader (o : IonOptions) (script : JSScript) (fp : StackFrame) :
    Option (List Value) × Option (List Value) × JSScript :=
  if o.ps then
    match script.canSpecializeAtOsr with
    | (true, script) => (if script.isFunction then some fp.formals else none, some fp.locals, script)
    | (false, script) => (none, none, script)
  else (none, none, script)

/-- `IonCompile`: whether it succeeds, and what it leaves of the script. -/
def ionCompile (o : IonOptions) (outcome : IonCompileOutcome) (id : Nat) (script : JSScript)
    (fp : StackFrame) (osrPc : Option Pc) : Bool × JSScript :=
  match outcome with
  | .failsEarly => (false, script)
  | .fails builtOsr =>
      let (_, script) := initParameters o script fp osrPc
      if builtOsr then (false, (newOsrPreheader o script fp).2.2) else (false, script)
  | .succeeds builtOsr valid =>
      let (argConstants, script) := initParameters o script fp osrPc
      let (osrArgConstants, osrLocalConstants, script) :=
        if builtOsr then newOsrPreheader o script fp else (none, none, script)
      (true, { script with
        ion := if valid then
          .code ⟨id, osrPc, argConstants, osrArgConstants, osrLocalConstants, false⟩ else .null })

/-! ## Attempts to enter the code -/

/-- `Compile` from the test of `script->ion` on. -/
def compileIon (o : IonOptions) (c : Choices) (id : Nat) (script : JSScript) (fp : StackFrame)
    (osrPc : Option Pc) : JSScript × MethodStatus :=
  match script.ion with
  | .code _ => (script, .compiled)
  | .disabled => (script, .cantCompile)
  | .null =>
      if !c.hot then (script, .skipped)
      else
        match ionCompile o c.outcome id script fp osrPc with
        | (false, script) => (script, .cantCompile)
        | (true, script) => (script, if script.hasIonScript then .compiled else .skipped)

/-- `Compile`. -/
def compile (o : IonOptions) (c : Choices) (id : Nat) (script : JSScript) (fp : StackFrame)
    (osrPc : Option Pc) : JSScript × MethodStatus :=
  if c.debugMode then (script, .cantCompile)
  else if !c.checkScript || !c.checkScriptSize then (script, .cantCompile)
  else
    let test := script.hasArgumentsChangedSinceLastCall fp
    let script := test.2
    if test.1 && script.isParameterSpecialized && !script.bailed then
      if script.hasIonScript && !c.invalidates then (script, .cantCompile)
      else
        compileIon o c id
          { script.dropIon with disabledForPS := true, isParameterSpecialized := false } fp osrPc
    else compileIon o c id script fp osrPc

/-- What follows the checks of an attempt that got code: `enterJIT` may fail, and may
throw the code away. -/
def enterJIT (c : Choices) (script : JSScript) : JSScript × MethodStatus :=
  let script := if c.ionKept then script else script.dropIon
  if !c.enterJIT then (script, .error)
  else if script.ion = .null then (script, .skipped)
  else (script, .compiled)

/-- Whether `CanEnter` gets to `Compile`, when the frame can be handled. -/
def triesEntry (c : Choices) (script : JSScript) : Bool :=
  script.ion ≠ .disabled && !script.bailoutExpected && c.createThis

/-- Whether `CanEnterAtBranch` gets to `Compile`, when the frame can be handled. -/
def triesEntryAtBranch (o : IonOptions) (script : JSScript) : Bool :=
  script.ion ≠ .disabled && !script.bailoutExpected && o.osr

/-- `CanEnter`. -/
def canEnter (o : IonOptions) (c : Choices) (id : Nat) (script : JSScript) (fp : StackFrame) :
    JSScript × MethodStatus :=
  if !triesEntry c script then (script, .skipped)
  else if !c.checkFrame then (script.forbidCompilation, .cantCompile)
  else
    match compile o c id script fp none with
    | (script, .compiled) => enterJIT c script
    | (script, .cantCompile) => (script.forbidCompilation, .cantCompile)
    | (script, status) => (script, status)

/-- `CanEnterAtBranch`. -/
def canEnterAtBranch (o : IonOptions) (c : Choices) (id : Nat) (script : JSScript)
    (fp : StackFrame) (pc : Pc) : JSScript × MethodStatus :=
  if !triesEntryAtBranch o script then (script, .skipped)
  else if !c.checkFrame then (script.forbidCompilation, .cantCompile)
  else
    match compile o c id script fp (some pc) with
    | (script, .compiled) =>
        if script.ionScript?.bind IonScript.osrPc = some pc then enterJIT c script
        else (script, .skipped)
    | (script, .cantCompile) => (script.forbidCompilation, .cantCompile)
    | (script, status) => (script, status)

/-- `setBailoutExpected` on the code with the given id, which may no longer be the
code of the script. -/
def expectBailout (id : Nat) (script : JSScript) : JSScript :=
  match script.ion with
  | .code ion =>
      if ion.id = id then { script with ion := .code { ion with bailoutExpected := true } }
      else script
  | _ => script

end JSScript

/-! ## Runs -/

/-- The script, its frames on the stack with the current one first, and the id of
the next code. -/
structure PSState where
  script : JSScript
  frames : List StackFrame
  nextId : Nat
deriving DecidableEq

/-- What happens to the script. -/
inductive PSEvent where
  /-- a call from the interpreter, with an attempt to enter the code -/
  | call (formals locals : List Value) (attempt : Option Choices)
  /-- a call from compiled code -/
  | ionCall (formals locals : List Value)
  /-- an attempt at a `JSOP_LOOPENTRY` of the current frame -/
  | loopEntry (pc : Pc) (choices : Choices)
  /-- the interpreter runs the current frame -/
  | interpret (formals locals : List Value)
  /-- the code that runs the current frame bails out, and leaves its slots -/
  | bailout (formals locals : List Value)
  /-- the current frame returns or throws -/
  | finish
  /-- the code is invalidated from outside -/
  | invalidate
deriving DecidableEq

namespace PSState

/-- After an attempt for the frame: the code runs it if the attempt says so. -/
def enter (s : PSState) (fp : StackFrame) (rest : List StackFrame)
    (result : JSScript × MethodStatus) : PSState where
  script := result.1
  frames :=
    (if result.2 = .compiled then
      { fp with running := result.1.ionScript?.map IonScript.id, entered := true }
    else fp) :: rest
  nextId := s.nextId + 1

/-- The end of the code `Cannon` or `SideCannon` entered: `bailed` is set. -/
def leaveCannon (s : PSState) (fp : StackFrame) (status : Bool) : JSScript :=
  if fp.entered then { s.script with bailed := status } else s.script

/-- One event. -/
def step (o : IonOptions) (s : PSState) : PSEvent → Option PSState
  | .call formals locals none =>
      some { s with frames := ⟨formals, locals, none, false⟩ :: s.frames }
  | .call formals locals (some c) =>
      let fp : StackFrame := ⟨formals, locals, none, false⟩
      some (s.enter fp s.frames (s.script.canEnter o c s.nextId fp))
  | .ionCall formals locals =>
      match s.script.ion with
      | .code ion => some { s with frames := ⟨formals, locals, some ion.id, false⟩ :: s.frames }
      | _ => none
  | .loopEntry pc c =>
      match s.frames with
      | fp :: rest =>
          if fp.running = none then
            some (s.enter fp rest (s.script.canEnterAtBranch o c s.nextId fp pc))
          else none
      | [] => none
  | .interpret formals locals =>
      match s.frames with
      | fp :: rest =>
          if fp.running = none then
            some { s with frames := { fp with formals := formals, locals := locals } :: rest }
          else none
      | [] => none
  | .bailout formals locals =>
      match s.frames with
      | fp :: rest =>
          fp.running.map fun id =>
            { s with
              script := (s.leaveCannon fp true).expectBailout id
              frames := ⟨formals, locals, none, false⟩ :: rest }
      | [] => none
  | .finish =>
      match s.frames with
      | fp :: rest => some { s with script := s.leaveCannon fp false, frames := rest }
      | [] => none
  | .invalidate => some { s with script := s.script.dropIon }

/-- Before the script runs for the first time. -/
def Initial (s : PSState) : Prop :=
  s.script.disabledForPS = false ∧ s.script.isParameterSpecialized = false ∧
    s.script.bailed = false ∧ s.script.ion = .null ∧ s.frames = []

end PSState

/-- The runs of a script. -/
def psTransition (o : IonOptions) : Lib.Transition PSState PSEvent where
  initial := PSState.Initial
  step := PSState.step o

end SpiderMonkey.Ion
