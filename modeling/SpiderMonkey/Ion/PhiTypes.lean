import SpiderMonkey.Ion.Types

/-! # Types of phis

`TypeAnalyzer::specializePhis` and `adjustPhiInputs` of `IonAnalysis.cpp`. The phis of a graph are
numbered in the order in which the first loop visits them. What is left out of the other
definitions is all but their types, and whether they are instructions that unbox.
-/

namespace SpiderMonkey.Ion

/-- `IsNumberType` -/
def isNumberType (type : MIRType) : Bool := type = .int32 || type = .double

/-- An operand of a phi. -/
inductive PhiOperand (n : Nat) where
  | phi (p : Fin n)
  | other (type : MIRType) (isUnbox : Bool)
deriving DecidableEq

/-- The phis with their operands, and those among their uses that are phis. -/
structure PhiTypeGraph where
  numPhis : Nat
  operands : Fin numPhis → List (PhiOperand numPhis)
  uses : Fin numPhis → List (Fin numPhis)
  mem_uses_iff : ∀ p q, q ∈ uses p ↔ .phi p ∈ operands q

/-- The phis, and `phiWorklist_`, with the phi that was added last first. A phi is marked as in the
worklist as long as it is there. -/
structure TypeAnalyzer (n : Nat) where
  type : Fin n → MIRType
  triedToSpecialize : Fin n → Bool
  phiWorklist : List (Fin n)

namespace TypeAnalyzer

variable {n : Nat}

/-- The phis as they are created. -/
def initial (n : Nat) : TypeAnalyzer n := ⟨fun _ => .value, fun _ => false, []⟩

variable (s : TypeAnalyzer n)

/-- The type of an operand. -/
def typeOf : PhiOperand n → MIRType
  | .phi p => s.type p
  | .other type _ => type

def addPhiToWorklist (phi : Fin n) : TypeAnalyzer n :=
  if phi ∈ s.phiWorklist then s else { s with phiWorklist := phi :: s.phiWorklist }

/-- `MPhi::specialize` -/
def specialize (phi : Fin n) (type : MIRType) : TypeAnalyzer n :=
  { s with
    type := Function.update s.type phi type
    triedToSpecialize := Function.update s.triedToSpecialize phi true }

/-- A phi that has not been tried yet, or whose type could not be guessed. -/
def skips : PhiOperand n → Bool
  | .phi p => !s.triedToSpecialize p || s.type p = .none
  | .other _ _ => false

/-- The loop of `GuessPhiType`. -/
def guessLoop : MIRType → List (PhiOperand n) → MIRType
  | type, [] => type
  | type, input :: inputs =>
    if s.skips input then guessLoop type inputs
    else if type = .none then guessLoop (s.typeOf input) inputs
    else if type ≠ s.typeOf input then
      -- int32 and double operands are specialized as double
      if isNumberType type && isNumberType (s.typeOf input) then guessLoop .double inputs
      else .value
    else guessLoop type inputs

def respecialize (phi : Fin n) (type : MIRType) : TypeAnalyzer n :=
  if s.type phi = type then s else (s.specialize phi type).addPhiToWorklist phi

/-- The body of the loop of `propagateSpecialization`. -/
def propagateTo (phi use : Fin n) : TypeAnalyzer n :=
  if !s.triedToSpecialize use then s
  else if s.type use = .none then s.respecialize use (s.type phi)
  else if s.type use ≠ s.type phi then
    if isNumberType (s.type use) && isNumberType (s.type phi) then s.respecialize use .double
    else s.respecialize use .value
  else s

end TypeAnalyzer

namespace PhiTypeGraph

variable (g : PhiTypeGraph)

/-- `GuessPhiType` -/
def guessPhiType (s : TypeAnalyzer g.numPhis) (phi : Fin g.numPhis) : MIRType :=
  s.guessLoop .none (g.operands phi)

/-- `propagateSpecialization`, unless its assertion fails. -/
def propagateSpecialization (s : TypeAnalyzer g.numPhis) (phi : Fin g.numPhis) :
    Option (TypeAnalyzer g.numPhis) :=
  if s.type phi = .none then none
  else some ((g.uses phi).foldl (fun s use => s.propagateTo phi use) s)

/-- The first loop of `specializePhis`. -/
def specializeLoop : List (Fin g.numPhis) → TypeAnalyzer g.numPhis → Option (TypeAnalyzer g.numPhis)
  | [], s => some s
  | phi :: phis, s =>
    let type := g.guessPhiType s phi
    let s := s.specialize phi type
    if type = .none then specializeLoop phis s
    else (g.propagateSpecialization s phi).bind (specializeLoop phis)

/-- The second loop, with the number of its turns bounded. -/
def worklistLoop : Nat → TypeAnalyzer g.numPhis → Option (TypeAnalyzer g.numPhis)
  | 0, _ => none
  | fuel + 1, s =>
    match s.phiWorklist with
    | [] => some s
    | phi :: rest =>
      (g.propagateSpecialization { s with phiWorklist := rest } phi).bind (worklistLoop fuel)

def specializePhis (fuel : Nat) : Option (TypeAnalyzer g.numPhis) :=
  (g.specializeLoop (List.finRange g.numPhis) (.initial g.numPhis)).bind (g.worklistLoop fuel)

end PhiTypeGraph

/-- What `adjustPhiInputs` replaces an operand by. -/
inductive PhiInput where
  | same
  | toDouble
  | unboxInput
  | box
deriving DecidableEq

/-- `adjustPhiInputs`, unless its assertion fails. -/
def PhiTypeGraph.adjustPhiInputs (g : PhiTypeGraph) (s : TypeAnalyzer g.numPhis) (phi : Fin g.numPhis) :
    Option (List PhiInput) :=
  if s.type phi = .double then
    (g.operands phi).mapM fun input =>
      if s.typeOf input = .int32 then some .toDouble
      else if s.typeOf input = .double then some .same
      else none
  else if s.type phi ≠ .value then some ((g.operands phi).map fun _ => .same)
  else
    some ((g.operands phi).map fun input =>
      if s.typeOf input = .value then .same
      else match input with
        | .other _ true => .unboxInput
        | _ => .box)

end SpiderMonkey.Ion
