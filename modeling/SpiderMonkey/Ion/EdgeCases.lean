import SpiderMonkey.Ion.Types
import SpiderMonkey.Lib.Int32
import SpiderMonkey.Lib.SignedZero
import SpiderMonkey.Lib.Ssa

/-! # Negative zero checks

The late edge case analysis (`EdgeCaseAnalysis::analyzeLate`), which clears the flag
`canBeNegativeZero_` of the instructions whose result may be a zero with the wrong sign.
A definition is its position in reverse postorder.

The values of the graph are those of JavaScript: the result of an int32 instruction is an
integer or the negative zero. An instruction with its flag set bails out where its result
is the negative zero.
-/

namespace SpiderMonkey.Ion

open Lib List

/-- The instructions that read their second operand as an index. -/
inductive AccessOp where
  | storeElement | storeElementHole | loadElement | loadElementHole
  | loadTypedArrayElement | loadTypedArrayElementHole | charCodeAt
deriving DecidableEq, Repr

/-- The instructions that do not tell the two zeros apart. -/
inductive NeutralOp where
  | toString | fromCharCode | tableSwitch | compare | bitAnd | bitOr | bitXor | abs
deriving DecidableEq, Repr

/-- A definition. `range` of a multiplication says whether neither bound of its range is
negative. `indexed` is an instruction that `NeedNegativeZeroCheck` does not know and that
reads one of its operands as an index, such as `MStoreTypedArrayElement`. -/
inductive EdgeNode where
  | constant (int32 : Option Int)
  | phi (inputs : List Nat)
  | add (specialization : MIRType) (implicitTruncate : Bool) (lhs rhs : Nat)
  | sub (specialization : MIRType) (implicitTruncate : Bool) (lhs rhs : Nat)
  | mod (specialization : MIRType) (lhs rhs : Nat)
  | mul (specialization : MIRType) (nonnegativeRange : Bool) (lhs rhs : Nat)
  | div (specialization : MIRType) (implicitTruncate : Bool) (lhs rhs : Nat)
  | toInt32 (input : Nat)
  | boundsCheck (index length : Nat) (minimum maximum : Int)
  | access (op : AccessOp) (operands : List Nat)
  | neutral (op : NeutralOp) (operands : List Nat)
  | indexed (operands : List Nat) (index : Nat)
  | other (operands : List Nat)
deriving DecidableEq, Repr

namespace EdgeNode

def operands : EdgeNode → List Nat
  | constant _ => []
  | phi inputs => inputs
  | add _ _ lhs rhs => [lhs, rhs]
  | sub _ _ lhs rhs => [lhs, rhs]
  | mod _ lhs rhs => [lhs, rhs]
  | mul _ _ lhs rhs => [lhs, rhs]
  | div _ _ lhs rhs => [lhs, rhs]
  | toInt32 input => [input]
  | boundsCheck index length _ _ => [index, length]
  | access _ operands => operands
  | neutral _ operands => operands
  | indexed operands _ => operands
  | other operands => operands

/-- The int32 instructions with a flag `canBeNegativeZero_`. -/
def isChecked : EdgeNode → Bool
  | mul specialization _ _ _ => specialization == .int32
  | div specialization _ _ _ => specialization == .int32
  | toInt32 _ => true
  | _ => false

end EdgeNode

/-- The definitions, with their types and whether a resume point captures them, and the
blocks they are in. The last instruction of a block is `control`. -/
structure EdgeGraph where
  nodes : List EdgeNode
  type : Nat → MIRType
  captured : Nat → Bool
  osrBlock : Option Nat
  phis : Nat → List Nat
  body : Nat → List Nat
  control : Nat → Nat
  predecessors : Nat → List Nat
  successors : Nat → List Nat

namespace EdgeGraph

variable (g : EdgeGraph)

/-- An id without definition stands for an instruction without operands. -/
def node (d : Nat) : EdgeNode := g.nodes.getD d (.other [])

/-- The int32 a constant holds. -/
def int32Constant? (d : Nat) : Option Int :=
  match g.node d with
  | .constant int32 => int32
  | _ => none

def isConstant (d : Nat) : Bool :=
  match g.node d with
  | .constant _ => true
  | _ => false

/-- `analyzeEdgeCasesForward`, as far as it is about the negative zero: the value of
`canBeNegativeZero_` after it. -/
def analyzeEdgeCasesForward (d : Nat) : Bool :=
  match g.node d with
  | .mul specialization _ lhs rhs =>
      specialization != .int32 ||
        !((g.int32Constant? lhs).any (0 < ·) || (g.int32Constant? rhs).any (0 < ·))
  | .div specialization _ lhs rhs =>
      specialization != .int32 ||
        !((g.isConstant lhs && g.int32Constant? lhs != some 0) ||
          (g.int32Constant? rhs).any (0 ≤ ·))
  | _ => true

/-- `canBeNegativeZero()`, which for a multiplication looks at the range first. -/
def canBeNegativeZero (flags : Nat → Bool) (d : Nat) : Bool :=
  match g.node d with
  | .mul _ nonnegativeRange _ _ => !nonnegativeRange && flags d
  | _ => flags d

/-- The cases of `NeedNegativeZeroCheck` for a use of `d` in the definition `user`. -/
def useNeedsCheck (flags : Nat → Bool) (d : Nat) (user : EdgeNode) : Bool :=
  match user with
  | .add _ _ lhs rhs =>
      if lhs = d ∧ rhs = d then true
      else
        let operand := if lhs = d then rhs else lhs
        match g.node operand with
        | .mul _ _ _ _ => !g.canBeNegativeZero flags operand
        | .div _ _ _ _ => !g.canBeNegativeZero flags operand
        | .toInt32 _ => !g.canBeNegativeZero flags operand
        | .phi _ => true
        | _ => false
  | .access _ operands => operands[0]? == some d || (operands.drop 2).contains d
  | .mod _ lhs _ => lhs == d
  | .sub _ _ lhs _ => lhs == d
  | .boundsCheck _ length _ _ => length == d
  | .neutral _ _ => false
  | _ => true

/-- `NeedNegativeZeroCheck`. -/
def needNegativeZeroCheck (flags : Nat → Bool) (d : Nat) : Bool :=
  g.captured d || g.nodes.any fun user =>
    user.operands.contains d && g.useNeedsCheck flags d user

/-- `analyzeEdgeCasesBackward`. -/
def analyzeEdgeCasesBackward (flags : Nat → Bool) (d : Nat) : Nat → Bool :=
  match g.node d with
  | .mul _ _ _ _ => Function.update flags d (flags d && g.needNegativeZeroCheck flags d)
  | .div _ _ _ _ => Function.update flags d (flags d && g.needNegativeZeroCheck flags d)
  | .toInt32 _ => Function.update flags d (g.needNegativeZeroCheck flags d)
  | _ => flags

/-- `EdgeCaseAnalysis::analyzeLate`: the flags `canBeNegativeZero_`, set by the
constructors, after the sweep in each direction. -/
def analyzeLate : Nat → Bool :=
  (List.range g.nodes.length).reverse.foldl g.analyzeEdgeCasesBackward g.analyzeEdgeCasesForward

end EdgeGraph

/-! ## Executions -/

/-- A value: a number that is an integer or the negative zero, or anything else. -/
inductive EdgeValue (ν : Type) where
  | num (x : ZInt)
  | other (v : ν)

namespace EdgeValue

variable {ν : Type}

/-- What an index or a neutral operand is read as. -/
def positive : EdgeValue ν → EdgeValue ν
  | num x => num x.positive
  | other v => other v

/-- The values of type int32. -/
def IsInt32 (v : EdgeValue ν) : Prop := ∃ n, v = num (.int n)

@[simp] lemma positive_positive (v : EdgeValue ν) : v.positive.positive = v.positive := by
  cases v <;> rfl

lemma IsInt32.positive_eq {v : EdgeValue ν} (h : v.IsInt32) : v.positive = v := by
  rcases h with ⟨n, rfl⟩
  rfl

end EdgeValue

/-- What is not part of the graph: what the other instructions may compute from the values
they read, how other values convert to an int32, and the block that the result of a control
instruction selects. -/
structure EdgeContext (ν : Type) where
  outcome : Nat → List (EdgeValue ν) → EdgeValue ν → Prop
  convert : ν → Option Int
  branch : Nat → EdgeValue ν → Nat → Prop

namespace EdgeGraph

variable {ν : Type} (g : EdgeGraph) (c : EdgeContext ν)

/-- An int32 instruction overflows, and bails out, where its result is out of range. -/
def Yields (x : ZInt) (v : EdgeValue ν) : Prop := IsInt32 x.toInt ∧ v = .num x

/-- The result of an instruction of which only the type is known. -/
def Outcome (d : Nat) (args : List (EdgeValue ν)) (v : EdgeValue ν) : Prop :=
  c.outcome d args v ∧ (g.type d = .int32 → v.IsInt32)

/-- The values the body definition `d` may compute, given the flags. -/
def Computes (flags : Nat → Bool) (d : Nat) (env : Nat → EdgeValue ν) (v : EdgeValue ν) :
    Prop :=
  match g.node d with
  | .constant (some n) => v = .num (.int n)
  | .constant none => g.Outcome c d [] v
  | .phi _ => False
  | .add specialization implicitTruncate lhs rhs =>
      if specialization = .int32 then
        ∃ a b, env lhs = .num a ∧ env rhs = .num b ∧
          if implicitTruncate then v = .num (.int (wrap32 (a.toInt + b.toInt)))
          else Yields (a.add b) v
      else g.Outcome c d [env lhs, env rhs] v
  | .sub specialization implicitTruncate lhs rhs =>
      if specialization = .int32 then
        ∃ a b, env lhs = .num a ∧ env rhs = .num b ∧
          if implicitTruncate then v = .num (.int (wrap32 (a.toInt - b.toInt)))
          else Yields (a.sub b) v
      else g.Outcome c d [env lhs, env rhs] v
  | .mod specialization lhs rhs =>
      if specialization = .int32 then
        ∃ a b x, env lhs = .num a ∧ env rhs = .num b ∧ a.mod b = some x ∧ x ≠ .negZero ∧
          Yields x v
      else g.Outcome c d [env lhs, env rhs] v
  | .mul specialization _ lhs rhs =>
      if specialization = .int32 then
        ∃ a b, env lhs = .num a ∧ env rhs = .num b ∧
          (flags d = true → a.mul b ≠ .negZero) ∧ Yields (a.mul b) v
      else g.Outcome c d [env lhs, env rhs] v
  | .div specialization implicitTruncate lhs rhs =>
      if specialization = .int32 then
        ∃ a b x, env lhs = .num a ∧ env rhs = .num b ∧ a.div implicitTruncate b = some x ∧
          (flags d = true → x ≠ .negZero) ∧ Yields x v
      else g.Outcome c d [env lhs, env rhs] v
  | .toInt32 input =>
      match env input with
      | .num x => (flags d = true → x ≠ .negZero) ∧ Yields x v
      | .other w => ∃ n, c.convert w = some n ∧ Yields (.int n) v
  | .boundsCheck index length minimum maximum =>
      ∃ a b, env index = .num a ∧ env length = .num b ∧
        0 ≤ a.toInt + minimum ∧ a.toInt + maximum < b.toInt ∧ v = .num a
  | .access _ operands => g.Outcome c d ((operands.map env).modify 1 EdgeValue.positive) v
  | .neutral _ operands => g.Outcome c d (operands.map fun o => (env o).positive) v
  | .indexed operands index =>
      g.Outcome c d ((operands.map env).modify index EdgeValue.positive) v
  | .other operands => g.Outcome c d (operands.map env) v

/-- The definitions of type int32 for which no check is made. -/
def unchecked (flags : Nat → Bool) (d : Nat) : Bool := (g.node d).isChecked && !flags d

lemma computes_congr {flags : Nat → Bool} {d : Nat} {env env' : Nat → EdgeValue ν}
    {v : EdgeValue ν} (hsame : ∀ o ∈ (g.node d).operands, env o = env' o)
    (h : g.Computes c flags d env v) : g.Computes c flags d env' v := by
  unfold Computes at h ⊢
  cases hnode : g.node d with
  | constant int32 => cases int32 <;> simpa [hnode] using h
  | phi => simp [hnode] at h
  | add specialization implicitTruncate lhs rhs =>
    simp only [hnode, EdgeNode.operands, mem_cons, not_mem_nil, or_false] at hsame h ⊢
    rwa [← hsame lhs (Or.inl rfl), ← hsame rhs (Or.inr rfl)]
  | sub specialization implicitTruncate lhs rhs =>
    simp only [hnode, EdgeNode.operands, mem_cons, not_mem_nil, or_false] at hsame h ⊢
    rwa [← hsame lhs (Or.inl rfl), ← hsame rhs (Or.inr rfl)]
  | mod specialization lhs rhs =>
    simp only [hnode, EdgeNode.operands, mem_cons, not_mem_nil, or_false] at hsame h ⊢
    rwa [← hsame lhs (Or.inl rfl), ← hsame rhs (Or.inr rfl)]
  | mul specialization nonnegativeRange lhs rhs =>
    simp only [hnode, EdgeNode.operands, mem_cons, not_mem_nil, or_false] at hsame h ⊢
    rwa [← hsame lhs (Or.inl rfl), ← hsame rhs (Or.inr rfl)]
  | div specialization implicitTruncate lhs rhs =>
    simp only [hnode, EdgeNode.operands, mem_cons, not_mem_nil, or_false] at hsame h ⊢
    rwa [← hsame lhs (Or.inl rfl), ← hsame rhs (Or.inr rfl)]
  | toInt32 input =>
    simp only [hnode, EdgeNode.operands, mem_cons, not_mem_nil, or_false] at hsame h ⊢
    rwa [← hsame input rfl]
  | boundsCheck index length minimum maximum =>
    simp only [hnode, EdgeNode.operands, mem_cons, not_mem_nil, or_false] at hsame h ⊢
    rwa [← hsame index (Or.inl rfl), ← hsame length (Or.inr rfl)]
  | access op operands =>
    simp only [hnode, EdgeNode.operands] at hsame h ⊢
    rwa [← map_congr_left hsame]
  | neutral op operands =>
    simp only [hnode, EdgeNode.operands] at hsame h ⊢
    rwa [← map_congr_left fun o ho => congrArg EdgeValue.positive (hsame o ho)]
  | indexed operands index =>
    simp only [hnode, EdgeNode.operands] at hsame h ⊢
    rwa [← map_congr_left hsame]
  | other operands =>
    simp only [hnode, EdgeNode.operands] at hsame h ⊢
    rwa [← map_congr_left hsame]

/-- The graph as a program. With `drop`, the instructions without check leave the int32
zero where the result is the negative zero, as the compiled code does. -/
def program (drop : Bool) : Ssa Nat Nat (EdgeValue ν) where
  root b := b = 0 ∨ g.osrBlock = some b
  edge b target := target ∈ g.successors b
  phis := g.phis
  body := g.body
  operands d := (g.node d).operands
  sources b target src := ∃ i : Nat, (g.predecessors target)[i]? = some b ∧
    ∀ phi ∈ g.phis target, ∃ inputs, g.node phi = .phi inputs ∧ inputs[i]? = some (src phi)
  computes d env v := ∃ w, g.Computes c g.analyzeLate d env w ∧
    v = if drop && g.unchecked g.analyzeLate d then w.positive else w
  take b env target := target ∈ g.successors b ∧ c.branch (g.control b) (env (g.control b)) target
  computes_congr := by
    intro d env env' v hsame ⟨w, hw, hv⟩
    exact ⟨w, g.computes_congr c hsame hw, hv⟩
  edge_of_take h := h.1

end EdgeGraph
end SpiderMonkey.Ion
