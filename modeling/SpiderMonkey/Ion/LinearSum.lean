import SpiderMonkey.Ion.Mir

/-! # Linear sums

`ExtractLinearSum` of `IonAnalysis.cpp`, which writes an int32 definition as a term plus a
constant by looking through additions and subtractions, and the executions of a graph over
the int32 values of its definitions.
-/

namespace SpiderMonkey.Ion

open Lib

/-! ## Checked arithmetic -/

/-- `SafeAdd`, `none` where it returns false. -/
def safeAdd (one two : Int32) : Option Int32 :=
  if one.toInt + two.toInt = (one + two).toInt then some (one + two) else none

/-- `SafeSub`. -/
def safeSub (one two : Int32) : Option Int32 :=
  if one.toInt - two.toInt = (one - two).toInt then some (one - two) else none

lemma toInt_of_safeAdd {one two res : Int32} (h : safeAdd one two = some res) :
    res.toInt = one.toInt + two.toInt := by
  unfold safeAdd at h
  split at h
  · rename_i hexact
    rw [← Option.some.inj h, hexact]
  · exact absurd h (by simp)

lemma toInt_of_safeSub {one two res : Int32} (h : safeSub one two = some res) :
    res.toInt = one.toInt - two.toInt := by
  unfold safeSub at h
  split at h
  · rename_i hexact
    rw [← Option.some.inj h, hexact]
  · exact absurd h (by simp)

/-! ## Sums -/

/-- `LinearSum`: `term + constant`, or the constant alone where the term is `NULL`. -/
structure LinearSum where
  term : Option DefId
  constant : Int32
deriving DecidableEq, Repr

namespace LinearSum

/-- The sum of two sums, one of which is a constant. -/
def add? (lsum rsum : LinearSum) : Option LinearSum :=
  if lsum.term.isSome && rsum.term.isSome then none
  else (safeAdd lsum.constant rsum.constant).map fun c => ⟨lsum.term.or rsum.term, c⟩

/-- The difference of a sum with a term and a constant. -/
def sub? (lsum rsum : LinearSum) : Option LinearSum :=
  if lsum.term.isSome && rsum.term.isSome then none
  else if lsum.term.isSome then
    (safeSub lsum.constant rsum.constant).map fun c => ⟨lsum.term, c⟩
  else none

/-- The value of a sum. -/
def eval (sum : LinearSum) (env : DefId → Int32) : Int :=
  (sum.term.map fun t => (env t).toInt).getD 0 + sum.constant.toInt

end LinearSum

namespace MIRGraph

variable (G : MIRGraph)

/-- The type of a definition. -/
abbrev type (d : DefId) : MIRType := (G.definition d).type

/-- `ExtractLinearSum`, for a graph whose definitions have the operands `operands` by now.
An instruction it does not look through is the sum `ins + 0`. -/
def extractLinearSum (operands : DefId → List DefId) : Nat → DefId → Option LinearSum
  | 0, _ => none
  | fuel + 1, ins =>
      if G.type ins ≠ .int32 then some ⟨some ins, 0⟩
      else
        match (G.definition ins).op, operands ins with
        | .constant (.int32 n), _ => some ⟨none, n⟩
        | .arith .add _ _, [lhs, rhs] =>
            if G.type lhs = .int32 ∧ G.type rhs = .int32 then do
              let lsum ← extractLinearSum operands fuel lhs
              let rsum ← extractLinearSum operands fuel rhs
              return (lsum.add? rsum).getD ⟨some ins, 0⟩
            else some ⟨some ins, 0⟩
        | .arith .sub _ _, [lhs, rhs] =>
            if G.type lhs = .int32 ∧ G.type rhs = .int32 then do
              let lsum ← extractLinearSum operands fuel lhs
              let rsum ← extractLinearSum operands fuel rhs
              return (lsum.sub? rsum).getD ⟨some ins, 0⟩
            else some ⟨some ins, 0⟩
        | _, _ => some ⟨some ins, 0⟩

end MIRGraph

/-! ## Executions over int32 values -/

/-- The exact result of an addition or a subtraction. -/
def ArithOp.exact? : ArithOp → Int → Int → Option Int
  | .add, x, y => some (x + y)
  | .sub, x, y => some (x - y)
  | _, _, _ => none

/-- The condition of an `MBoundsCheck`. -/
def InBounds (minimum maximum index length : Int32) : Prop :=
  0 ≤ index.toInt + minimum.toInt ∧ index.toInt + maximum.toInt < length.toInt

instance (minimum maximum index length : Int32) :
    Decidable (InBounds minimum maximum index length) :=
  inferInstanceAs (Decidable (_ ∧ _))

namespace MIRGraph

variable (G : MIRGraph)

/-- The values an instruction may leave. A definition that is not of type int32 has some
value here too, and that of a comparison of int32 operands is 0 or 1. An addition or
subtraction that is not truncated bails out on overflow. A bounds check returns the index;
`checked` has the range it checks, if it is not removed. -/
def ComputesInt32 (checked : DefId → Option (Int32 × Int32)) (d : DefId) (env : DefId → Int32)
    (v : Int32) : Prop :=
  match (G.definition d).op, (G.definition d).operands with
  | .constant (.int32 n), _ => v = n
  | .compare jsop .int32, [l, r] =>
      v = if jsop.eval (env l).toInt (env r).toInt then 1 else 0
  | .arith op _ implicitTruncate, [l, r] =>
      G.type d = .int32 → G.type l = .int32 → G.type r = .int32 →
        ∀ n, op.exact? (env l).toInt (env r).toInt = some n →
          v.toInt = if implicitTruncate then wrap32 n else n
  | .boundsCheck _ _, [index, length] =>
      v = env index ∧ ∀ minimum maximum, checked d = some (minimum, maximum) →
        InBounds minimum maximum (env index) (env length)
  | _, _ => True

/-- A test of a comparison of int32 operands branches by it, any other control instruction
to any of its successors. -/
def BranchesInt32 (lastIns : MControl) (env : DefId → Int32) (target : BlockId) : Prop :=
  match lastIns with
  | .test ins ifTrue ifFalse =>
      match (G.definition ins).op with
      | .compare _ .int32 => target = if env ins = 0 then ifFalse else ifTrue
      | _ => target ∈ lastIns.successors
  | _ => target ∈ lastIns.successors

variable {G}

lemma computesInt32_congr {checked : DefId → Option (Int32 × Int32)} {d : DefId}
    {env env' : DefId → Int32} {v : Int32}
    (hsame : ∀ o ∈ (G.definition d).operands, env o = env' o)
    (h : G.ComputesInt32 checked d env v) : G.ComputesInt32 checked d env' v := by
  unfold ComputesInt32 at *
  split at h
  · exact h
  · rename_i l r _ hops
    rwa [← hsame l (by simp [hops]), ← hsame r (by simp [hops])]
  · rename_i l r _ hops
    rwa [← hsame l (by simp [hops]), ← hsame r (by simp [hops])]
  · rename_i index length _ hops
    rwa [← hsame index (by simp [hops]), ← hsame length (by simp [hops])]
  · trivial

lemma mem_successors_of_branchesInt32 {lastIns : MControl} {env : DefId → Int32}
    {target : BlockId} (h : G.BranchesInt32 lastIns env target) :
    target ∈ lastIns.successors := by
  unfold BranchesInt32 at h
  split at h
  · split at h
    · rw [h]
      split <;> simp [MControl.successors]
    · exact h
  · exact h

variable (G)

/-- The graph as a program over int32 values. -/
def int32Ssa (checked : DefId → Option (Int32 × Int32)) : Ssa BlockId DefId Int32 where
  toFlowGraph := G.ssa.toFlowGraph
  phis := G.ssa.phis
  body := G.ssa.body
  operands := G.ssa.operands
  sources := G.ssa.sources
  computes := G.ComputesInt32 checked
  take b := G.BranchesInt32 (G.block b).lastIns
  computes_congr := computesInt32_congr
  edge_of_take := mem_successors_of_branchesInt32

variable {G}

/-- A graph in SSA form is so whatever its values are. -/
lemma WellFormed.int32Ssa (wf : G.WellFormed) (checked : DefId → Option (Int32 × Int32)) :
    (G.int32Ssa checked).WellFormed where
  block_unique := wf.ssa.block_unique
  phi_not_body := wf.ssa.phi_not_body
  nodup_body := wf.ssa.nodup_body
  operand_above := wf.ssa.operand_above

end MIRGraph
end SpiderMonkey.Ion
