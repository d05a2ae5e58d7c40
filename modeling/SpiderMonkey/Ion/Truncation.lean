import SpiderMonkey.Lib.Int32

/-! # Implicit truncation

The early edge case analysis (`EdgeCaseAnalysis.cpp`) of an acyclic graph of int32
additions and subtractions. A node is known by its position; operands come before
the nodes that use them. The analysis goes through the nodes from the last to the
first and marks an addition or subtraction as truncated if all its uses are.

The graph is evaluated twice: as JavaScript does, where sums are rounded to the 53
bits of a double, and as the compiled code does, where the marked nodes wrap.
-/

namespace SpiderMonkey.Ion

open Lib

/-- The two instructions with an `implicitTruncate_` flag. -/
inductive SumOp where
  | add | sub
deriving DecidableEq, Repr

/-- The exact result. -/
def SumOp.exact : SumOp → Int → Int → Int
  | add, a, b => a + b
  | sub, a, b => a - b

/-- The instructions that truncate their operands themselves. -/
inductive TruncatingOp where
  | truncateToInt32 | bitAnd | bitOr | bitXor | lsh | rsh | bitNot
deriving DecidableEq, Repr

/-- A node of the graph. `input` is an int32 from outside, `other` an instruction that
reads the values of its operands as they are. -/
inductive ExprNode where
  | input
  | sum (op : SumOp) (lhs rhs : Nat)
  | truncating (op : TruncatingOp) (operands : List Nat)
  | other (operands : List Nat)
deriving DecidableEq, Repr

namespace ExprNode

def operands : ExprNode → List Nat
  | input => []
  | sum _ lhs rhs => [lhs, rhs]
  | truncating _ operands => operands
  | other operands => operands

end ExprNode

/-- The nodes in program order, and whether a resume point captures them. -/
structure ExprGraph where
  nodes : List ExprNode
  captured : Nat → Bool
  acyclic : ∀ i (node : ExprNode), nodes[i]? = some node → ∀ o ∈ node.operands, o < i

namespace ExprGraph

variable (G : ExprGraph)

/-- The test `AllUsesTruncate` makes of one use, given the flags. -/
def useTruncates (truncated : Nat → Bool) (user : Nat) (node : ExprNode) : Bool :=
  match node with
  | .truncating _ _ => true
  | .sum _ _ _ => truncated user
  | _ => false

/-- `AllUsesTruncate`. -/
def allUsesTruncate (truncated : Nat → Bool) (i : Nat) : Bool :=
  !G.captured i && G.nodes.zipIdx.all fun (node, user) =>
    !node.operands.contains i || useTruncates truncated user node

/-- `analyzeTruncateBackward`. -/
def analyzeTruncateBackward (truncated : Nat → Bool) (i : Nat) : Nat → Bool :=
  match G.nodes[i]? with
  | some (.sum _ _ _) =>
      if truncated i then truncated
      else Function.update truncated i (G.allUsesTruncate truncated i)
  | _ => truncated

/-- `analyzeEarly`: the flags after the nodes were processed from the last to the first. -/
def analyzeEarly : Nat → Bool :=
  (List.range G.nodes.length).reverse.foldl G.analyzeTruncateBackward fun _ => false

end ExprGraph

/-! ## Evaluation -/

/-- A natural number rounded to 53 significant bits, to the even one of two neighbours
at the same distance. -/
def roundNat53 (m : Nat) : Nat :=
  if m < 2 ^ 53 then m
  else
    let k := m.log2 - 52
    let q := m / 2 ^ k
    let r := m % 2 ^ k
    if 2 * r < 2 ^ k ∨ 2 * r = 2 ^ k ∧ q % 2 = 0 then q * 2 ^ k else (q + 1) * 2 ^ k

/-- An integer rounded to the significand of a double. -/
def round53 (z : Int) : Int := z.sign * roundNat53 z.natAbs

namespace ExprGraph

variable (G : ExprGraph)

/-- What is not part of the graph: the inputs, and what the instructions that are no
sums compute. -/
structure Context where
  input : Nat → Int
  compute : Nat → List Int → Int

/-- The value of a node from the values before it. A truncating instruction applies
`ToInt32` to its operands. `sum` says what a sum yields. -/
def evalNode (c : Context) (sum : Nat → Int → Int) (value : Nat → Int) (i : Nat)
    (node : ExprNode) : Int :=
  match node with
  | .input => c.input i
  | .sum op lhs rhs => sum i (op.exact (value lhs) (value rhs))
  | .truncating _ operands => c.compute i (operands.map fun o => wrap32 (value o))
  | .other operands => c.compute i (operands.map value)

/-- The values of the first `n` nodes. -/
def evalNodes (c : Context) (sum : Nat → Int → Int) : Nat → List Int
  | 0 => []
  | n + 1 =>
      let values := evalNodes c sum n
      match G.nodes[n]? with
      | some node => values ++ [evalNode c sum (fun o => values.getD o 0) n node]
      | none => values

/-- The value of a node in JavaScript: each sum is rounded. -/
def jsValue (c : Context) (i : Nat) : Int :=
  (G.evalNodes c (fun _ z => round53 z) G.nodes.length).getD i 0

/-- The value in compiled code: a sum that is marked wraps, the others are rounded. -/
def ionValue (c : Context) (truncated : Nat → Bool) (i : Nat) : Int :=
  (G.evalNodes c (fun i z => if truncated i then wrap32 z else round53 z)
    G.nodes.length).getD i 0

end ExprGraph
end SpiderMonkey.Ion
