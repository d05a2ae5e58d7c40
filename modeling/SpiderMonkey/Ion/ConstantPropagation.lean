import SpiderMonkey.Lib.Iteration

/-! # Constant propagation through phi cycles

The part of `CP.cpp` that solves cycles of phis. `phiMap` maps some phis to an
item of the three level lattice `Bottom`, `Constant`, `Top`. A sweep visits the
phis of the map in the map's order and merges the operands of each into its
item, and sweeps are repeated until one changes no item. An operand phi missing
from the map is inserted on the fly: the sweep still visits it when it comes
later in the order, but the insertion alone does not count as a change.
-/

namespace SpiderMonkey.Ion.CP

open SpiderMonkey.Lib

/-- An operand of a phi: an `MConstant` with its value, a phi, or another
definition. -/
inductive PhiOperand (φ V : Type*) where
  | constant (value : V)
  | phi (p : φ)
  | other
deriving DecidableEq, Repr

/-- The phis of a graph in the order in which `std::map<MPhi *, PhiItem>` goes
through its keys, with their operands. -/
structure PhiGraph (φ V : Type*) where
  order : List φ
  nodup : order.Nodup
  operands : φ → List (PhiOperand φ V)
  closed : ∀ p ∈ order, ∀ q, .phi q ∈ operands p → q ∈ order

/-- `PhiItem`: the state, with the constant it carries when it is `Constant`. -/
inductive PhiItem (V : Type*) where
  | bottom
  | constant (c : V)
  | top
deriving DecidableEq, Repr

/-- `std::map<MPhi *, PhiItem>`. -/
abbrev PhiMap (φ V : Type*) := φ → Option (PhiItem V)

variable {φ V : Type*}

namespace PhiMap

variable [DecidableEq φ]

/-- `insert(make_pair(p, PhiItem()))`, which keeps an item already there. -/
def insert (m : PhiMap φ V) (p : φ) : PhiMap φ V := fun q =>
  if q = p then some ((m p).getD .bottom) else m q

/-- Write the item of a key. -/
def set (m : PhiMap φ V) (p : φ) (i : PhiItem V) : PhiMap φ V := fun q =>
  if q = p then some i else m q

/-- The item of a phi; a phi not in the map would be inserted at `Bottom`. -/
def item (m : PhiMap φ V) (p : φ) : PhiItem V := (m p).getD .bottom

/-- The item an operand contributes. -/
def operandItem (m : PhiMap φ V) : PhiOperand φ V → PhiItem V
  | .constant c => .constant c
  | .phi q => m.item q
  | .other => .top

@[simp] lemma item_insert (m : PhiMap φ V) (p q : φ) : (m.insert p).item q = m.item q := by
  by_cases h : q = p <;> simp [insert, item, h]

lemma item_set (m : PhiMap φ V) (p q : φ) (i : PhiItem V) :
    (m.set p i).item q = if q = p then i else m.item q := by
  by_cases h : q = p <;> simp [set, item, h]

@[simp] lemma isSome_insert (m : PhiMap φ V) (p q : φ) :
    ((m.insert p) q).isSome = true ↔ q = p ∨ (m q).isSome = true := by
  by_cases h : q = p <;> simp [insert, h]

@[simp] lemma isSome_set (m : PhiMap φ V) (p q : φ) (i : PhiItem V) :
    ((m.set p i) q).isSome = true ↔ q = p ∨ (m q).isSome = true := by
  by_cases h : q = p <;> simp [set, h]

omit [DecidableEq φ] in
/-- An item other than `Bottom` belongs to a key of the map. -/
lemma isSome_of_item_ne_bottom {m : PhiMap φ V} {p : φ} (h : m.item p ≠ .bottom) :
    (m p).isSome = true := by
  cases hm : m p with
  | none => simp [item, hm] at h
  | some i => rfl

end PhiMap

/-! ## The solver -/

section Solver

variable [DecidableEq φ] [DecidableEq V]

/-- `CP::propagate`: the item of `dst` afterwards and whether it changed. -/
def propagate (dst src : PhiItem V) : PhiItem V × Bool :=
  match dst with
  | .bottom => if src = .bottom then (.bottom, false) else (src, true)
  | .constant c =>
      match src with
      | .top => (.top, true)
      | .constant d => if d ≠ c then (.top, true) else (.constant c, false)
      | .bottom => (.constant c, false)
  | .top => (.top, false)

/-- One round of the operand loop of `CP::analyzePhi`. -/
def analyzeOperand (p : φ) (s : PhiMap φ V × Bool) (operand : PhiOperand φ V) :
    PhiMap φ V × Bool :=
  match operand with
  | .constant c =>
      let (i, u) := propagate (s.1.item p) (.constant c)
      (s.1.set p i, u || s.2)
  | .phi q =>
      let m := s.1.insert q
      let (i, u) := propagate (m.item p) (m.item q)
      (m.set p i, u || s.2)
  | .other =>
      let (i, u) := propagate (s.1.item p) .top
      (s.1.set p i, u || s.2)

namespace PhiGraph

variable (G : PhiGraph φ V)

/-- `CP::analyzePhi`. -/
def analyzePhi (p : φ) (m : PhiMap φ V) : PhiMap φ V × Bool :=
  (G.operands p).foldl (analyzeOperand p) (m, false)

/-- The iterator reaches `p`: a phi in the map by then is analysed. -/
def visit (s : PhiMap φ V × Bool) (p : φ) : PhiMap φ V × Bool :=
  if (s.1 p).isSome then
    let (m, u) := G.analyzePhi p s.1
    (m, s.2 || u)
  else s

/-- One sweep over the map, from its first key to its last. -/
def sweep (m : PhiMap φ V) : PhiMap φ V × Bool := G.order.foldl G.visit (m, false)

/-- The map `CP::analyze` hands over: the given phis, all at `Bottom`. -/
def initialMap (keys : List φ) : PhiMap φ V := fun p =>
  if p ∈ keys then some .bottom else none

/-- The loop of `CP::solvePhiCycles`. An item changes at most twice, which bounds
the number of sweeps. -/
def solvePhiCycles (keys : List φ) : Option (PhiMap φ V) :=
  untilStable G.sweep (2 * G.order.length + 1) (initialMap keys)

end PhiGraph
end Solver
end SpiderMonkey.Ion.CP
