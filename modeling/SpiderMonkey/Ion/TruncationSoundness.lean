import SpiderMonkey.Ion.Truncation
import SpiderMonkey.Lib.RoundEven

/-! # What implicit truncation changes

A marked sum is only read by instructions that truncate and by other marked sums.
Wrapping commutes with sums, so what is read at the end differs from JavaScript by
the rounding errors of the marked sums alone.
-/

namespace SpiderMonkey.Ion

open Lib List

/-- Wrapping commutes with sums and differences. -/
lemma wrap32_exact {op : SumOp} {a a' b b' : Int} (ha : wrap32 a = wrap32 a')
    (hb : wrap32 b = wrap32 b') : wrap32 (op.exact a b) = wrap32 (op.exact a' b') := by
  rw [wrap32_eq_iff] at ha hb ⊢
  cases op with
  | add =>
    change (a + b) % 4294967296 = (a' + b') % 4294967296
    omega
  | sub =>
    change (a - b) % 4294967296 = (a' - b') % 4294967296
    omega

namespace ExprGraph

variable {G : ExprGraph}

/-! ## The marks -/

variable {i : Nat}

/-- More marks let more uses pass. -/
lemma allUsesTruncate_mono {t t' : Nat → Bool} (ht : ∀ i, t i = true → t' i = true)
    (h : G.allUsesTruncate t i = true) : G.allUsesTruncate t' i = true := by
  unfold allUsesTruncate at *
  rw [Bool.and_eq_true, all_eq_true] at *
  refine ⟨h.1, ?_⟩
  rintro ⟨node, user⟩ hmem
  have huse := h.2 (node, user) hmem
  simp only [Bool.or_eq_true] at huse ⊢
  rcases huse with hno | huse
  · exact Or.inl hno
  · right
    cases node with
    | sum op lhs rhs => exact ht user huse
    | _ => exact huse

/-- Each mark is on a sum, and the marks let all its uses pass. -/
def MarksHold (G : ExprGraph) (t : Nat → Bool) : Prop :=
  ∀ i, t i = true →
    (∃ op lhs rhs, G.nodes[i]? = some (.sum op lhs rhs)) ∧ G.allUsesTruncate t i = true

lemma marksHold_analyzeTruncateBackward {t : Nat → Bool} (ht : G.MarksHold t) (i : Nat) :
    G.MarksHold (G.analyzeTruncateBackward t i) := by
  unfold analyzeTruncateBackward
  split
  · rename_i op lhs rhs hnode
    split
    · exact ht
    · rename_i hi
      -- a mark is only added, so the older ones still hold
      have hmore : ∀ j, t j = true → Function.update t i (G.allUsesTruncate t i) j = true := by
        intro j hj
        have hji : j ≠ i := fun heq => hi (heq ▸ hj)
        rwa [Function.update_of_ne hji]
      intro j hj
      by_cases hji : j = i
      · subst hji
        rw [Function.update_self] at hj
        exact ⟨⟨op, lhs, rhs, hnode⟩, allUsesTruncate_mono hmore hj⟩
      · rw [Function.update_of_ne hji] at hj
        exact ⟨(ht j hj).1, allUsesTruncate_mono hmore (ht j hj).2⟩
  · exact ht

lemma marksHold_analyzeEarly (G : ExprGraph) : G.MarksHold G.analyzeEarly := by
  have hfold : ∀ (l : List Nat) (t : Nat → Bool), G.MarksHold t →
      G.MarksHold (l.foldl G.analyzeTruncateBackward t) := by
    intro l
    induction l with
    | nil => exact fun _ ht => ht
    | cons i l ih => exact fun t ht => ih _ (marksHold_analyzeTruncateBackward ht i)
  apply hfold
  intro i hi
  cases hi

variable {node : ExprNode}

/-- What uses a marked node truncates, or is a marked sum itself. -/
lemma use_of_marked {i user : Nat} (hi : G.analyzeEarly i = true)
    (hnode : G.nodes[user]? = some node) (huse : i ∈ node.operands) :
    useTruncates G.analyzeEarly user node = true := by
  have hall := (marksHold_analyzeEarly G i hi).2
  unfold allUsesTruncate at hall
  rw [Bool.and_eq_true, all_eq_true] at hall
  have hmem : (node, user) ∈ G.nodes.zipIdx := by
    rw [mem_zipIdx_iff_getElem?]
    exact hnode
  have hthis := hall.2 (node, user) hmem
  simpa [huse] using hthis

/-! ## Values -/

section

variable (c : Context) (sum : Nat → Int → Int)

lemma length_evalNodes {n : Nat} (hn : n ≤ G.nodes.length) :
    (G.evalNodes c sum n).length = n := by
  induction n with
  | zero => rfl
  | succ n ih =>
    unfold evalNodes
    rw [List.getElem?_eq_getElem (show n < G.nodes.length by omega)]
    simp [ih (by omega)]

/-- Later nodes leave the values of earlier ones alone. -/
lemma getD_evalNodes {i n : Nat} (hi : i < n) (hn : n ≤ G.nodes.length) :
    (G.evalNodes c sum n).getD i 0 = (G.evalNodes c sum (i + 1)).getD i 0 := by
  induction n with
  | zero => omega
  | succ n ih =>
    by_cases hin : i = n
    · rw [hin]
    · rw [← ih (by omega) (by omega)]
      have hlen := length_evalNodes c sum (show n ≤ G.nodes.length by omega)
      rw [evalNodes, List.getElem?_eq_getElem (show n < G.nodes.length by omega)]
      simp only [getD_eq_getElem?_getD]
      rw [List.getElem?_append_left (by omega)]

/-- A node is evaluated on the values of its operands. -/
lemma evalNode_congr {value value' : Nat → Int} (h : ∀ o ∈ node.operands, value o = value' o) :
    evalNode c sum value i node = evalNode c sum value' i node := by
  cases node with
  | input => rfl
  | sum op lhs rhs =>
    have hlhs := h lhs (by simp [ExprNode.operands])
    have hrhs := h rhs (by simp [ExprNode.operands])
    simp only [evalNode, hlhs, hrhs]
  | truncating op operands =>
    exact congrArg (c.compute i) (map_congr_left fun o ho => by rw [h o ho])
  | other operands =>
    exact congrArg (c.compute i) (map_congr_left fun o ho => h o ho)

lemma value_eq (hnode : G.nodes[i]? = some node) :
    (G.evalNodes c sum G.nodes.length).getD i 0 =
      evalNode c sum (fun o => (G.evalNodes c sum G.nodes.length).getD o 0) i node := by
  have hi : i < G.nodes.length := by
    by_contra hout
    rw [List.getElem?_eq_none (by omega)] at hnode
    cases hnode
  have hlen := length_evalNodes (G := G) c sum (Nat.le_of_lt hi)
  rw [getD_evalNodes c sum hi (Nat.le_refl _), evalNodes, hnode]
  simp only [getD_eq_getElem?_getD]
  rw [List.getElem?_append_right (by omega), hlen]
  simp only [Nat.sub_self, List.getElem?_cons_zero, Option.getD_some]
  apply evalNode_congr
  intro o ho
  have ho := G.acyclic i node hnode o ho
  simp only [← getD_eq_getElem?_getD]
  rw [getD_evalNodes c sum ho (Nat.le_of_lt hi),
    getD_evalNodes c sum (show o < G.nodes.length by omega) (Nat.le_refl _)]

end

lemma jsValue_eq (c : Context) (hnode : G.nodes[i]? = some node) :
    G.jsValue c i = evalNode c (fun _ z => round53 z) (G.jsValue c) i node :=
  value_eq c _ hnode

lemma ionValue_eq (c : Context) (t : Nat → Bool) (hnode : G.nodes[i]? = some node) :
    G.ionValue c t i =
      evalNode c (fun i z => if t i then wrap32 z else round53 z) (G.ionValue c t) i node :=
  value_eq c _ hnode

/-! ## The consumers -/

/-- Each instruction that truncates its operands reads the int32 JavaScript reads. -/
def ConsumersAgree (G : ExprGraph) (c : Context) : Prop :=
  ∀ (i : Nat) op operands, G.nodes[i]? = some (.truncating op operands) → ∀ o ∈ operands,
    wrap32 (G.ionValue c G.analyzeEarly o) = wrap32 (G.jsValue c o)

/-- No marked sum is rounded, unless by a multiple of `2 ^ 32`. -/
def RoundingVanishes (G : ExprGraph) (c : Context) : Prop :=
  ∀ (i : Nat) op lhs rhs, G.nodes[i]? = some (.sum op lhs rhs) → G.analyzeEarly i = true →
    wrap32 (round53 (op.exact (G.jsValue c lhs) (G.jsValue c rhs))) =
      wrap32 (op.exact (G.jsValue c lhs) (G.jsValue c rhs))

/-- Each marked sum is read by an instruction that truncates it. -/
def EachObserved (G : ExprGraph) : Prop :=
  ∀ i, G.analyzeEarly i = true → ∃ (n : Nat) (op : TruncatingOp) (operands : List Nat),
    G.nodes[n]? = some (.truncating op operands) ∧ i ∈ operands

/-- A node with an unmarked use by a sum, or a use that does not truncate, is not
marked. -/
lemma not_marked_of_use {i user : Nat} (hnode : G.nodes[user]? = some node)
    (huse : i ∈ node.operands) (hno : useTruncates G.analyzeEarly user node = false) :
    G.analyzeEarly i = false := by
  by_contra hi
  rw [Bool.not_eq_false] at hi
  rw [use_of_marked hi hnode huse] at hno
  cases hno

/-- What agrees at a node: the value, or what is left of it modulo `2 ^ 32` where the node
is marked. -/
def Agrees (G : ExprGraph) (c : Context) (i : Nat) : Prop :=
  wrap32 (G.ionValue c G.analyzeEarly i) = wrap32 (G.jsValue c i) ∧
    (G.analyzeEarly i = false → G.ionValue c G.analyzeEarly i = G.jsValue c i)

lemma agrees_of_eq {c : Context} (h : G.ionValue c G.analyzeEarly i = G.jsValue c i) :
    G.Agrees c i :=
  ⟨by rw [h], fun _ => h⟩

/-- One node agrees if its operands do and, where it is marked, its rounding vanishes. -/
lemma agrees_of_operands {c : Context} (hnode : G.nodes[i]? = some node)
    (hoperands : ∀ o ∈ node.operands, G.Agrees c o)
    (hround : ∀ op lhs rhs, node = .sum op lhs rhs → G.analyzeEarly i = true →
      wrap32 (round53 (op.exact (G.jsValue c lhs) (G.jsValue c rhs))) =
        wrap32 (op.exact (G.jsValue c lhs) (G.jsValue c rhs))) : G.Agrees c i := by
  have hjs := jsValue_eq c hnode
  have hion := ionValue_eq c G.analyzeEarly hnode
  cases node with
  | input =>
    apply agrees_of_eq
    rw [hjs, hion]
    rfl
  | sum op lhs rhs =>
    have hlhs := hoperands lhs (by simp [ExprNode.operands])
    have hrhs := hoperands rhs (by simp [ExprNode.operands])
    simp only [evalNode] at hjs hion
    cases hi : G.analyzeEarly i with
    | true =>
      -- the sum wraps in compiled code and is rounded in JavaScript
      rw [hi, if_pos rfl] at hion
      refine ⟨?_, fun hno => absurd (hno.symm.trans hi) (by decide)⟩
      rw [hion, hjs, wrap32_wrap32, hround op lhs rhs rfl hi]
      exact wrap32_exact hlhs.1 hrhs.1
    | false =>
      -- its operands are not marked either, so both are rounded from the same values
      have hno : useTruncates G.analyzeEarly i (.sum op lhs rhs) = false := hi
      have hl := hlhs.2 (not_marked_of_use hnode (by simp [ExprNode.operands]) hno)
      have hr := hrhs.2 (not_marked_of_use hnode (by simp [ExprNode.operands]) hno)
      apply agrees_of_eq
      rw [hion, hjs, hi, if_neg (by decide), hl, hr]
  | truncating op operands =>
    apply agrees_of_eq
    rw [hjs, hion]
    exact congrArg (c.compute i) (map_congr_left fun o ho => (hoperands o ho).1)
  | other operands =>
    apply agrees_of_eq
    rw [hjs, hion]
    refine congrArg (c.compute i) (map_congr_left fun o ho => ?_)
    exact (hoperands o ho).2 (not_marked_of_use hnode ho rfl)

/-- A position behind the last node has no value and no mark. -/
lemma agrees_of_none {c : Context} (hnone : G.nodes[i]? = none) : G.Agrees c i := by
  have hi : G.nodes.length ≤ i := List.getElem?_eq_none_iff.mp hnone
  have hvalue : ∀ sum, (G.evalNodes c sum G.nodes.length).getD i 0 = 0 := by
    intro sum
    have hlen := length_evalNodes (G := G) c sum (Nat.le_refl _)
    rw [getD_eq_getElem?_getD, List.getElem?_eq_none (by omega)]
    rfl
  apply agrees_of_eq
  exact (hvalue _).trans (hvalue _).symm

/-- Where the rounding of the marked sums vanishes, every node agrees. -/
lemma agrees_of_roundingVanishes {c : Context} (h : G.RoundingVanishes c) (i : Nat) :
    G.Agrees c i := by
  induction i using Nat.strong_induction_on with
  | _ i ih =>
    cases hnode : G.nodes[i]? with
    | none => exact agrees_of_none hnode
    | some node =>
      apply agrees_of_operands hnode
      · intro o ho
        exact ih o (G.acyclic i node hnode o ho)
      · rintro op lhs rhs rfl hi
        exact h i op lhs rhs hnode hi

/-- Where each marked sum is observed and what is observed agrees, every node agrees. -/
lemma agrees_of_consumersAgree {c : Context} (hobserved : G.EachObserved)
    (h : G.ConsumersAgree c) (i : Nat) : G.Agrees c i := by
  induction i using Nat.strong_induction_on with
  | _ i ih =>
    cases hi : G.analyzeEarly i with
    | true =>
      rcases hobserved i hi with ⟨n, op, operands, hnode, hmem⟩
      exact ⟨h n op operands hnode i hmem, fun hno => absurd (hno.symm.trans hi) (by decide)⟩
    | false =>
      cases hnode : G.nodes[i]? with
      | none => exact agrees_of_none hnode
      | some node =>
        apply agrees_of_operands hnode
        · intro o ho
          exact ih o (G.acyclic i node hnode o ho)
        · intro op lhs rhs _ hmarked
          exact absurd (hi.symm.trans hmarked) (by decide)

/-- Truncation is not observed where no marked sum is rounded, up to multiples of
`2 ^ 32`; and only there, if every marked sum is read by an instruction that truncates
it. -/
theorem truncation_unobservable (G : ExprGraph) (c : Context) :
    (G.RoundingVanishes c → G.ConsumersAgree c) ∧
      (G.EachObserved → (G.ConsumersAgree c ↔ G.RoundingVanishes c)) := by
  have hsound : G.RoundingVanishes c → G.ConsumersAgree c := by
    intro h i op operands _ o _
    exact (agrees_of_roundingVanishes h o).1
  refine ⟨hsound, fun hobserved => ⟨fun h i op lhs rhs hnode hi => ?_, hsound⟩⟩
  have hlhs := (agrees_of_consumersAgree hobserved h lhs).1
  have hrhs := (agrees_of_consumersAgree hobserved h rhs).1
  have hsum := (agrees_of_consumersAgree hobserved h i).1
  have hjs := jsValue_eq c hnode
  have hion := ionValue_eq c G.analyzeEarly hnode
  simp only [evalNode] at hjs hion
  rw [hi, if_pos rfl] at hion
  rw [← hjs, ← hsum, hion, wrap32_wrap32]
  exact wrap32_exact hlhs hrhs

/-! ### A chain of doublings

The largest int32 is doubled 22 times and added to itself once more. The last sum is
`(2 ^ 22 + 1) * (2 ^ 31 - 1)`, an odd number above `2 ^ 53`. -/

/-- The order of a list of nodes that is in program order can be computed. -/
lemma acyclic_of_all {nodes : List ExprNode}
    (h : nodes.zipIdx.all (fun (node, i) => node.operands.all (· < i)) = true) :
    ∀ i (node : ExprNode), nodes[i]? = some node → ∀ o ∈ node.operands, o < i := by
  intro i node hnode o ho
  have hmem : (node, i) ∈ nodes.zipIdx := by
    rw [mem_zipIdx_iff_getElem?]
    exact hnode
  have hall := all_eq_true.mp h (node, i) hmem
  simpa using all_eq_true.mp hall o ho

def doublings : ExprGraph where
  nodes := .input :: ((List.range 22).map fun k => .sum .add k k) ++
    [.sum .add 22 0, .truncating .truncateToInt32 [23]]
  captured := fun _ => false
  acyclic := acyclic_of_all (by decide)

def largestInput : Context where
  input := fun _ => 2 ^ 31 - 1
  compute := fun _ values => values.headD 0

/-- The truncation of the last sum is observed by the instruction that truncates it. -/
theorem truncation_observed_doublings :
    ¬ ∀ (G : ExprGraph) (c : Context),
        (∀ i, -2 ^ 31 ≤ c.input i ∧ c.input i < 2 ^ 31) → G.ConsumersAgree c := by
  intro hall
  have hagree := hall doublings largestInput fun _ => by norm_num [largestInput]
  have hlast := hagree 24 .truncateToInt32 [23] (by decide) 23 (by decide)
  -- the wrapping sums end at the exact sum modulo `2 ^ 32`, the rounded one is one off
  exact absurd hlast (by decide +kernel)

end ExprGraph
end SpiderMonkey.Ion
