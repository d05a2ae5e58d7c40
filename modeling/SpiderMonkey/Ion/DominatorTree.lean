import SpiderMonkey.Lib.Preorder
import SpiderMonkey.Ion.DominatorsSoundness

/-! # The dominator tree

`BuildDominatorTree` of `IonAnalysis.cpp`, once `ComputeImmediateDominators` is done, and
`MBasicBlock::dominates`. The blocks are their numbers in reverse postorder. A pass over the blocks
in postorder adds up the sizes of the subtrees, and a walk with a stack numbers the blocks.
-/

namespace SpiderMonkey.Ion

open Lib Function List

/-- `immediatelyDominated_`, `numDominated_` and `domIndex_` of the blocks. -/
structure DominatorTree where
  immediatelyDominated : Nat → List Nat
  numDominated : Nat → Nat
  domIndex : Nat → Nat

namespace DominatorTree

/-- What the blocks are created with. -/
def initial : DominatorTree := ⟨fun _ => [], fun _ => 0, fun _ => 0⟩

/-- `MBasicBlock::dominates` -/
def dominates (t : DominatorTree) (b other : Nat) : Bool :=
  t.domIndex b ≤ t.domIndex other && t.domIndex other ≤ t.domIndex b + t.numDominated b

section

variable (idom : Nat → Nat)

/-- The body of the first loop. -/
def addChild (t : DominatorTree) (child : Nat) : DominatorTree :=
  let parent := idom child
  -- a block that only dominates itself has no definite parent
  if child = parent then t
  else
    { t with
      immediatelyDominated :=
        update t.immediatelyDominated parent (t.immediatelyDominated parent ++ [child])
      numDominated :=
        update t.numDominated parent (t.numDominated parent + (t.numDominated child + 1)) }

/-- The first loop over the blocks below `n`, in postorder. -/
def addChildren : Nat → DominatorTree → DominatorTree
  | 0, t => t
  | n + 1, t => addChildren n (t.addChild idom n)

end

/-- The second loop. The top of the worklist comes first. -/
def numberBlocks : Nat → List Nat → Nat → DominatorTree → Option DominatorTree
  | 0, _, _, _ => none
  | _ + 1, [], _, t => some t
  | fuel + 1, block :: worklist, index, t =>
    numberBlocks fuel ((t.immediatelyDominated block).reverse ++ worklist) (index + 1)
      { t with domIndex := update t.domIndex block index }

end DominatorTree

/-- The blocks that dominate themselves, the last of them on top. -/
def dominatorRoots (n : Nat) (idom : Nat → Nat) : List Nat :=
  ((List.range n).filter fun b => idom b = b).reverse

/-- `BuildDominatorTree`, with the immediate dominators; each turn of the last loop numbers one of
the `n` blocks. -/
def buildDominatorTree (n : Nat) (idom : Nat → Nat) : Option DominatorTree :=
  let t := DominatorTree.initial.addChildren idom n
  t.numberBlocks (n + 1) (dominatorRoots n idom) 0

namespace DominatorTree

/-! ## The sizes of the subtrees -/

/-- The first loop has visited the blocks from `k` on. -/
structure Built (idom : Nat → Nat) (n k : Nat) (t : DominatorTree) : Prop where
  mem_iff : ∀ p c, c ∈ t.immediatelyDominated p ↔ k ≤ c ∧ c < n ∧ idom c = p ∧ c ≠ p
  nodup : ∀ p, (t.immediatelyDominated p).Nodup
  numDominated_eq : ∀ p, t.numDominated p =
    ((t.immediatelyDominated p).map fun c => t.numDominated c + 1).sum

variable {idom : Nat → Nat} {n k : Nat} {t : DominatorTree}

lemma built_initial (idom : Nat → Nat) (n : Nat) : Built idom n n initial where
  mem_iff p c := by
    simp only [initial, not_mem_nil, false_iff]
    omega
  nodup _ := nodup_nil
  numDominated_eq _ := rfl

lemma Built.addChild (h : Built idom n (k + 1) t) (hk : k < n) (hle : idom k ≤ k) :
    Built idom n k (t.addChild idom k) := by
  unfold DominatorTree.addChild
  simp only
  split
  case isTrue hself =>
    refine ⟨fun p c => ?_, h.nodup, h.numDominated_eq⟩
    rw [h.mem_iff]
    constructor
    · rintro ⟨hc, hrest⟩
      exact ⟨by omega, hrest⟩
    · rintro ⟨hc, hn, hp, hne⟩
      have hck : c ≠ k := by
        rintro rfl
        exact hne (hself.trans hp)
      exact ⟨by omega, hn, hp, hne⟩
  case isFalse hne =>
    have hlt : idom k < k := by omega
    refine ⟨fun p c => ?_, fun p => ?_, fun p => ?_⟩
    · by_cases hp : p = idom k
      · subst hp
        simp only [update_self, mem_append, mem_singleton, h.mem_iff]
        constructor
        · rintro (⟨hc, hrest⟩ | rfl)
          · exact ⟨by omega, hrest⟩
          · exact ⟨Nat.le_refl _, hk, rfl, hne⟩
        · rintro ⟨hc, hrest⟩
          by_cases hck : c = k
          · exact .inr hck
          · exact .inl ⟨by omega, hrest⟩
      · simp only [update_of_ne hp, h.mem_iff]
        constructor
        · rintro ⟨hc, hrest⟩
          exact ⟨by omega, hrest⟩
        · rintro ⟨hc, hn, hpc, hcp⟩
          have hck : c ≠ k := by
            rintro rfl
            exact hp hpc.symm
          exact ⟨by omega, hn, hpc, hcp⟩
    · by_cases hp : p = idom k
      · subst hp
        simp only [update_self]
        refine nodup_append.mpr ⟨h.nodup _, nodup_singleton k, ?_⟩
        rintro c hc _ hck rfl
        rw [mem_singleton.mp hck, h.mem_iff] at hc
        omega
      · simp only [update_of_ne hp]
        exact h.nodup p
    · -- the parent is no child of a block yet
      have hold (c : Nat) (hc : c ∈ t.immediatelyDominated p) :
          update t.numDominated (idom k) (t.numDominated (idom k) + (t.numDominated k + 1)) c
            = t.numDominated c := by
        have hck := ((h.mem_iff p c).mp hc).1
        exact update_of_ne (by omega) _ _
      have hsame : ((t.immediatelyDominated p).map fun c =>
          update t.numDominated (idom k)
            (t.numDominated (idom k) + (t.numDominated k + 1)) c + 1) =
          (t.immediatelyDominated p).map fun c => t.numDominated c + 1 :=
        map_congr_left fun c hc => by rw [hold c hc]
      by_cases hp : p = idom k
      · subst hp
        simp only [update_self, map_append, sum_append, hsame, map_cons,
          map_nil, sum_cons, sum_nil]
        rw [update_of_ne (by omega), ← h.numDominated_eq]
        omega
      · simp only [update_of_ne hp, hsame]
        exact h.numDominated_eq p

lemma Built.addChildren (h : Built idom n k t) (hk : k ≤ n) (hle : ∀ b < n, idom b ≤ b) :
    Built idom n 0 (t.addChildren idom k) := by
  induction k generalizing t with
  | zero => exact h
  | succ k ih => exact ih (h.addChild hk (hle k hk)) (by omega)

/-- The tree as a forest. -/
def forest (t : DominatorTree) : Forest Nat := ⟨t.immediatelyDominated, t.numDominated⟩

lemma Built.wellFormed (h : Built idom n 0 t) : t.forest.WellFormed where
  numBelow_eq := h.numDominated_eq
  nodup_children := h.nodup
  parent_unique {a b c} ha hb := by
    have ha := (h.mem_iff a c).mp ha
    have hb := (h.mem_iff b c).mp hb
    rw [← ha.2.2.1, hb.2.2.1]

/-- What is below a block in the tree has it on its chain. -/
lemma Built.below_iff (h : Built idom n 0 t) {a b : Nat} (hb : b < n) (hlt : ∀ b < n, idom b < n) :
    t.forest.Below a b ↔ OnChain (fun b => some (idom b)) b a := by
  constructor
  · intro hbelow
    induction hbelow with
    | refl => exact .self a
    | @tail c d _ hd ih =>
      obtain ⟨-, hdn, hparent, hne⟩ := (h.mem_iff c d).mp hd
      exact .up (congrArg some hparent) hne.symm (ih (hparent ▸ hlt d hdn))
  · intro hchain
    induction hchain with
    | self => exact .refl
    | @up b p x hparent hne _ ih =>
      have hp : idom b = p := Option.some.inj hparent
      have hpn : p < n := hp ▸ hlt b hb
      exact (ih hpn).tail ((h.mem_iff p b).mpr ⟨Nat.zero_le _, hb, hp, hne.symm⟩)

/-! ## The numbers of the blocks -/

/-- The last loop ends, with the numbers of a walk over the tree. -/
lemma numberBlocks_spec {roots visited worklist : List Nat} (wf : t.forest.WellFormed)
    (h : t.forest.Walk roots visited worklist) (hsub : visited ++ worklist ⊆ List.range n)
    (hchildren : ∀ b, t.immediatelyDominated b ⊆ List.range n)
    (hindex : ∀ (j b : Nat), visited[j]? = some b → t.domIndex b = j) {fuel : Nat}
    (hfuel : n < fuel + visited.length) :
    ∃ t' visited', t.numberBlocks fuel worklist visited.length = some t' ∧
      t'.numDominated = t.numDominated ∧ t.forest.Walk roots visited' [] ∧
      visited' ⊆ List.range n ∧ ∀ (j b : Nat), visited'[j]? = some b → t'.domIndex b = j := by
  induction fuel generalizing t visited worklist with
  | zero =>
    have hlen := h.traversal.length_le hsub
    rw [length_range] at hlen
    omega
  | succ fuel ih =>
    cases worklist with
    | nil => exact ⟨t, visited, rfl, rfl, h, by simpa using hsub, hindex⟩
    | cons block worklist =>
      let t' : DominatorTree :=
        { t with domIndex := update t.domIndex block visited.length }
      have hwalk : t'.forest.Walk roots (visited ++ [block])
          ((t.immediatelyDominated block).reverse ++ worklist) :=
        h.visit wf (reverse_perm _)
      have hblock : block ∉ visited := fun hin =>
        (nodup_append.mp h.traversal.nodup).2.2 block hin block mem_cons_self rfl
      have hsub' : visited ++ [block] ++ ((t.immediatelyDominated block).reverse ++ worklist) ⊆
          List.range n := by
        intro x hx
        simp only [mem_append, mem_singleton, mem_reverse] at hx
        rcases hx with (hx | rfl) | hx | hx
        · exact hsub (mem_append_left _ hx)
        · exact hsub (mem_append_right _ mem_cons_self)
        · exact hchildren block hx
        · exact hsub (mem_append_right _ (mem_cons_of_mem _ hx))
      have hindex' : ∀ (j b : Nat), (visited ++ [block])[j]? = some b → t'.domIndex b = j := by
        intro j b hj
        rcases getElem?_concat_eq_some hj with hold | ⟨rfl, rfl⟩
        · have hne : b ≠ block := by
            rintro rfl
            exact hblock (mem_of_getElem? hold)
          exact (update_of_ne hne _ _).trans (hindex j b hold)
        · exact update_self _ _ _
      have hlen : (visited ++ [block]).length = visited.length + 1 := by simp
      have hresult := ih (t := t') wf hwalk hsub' hchildren hindex' (by omega)
      rw [hlen] at hresult
      exact hresult

end DominatorTree

/-! ## The interval test -/

/-- A path to a block that stays below a larger one avoids that. -/
lemma DomGraph.WellNumbered.avoids {g : DomGraph} (hg : g.WellNumbered) {x b : Nat}
    (hb : b < g.numBlocks) (hlt : b < x) : g.toFlowGraph.Avoids x b := by
  induction b using Nat.strong_induction_on with
  | _ b ih =>
    by_cases hroot : g.IsRoot b
    · exact .root hroot (by omega)
    · obtain ⟨p, ps, hpreds, hp⟩ := hg.predecessor_zero b hb hroot
      refine .step (ih p hp (by omega) (by omega)) ⟨hb, ?_⟩ (by omega)
      rw [hpreds]
      exact mem_cons_self

/-- The immediate dominator of a block comes before it. -/
lemma RecordsDominator.le {g : DomGraph} (hg : g.WellNumbered) {idom : Nat → Nat} {b : Nat}
    (hb : b < g.numBlocks) (h : RecordsDominator g (fun b => some (idom b)) b) : idom b ≤ b := by
  by_cases hstrict : ∃ x, g.toFlowGraph.StrictlyDominates x b
  · obtain ⟨a, ha, himmediate, -⟩ := h.1 hstrict
    rw [Option.some.inj ha]
    by_contra hlt
    exact himmediate.1.1 (hg.avoids hb (not_le.mp hlt))
  · exact (Option.some.inj (h.2 hstrict)).le

/-- With the immediate dominators of a graph in reverse postorder, the interval test finds out
whether a block is on the chain of another one, and the blocks are numbered from 0 without a
gap. -/
theorem buildDominatorTree_exact (g : DomGraph) (hg : g.WellNumbered) (idom : Nat → Nat)
    (hidom : ∀ b < g.numBlocks, RecordsDominator g (fun b => some (idom b)) b) :
    ∃ t, buildDominatorTree g.numBlocks idom = some t ∧
      (∀ a < g.numBlocks, ∀ b < g.numBlocks,
        t.dominates a b = true ↔ OnChain (fun b => some (idom b)) b a) ∧
      Set.BijOn t.domIndex {b | b < g.numBlocks} {i | i < g.numBlocks} := by
  have hle : ∀ b < g.numBlocks, idom b ≤ b := fun b hb => (hidom b hb).le hg hb
  have hlt : ∀ b < g.numBlocks, idom b < g.numBlocks := fun b hb =>
    Nat.lt_of_le_of_lt (hle b hb) hb
  have hbuilt := (DominatorTree.built_initial idom g.numBlocks).addChildren (Nat.le_refl _) hle
  unfold buildDominatorTree
  generalize DominatorTree.addChildren idom g.numBlocks DominatorTree.initial = t at hbuilt
  have hmem_roots (r : Nat) : r ∈ dominatorRoots g.numBlocks idom ↔ r < g.numBlocks ∧ idom r = r := by
    simp [dominatorRoots]
  have hwalk : t.forest.Walk (dominatorRoots g.numBlocks idom) []
      (dominatorRoots g.numBlocks idom) := by
    refine .start (nodup_reverse.mpr (nodup_range.filter _)) fun r hr a ha => ?_
    obtain ⟨-, -, hparent, hne⟩ := (hbuilt.mem_iff a r).mp ha
    exact hne (((hmem_roots r).mp hr).2.symm.trans hparent)
  obtain ⟨t', visited, hresult, hnum, hwalk, hsub, hindex⟩ :=
    DominatorTree.numberBlocks_spec (n := g.numBlocks) hbuilt.wellFormed hwalk
      (fun r hr => mem_range.mpr ((hmem_roots r).mp hr).1)
      (fun p c hc => mem_range.mpr ((hbuilt.mem_iff p c).mp hc).2.1) nofun
      (Nat.lt_succ_self _)
  -- every block is below a root
  have hbelow (b : Nat) (hb : b < g.numBlocks) :
      ∃ r ∈ dominatorRoots g.numBlocks idom, t.forest.Below r b := by
    induction b using Nat.strong_induction_on with
    | _ b ih =>
      by_cases hself : idom b = b
      · exact ⟨b, (hmem_roots b).mpr ⟨hb, hself⟩, .refl⟩
      · have hparent := hle b hb
        obtain ⟨r, hr, habove⟩ := ih (idom b) (by omega) (hlt b hb)
        exact ⟨r, hr, habove.tail ((hbuilt.mem_iff _ _).mpr
          ⟨Nat.zero_le _, hb, rfl, Ne.symm hself⟩)⟩
  have hvisited (b : Nat) (hb : b < g.numBlocks) : ∃ k : Nat, visited[k]? = some b := by
    obtain ⟨r, hr, habove⟩ := hbelow b hb
    have hmem : b ∈ visited := hwalk.mem_visited hr habove
    exact mem_iff_getElem?.mp hmem
  have hnodup : visited.Nodup := by simpa using hwalk.traversal.nodup
  have hlength : visited.length = g.numBlocks := by
    refine Nat.le_antisymm ?_ ?_
    · simpa using (subperm_of_subset hnodup hsub).length_le
    · have hall : List.range g.numBlocks ⊆ visited := fun b hb => by
        obtain ⟨k, hk⟩ := hvisited b (mem_range.mp hb)
        exact mem_of_getElem? hk
      simpa using (subperm_of_subset nodup_range hall).length_le
  refine ⟨t', hresult, fun a ha b hb => ?_, ?_, ?_, ?_⟩
  · obtain ⟨j, hj⟩ := hvisited a ha
    obtain ⟨k, hk⟩ := hvisited b hb
    rw [← hbuilt.below_iff hb hlt, hwalk.exact j k a b hj hk]
    simp only [DominatorTree.dominates, hindex j a hj, hindex k b hk, hnum, Bool.and_eq_true,
      decide_eq_true_iff]
    exact Iff.rfl
  · intro b hb
    obtain ⟨k, hk⟩ := hvisited b hb
    rw [Set.mem_ofPred_eq, hindex k b hk, ← hlength]
    exact (List.getElem?_eq_some_iff.mp hk).1
  · intro a ha b hb hsame
    obtain ⟨j, hj⟩ := hvisited a ha
    obtain ⟨k, hk⟩ := hvisited b hb
    rw [hindex j a hj, hindex k b hk] at hsame
    rw [hsame, hk] at hj
    exact (Option.some.inj hj).symm
  · intro i hi
    have hi : i < visited.length := hlength ▸ hi
    have hget : visited[i]? = some visited[i] := List.getElem?_eq_getElem hi
    exact ⟨visited[i], mem_range.mp (hsub (getElem_mem hi)), hindex i _ hget⟩

/-- A block and the one it leads to. -/
def twoBlocks : DomGraph where
  numBlocks := 2
  predecessors
    | 1 => [0]
    | _ => []
  osrBlock := none

lemma twoBlocks_wellNumbered : twoBlocks.WellNumbered where
  root_lt := by
    rintro b (rfl | hb)
    · decide
    · cases hb
  predecessor_lt := by decide
  predecessor_zero := by
    intro b hb hroot
    match b, hb, hroot with
    | 0, _, hroot => exact absurd (Or.inl rfl) hroot
    | 1, _, _ => exact ⟨0, [], rfl, by decide⟩
  reachable := by
    have h0 : twoBlocks.toFlowGraph.Reachable 0 := .root (Or.inl rfl)
    intro b hb
    match b, hb with
    | 0, _ => exact h0
    | 1, _ => exact h0.step ⟨by decide, by decide⟩

lemma twoBlocks_records : ∀ b < 2, RecordsDominator twoBlocks (fun _ => some 0) b := by
  have hentry : ∀ b, twoBlocks.toFlowGraph.Dominates 0 b :=
    FlowGraph.dominates_of_sole_root (by
      rintro r (rfl | hr)
      · rfl
      · cases hr)
  have hroot (x : Nat) : ¬twoBlocks.toFlowGraph.StrictlyDominates x 0 := fun h =>
    h.2 (h.1.eq_of_root (Or.inl rfl))
  intro b hb
  match b, hb with
  | 0, _ => exact ⟨fun ⟨x, hx⟩ => absurd hx (hroot x), fun _ => rfl⟩
  | 1, _ =>
    have hstrict : twoBlocks.toFlowGraph.StrictlyDominates 0 1 := ⟨hentry 1, by decide⟩
    have himmediate : IsImmediateDominator twoBlocks 0 1 := by
      refine ⟨hstrict, fun x hx => ?_⟩
      have hle : x < 1 := by
        by_contra hge
        exact hx.1 (twoBlocks_wellNumbered.avoids (by decide) (by have := hx.2; omega))
      rw [Nat.lt_one_iff.mp hle]
      exact FlowGraph.dominates_refl 0
    refine ⟨fun _ => ⟨0, rfl, himmediate, fun a' ha' => ?_⟩, fun hnone => absurd ⟨0, hstrict⟩ hnone⟩
    exact himmediate.unique ha' (twoBlocks_wellNumbered.reachable 1 (by decide))

theorem buildDominatorTree_exact_twoBlocks :
    ∃ t, buildDominatorTree 2 (fun _ => 0) = some t ∧
      (∀ a < 2, ∀ b < 2, t.dominates a b = true ↔ OnChain (fun _ => some 0) b a) ∧
      Set.BijOn t.domIndex {b | b < 2} {i | i < 2} :=
  buildDominatorTree_exact twoBlocks twoBlocks_wellNumbered (fun _ => 0) twoBlocks_records

end SpiderMonkey.Ion
