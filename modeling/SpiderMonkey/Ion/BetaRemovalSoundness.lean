import SpiderMonkey.Ion.BetaRemoval
import SpiderMonkey.Ion.BetaSoundness

/-! # Adding and removing betas

A beta reads a definition or another beta that is strictly above it: in a block above its own one,
or in front of it in the same block. That is so when it is created, stays so when its operand is
redirected, and stays so when a beta in between is removed, so no beta ever reads itself. Each node
goes on reading a copy of what it read at first, and once the last beta is gone, that itself.
-/

namespace SpiderMonkey.Ion

open SpiderMonkey.Lib List Option

/-- The dominator tree is that of the graph, and all blocks are in it. -/
structure MIRGraph.CorrectDominators (G : MIRGraph) : Prop where
  reachable : ∀ b ∈ G.blocks, G.ssa.Reachable b
  dominates_iff : ∀ {a b}, G.ssa.Reachable a → G.ssa.Reachable b →
    ((G.block a).dominates (G.block b) = true ↔ G.ssa.Dominates a b)

namespace BetaGraph

variable (s : BetaGraph)

/-- A beta that was not discarded. -/
def Alive (k : Nat) : Prop := ∃ r, s.operand (.beta k) 0 = some r

/-- A beta was created in the block. -/
def InBlock (k : Nat) (b : BlockId) : Prop := ∃ beta, s.betas[k]? = some beta ∧ beta.block = b

lemma InBlock.unique {s : BetaGraph} {k : Nat} {a b : BlockId} (ha : s.InBlock k a)
    (hb : s.InBlock k b) : a = b := by
  obtain ⟨x, hx, rfl⟩ := ha
  obtain ⟨y, hy, rfl⟩ := hb
  rw [some.inj (hx.symm.trans hy)]

end BetaGraph

namespace ResumableGraph

variable (G : ResumableGraph)

/-- A beta is strictly above another one. -/
def Above (s : BetaGraph) (j k : Nat) : Prop :=
  ∃ a b, s.InBlock j a ∧ s.InBlock k b ∧ G.ssa.Reachable b ∧ G.ssa.Dominates a b ∧
    (a = b → k < j)

/-- What an operand of a node is a copy of. -/
def Means (s : BetaGraph) (node : MNode) (i : Nat) (d : DefId) : Prop :=
  G.initialOperand node i = some d ∨ ∃ k, node = .beta k ∧ i = 0 ∧ (Ref.beta k).CopyOf s.betas d

/-- What holds of the operands at any time. -/
structure Consistent (s : BetaGraph) : Prop where
  copies {node i r} : s.operand node i = some r → ∃ d, G.Means s node i d ∧ r.CopyOf s.betas d
  none_iff {node i} : (∀ k, node ≠ .beta k) →
    (s.operand node i = none ↔ G.initialOperand node i = none)
  alive {node i j} : s.operand node i = some (.beta j) → s.Alive j
  above {k j} : s.operand (.beta k) 0 = some (.beta j) → G.Above s j k
  placed {k b} : s.InBlock k b → b ∈ G.blocks ∧ G.immediateDominatorBranch b ≠ none

/-- Betas are read in the blocks below them. -/
def ReadsBelow (s : BetaGraph) : Prop :=
  ∀ {d i j}, (G.definition d).op ≠ .phi → s.operand (.definition d) i = some (.beta j) →
    ∃ a, s.InBlock j a ∧ (G.block a).dominates (G.block (G.definition d).block) = true

/-- The betas of a block stand in front of its instructions. -/
def Listed (s : BetaGraph) : Prop :=
  ∀ b, ∃ ks : List Nat, ks.Nodup ∧
    s.instructions b = ks.map .beta ++ (G.block b).instructions.map .definition ∧
    ∀ k, k ∈ ks ↔ s.Alive k ∧ s.InBlock k b

variable {G} {s : BetaGraph}

lemma Consistent.initial : G.Consistent G.initialBetaGraph where
  copies h := by
    obtain ⟨d, hd, rfl⟩ := map_eq_some_iff.mp h
    exact ⟨d, .inl hd, .definition d⟩
  none_iff _ := map_eq_none_iff
  alive h := by
    obtain ⟨_, _, h⟩ := map_eq_some_iff.mp h
    cases h
  above h := by cases h
  placed h := by
    obtain ⟨_, h, -⟩ := h
    cases h

lemma not_alive_initial (k : Nat) : ¬ G.initialBetaGraph.Alive k := by
  rintro ⟨_, h⟩
  cases h

lemma readsBelow_initial : G.ReadsBelow G.initialBetaGraph := by
  intro d i j _ h
  obtain ⟨_, _, h⟩ := map_eq_some_iff.mp h
  cases h

lemma listed_initial : G.Listed G.initialBetaGraph := by
  refine fun b => ⟨[], nodup_nil, rfl, fun k =>
    ⟨fun h => absurd h not_mem_nil, fun h => ?_⟩⟩
  exact absurd h.1 (not_alive_initial k)

lemma Above.irrefl {k : Nat} : ¬ G.Above s k k := by
  rintro ⟨a, b, ha, hb, -, -, hlt⟩
  exact Nat.lt_irrefl k (hlt (ha.unique hb))

lemma Above.trans {i j k : Nat} (hij : G.Above s i j) (hjk : G.Above s j k) : G.Above s i k := by
  obtain ⟨a, b, ha, hb, hreach, hdom, hlt⟩ := hij
  obtain ⟨b', c, hb', hc, hreach', hdom', hlt'⟩ := hjk
  obtain rfl := hb.unique hb'
  refine ⟨a, c, ha, hc, hreach', hdom.trans hdom', fun hac => ?_⟩
  subst hac
  have hsame := hdom.antisymm hdom' hreach
  exact Nat.lt_trans (hlt' hsame.symm) (hlt hsame)

/-! ## Insertion of a beta -/

/-- What is copied by a new beta of the block, and may be read at its start. -/
def Readable (G : ResumableGraph) (s : BetaGraph) (b : BlockId) (r : Ref) : Prop :=
  (∃ d, r.CopyOf s.betas d) ∧
    ∀ j, r = .beta j → s.Alive j ∧ ∃ a, s.InBlock j a ∧ G.ssa.Dominates a b ∧ a ≠ b

section Insert

variable {beta : Beta}

lemma betas_insertBeta (s : BetaGraph) (beta : Beta) :
    (G.insertBeta s beta).betas = s.betas ++ [beta] := rfl

lemma inBlock_insertBeta {k : Nat} {b : BlockId} (h : s.InBlock k b) :
    (G.insertBeta s beta).InBlock k b := by
  obtain ⟨x, hx, hb⟩ := h
  have hlt := (List.getElem?_eq_some_iff.mp hx).1
  exact ⟨x, by rw [betas_insertBeta, List.getElem?_append_left hlt, hx], hb⟩

lemma inBlock_insertBeta_new : (G.insertBeta s beta).InBlock s.betas.length beta.block :=
  ⟨beta, by simp [betas_insertBeta], rfl⟩

/-- The new beta, or one that was there. -/
lemma inBlock_insertBeta_cases {k : Nat} {b : BlockId} (h : (G.insertBeta s beta).InBlock k b) :
    k = s.betas.length ∧ b = beta.block ∨ s.InBlock k b := by
  obtain ⟨x, hx, rfl⟩ := h
  rw [betas_insertBeta] at hx
  rcases Nat.lt_trichotomy k s.betas.length with hlt | rfl | hgt
  · rw [List.getElem?_append_left hlt] at hx
    exact .inr ⟨x, hx, rfl⟩
  · rw [List.getElem?_concat_length, some.injEq] at hx
    exact .inl ⟨rfl, by rw [hx]⟩
  · rw [List.getElem?_eq_none (by simp; omega)] at hx
    cases hx

/-- The operands after the insertion. -/
lemma operand_insertBeta (s : BetaGraph) (beta : Beta) (node : MNode) (i : Nat) :
    node = .beta s.betas.length ∧
        (G.insertBeta s beta).operand node i = (if i = 0 then some beta.val else none) ∨
      node ≠ .beta s.betas.length ∧ s.operand node i = some beta.val ∧
        G.isDominatedUse (s.betas ++ [beta]) beta.block node i = true ∧
        (G.insertBeta s beta).operand node i = some (.beta s.betas.length) ∨
      node ≠ .beta s.betas.length ∧ (G.insertBeta s beta).operand node i = s.operand node i := by
  by_cases hnode : node = .beta s.betas.length
  · refine .inl ⟨hnode, ?_⟩
    simp [insertBeta, replaceDominatedUsesWith, hnode]
  · right
    simp only [insertBeta, replaceDominatedUsesWith, Function.update_of_ne hnode]
    split_ifs with huse
    · exact .inl ⟨hnode, huse.1, huse.2.2, rfl⟩
    · exact .inr ⟨hnode, rfl⟩

lemma alive_insertBeta {k : Nat} (h : s.Alive k) : (G.insertBeta s beta).Alive k := by
  obtain ⟨r, hr⟩ := h
  rcases operand_insertBeta (G := G) s beta (.beta k) 0 with ⟨-, h⟩ | ⟨-, -, -, h⟩ | ⟨-, h⟩
  · exact ⟨_, h⟩
  · exact ⟨_, h⟩
  · exact ⟨r, h.trans hr⟩

lemma alive_insertBeta_new : (G.insertBeta s beta).Alive s.betas.length := by
  rcases operand_insertBeta (G := G) s beta (.beta s.betas.length) 0 with
    ⟨-, h⟩ | ⟨hne, -⟩ | ⟨hne, -⟩
  · exact ⟨_, h⟩
  · exact absurd rfl hne
  · exact absurd rfl hne

lemma alive_insertBeta_cases {k : Nat} (h : (G.insertBeta s beta).Alive k) :
    k = s.betas.length ∨ s.Alive k := by
  obtain ⟨r, hr⟩ := h
  rcases operand_insertBeta (G := G) s beta (.beta k) 0 with ⟨h, -⟩ | ⟨-, hold, -⟩ | ⟨-, h⟩
  · cases h
    exact .inl rfl
  · exact .inr ⟨_, hold⟩
  · exact .inr ⟨r, h.symm.trans hr⟩

lemma Means.insertBeta {node : MNode} {i : Nat} {d : DefId} (h : G.Means s node i d) :
    G.Means (G.insertBeta s beta) node i d := by
  rcases h with h | ⟨k, rfl, rfl, hcopy⟩
  · exact .inl h
  · exact .inr ⟨k, rfl, rfl, hcopy.append beta⟩

lemma Above.insertBeta {j k : Nat} (h : G.Above s j k) : G.Above (G.insertBeta s beta) j k := by
  obtain ⟨a, b, ha, hb, hrest⟩ := h
  exact ⟨a, b, inBlock_insertBeta ha, inBlock_insertBeta hb, hrest⟩

lemma Consistent.lt_of_alive (h : G.Consistent s) {k : Nat} (hk : s.Alive k) :
    ∃ b, s.InBlock k b := by
  obtain ⟨r, hr⟩ := hk
  obtain ⟨d, hmeans, -⟩ := h.copies hr
  rcases hmeans with hinit | ⟨k', heq, -, hcopy⟩
  · cases hinit
  · cases heq
    cases hcopy with
    | beta hget _ => exact ⟨_, _, hget, rfl⟩

lemma InBlock_lt {k : Nat} {b : BlockId} (h : s.InBlock k b) : k < s.betas.length := by
  obtain ⟨x, hx, -⟩ := h
  exact (List.getElem?_eq_some_iff.mp hx).1

/-- A beta is put at the start of a block that it may be read in. -/
lemma Consistent.insertBeta (hdom : G.CorrectDominators) (h : G.Consistent s)
    (hblock : beta.block ∈ G.blocks) (hbranch : G.immediateDominatorBranch beta.block ≠ none)
    (hval : G.Readable s beta.block beta.val) : G.Consistent (G.insertBeta s beta) where
  copies {node i r} hr := by
    rcases operand_insertBeta (G := G) s beta node i with ⟨rfl, hop⟩ | ⟨-, hold, -, hop⟩ | ⟨-, hop⟩
    · rw [hop] at hr
      split_ifs at hr with hi
      obtain rfl := some.inj hr
      obtain ⟨d, hd⟩ := hval.1
      exact ⟨d, .inr ⟨_, rfl, hi, MIRGraph.copyOf_newest hd⟩, hd.append beta⟩
    · rw [hop] at hr
      obtain rfl := some.inj hr
      obtain ⟨d, hmeans, hd⟩ := h.copies hold
      exact ⟨d, hmeans.insertBeta, MIRGraph.copyOf_newest hd⟩
    · rw [hop] at hr
      obtain ⟨d, hmeans, hd⟩ := h.copies hr
      exact ⟨d, hmeans.insertBeta, hd.append beta⟩
  none_iff {node i} hnode := by
    rcases operand_insertBeta (G := G) s beta node i with ⟨heq, -⟩ | ⟨-, hold, -, hop⟩ | ⟨-, hop⟩
    · exact absurd heq (hnode _)
    · rw [hop, ← h.none_iff hnode, hold]
      simp
    · rw [hop, h.none_iff hnode]
  alive {node i j} hr := by
    rcases operand_insertBeta (G := G) s beta node i with ⟨-, hop⟩ | ⟨-, -, -, hop⟩ | ⟨-, hop⟩
    · rw [hop] at hr
      split_ifs at hr
      exact alive_insertBeta (hval.2 j (some.inj hr)).1
    · rw [hop] at hr
      cases hr
      exact alive_insertBeta_new
    · rw [hop] at hr
      exact alive_insertBeta (h.alive hr)
  above {k j} hr := by
    rcases operand_insertBeta (G := G) s beta (.beta k) 0 with
      ⟨heq, hop⟩ | ⟨hne, hold, huse, hop⟩ | ⟨-, hop⟩
    · cases heq
      rw [hop, if_pos rfl] at hr
      obtain ⟨-, a, ha, hab, hne⟩ := hval.2 j (some.inj hr)
      exact ⟨a, beta.block, inBlock_insertBeta ha, inBlock_insertBeta_new,
        hdom.reachable _ hblock, hab, fun hsame => absurd hsame hne⟩
    · -- the operand of an older beta below the new one is redirected
      rw [hop] at hr
      cases hr
      obtain ⟨b, hb⟩ := h.lt_of_alive ⟨_, hold⟩
      have hlt := InBlock_lt hb
      have hreach := hdom.reachable b (h.placed hb).1
      obtain ⟨x, hx, rfl⟩ := hb
      simp only [isDominatedUse, List.getElem?_append_left hlt, hx] at huse
      exact ⟨beta.block, x.block, inBlock_insertBeta_new, inBlock_insertBeta ⟨x, hx, rfl⟩, hreach,
        (hdom.dominates_iff (hdom.reachable _ hblock) hreach).mp huse, fun _ => hlt⟩
    · rw [hop] at hr
      exact (h.above hr).insertBeta
  placed {k b} hk := by
    rcases inBlock_insertBeta_cases hk with ⟨-, rfl⟩ | hold
    · exact ⟨hblock, hbranch⟩
    · exact h.placed hold

lemma readsBelow_insertBeta (h : G.ReadsBelow s) : G.ReadsBelow (G.insertBeta s beta) := by
  intro d i j hphi hr
  rcases operand_insertBeta (G := G) s beta (.definition d) i with
    ⟨heq, -⟩ | ⟨-, -, huse, hop⟩ | ⟨-, hop⟩
  · cases heq
  · rw [hop] at hr
    cases hr
    simp only [isDominatedUse, MIRGraph.isDominatedUse, if_neg hphi] at huse
    exact ⟨beta.block, inBlock_insertBeta_new, huse⟩
  · rw [hop] at hr
    obtain ⟨a, ha, hdominates⟩ := h hphi hr
    exact ⟨a, inBlock_insertBeta ha, hdominates⟩

lemma listed_insertBeta (h : G.Listed s) :
    G.Listed (G.insertBeta s beta) := by
  intro b
  obtain ⟨ks, hnodup, hlist, hmem⟩ := h b
  have hnew : s.betas.length ∉ ks := fun hin =>
    Nat.lt_irrefl _ (InBlock_lt ((hmem _).mp hin).2)
  have hrest : ∀ k, k ≠ s.betas.length →
      (k ∈ ks ↔ (G.insertBeta s beta).Alive k ∧ (G.insertBeta s beta).InBlock k b) := by
    intro k hk
    rw [hmem]
    constructor
    · rintro ⟨halive, hb⟩
      exact ⟨alive_insertBeta halive, inBlock_insertBeta hb⟩
    · rintro ⟨halive, hb⟩
      refine ⟨(alive_insertBeta_cases halive).resolve_left hk, ?_⟩
      exact (inBlock_insertBeta_cases hb).resolve_left fun heq => hk heq.1
  by_cases hb : b = beta.block
  · subst hb
    refine ⟨s.betas.length :: ks, nodup_cons.mpr ⟨hnew, hnodup⟩, ?_, fun k => ?_⟩
    · simp [insertBeta, replaceDominatedUsesWith, hlist]
    · by_cases hk : k = s.betas.length
      · subst hk
        simp only [mem_cons, true_or, true_iff]
        exact ⟨alive_insertBeta_new, inBlock_insertBeta_new⟩
      · rw [mem_cons, or_iff_right hk, hrest k hk]
  · refine ⟨ks, hnodup, ?_, fun k => ?_⟩
    · simp [insertBeta, replaceDominatedUsesWith, hb, hlist]
    · by_cases hk : k = s.betas.length
      · subst hk
        refine iff_of_false hnew ?_
        rintro ⟨_, hin⟩
        rcases inBlock_insertBeta_cases hin with ⟨-, heq⟩ | hold
        · exact absurd heq hb
        · exact absurd (InBlock_lt hold) (Nat.lt_irrefl _)
      · exact hrest k hk

end Insert

/-! ## The pass that adds betas -/

/-- What holds of a graph while betas are added. -/
structure Adding (G : ResumableGraph) (s : BetaGraph) : Prop where
  consistent : G.Consistent s
  readsBelow : G.ReadsBelow s
  listed : G.Listed s

lemma Readable.insertBeta {b : BlockId} {r : Ref} (h : Readable G s b r) (beta : Beta) :
    Readable G (G.insertBeta s beta) b r := by
  obtain ⟨⟨d, hd⟩, hbeta⟩ := h
  refine ⟨⟨d, hd.append beta⟩, fun j hj => ?_⟩
  obtain ⟨halive, a, ha, hrest⟩ := hbeta j hj
  exact ⟨alive_insertBeta halive, a, inBlock_insertBeta ha, hrest⟩

lemma Adding.insertBetas (hdom : G.CorrectDominators) {b : BlockId} (hb : b ∈ G.blocks)
    (hbranch : G.immediateDominatorBranch b ≠ none) (new : List Beta) (h : Adding G s)
    (hnew : ∀ beta ∈ new, beta.block = b ∧ Readable G s b beta.val) :
    Adding G (new.foldl G.insertBeta s) := by
  induction new generalizing s with
  | nil => exact h
  | cons beta new ih =>
    obtain ⟨rfl, hval⟩ := hnew beta (mem_cons_self ..)
    refine ih ⟨h.consistent.insertBeta hdom hb hbranch hval, readsBelow_insertBeta h.readsBelow,
      listed_insertBeta h.listed⟩ fun beta' hmem => ?_
    obtain ⟨hblock, hval'⟩ := hnew beta' (mem_cons_of_mem _ hmem)
    exact ⟨hblock, hval'.insertBeta beta⟩

/-- The comparison that decides a block, with its operands as they are read. -/
lemma decidingCompare_reads {s : BetaState} {b : BlockId} {jsop : CompareOp} {left right : Ref}
    (h : G.decidingCompare s b = some (jsop, left, right)) :
    ∃ pred dir ins jsop' spec, G.immediateDominatorBranch b = some (pred, dir) ∧
      s.testOperand pred = some (.definition ins) ∧
      (G.definition ins).op = .compare jsop' spec ∧
      s.operand ins 0 = some left ∧ s.operand ins 1 = some right := by
  unfold MIRGraph.decidingCompare at h
  split at h
  · cases h
  · rename_i pred dir hbranch
    split at h
    · rename_i ins htest
      split at h
      · rename_i jsop' spec left' right' hop hleft hright
        simp only [some.injEq, Prod.mk.injEq] at h
        obtain ⟨-, rfl, rfl⟩ := h
        exact ⟨pred, dir, ins, jsop', spec, hbranch, htest, hop, hleft, hright⟩
      · cases h
    · cases h

/-- A new beta copies an operand of that comparison. -/
lemma newBetas_val {s : BetaState} {b : BlockId} {beta : Beta}
    (h : beta ∈ G.newBetas s b) : ∃ jsop left right,
      G.decidingCompare s b = some (jsop, left, right) ∧ (beta.val = left ∨ beta.val = right) := by
  unfold MIRGraph.newBetas at h
  split at h
  · cases h
  · rename_i jsop left right hcompare
    refine ⟨jsop, left, right, hcompare, ?_⟩
    split at h
    · rw [mem_singleton.mp h]
      exact .inr rfl
    · rw [mem_singleton.mp h]
      exact .inl rfl
    · simp only [betasOfVariables, mem_cons, not_mem_nil, or_false] at h
      rcases h with rfl | rfl
      · simp only
        split_ifs
        · exact .inl rfl
        · exact .inr rfl
      · simp only
        split_ifs
        · exact .inr rfl
        · exact .inl rfl

/-- An operand of the comparison that decides a block may be read at its start. -/
lemma readable_operand (wf : G.WellFormed) (hdom : G.CorrectDominators) (h : Adding G s)
    {b pred : BlockId} {dir : Bool} {ins : DefId} {jsop : CompareOp} {spec : MIRType} {i : Nat}
    {r : Ref} (hb : b ∈ G.blocks) (hbranch : G.immediateDominatorBranch b = some (pred, dir))
    (htest : (G.readState s).testOperand pred = some (.definition ins))
    (hop : (G.definition ins).op = .compare jsop spec)
    (hr : s.operand (.definition ins) i = some r) : Readable G s b r := by
  obtain ⟨d, -, hcopy⟩ := h.consistent.copies hr
  refine ⟨⟨d, hcopy⟩, fun j hj => ?_⟩
  subst hj
  refine ⟨h.consistent.alive hr, ?_⟩
  obtain ⟨a, ha, hdominates⟩ := h.readsBelow (by rw [hop]; simp) hr
  have hreach := hdom.reachable b hb
  -- the comparison is above the block with the test, and that above the one it decides
  have hstrict := MIRGraph.deciding_strictlyDominates wf hbranch hreach
  have hpred : G.ssa.Reachable pred := hstrict.1.reachable hreach
  have habove : ∃ c, G.ssa.Defines c ins ∧ G.ssa.Dominates c pred := by
    simp only [readState] at htest
    split at htest
    · rename_i ins' ifTrue ifFalse hlast
      obtain ⟨d', hmeans, hcopy'⟩ := h.consistent.copies htest
      cases hcopy'
      rcases hmeans with hinit | ⟨_, heq, -⟩
      · simp only [initialOperand, hlast, MControl.operands, List.getElem?_cons_zero,
          some.injEq] at hinit
        subst hinit
        exact wf.test_above hlast
      · cases heq
    · cases htest
  obtain ⟨c, hdef, hcp⟩ := habove
  rw [wf.definition_block hdef] at hdominates
  have hac := (hdom.dominates_iff (hdom.reachable a (h.consistent.placed ha).1)
    (hcp.reachable hpred)).mp hdominates
  have hab := (hac.trans hcp).trans_strict hstrict hreach
  exact ⟨a, ha, hab.1, hab.2⟩

lemma Adding.addBetaNobesAt (wf : G.WellFormed) (hdom : G.CorrectDominators) (h : Adding G s)
    {b : BlockId} (hb : b ∈ G.blocks) : Adding G (G.addBetaNobesAt s b) := by
  rw [ResumableGraph.addBetaNobesAt]
  cases hcompare : G.decidingCompare (G.readState s) b with
  | none =>
    rw [MIRGraph.newBetas, hcompare]
    exact h
  | some compared =>
    obtain ⟨jsop, left, right⟩ := compared
    obtain ⟨pred, dir, ins, jsop', spec, hbranch, htest, hop, hleft, hright⟩ :=
      decidingCompare_reads hcompare
    refine h.insertBetas hdom hb (by rw [hbranch]; exact some_ne_none _) _
      fun beta hbeta => ⟨MIRGraph.newBetas_block hbeta, ?_⟩
    obtain ⟨jsop'', left', right', hcompare', hval⟩ := newBetas_val hbeta
    rw [hcompare] at hcompare'
    simp only [some.injEq, Prod.mk.injEq] at hcompare'
    obtain ⟨-, rfl, rfl⟩ := hcompare'
    rcases hval with hval | hval
    · rw [hval]
      exact readable_operand wf hdom h hb hbranch htest hop hleft
    · rw [hval]
      exact readable_operand wf hdom h hb hbranch htest hop hright

/-- The pass leaves a consistent graph, with the betas in front of their blocks. -/
lemma adding_addBetaNobes (wf : G.WellFormed) (hdom : G.CorrectDominators) :
    Adding G G.addBetaNobes := by
  have hfold : ∀ (blocks : List BlockId) s, (∀ b ∈ blocks, b ∈ G.blocks) → Adding G s →
      Adding G (blocks.foldl G.addBetaNobesAt s) := by
    intro blocks
    induction blocks with
    | nil => exact fun _ _ h => h
    | cons b blocks ih =>
      intro s hmem h
      exact ih _ (fun c hc => hmem c (mem_cons_of_mem _ hc))
        (h.addBetaNobesAt wf hdom (hmem b (mem_cons_self ..)))
  exact hfold _ _ (fun b hb => mem_reverse.mp hb)
    ⟨Consistent.initial, readsBelow_initial, listed_initial⟩

/-! ## Removal of a beta -/

section Remove

variable {k : Nat} {op : Ref}

/-- The beta is gone, and its uses read its operand. -/
def removeBeta (s : BetaGraph) (k : Nat) (op : Ref) : BetaGraph :=
  (s.replaceAllUsesWith (.beta k) op).discardOperands (.beta k)

lemma operand_removeBeta (s : BetaGraph) (k : Nat) (op : Ref) (node : MNode) (i : Nat) :
    node = .beta k ∧ (removeBeta s k op).operand node i = none ∨
      node ≠ .beta k ∧ s.operand node i = some (.beta k) ∧
        (removeBeta s k op).operand node i = some op ∨
      node ≠ .beta k ∧ s.operand node i ≠ some (.beta k) ∧
        (removeBeta s k op).operand node i = s.operand node i := by
  by_cases hnode : node = .beta k
  · refine .inl ⟨hnode, ?_⟩
    simp [removeBeta, BetaGraph.discardOperands, hnode]
  · right
    simp only [removeBeta, BetaGraph.discardOperands, BetaGraph.replaceAllUsesWith,
      Function.update_of_ne hnode]
    split_ifs with huse
    · exact .inl ⟨hnode, huse, rfl⟩
    · exact .inr ⟨hnode, huse, rfl⟩

lemma alive_removeBeta {j : Nat} : (removeBeta s k op).Alive j ↔ s.Alive j ∧ j ≠ k := by
  constructor
  · rintro ⟨r, hr⟩
    rcases operand_removeBeta s k op (.beta j) 0 with ⟨-, h⟩ | ⟨hne, hold, -⟩ | ⟨hne, -, h⟩
    · rw [h] at hr
      cases hr
    · exact ⟨⟨_, hold⟩, fun heq => hne (by rw [heq])⟩
    · exact ⟨⟨r, h.symm.trans hr⟩, fun heq => hne (by rw [heq])⟩
  · rintro ⟨⟨r, hr⟩, hne⟩
    rcases operand_removeBeta s k op (.beta j) 0 with ⟨heq, -⟩ | ⟨-, -, h⟩ | ⟨-, -, h⟩
    · cases heq
      exact absurd rfl hne
    · exact ⟨_, h⟩
    · exact ⟨r, h.trans hr⟩

/-- The uses of a beta read what it reads, and never the beta itself. -/
lemma Consistent.removeBeta (h : G.Consistent s) (hop : s.operand (.beta k) 0 = some op) :
    G.Consistent (removeBeta s k op) where
  copies {node i r} hr := by
    rcases operand_removeBeta s k op node i with ⟨-, hnone⟩ | ⟨-, hold, hnew⟩ | ⟨-, -, hsame⟩
    · rw [hnone] at hr
      cases hr
    · rw [hnew] at hr
      obtain rfl := some.inj hr
      obtain ⟨d, hmeans, hcopy⟩ := h.copies hold
      obtain ⟨d', hmeans', hcopy'⟩ := h.copies hop
      rcases hmeans' with hinit | ⟨k', heq, -, hk⟩
      · cases hinit
      · cases heq
        rw [hk.eq hcopy] at hcopy'
        exact ⟨d, hmeans, hcopy'⟩
    · rw [hsame] at hr
      exact h.copies hr
  none_iff {node i} hnode := by
    rcases operand_removeBeta s k op node i with ⟨heq, -⟩ | ⟨-, hold, hnew⟩ | ⟨-, -, hsame⟩
    · exact absurd heq (hnode k)
    · rw [hnew, ← h.none_iff hnode, hold]
      simp
    · rw [hsame, h.none_iff hnode]
  alive {node i j} hr := by
    rw [alive_removeBeta]
    rcases operand_removeBeta s k op node i with ⟨-, hnone⟩ | ⟨-, -, hnew⟩ | ⟨-, hne, hsame⟩
    · rw [hnone] at hr
      cases hr
    · rw [hnew, some.injEq] at hr
      subst hr
      refine ⟨h.alive hop, ?_⟩
      rintro rfl
      exact (h.above hop).irrefl
    · rw [hsame] at hr
      refine ⟨h.alive hr, ?_⟩
      rintro rfl
      exact hne hr
  above {k' j} hr := by
    rcases operand_removeBeta s k op (.beta k') 0 with ⟨-, hnone⟩ | ⟨-, hold, hnew⟩ | ⟨-, -, hsame⟩
    · rw [hnone] at hr
      cases hr
    · rw [hnew, some.injEq] at hr
      subst hr
      exact (h.above hop).trans (h.above hold)
    · rw [hsame] at hr
      exact h.above hr
  placed := h.placed

end Remove

/-! ## The pass that removes betas -/

/-- The loop removes all the betas in front of a list of instructions. -/
lemma removeLoop_spec {b : BlockId} (ks : List Nat) (ds : List DefId) (h : G.Consistent s)
    (hnodup : ks.Nodup) (hmem : ∀ k ∈ ks, s.Alive k ∧ s.InBlock k b) :
    ∃ s', BetaGraph.removeLoop (ks.map .beta ++ ds.map .definition) s =
        (s', ds.map .definition) ∧ G.Consistent s' ∧ s'.betas = s.betas ∧
      s'.instructions = s.instructions ∧ ∀ k, s'.Alive k ↔ s.Alive k ∧ k ∉ ks := by
  induction ks generalizing s with
  | nil =>
    refine ⟨s, ?_, h, rfl, rfl, fun k => by simp⟩
    cases ds <;> rfl
  | cons k ks ih =>
    obtain ⟨hk, hnodup⟩ := nodup_cons.mp hnodup
    obtain ⟨op, hop⟩ := (hmem k (mem_cons_self ..)).1
    obtain ⟨s', hrun, hcons, hbetas, hinstructions, halive⟩ := ih (h.removeBeta hop) hnodup
      fun j hj => by
        obtain ⟨hjalive, hjb⟩ := hmem j (mem_cons_of_mem _ hj)
        exact ⟨alive_removeBeta.mpr ⟨hjalive, fun heq => hk (heq ▸ hj)⟩, hjb⟩
    refine ⟨s', ?_, hcons, hbetas, hinstructions, fun j => ?_⟩
    · simp only [map_cons, cons_append, BetaGraph.removeLoop, hop]
      exact hrun
    · rw [halive, alive_removeBeta, mem_cons, not_or, and_assoc]

/-- What holds of a graph while betas are removed; those of the blocks in `done` are gone. -/
structure Removing (G : ResumableGraph) (done : List BlockId) (s : BetaGraph) : Prop where
  consistent : G.Consistent s
  listed : G.Listed s
  done {k b} : b ∈ done → s.InBlock k b → ¬ s.Alive k

lemma Removing.removeBetaNobesAt {done : List BlockId} (h : Removing G done s)
    (hphis : ∀ b, G.immediateDominatorBranch b ≠ none → (G.block b).phis = []) (b : BlockId) :
    Removing G (b :: done) (G.removeBetaNobesAt s b) := by
  rw [ResumableGraph.removeBetaNobesAt]
  split_ifs with hb
  · refine ⟨h.consistent, h.listed, fun {k c} hc hk => ?_⟩
    rcases mem_cons.mp hc with rfl | hc
    · exact absurd (hphis c (h.consistent.placed hk).2) hb
    · exact h.done hc hk
  · obtain ⟨ks, hnodup, hlist, hmem⟩ := h.listed b
    obtain ⟨s', hrun, hcons, hbetas, hinstructions, halive⟩ := removeLoop_spec ks
      (G.block b).instructions h.consistent hnodup fun k hk => (hmem k).mp hk
    rw [hlist, hrun]
    have hinBlock : ∀ k c, s'.InBlock k c ↔ s.InBlock k c := by
      intro k c
      rw [BetaGraph.InBlock, BetaGraph.InBlock, hbetas]
    refine ⟨⟨hcons.copies, hcons.none_iff, hcons.alive, hcons.above, hcons.placed⟩, fun c => ?_,
      fun {k c} hc hk hkalive => ?_⟩
    · by_cases hcb : c = b
      · subst hcb
        refine ⟨[], nodup_nil, by simp, fun k => ?_⟩
        refine ⟨fun hin => absurd hin not_mem_nil, fun ⟨hkalive, hk⟩ => ?_⟩
        obtain ⟨hold, hnot⟩ := (halive k).mp hkalive
        exact absurd ((hmem k).mpr ⟨hold, (hinBlock k c).mp hk⟩) hnot
      · obtain ⟨js, hjs, hjlist, hjmem⟩ := h.listed c
        refine ⟨js, hjs, ?_, fun k => ?_⟩
        · simp only [Function.update_of_ne hcb, hinstructions, hjlist]
        · rw [hjmem]
          constructor
          · rintro ⟨hold, hk⟩
            refine ⟨(halive k).mpr ⟨hold, fun hin => hcb ?_⟩, (hinBlock k c).mpr hk⟩
            exact hk.unique ((hmem k).mp hin).2
          · rintro ⟨hnew, hk⟩
            exact ⟨((halive k).mp hnew).1, (hinBlock k c).mp hk⟩
    · obtain ⟨hold, hnot⟩ := (halive k).mp hkalive
      have hk' := (hinBlock k c).mp hk
      rcases mem_cons.mp hc with rfl | hc
      · exact hnot ((hmem k).mpr ⟨hold, hk'⟩)
      · exact h.done hc hk' hold

lemma removing_foldl (blocks : List BlockId) {done : List BlockId} (h : Removing G done s)
    (hphis : ∀ b, G.immediateDominatorBranch b ≠ none → (G.block b).phis = []) :
    Removing G (blocks.reverse ++ done) (blocks.foldl G.removeBetaNobesAt s) := by
  induction blocks generalizing s done with
  | nil => exact h
  | cons b blocks ih =>
    rw [reverse_cons, append_assoc]
    exact ih (h.removeBetaNobesAt hphis b)

/-- Once all betas are gone, every node reads what it read at first. -/
lemma Consistent.operand_eq (h : G.Consistent s) (hgone : ∀ k, ¬ s.Alive k) :
    s.operand = G.initialBetaGraph.operand := by
  funext node i
  change s.operand node i = (G.initialOperand node i).map .definition
  cases hop : s.operand node i with
  | some r =>
    obtain ⟨d, hmeans, hcopy⟩ := h.copies hop
    rcases hmeans with hinit | ⟨k, rfl, rfl, -⟩
    · rw [hinit]
      cases hcopy with
      | definition => rfl
      | beta _ _ => exact absurd (h.alive hop) (hgone _)
    · exact absurd ⟨r, hop⟩ (hgone k)
  | none =>
    cases node with
    | beta k => rfl
    | definition d => rw [(h.none_iff fun _ heq => by cases heq).mp hop]; rfl
    | control b => rw [(h.none_iff fun _ heq => by cases heq).mp hop]; rfl
    | resumePoint r => rw [(h.none_iff fun _ heq => by cases heq).mp hop]; rfl

/-- Adding betas and removing them gives the graph back, where no block that a test decides has
phis. -/
theorem removeBetaNobes_addBetaNobes (wf : G.WellFormed) (hdom : G.CorrectDominators)
    (hphis : ∀ b, G.immediateDominatorBranch b ≠ none → (G.block b).phis = []) :
    (G.removeBetaNobes G.addBetaNobes).instructions = G.initialBetaGraph.instructions ∧
      (G.removeBetaNobes G.addBetaNobes).operand = G.initialBetaGraph.operand := by
  have hadd := adding_addBetaNobes wf hdom
  have hremove : Removing G (G.blocks.reverse.reverse ++ []) (G.removeBetaNobes G.addBetaNobes) :=
    removing_foldl _ ⟨hadd.consistent, hadd.listed, fun h => absurd h not_mem_nil⟩ hphis
  rw [reverse_reverse, append_nil] at hremove
  have hgone : ∀ k, ¬ (G.removeBetaNobes G.addBetaNobes).Alive k := by
    intro k hk
    obtain ⟨b, hb⟩ := hremove.consistent.lt_of_alive hk
    exact hremove.done (hremove.consistent.placed hb).1 hb hk
  refine ⟨?_, hremove.consistent.operand_eq hgone⟩
  funext b
  obtain ⟨ks, -, hlist, hmem⟩ := hremove.listed b
  have hnil : ks = [] := eq_nil_iff_forall_not_mem.mpr fun k hk => hgone k ((hmem k).mp hk).1
  rw [hlist, hnil]
  rfl

/-! ## A test of a parameter -/

/-- `if (x < 10) { … x … }`, with a phi of `x` in the true branch or without. -/
def testLt (phi : Bool) : ResumableGraph where
  blocks := [0, 1, 2]
  entryBlock := 0
  osrBlock := none
  block
    | 0 => ⟨.normal, [], [0, 1, 2], .test 2 1 2, [], 0, 0, 2⟩
    | 1 => ⟨.normal, if phi then [3] else [], [4], .other [] false [], [0], 0, 1, 0⟩
    | 2 => ⟨.normal, [], [], .other [] false [], [0], 0, 2, 0⟩
    | _ => ⟨.normal, [], [], .other [] false [], [], 0, 3, 0⟩
  definition
    | 0 => ⟨.other false, [], 0, .int32⟩
    | 1 => ⟨.constant (.int32 10), [], 0, .int32⟩
    | 2 => ⟨.compare .lt .int32, [0, 1], 0, .boolean⟩
    | 3 => ⟨.phi, [0], 1, .int32⟩
    | 4 => ⟨.other false, [0], 1, .int32⟩
    | _ => ⟨.other false, [], 0, .value⟩
  resumePoint _ := ⟨1, [0, 1]⟩

variable {phi : Bool}

lemma testLt_phis (b : BlockId) :
    ((testLt phi).block b).phis = if b = 1 ∧ phi = true then [3] else [] := by
  unfold testLt
  simp only
  split <;> cases phi <;> simp_all

lemma testLt_lastIns (b : BlockId) :
    ((testLt phi).block b).lastIns = if b = 0 then .test 2 1 2 else .other [] false [] := by
  unfold testLt
  simp only
  split <;> simp_all

lemma testLt_root (b : BlockId) : (testLt phi).ssa.root b ↔ b = 0 := by
  constructor
  · rintro (rfl | h)
    · rfl
    · cases h
  · rintro rfl
    exact .inl rfl

lemma testLt_dominates (b : BlockId) : (testLt phi).ssa.Dominates 0 b :=
  FlowGraph.dominates_of_sole_root (fun r hr => (testLt_root r).mp hr) b

lemma testLt_wellFormed (phi : Bool) : (testLt phi).WellFormed := by
  refine MIRGraph.wellFormed_of_blockb [(0, 1)] (by cases phi <;> rfl) ?_ ?_
    (show [0, 1, 2].Nodup by decide) rfl ⟨rfl, rfl⟩ ?_
  · intro b hb
    unfold testLt at hb ⊢
    simp only at hb ⊢
    split <;> simp_all
  · simp only [forall_mem_cons]
    exact ⟨testLt_dominates 1, nofun⟩
  · intro d n h
    unfold testLt at h ⊢
    simp only at h ⊢
    split at h <;> simp_all [Opcode.numOperands?]

lemma testLt_edge {b c : BlockId} (h : (testLt phi).ssa.edge b c) : b = 0 ∧ (c = 1 ∨ c = 2) := by
  simp only [MIRGraph.ssa, testLt_lastIns] at h
  split_ifs at h with hb
  · simpa [MControl.successors, hb] using h
  · simp [MControl.successors] at h

lemma testLt_correctDominators (phi : Bool) : (testLt phi).CorrectDominators where
  reachable b hb := by
    have h0 : (testLt phi).ssa.Reachable 0 := .root ((testLt_root 0).mpr rfl)
    have hb : b ∈ [0, 1, 2] := hb
    simp only [mem_cons, not_mem_nil, or_false] at hb
    rcases hb with rfl | rfl | rfl
    · exact h0
    · exact h0.step (by simp [MIRGraph.ssa, testLt_lastIns, MControl.successors])
    · exact h0.step (by simp [MIRGraph.ssa, testLt_lastIns, MControl.successors])
  dominates_iff {a b} ha hb := by
    have hblocks : ∀ c, (testLt phi).ssa.Reachable c → c = 0 ∨ c = 1 ∨ c = 2 := by
      intro c hc
      cases hc with
      | root hroot => exact .inl ((testLt_root c).mp hroot)
      | step _ hedge => exact .inr (testLt_edge hedge).2
    -- a branch can be entered without going through another one
    have havoids : ∀ x y, x ≠ 0 → x ≠ y → y = 0 ∨ y = 1 ∨ y = 2 →
        ¬ (testLt phi).ssa.Dominates x y := by
      intro x y hx hxy hy hdom
      have h0 : (testLt phi).ssa.Avoids x 0 := .root ((testLt_root 0).mpr rfl) (Ne.symm hx)
      rcases hy with rfl | rfl | rfl
      · exact hdom h0
      · exact hdom (h0.step (by simp [MIRGraph.ssa, testLt_lastIns, MControl.successors])
          (Ne.symm hxy))
      · exact hdom (h0.step (by simp [MIRGraph.ssa, testLt_lastIns, MControl.successors])
          (Ne.symm hxy))
    have hrefl : ∀ x, (testLt phi).ssa.Dominates x x := FlowGraph.dominates_refl
    rcases hblocks a ha with rfl | rfl | rfl <;> rcases hblocks b hb with rfl | rfl | rfl
    · exact iff_of_true rfl (hrefl _)
    · exact iff_of_true rfl (testLt_dominates _)
    · exact iff_of_true rfl (testLt_dominates _)
    · exact iff_of_false (by simp [testLt, MBasicBlock.dominates])
        (havoids _ _ (by decide) (by decide) (by decide))
    · exact iff_of_true rfl (hrefl _)
    · exact iff_of_false (by simp [testLt, MBasicBlock.dominates])
        (havoids _ _ (by decide) (by decide) (by decide))
    · exact iff_of_false (by simp [testLt, MBasicBlock.dominates])
        (havoids _ _ (by decide) (by decide) (by decide))
    · exact iff_of_false (by simp [testLt, MBasicBlock.dominates])
        (havoids _ _ (by decide) (by decide) (by decide))
    · exact iff_of_true rfl (hrefl _)

theorem removeBetaNobes_addBetaNobes_testLt :
    ((testLt false).removeBetaNobes (testLt false).addBetaNobes).instructions =
        (testLt false).initialBetaGraph.instructions ∧
      ((testLt false).removeBetaNobes (testLt false).addBetaNobes).operand =
        (testLt false).initialBetaGraph.operand :=
  removeBetaNobes_addBetaNobes (testLt_wellFormed false) (testLt_correctDominators false)
    fun b _ => by simp [testLt_phis]

/-- A phi in front of the betas of its block keeps them in the graph. -/
theorem removeBetaNobes_keeps_testLt :
    ¬ ∀ G : ResumableGraph, G.WellFormed → G.CorrectDominators →
      (G.removeBetaNobes G.addBetaNobes).instructions = G.initialBetaGraph.instructions ∧
        (G.removeBetaNobes G.addBetaNobes).operand = G.initialBetaGraph.operand := by
  intro h
  have hsame := congrFun (h (testLt true) (testLt_wellFormed true)
    (testLt_correctDominators true)).1 1
  exact absurd hsame (by decide)

end ResumableGraph

end SpiderMonkey.Ion
