import SpiderMonkey.Ion.AliasAnalysis
import SpiderMonkey.Lib.Dominance

/-! # Alias analysis is sound for code motion

The sweep keeps, for the loops it is in, which stores they have and which of their loads
may leave them. A load keeps a dependency before a loop only while no store of that loop
reaches its memory. The recorded dependency is the last store in reverse postorder, which
says something about the paths that do not go round a loop between the two.
-/

namespace SpiderMonkey.Ion

open Lib List Option Bool

namespace AliasGraph

variable (g : AliasGraph)

/-! ## Graphs and executions -/

def IsRoot (b : Nat) : Prop := b = 0 ∨ g.osrBlock = some b

/-- `e` is the backedge of the loop with header `h`. -/
def Loop (h e : Nat) : Prop := h < g.numBlocks ∧ (g.block h).backedge = some e

/-- The definition is in a block of the loop. -/
def InLoop (h e id : Nat) : Prop := g.firstId h ≤ id ∧ id < g.firstId (e + 1)

/-- A graph in reverse postorder with properly nested loops. -/
structure WellNested : Prop where
  header_le : ∀ h e, g.Loop h e → h ≤ e
  backedge_lt : ∀ h e, g.Loop h e → e < g.numBlocks
  backedge_successor : ∀ h e, g.Loop h e → (g.block e).successors.getLast? = some h
  successor_lt : ∀ k < g.numBlocks, ∀ c ∈ (g.block k).successors, c < g.numBlocks
  edge : ∀ k < g.numBlocks, ∀ c ∈ (g.block k).successors, k < c ∨ g.Loop c k
  nested : ∀ h e h' e', g.Loop h e → g.Loop h' e' → h < h' → h' ≤ e → e' ≤ e
  entered_at_header : ∀ h e, g.Loop h e → ∀ k < g.numBlocks, ∀ c ∈ (g.block k).successors,
    h < c → c ≤ e → h ≤ k ∧ k ≤ e
  root_outside : ∀ h e, g.Loop h e → ∀ b, g.IsRoot b → h ≤ b → b ≤ e → b = h

/-- Control moves from one definition to another: to the next one of the block, or from
the control instruction to a successor. -/
inductive Step : Nat → Nat → Prop
  | next {k id : Nat} : k < g.numBlocks → g.firstId k ≤ id → id + 1 < g.firstId (k + 1) →
      Step id (id + 1)
  | jump {k c : Nat} : k < g.numBlocks → c ∈ (g.block k).successors →
      Step (g.lastIns k) (g.firstId c)

/-- A step other than along the backedge of a loop that contains `d`. -/
def StepWithin (d x y : Nat) : Prop :=
  g.Step x y ∧ ∀ h e, g.Loop h e → g.InLoop h e d → ¬ (x = g.lastIns e ∧ y = g.firstId h)

def toFlowGraph : FlowGraph Nat where
  root id := ∃ b, g.IsRoot b ∧ id = g.firstId b
  edge := g.Step

/-- The definitions an execution goes through, from where control enters. -/
def Execution (trace : List Nat) : Prop :=
  trace.IsChain g.Step ∧ ∀ id ∈ trace.head?, g.toFlowGraph.root id

/-- The definition stores to memory that the load reads. -/
def Clobbers (id l : Nat) : Prop :=
  (g.aliasSet id).isStore = true ∧
    (g.aliasSet id).flags.intersects (g.aliasSet l).flags = true

variable {g}

lemma firstInstruction_lt (k : Nat) : g.firstInstruction k < g.firstId (k + 1) := by
  show g.firstId k + (g.block k).phis < g.firstId k + (g.block k).defs.length
  simp only [AliasBlock.defs, length_append, length_replicate, length_cons,
    length_nil]
  omega

lemma firstId_le_firstInstruction (k : Nat) : g.firstId k ≤ g.firstInstruction k :=
  Nat.le_add_right _ _

lemma firstId_lt {k k' : Nat} (h : k < k') : g.firstId k < g.firstId k' := by
  induction h with
  | refl => exact (firstId_le_firstInstruction k).trans_lt (firstInstruction_lt k)
  | @step m _ ih =>
    exact ih.trans ((firstId_le_firstInstruction m).trans_lt (firstInstruction_lt m))

lemma firstId_le {k k' : Nat} (h : k ≤ k') : g.firstId k ≤ g.firstId k' := by
  rcases Nat.lt_or_eq_of_le h with hlt | rfl
  · exact (firstId_lt hlt).le
  · exact Nat.le_refl _

lemma firstInstruction_lt_of_lt {k k' : Nat} (h : k < k') :
    g.firstInstruction k < g.firstId k' :=
  (firstInstruction_lt k).trans_le (firstId_le h)

/-- The numbers of the blocks order their definitions. -/
lemma lt_of_firstId_lt {k k' : Nat} (h : g.firstId k < g.firstId k') : k < k' := by
  by_contra hle
  have := firstId_le (g := g) (Nat.le_of_not_lt hle)
  omega

lemma lastIns_lt (k : Nat) : g.lastIns k < g.firstId (k + 1) := by
  have := firstId_lt (g := g) (Nat.lt_add_one k)
  show g.firstId (k + 1) - 1 < _
  omega

lemma firstId_le_lastIns (k : Nat) : g.firstId k ≤ g.lastIns k := by
  have := firstId_lt (g := g) (Nat.lt_add_one k)
  show _ ≤ g.firstId (k + 1) - 1
  omega

lemma firstInstruction_le_lastIns (k : Nat) : g.firstInstruction k ≤ g.lastIns k := by
  have := firstInstruction_lt (g := g) k
  show _ ≤ g.firstId (k + 1) - 1
  omega

lemma Loop.eq_backedge {h e e' : Nat} (hl : g.Loop h e) (hl' : g.Loop h e') : e = e' :=
  some.inj (hl.2.symm.trans hl'.2)

lemma WellNested.eq_header (hg : g.WellNested) {h h' e : Nat} (hl : g.Loop h e)
    (hl' : g.Loop h' e) : h = h' :=
  some.inj ((hg.backedge_successor _ _ hl).symm.trans (hg.backedge_successor _ _ hl'))

/-- Definitions of one block are in the same loops. -/
lemma inLoop_block {h e k x y : Nat} (hx : g.firstId k ≤ x) (hx' : x < g.firstId (k + 1))
    (hy : g.firstId k ≤ y) (hy' : y < g.firstId (k + 1)) (hin : g.InLoop h e x) :
    g.InLoop h e y := by
  have hhk : h < k + 1 := lt_of_firstId_lt (hin.1.trans_lt hx')
  have hke : k < e + 1 := lt_of_firstId_lt (hx.trans_lt hin.2)
  exact ⟨(firstId_le (Nat.lt_succ_iff.mp hhk)).trans hy, hy'.trans_le (firstId_le hke)⟩

lemma Loop.inLoop_lastIns {h e : Nat} (hle : h ≤ e) : g.InLoop h e (g.lastIns e) :=
  ⟨(firstId_le hle).trans (firstId_le_lastIns e), lastIns_lt e⟩

/-- Control comes into a loop through the first definition of its header. -/
lemma Step.enters_at_header (hg : g.WellNested) {h e x y : Nat} (hl : g.Loop h e)
    (hstep : g.Step x y) (hy : g.InLoop h e y) (hx : ¬ g.InLoop h e x) : y = g.firstId h := by
  cases hstep with
  | @next k id hk hid hid' =>
    -- the step stays in a block
    exact absurd (inLoop_block (by omega) (by omega) hid (by omega) hy) hx
  | @jump k c hk hc =>
    by_contra hne
    have hhc : h ≤ c := by
      by_contra hlt
      have := firstId_lt (g := g) (Nat.lt_of_not_le hlt)
      exact absurd hy.1 (by omega)
    have hce : c < e + 1 := lt_of_firstId_lt hy.2
    have hlt : h < c := by
      rcases Nat.lt_or_eq_of_le hhc with hlt | rfl
      · exact hlt
      · exact absurd rfl hne
    have hk' := hg.entered_at_header _ _ hl _ hk _ hc hlt (Nat.lt_succ_iff.mp hce)
    exact hx ⟨(firstId_le hk'.1).trans (firstId_le_lastIns k),
      (lastIns_lt k).trans_le (firstId_le (Nat.succ_le_succ hk'.2))⟩

/-- A step goes on to a later definition or along a backedge. -/
lemma Step.lt_or_backedge (hg : g.WellNested) {x y : Nat} (hstep : g.Step x y) :
    x < y ∨ ∃ h e, g.Loop h e ∧ x = g.lastIns e ∧ y = g.firstId h := by
  cases hstep with
  | next => exact Or.inl (Nat.lt_succ_self _)
  | @jump k c hk hc =>
    rcases hg.edge _ hk _ hc with hlt | hloop
    · exact Or.inl ((lastIns_lt k).trans_le (firstId_le hlt))
    · exact Or.inr ⟨c, k, hloop, rfl, rfl⟩

/-! ## What a dependency says about paths -/

variable (g) in
/-- What the sweep establishes for a load and its dependency, in the order of the ids: no
store after the dependency and before the load, and none in a loop around the load that
the dependency precedes. The dependency is not in a block after the load. -/
structure DependsOn (l d : Nat) : Prop where
  notAfter : ∃ k, g.firstId k ≤ l ∧ d < g.firstId (k + 1)
  between : ∀ id, d < id → id < l → ¬ g.Clobbers id l
  loops : ∀ h e, g.Loop h e → g.InLoop h e l → d < g.firstId h →
    ∀ id, g.InLoop h e id → ¬ g.Clobbers id l

/-- A dependency outside a loop around its load precedes the loop. -/
lemma DependsOn.lt_of_outside {l d h e : Nat} (hdep : g.DependsOn l d)
    (hl : g.InLoop h e l) (hd : ¬ g.InLoop h e d) : d < g.firstId h := by
  by_contra hle
  rcases hdep.notAfter with ⟨k, hkl, hdk⟩
  have hke : k < e + 1 := lt_of_firstId_lt (hkl.trans_lt hl.2)
  exact hd ⟨Nat.le_of_not_lt hle, hdk.trans_le (firstId_le hke)⟩

/-- A path that does not go round the loops of `d` stays after `d`. -/
lemma StepWithin.lt (hg : g.WellNested) {d x y : Nat} (hstep : g.StepWithin d x y)
    (hx : d ≤ x) : d < y := by
  rcases hstep.1.lt_or_backedge hg with hlt | ⟨h, e, hloop, hxe, hyh⟩
  · exact Nat.lt_of_le_of_lt hx hlt
  · by_contra hle
    -- the backedge would jump over `d`
    have hd : g.InLoop h e d := by
      constructor
      · omega
      · have := lastIns_lt (g := g) e
        omega
    exact hstep.2 h e hloop hd ⟨hxe, hyh⟩

lemma lt_of_mem_path (hg : g.WellNested) {d : Nat} :
    ∀ {x : Nat} {path : List Nat}, d ≤ x → (x :: path).IsChain (g.StepWithin d) →
      ∀ y ∈ path, d < y := by
  intro x path
  induction path generalizing x with
  | nil =>
    intro _ _ y hy
    exact absurd hy not_mem_nil
  | cons z path ih =>
    intro hx hchain y hy
    rw [isChain_cons_cons] at hchain
    have hz : d < z := hchain.1.lt hg hx
    rcases mem_cons.mp hy with rfl | hy
    · exact hz
    · exact ih hz.le hchain.2 y hy

variable (g) in
/-- Where a path to `l` can be that does not go round the loops of `d`. -/
def Before (d l x : Nat) : Prop :=
  x ≤ l ∨ ∃ h e, g.Loop h e ∧ ¬ g.InLoop h e d ∧ g.InLoop h e x ∧ g.InLoop h e l

/-- Two loops of which one contains the header of the other. -/
lemma WellNested.contains (hg : g.WellNested) {h e h' e' : Nat} (hl : g.Loop h e)
    (hl' : g.Loop h' e') (hin : g.InLoop h e (g.firstId h')) :
    (h' = h ∧ e' = e) ∨ (h < h' ∧ e' ≤ e) := by
  have hhh : h ≤ h' := by
    by_contra hlt
    have := firstId_lt (g := g) (Nat.lt_of_not_le hlt)
    exact absurd hin.1 (by omega)
  have hhe : h' < e + 1 := lt_of_firstId_lt hin.2
  rcases Nat.lt_or_eq_of_le hhh with hlt | rfl
  · exact Or.inr ⟨hlt, hg.nested _ _ _ _ hl hl' hlt (Nat.lt_succ_iff.mp hhe)⟩
  · exact Or.inl ⟨rfl, hl'.eq_backedge hl⟩

lemma StepWithin.before (hg : g.WellNested) {d l x y : Nat} (hstep : g.StepWithin d x y)
    (hy : g.Before d l y) : g.Before d l x := by
  rcases hstep.1.lt_or_backedge hg with hlt | ⟨h, e, hloop, hxe, hyh⟩
  · rcases hy with hle | ⟨h, e, hloop, hd, hyin, hlin⟩
    · exact Or.inl (hlt.le.trans hle)
    · by_cases hx : g.InLoop h e x
      · exact Or.inr ⟨h, e, hloop, hd, hx, hlin⟩
      · -- the loop is entered here, and `l` is in it
        have hheader := hstep.1.enters_at_header hg hloop hyin hx
        have := hlin.1
        exact Or.inl (by omega)
  · have hd : ¬ g.InLoop h e d := fun hd => hstep.2 h e hloop hd ⟨hxe, hyh⟩
    have hle := hg.header_le _ _ hloop
    have hxin : g.InLoop h e x := hxe ▸ Loop.inLoop_lastIns hle
    rcases hy with hyl | ⟨h', e', hloop', hd', hyin, hlin⟩
    · by_cases hxl : x ≤ l
      · exact Or.inl hxl
      · -- `l` is between the header and the backedge
        have hlin : g.InLoop h e l := ⟨by omega, by have := hxin.2; omega⟩
        exact Or.inr ⟨h, e, hloop, hd, hxin, hlin⟩
    · -- the loop that contains the header contains the backedge
      rw [hyh] at hyin
      refine Or.inr ⟨h', e', hloop', hd', ?_, hlin⟩
      rcases hg.contains hloop' hloop hyin with ⟨rfl, rfl⟩ | ⟨hlt, hee⟩
      · exact hxin
      · exact ⟨(firstId_le hlt.le).trans hxin.1,
          hxin.2.trans_le (firstId_le (Nat.succ_le_succ hee))⟩

lemma before_of_mem_path (hg : g.WellNested) {d l : Nat} :
    ∀ {path : List Nat}, (path ++ [l]).IsChain (g.StepWithin d) →
      ∀ x ∈ path, g.Before d l x := by
  intro path
  induction path with
  | nil =>
    intro _ x hx
    exact absurd hx not_mem_nil
  | cons z path ih =>
    intro hchain x hx
    have htail : (path ++ [l]).IsChain (g.StepWithin d) := hchain.tail
    rcases mem_cons.mp hx with rfl | hx
    · cases path with
      | nil =>
        rw [cons_append, nil_append, isChain_cons_cons] at hchain
        exact hchain.1.before hg (Or.inl (Nat.le_refl l))
      | cons w path =>
        rw [cons_append, cons_append, isChain_cons_cons] at hchain
        exact hchain.1.before hg (ih htail w mem_cons_self)
    · exact ih htail x hx

/-- No store to the load's memory is executed between the dependency and the load, unless
control goes round a loop that contains the dependency. -/
lemma DependsOn.not_clobbers (hg : g.WellNested) {l d : Nat} (hdep : g.DependsOn l d)
    (hload : (g.aliasSet l).isLoad = true) {path : List Nat}
    (hpath : (d :: path ++ [l]).IsChain (g.StepWithin d)) :
    ∀ id ∈ path, ¬ g.Clobbers id l := by
  intro id hid
  have hlt : d < id := by
    refine lt_of_mem_path hg (Nat.le_refl d) hpath id ?_
    exact mem_append_left _ hid
  rcases before_of_mem_path hg hpath id (mem_cons_of_mem _ hid) with
    hle | ⟨h, e, hloop, hd, hin, hlin⟩
  · rcases Nat.lt_or_eq_of_le hle with hidl | rfl
    · exact hdep.between id hlt hidl
    · -- a load is not a store
      intro hc
      have := hc.1
      cases hset : g.aliasSet id <;> simp_all [AliasSet.isLoad, AliasSet.isStore]
  · have hdh : d < g.firstId h := by
      by_contra hle
      exact hd ⟨by omega, by have := hin.2; omega⟩
    exact hdep.loops h e hloop hlin hdh id hin

/-! ## The last execution of a dependency that dominates its load -/

/-- A path from a root into a loop visits the header. -/
lemma header_dominates (hg : g.WellNested) {h e x : Nat} (hl : g.Loop h e)
    (hx : g.InLoop h e x) : g.toFlowGraph.Dominates (g.firstId h) x := by
  intro hav
  have houtside : ∀ y, g.toFlowGraph.Avoids (g.firstId h) y → ¬ g.InLoop h e y := by
    intro y hy
    induction hy with
    | @root b hroot hne =>
      intro hin
      rcases hroot with ⟨k, hk, rfl⟩
      have hke : k < e + 1 := lt_of_firstId_lt hin.2
      have hhk : h ≤ k := by
        by_contra hlt
        have := firstId_lt (g := g) (Nat.lt_of_not_le hlt)
        exact absurd hin.1 (by omega)
      exact hne (congrArg g.firstId
        (hg.root_outside _ _ hl _ hk hhk (Nat.lt_succ_iff.mp hke)))
    | step _ hedge hne ih =>
      intro hin
      exact hne (Step.enters_at_header hg hl hedge hin ih)
  exact houtside x hav hx

lemma reachable_of_mem_execution {trace : List Nat} (h : g.Execution trace) :
    ∀ x ∈ trace, g.toFlowGraph.Reachable x := by
  have hall : ∀ (rest : List Nat) (x : Nat), g.toFlowGraph.Reachable x →
      (x :: rest).IsChain g.Step → ∀ y ∈ rest, g.toFlowGraph.Reachable y := by
    intro rest
    induction rest with
    | nil =>
      intro _ _ _ y hy
      exact absurd hy not_mem_nil
    | cons z rest ih =>
      intro x hx hchain y hy
      rw [isChain_cons_cons] at hchain
      have hz : g.toFlowGraph.Reachable z := hx.step hchain.1
      rcases mem_cons.mp hy with rfl | hy
      · exact hz
      · exact ih z hz hchain.2 y hy
  cases trace with
  | nil =>
    intro x hx
    exact absurd hx not_mem_nil
  | cons r rest =>
    have hr : g.toFlowGraph.Reachable r := .root (h.2 r rfl)
    intro x hx
    rcases mem_cons.mp hx with rfl | hx
    · exact hr
    · exact hall rest r hr h.1 x hx

/-- A path that does not visit `d` keeps avoiding it. -/
lemma avoids_of_mem_path {d x : Nat} (hx : g.toFlowGraph.Avoids d x) :
    ∀ {path : List Nat}, (x :: path).IsChain g.Step → d ∉ path →
      ∀ y ∈ path, g.toFlowGraph.Avoids d y := by
  intro path
  induction path generalizing x with
  | nil =>
    intro _ _ y hy
    exact absurd hy not_mem_nil
  | cons z path ih =>
    intro hchain hd y hy
    rw [isChain_cons_cons] at hchain
    have hz : g.toFlowGraph.Avoids d z :=
      hx.step hchain.1 fun h => hd (h ▸ mem_cons_self)
    rcases mem_cons.mp hy with rfl | hy
    · exact hz
    · exact ih hz hchain.2 (fun h => hd (mem_cons_of_mem _ h)) y hy

/-- From the last execution of a definition that dominates `l`, no path to `l` goes round
a loop of the definition: it would visit the header, and the definition again. -/
lemma stepWithin_of_dominates (hg : g.WellNested) {d l : Nat}
    (hdom : g.toFlowGraph.StrictlyDominates d l) (hreach : g.toFlowGraph.Reachable d) :
    ∀ {x : Nat} {path : List Nat}, (x :: path ++ [l]).IsChain g.Step → d ∉ path →
      (x :: path ++ [l]).IsChain (g.StepWithin d) := by
  have hfirst : ∀ (x y : Nat) (rest : List Nat), g.Step x y →
      (y :: rest).IsChain g.Step → d ∉ y :: rest → l ∈ y :: rest → g.StepWithin d x y := by
    intro x y rest hstep hchain hd hl
    refine ⟨hstep, ?_⟩
    intro h e hloop hin hback
    have hne : y ≠ d := fun heq => hd (heq ▸ mem_cons_self)
    have hheader : g.toFlowGraph.Dominates y d := hback.2 ▸ header_dominates hg hloop hin
    by_cases hdy : g.toFlowGraph.Dominates d y
    · exact hne (hheader.antisymm hdy hreach)
    · have hav : g.toFlowGraph.Avoids d y := Classical.not_not.mp hdy
      rcases mem_cons.mp hl with rfl | hl
      · exact hdom.1 hav
      · exact hdom.1 (avoids_of_mem_path hav hchain
          (fun h => hd (mem_cons_of_mem _ h)) l hl)
  intro x path
  induction path generalizing x with
  | nil =>
    intro hchain _
    rw [cons_append, nil_append, isChain_cons_cons] at hchain ⊢
    exact ⟨hfirst x l [] hchain.1 hchain.2 (by simpa using hdom.2) mem_cons_self,
      isChain_singleton l⟩
  | cons y path ih =>
    intro hchain hd
    rw [cons_append, cons_append, isChain_cons_cons] at hchain ⊢
    refine ⟨hfirst x y _ hchain.1 hchain.2 ?_ ?_, ih hchain.2 ?_⟩
    · intro hmem
      rcases mem_append.mp (cons_append ▸ hmem) with hmem | hmem
      · exact hd hmem
      · exact hdom.2 (mem_singleton.mp hmem)
    · exact mem_append_right (y :: path) mem_cons_self
    · exact fun h => hd (mem_cons_of_mem _ h)

/-! ## The invariant of the sweep -/

variable (g) in
def StoresTo (id : Nat) (f : AliasFlag) : Prop :=
  (g.aliasSet id).isStore = true ∧ (g.aliasSet id).flags f = true

variable (g) in
def IsLoad (id : Nat) : Prop := (g.aliasSet id).isLoad = true

lemma clobbers_iff {id l : Nat} :
    g.Clobbers id l ↔ ∃ f, g.StoresTo id f ∧ (g.aliasSet l).flags f = true := by
  constructor
  · intro h
    rcases AliasFlags.intersects_iff.mp h.2 with ⟨f, hid, hl⟩
    exact ⟨f, ⟨h.1, hid⟩, hl⟩
  · intro ⟨f, hid, hl⟩
    exact ⟨hid.1, AliasFlags.intersects_iff.mpr ⟨f, hid.2, hl⟩⟩

variable (g) in
/-- `h` is the innermost of the loops that contains the definition. -/
def Innermost (headers : List Nat) (h l : Nat) : Prop :=
  g.firstInstruction h ≤ l ∧ ∀ h' ∈ headers, h < h' → l < g.firstInstruction h'

end AliasGraph

/-- The headers of the loops the sweep is in, the innermost one first. -/
def AliasState.headers (s : AliasState) : List Nat := s.loops.map LoopAliasInfo.loopHeader

namespace AliasGraph

variable {g : AliasGraph}

variable (g) in
/-- What holds while the sweep is in block `k`. A store in a loop is recorded for that loop
or for one further in, which will hand it on. A load that may leave its innermost loop is
on the list of that loop. The loops before block `k` are settled. -/
structure SweepInv (k : Nat) (s : AliasState) : Prop where
  newId_ge : g.firstId k ≤ s.newId
  stores : ∀ f id, s.stores f < id → id < s.newId → ¬ g.StoresTo id f
  stores_lt : ∀ f, s.stores f < g.firstId (k + 1)
  decreasing : s.headers.Pairwise fun inner outer => outer < inner
  loopStores : ∀ loop ∈ s.loops, ∀ f id, g.firstInstruction loop.loopHeader ≤ id →
    id < s.newId → g.StoresTo id f →
    ∃ inner ∈ s.loops, loop.loopHeader ≤ inner.loopHeader ∧ inner.loopStores f = true
  dependency : ∀ l < s.newId, g.IsLoad l → ∃ d, s.dependency l = some d ∧
    (∃ b, g.firstId b ≤ l ∧ d < g.firstId (b + 1)) ∧
    ∀ id, d < id → id < l → ¬ g.Clobbers id l
  kept : ∀ loop ∈ s.loops, ∀ l < s.newId, g.IsLoad l →
    g.Innermost s.headers loop.loopHeader l → ∀ d, s.dependency l = some d →
    d < g.firstInstruction loop.loopHeader → l ∈ loop.invariantLoads
  invariantLoads : ∀ loop ∈ s.loops, ∀ l ∈ loop.invariantLoads, l < s.newId ∧ g.IsLoad l ∧
    g.Innermost s.headers loop.loopHeader l ∧
    ∃ d, s.dependency l = some d ∧ d < g.firstInstruction loop.loopHeader
  settled : ∀ h e, g.Loop h e → e < k → ∀ l d, g.IsLoad l →
    g.firstInstruction h ≤ l → l < g.firstId (e + 1) → s.dependency l = some d →
    d < g.firstInstruction h →
    ∀ id, g.firstInstruction h ≤ id → id < g.firstId (e + 1) → ¬ g.Clobbers id l

/-! ## Definitions -/

lemma foldl_lastStore (stores : AliasFlag → Nat) {fs : List AliasFlag} {last : Option Nat}
    (hlast : last.isSome = true ∨ fs ≠ []) (hfrom : ∀ x ∈ last, ∃ f, x = stores f) :
    ∃ id, fs.foldl (fun last f =>
        match last with
        | none => some (stores f)
        | some id => if id < stores f then some (stores f) else some id) last = some id ∧
      (∃ f, id = stores f) ∧ (∀ x ∈ last, x ≤ id) ∧ ∀ f ∈ fs, stores f ≤ id := by
  induction fs generalizing last with
  | nil =>
    cases last with
    | none => simp at hlast
    | some id => exact ⟨id, rfl, hfrom id rfl, by simp, by simp⟩
  | cons f fs ih =>
    cases last with
    | none =>
      rcases ih (Or.inl rfl)
        (fun x hx => ⟨f, (some.inj hx).symm⟩) with ⟨id, hid, hstore, hlast, hfs⟩
      refine ⟨id, hid, hstore, by simp, ?_⟩
      intro f' hf'
      rcases mem_cons.mp hf' with rfl | hf'
      · exact hlast _ rfl
      · exact hfs f' hf'
    | some x =>
      have hnext : ∀ y ∈ (if x < stores f then some (stores f) else some x),
          ∃ f, y = stores f := by
        intro y hy
        split at hy
        · exact ⟨f, (some.inj hy).symm⟩
        · exact hfrom y hy
      rcases ih
        (Or.inl (by split <;> rfl)) hnext with ⟨id, hid, hstore, hlast, hfs⟩
      have hmax : x ≤ id ∧ stores f ≤ id := by
        split at hlast
        · have := hlast _ rfl
          omega
        · have := hlast _ rfl
          omega
      refine ⟨id, hid, hstore, ?_, ?_⟩
      · intro y hy
        exact some.inj hy ▸ hmax.1
      · intro f' hf'
        rcases mem_cons.mp hf' with rfl | hf'
        · exact hmax.2
        · exact hfs f' hf'

/-- `lastStore` is the largest of the recorded stores. -/
lemma lastStore_spec (stores : AliasFlag → Nat) {flags : AliasFlags}
    (hne : ∃ f, flags f = true) :
    ∃ id, lastStore stores flags.iterator = some id ∧ (∃ f, id = stores f) ∧
      ∀ f, flags f = true → stores f ≤ id := by
  rcases hne with ⟨f, hf⟩
  have hmem : f ∈ flags.iterator := AliasFlags.mem_iterator.mpr hf
  rcases foldl_lastStore stores (Or.inr (ne_nil_of_mem hmem))
    (fun x h => absurd h (not_mem_none x)) with ⟨id, hid, hstore, _, hall⟩
  exact ⟨id, hid, hstore, fun f hf => hall f (AliasFlags.mem_iterator.mpr hf)⟩

variable {u : LoopAliasInfo → LoopAliasInfo}

/-- A change of the innermost loop's record keeps the headers. -/
lemma map_modifyHead (hu : ∀ loop, (u loop).loopHeader = loop.loopHeader)
    (loops : List LoopAliasInfo) :
    (loops.modifyHead u).map LoopAliasInfo.loopHeader = loops.map LoopAliasInfo.loopHeader := by
  cases loops with
  | nil => rfl
  | cons top rest => simp [hu]

variable {s : AliasState} {k : Nat}

/-- The innermost loop has the last header. -/
lemma SweepInv.header_le (hs : g.SweepInv k s) {top : LoopAliasInfo} {rest : List LoopAliasInfo}
    (hloops : s.loops = top :: rest) :
    ∀ loop ∈ s.loops, loop.loopHeader ≤ top.loopHeader := by
  intro loop hloop
  have hdec := hs.decreasing
  rw [AliasState.headers, hloops, map_cons, pairwise_cons] at hdec
  rw [hloops] at hloop
  rcases mem_cons.mp hloop with rfl | hloop
  · exact Nat.le_refl _
  · exact (hdec.1 _ (mem_map_of_mem hloop)).le

variable {loop : LoopAliasInfo}

/-- A record of a changed list comes from one with the same header. -/
lemma exists_of_mem_modifyHead {loops : List LoopAliasInfo} (h : loop ∈ loops.modifyHead u) :
    ∃ loop₀ ∈ loops, loop = loop₀ ∨ (loop = u loop₀ ∧ ∃ rest, loops = loop₀ :: rest) := by
  cases loops with
  | nil => exact absurd h not_mem_nil
  | cons top rest =>
    rcases mem_cons.mp h with rfl | h
    · exact ⟨top, mem_cons_self, Or.inr ⟨rfl, rest, rfl⟩⟩
    · exact ⟨loop, mem_cons_of_mem _ h, Or.inl rfl⟩

/-- A record of a list is in the changed list, perhaps changed. -/
lemma exists_mem_modifyHead {loops : List LoopAliasInfo} (h : loop ∈ loops) :
    ∃ loop' ∈ loops.modifyHead u, loop' = loop ∨ loop' = u loop := by
  cases loops with
  | nil => exact absurd h not_mem_nil
  | cons top rest =>
    rcases mem_cons.mp h with rfl | h
    · exact ⟨u loop, mem_cons_self, Or.inr rfl⟩
    · exact ⟨loop, mem_cons_of_mem _ h, Or.inl rfl⟩

/-- One more definition is visited: the innermost loop may record its stores, and keep it on its
list if it is a load. -/
lemma SweepInv.visit (hs : g.SweepInv k s) {stores : AliasFlag → Nat}
    {dependency : Nat → Option Nat} (hu : ∀ loop, (u loop).loopHeader = loop.loopHeader)
    (hustores : ∀ loop f, loop.loopStores f = true ∨ g.StoresTo s.newId f →
      (u loop).loopStores f = true)
    (humem : ∀ loop l, l ∈ (u loop).invariantLoads ↔ l ∈ loop.invariantLoads ∨
      l = s.newId ∧ g.IsLoad l ∧ ∃ d, dependency l = some d ∧
        d < g.firstInstruction loop.loopHeader)
    (hstores : ∀ f, stores f = s.newId ∧ s.newId < g.firstId (k + 1) ∨
      stores f = s.stores f ∧ ¬ g.StoresTo s.newId f)
    (hold : ∀ l < s.newId, dependency l = s.dependency l)
    (hdependency : g.IsLoad s.newId → ∃ d, dependency s.newId = some d ∧
      (∃ b, g.firstId b ≤ s.newId ∧ d < g.firstId (b + 1)) ∧
      ∀ id, d < id → id < s.newId → ¬ g.Clobbers id s.newId)
    (hfirst : g.IsLoad s.newId →
      ∀ loop ∈ s.loops, g.firstInstruction loop.loopHeader ≤ s.newId) :
    g.SweepInv k ⟨s.newId + 1, stores, s.loops.modifyHead u, dependency⟩ := by
  have hheaders : (s.loops.modifyHead u).map LoopAliasInfo.loopHeader = s.headers :=
    map_modifyHead hu _
  constructor
  · exact Nat.le_succ_of_le hs.newId_ge
  · intro f id hlt hid hst
    have hid : id < s.newId + 1 := hid
    have hlt : stores f < id := hlt
    rcases hstores f with ⟨heq, -⟩ | ⟨heq, hnot⟩
    · rw [heq] at hlt
      omega
    · rw [heq] at hlt
      rcases Nat.lt_succ_iff_lt_or_eq.mp hid with hid | rfl
      · exact hs.stores f id hlt hid hst
      · exact hnot hst
  · intro f
    rcases hstores f with ⟨heq, hlt⟩ | ⟨heq, -⟩
    · exact heq.trans_lt hlt
    · exact heq.trans_lt (hs.stores_lt f)
  · show ((s.loops.modifyHead u).map _).Pairwise _
    rw [hheaders]
    exact hs.decreasing
  · intro loop hloop f id hge hid hst
    rcases exists_of_mem_modifyHead hloop with ⟨loop₀, hmem₀, hfrom⟩
    have hheader : loop.loopHeader = loop₀.loopHeader := by
      rcases hfrom with rfl | ⟨rfl, _⟩
      · rfl
      · exact hu loop₀
    rcases Nat.lt_succ_iff_lt_or_eq.mp hid with hid | rfl
    · rw [hheader] at hge ⊢
      rcases hs.loopStores loop₀ hmem₀ f id hge hid hst with ⟨inner, hinner, hle, hf⟩
      rcases exists_mem_modifyHead (u := u) hinner with ⟨inner', hmem', rfl | rfl⟩
      · exact ⟨inner', hmem', hle, hf⟩
      · exact ⟨_, hmem', (hu inner).symm ▸ hle, hustores inner f (Or.inl hf)⟩
    · -- the innermost loop records the store
      rcases hloops : s.loops with _ | ⟨top, rest⟩
      · rw [hloops] at hmem₀
        exact absurd hmem₀ not_mem_nil
      · refine ⟨u top, mem_cons_self, ?_, hustores top f (Or.inr hst)⟩
        rw [hheader, hu]
        exact hs.header_le hloops loop₀ hmem₀
  · intro l hl hisLoad
    rcases Nat.lt_succ_iff_lt_or_eq.mp hl with hl | rfl
    · show ∃ d', dependency l = some d' ∧ _
      rw [hold l hl]
      exact hs.dependency l hl hisLoad
    · exact hdependency hisLoad
  · intro loop hloop l hl hisLoad hinnermost d' hd' hlt
    rw [AliasState.headers, hheaders] at hinnermost
    rcases exists_of_mem_modifyHead hloop with ⟨loop₀, hmem₀, hfrom⟩
    rcases Nat.lt_succ_iff_lt_or_eq.mp hl with hl | rfl
    · have hd' : s.dependency l = some d' := (hold l hl).symm.trans hd'
      rcases hfrom with rfl | ⟨rfl, _⟩
      · exact hs.kept _ hmem₀ l hl hisLoad hinnermost d' hd' hlt
      · rw [hu] at hinnermost hlt
        exact (humem _ _).mpr (Or.inl (hs.kept _ hmem₀ l hl hisLoad hinnermost d' hd' hlt))
    · rcases hfrom with rfl | ⟨rfl, _⟩
      · -- the load is in all loops, so its innermost one is the first of the list
        rcases hloops : s.loops with _ | ⟨top, rest⟩
        · rw [hloops] at hmem₀
          exact absurd hmem₀ not_mem_nil
        · have htop : top ∈ s.loops := hloops ▸ mem_cons_self
          have hge := hfirst hisLoad top htop
          rw [hloops] at hloop
          rcases Nat.lt_or_eq_of_le (hs.header_le hloops loop hmem₀) with hlt' | heq
          · have := hinnermost.2 _ (mem_map_of_mem htop) hlt'
            omega
          · rcases mem_cons.mp hloop with rfl | hrest
            · rw [hu] at hlt
              exact (humem _ _).mpr (Or.inr ⟨rfl, hisLoad, d', hd', hlt⟩)
            · have hdec := hs.decreasing
              rw [AliasState.headers, hloops, map_cons, pairwise_cons] at hdec
              have := hdec.1 _ (mem_map_of_mem hrest)
              omega
      · rw [hu] at hlt
        exact (humem _ _).mpr (Or.inr ⟨rfl, hisLoad, d', hd', hlt⟩)
  · intro loop hloop l hl
    rw [AliasState.headers, hheaders]
    have hprev : ∀ loop₀ ∈ s.loops, l ∈ loop₀.invariantLoads → l < s.newId + 1 ∧ g.IsLoad l ∧
        g.Innermost s.headers loop₀.loopHeader l ∧
        ∃ d', dependency l = some d' ∧ d' < g.firstInstruction loop₀.loopHeader := by
      intro loop₀ hmem₀ hl
      rcases hs.invariantLoads _ hmem₀ l hl with ⟨hlt, hisLoad, hinnermost, hdep⟩
      rw [hold l hlt]
      exact ⟨Nat.lt_succ_of_lt hlt, hisLoad, hinnermost, hdep⟩
    rcases exists_of_mem_modifyHead hloop with ⟨loop₀, hmem₀, rfl | ⟨rfl, rest, hloops⟩⟩
    · exact hprev _ hmem₀ hl
    · rw [hu]
      rcases (humem _ _).mp hl with hl | ⟨rfl, hisLoad, hdep⟩
      · exact hprev _ hmem₀ hl
      · refine ⟨Nat.lt_succ_self _, hisLoad, ⟨hfirst hisLoad _ hmem₀, ?_⟩, hdep⟩
        -- no loop is further in
        intro h' hh' hlt'
        rcases mem_map.mp hh' with ⟨loop', hloop', rfl⟩
        have := hs.header_le hloops loop' hloop'
        omega
  · intro h e hloop hek l d' hisLoad hge hlt hd'
    have hln : l < s.newId := (hlt.trans_le (firstId_le hek)).trans_le hs.newId_ge
    exact hs.settled h e hloop hek l d' hisLoad hge hlt ((hold l hln).symm.trans hd')

lemma not_storesTo (hset : (g.aliasSet s.newId).isStore = false) (f : AliasFlag) :
    ¬ g.StoresTo s.newId f := fun h => false_ne_true (hset.symm.trans h.1)

lemma not_isLoad (hset : (g.aliasSet s.newId).isLoad = false) : ¬ g.IsLoad s.newId :=
  fun h => false_ne_true (hset.symm.trans h)

/-- A definition without alias set. -/
lemma SweepInv.visitNone (hs : g.SweepInv k s) (hset : g.aliasSet s.newId = .none) :
    g.SweepInv k { s with newId := s.newId + 1 } := by
  have hstore := not_storesTo (g := g) (s := s) (by rw [hset]; rfl)
  have hload : ¬ g.IsLoad s.newId := not_isLoad (by rw [hset]; rfl)
  have hvisit := hs.visit (u := id) (fun _ => rfl) (fun _ f => (·.resolve_right (hstore f)))
    (fun _ _ => ⟨Or.inl, (·.resolve_right fun h => hload (h.1 ▸ h.2.1))⟩)
    (fun f => Or.inr ⟨rfl, hstore f⟩) (fun _ _ => rfl) (absurd · hload) (absurd · hload)
  rwa [modifyHead_id] at hvisit

lemma SweepInv.visitStore (hs : g.SweepInv k s) {flags : AliasFlags} {hne : ∃ f, flags f = true}
    (hset : g.aliasSet s.newId = .store flags hne) (hlt : s.newId < g.firstId (k + 1)) :
    g.SweepInv k { s.visitStore flags with newId := s.newId + 1 } := by
  have hload : ¬ g.IsLoad s.newId := not_isLoad (by rw [hset]; rfl)
  refine hs.visit (fun _ => rfl) (fun loop f hf => ?_)
    (fun _ _ => ⟨Or.inl, (·.resolve_right fun h => hload (h.1 ▸ h.2.1))⟩) (fun f => ?_)
    (fun _ _ => rfl) (absurd · hload) (absurd · hload)
  · rw [StoresTo, hset] at hf
    exact AliasFlags.union_eq_true.mpr (hf.imp_right And.right)
  · dsimp only [AliasState.visitStore]
    split
    · exact Or.inl ⟨rfl, hlt⟩
    · rename_i hf
      refine Or.inr ⟨rfl, fun hst => ?_⟩
      rw [StoresTo, hset] at hst
      exact hf hst.2

/-- A load is visited after the first instructions of the loops around it. -/
lemma SweepInv.visitLoad (hs : g.SweepInv k s) {flags : AliasFlags} {hne : ∃ f, flags f = true}
    (hset : g.aliasSet s.newId = .load flags hne)
    (hfirst : ∀ loop ∈ s.loops, g.firstInstruction loop.loopHeader ≤ s.newId) :
    g.SweepInv k { s.visitLoad g flags with newId := s.newId + 1 } := by
  have hstore := not_storesTo (g := g) (s := s) (by rw [hset]; rfl)
  have hload : g.IsLoad s.newId := by
    rw [IsLoad, hset]
    rfl
  rcases lastStore_spec s.stores hne with ⟨d, hd, ⟨fd, hfd⟩, hmax⟩
  unfold AliasState.visitLoad
  rw [hd]
  have hdep : Function.update s.dependency s.newId (some d) s.newId = some d :=
    Function.update_self ..
  refine hs.visit (fun loop => ?_) (fun loop f hf => ?_) (fun loop l => ?_)
    (fun f => Or.inr ⟨rfl, hstore f⟩) (fun l hl => Function.update_of_ne (Nat.ne_of_lt hl) _ _)
    (fun _ => ⟨d, hdep, ⟨k, hs.newId_ge, hfd ▸ hs.stores_lt fd⟩, fun id hdid hid hc => ?_⟩)
    fun _ => hfirst
  · split <;> rfl
  · split <;> exact hf.resolve_right (hstore f)
  · constructor
    · split
      · rename_i hlt
        intro hl
        rcases mem_append.mp hl with hl | hl
        · exact Or.inl hl
        · rw [mem_singleton.mp hl]
          exact Or.inr ⟨rfl, hload, d, hdep, hlt⟩
      · exact Or.inl
    · rintro (hl | ⟨rfl, -, d', hd', hlt⟩)
      · split
        · exact mem_append_left _ hl
        · exact hl
      · rw [if_pos (some.inj (hdep.symm.trans hd') ▸ hlt)]
        exact mem_append_right _ (mem_singleton_self _)
  · -- no store was recorded after the last one
    rcases clobbers_iff.mp hc with ⟨f, hst, hf⟩
    rw [hset] at hf
    exact hs.stores f id (Nat.lt_of_le_of_lt (hmax f hf) hdid) hid hst

/-! ## Blocks -/

lemma length_flatMap_defs (n : Nat) :
    ((List.range n).flatMap fun k => (g.block k).defs).length + 1 = g.firstId n := by
  induction n with
  | zero => rfl
  | succ n ih =>
    rw [range_succ, flatMap_append, length_append, flatMap_singleton]
    show _ = g.firstId n + _
    omega

lemma aliasSet_eq {k j : Nat} (hk : k < g.numBlocks) (hj : j < (g.block k).defs.length) :
    g.aliasSet (g.firstId k + j) = (g.block k).defs[j] := by
  have hget : ∀ n, k < n →
      ((List.range n).flatMap fun k => (g.block k).defs)[g.firstId k - 1 + j]? =
        some (g.block k).defs[j] := by
    intro n hn
    induction n with
    | zero => exact absurd hn (Nat.not_lt_zero k)
    | succ n ih =>
      have hlen := length_flatMap_defs (g := g) n
      rw [range_succ, flatMap_append, flatMap_singleton]
      rcases Nat.lt_succ_iff_lt_or_eq.mp hn with hlt | rfl
      · -- the definition is before the last block
        have hle : g.firstId (k + 1) ≤ g.firstId n := firstId_le hlt
        have hend : g.firstId (k + 1) = g.firstId k + (g.block k).defs.length := rfl
        have hpos : g.firstId 0 ≤ g.firstId k := firstId_le (Nat.zero_le k)
        have hone : g.firstId 0 = 1 := rfl
        rw [List.getElem?_append_left (by omega)]
        exact ih hlt
      · rw [List.getElem?_append_right (by omega)]
        rw [show g.firstId k - 1 + j -
          ((List.range k).flatMap fun k => (g.block k).defs).length = j by omega]
        exact List.getElem?_eq_getElem hj
  have hpos : g.firstId 0 ≤ g.firstId k := firstId_le (Nat.zero_le k)
  have hone : g.firstId 0 = 1 := rfl
  have hsucc : g.firstId k + j = (g.firstId k - 1 + j) + 1 := by omega
  rw [hsucc]
  show g.aliasSets.getD _ _ = _
  rw [getD_eq_getElem?_getD, aliasSets, hget _ hk]
  rfl

/-- A phi has no alias set. -/
lemma aliasSet_phi {k id : Nat} (hk : k < g.numBlocks) (hge : g.firstId k ≤ id)
    (hlt : id < g.firstInstruction k) : g.aliasSet id = .none := by
  have hphi : id - g.firstId k < (g.block k).phis := by
    have : g.firstInstruction k = g.firstId k + (g.block k).phis := rfl
    omega
  have hlen : id - g.firstId k < (g.block k).defs.length := by
    simp only [AliasBlock.defs, length_append, length_replicate]
    omega
  have hid : id = g.firstId k + (id - g.firstId k) := by omega
  rw [hid, aliasSet_eq hk hlen]
  simp only [AliasBlock.defs]
  rw [getElem_append_left (by simpa using hphi), getElem_replicate]

lemma visitDef_newId (s : AliasState) (set : AliasSet) :
    (s.visitDef g set).newId = s.newId + 1 := rfl

lemma visitDef_headers (s : AliasState) (set : AliasSet) :
    (s.visitDef g set).headers = s.headers := by
  cases set with
  | none => rfl
  | store flags _ =>
    exact map_modifyHead (u := fun loop => loop.addStore flags) (fun _ => rfl) s.loops
  | load flags _ =>
    show List.map _ (s.visitLoad g flags).loops = _
    unfold AliasState.visitLoad
    split
    · rfl
    · refine map_modifyHead ?_ _
      intro loop
      split <;> rfl

/-- The step lemma of the sweep over definitions. -/
lemma SweepInv.visitDef (hs : g.SweepInv k s) (hlt : s.newId < g.firstId (k + 1))
    (hfirst : g.aliasSet s.newId ≠ .none →
      ∀ h ∈ s.headers, g.firstInstruction h ≤ s.newId) :
    g.SweepInv k (s.visitDef g (g.aliasSet s.newId)) := by
  cases hset : g.aliasSet s.newId with
  | none => exact hs.visitNone hset
  | store flags hne => exact hs.visitStore hset hlt
  | load flags hne =>
    refine hs.visitLoad hset ?_
    intro loop hloop
    refine hfirst ?_ _ (mem_map_of_mem hloop)
    rw [hset]
    exact AliasSet.noConfusion

/-- The definitions of a block. -/
lemma SweepInv.visitDefs (hs : g.SweepInv k s) (hk : k < g.numBlocks)
    (hnew : s.newId = g.firstId k) (hheaders : ∀ h ∈ s.headers, h ≤ k) :
    let s' := (g.block k).defs.foldl (AliasState.visitDef g) s
    g.SweepInv k s' ∧ s'.newId = g.firstId (k + 1) ∧ s'.headers = s.headers := by
  have hfold : ∀ (rest : List AliasSet) (s : AliasState), g.SweepInv k s →
      g.firstId k ≤ s.newId → s.newId + rest.length = g.firstId (k + 1) →
      (∀ h ∈ s.headers, h ≤ k) →
      (∀ j (hj : j < rest.length), g.aliasSet (s.newId + j) = rest[j]) →
      let s' := rest.foldl (AliasState.visitDef g) s
      g.SweepInv k s' ∧ s'.newId = g.firstId (k + 1) ∧ s'.headers = s.headers := by
    intro rest
    induction rest with
    | nil =>
      intro s hs _ hlen _ _
      exact ⟨hs, hlen, rfl⟩
    | cons set rest ih =>
      intro s hs hge hlen hheaders hsets
      have hset : g.aliasSet s.newId = set := hsets 0 (Nat.succ_pos _)
      have hstep : g.SweepInv k (s.visitDef g set) := by
        rw [← hset]
        refine hs.visitDef (by rw [← hlen, length_cons]; omega) ?_
        intro hne h hh
        rcases Nat.lt_or_eq_of_le (hheaders h hh) with hlt | rfl
        · exact (firstInstruction_lt_of_lt hlt).le.trans hge
        · by_contra hlt
          exact hne (aliasSet_phi hk hge (Nat.lt_of_not_le hlt))
      rw [length_cons] at hlen
      rcases ih (s.visitDef g set) hstep (Nat.le_succ_of_le hge)
        (by rw [visitDef_newId]; omega) (by rw [visitDef_headers]; exact hheaders)
        (fun j hj => by
          have := hsets (j + 1) (Nat.succ_lt_succ hj)
          rw [visitDef_newId, Nat.add_right_comm, Nat.add_assoc]
          exact this) with ⟨hinv, hnew, hsame⟩
      exact ⟨hinv, hnew, hsame.trans (visitDef_headers s set)⟩
  refine hfold (g.block k).defs s hs hnew.ge ?_ hheaders ?_
  · rw [hnew]
    rfl
  · intro j hj
    rw [hnew]
    exact aliasSet_eq hk hj

/-- A loop header opens a loop that has nothing in it yet. -/
lemma SweepInv.enterLoop (hs : g.SweepInv k s) (hnew : s.newId = g.firstId k)
    (hheaders : ∀ h ∈ s.headers, h < k) :
    g.SweepInv k (s.enterLoop k) := by
  have hfirst : s.newId ≤ g.firstInstruction k := hnew ▸ firstId_le_firstInstruction k
  have hinnermost : ∀ h l, l < s.newId →
      (g.Innermost (s.enterLoop k).headers h l ↔ g.Innermost s.headers h l) := by
    intro h l hl
    constructor
    · intro hin
      exact ⟨hin.1, fun h' hh' => hin.2 h' (mem_cons_of_mem _ hh')⟩
    · intro hin
      refine ⟨hin.1, ?_⟩
      intro h' hh' hlt
      rcases mem_cons.mp hh' with rfl | hh'
      · exact hl.trans_le hfirst
      · exact hin.2 h' hh' hlt
  constructor
  · exact hs.newId_ge
  · exact hs.stores
  · exact hs.stores_lt
  · exact pairwise_cons.mpr ⟨hheaders, hs.decreasing⟩
  · intro loop hloop f id hge hid hst
    rcases mem_cons.mp hloop with rfl | hloop
    · have : id < s.newId := hid
      have : g.firstInstruction k ≤ id := hge
      omega
    · rcases hs.loopStores loop hloop f id hge hid hst with ⟨inner, hinner, hle, hf⟩
      exact ⟨inner, mem_cons_of_mem _ hinner, hle, hf⟩
  · exact hs.dependency
  · intro loop hloop l hl hisLoad hin d hd hlt
    rcases mem_cons.mp hloop with rfl | hloop
    · have : g.firstInstruction k ≤ l := hin.1
      have : l < s.newId := hl
      omega
    · exact hs.kept loop hloop l hl hisLoad ((hinnermost _ l hl).mp hin) d hd hlt
  · intro loop hloop l hl
    rcases mem_cons.mp hloop with rfl | hloop
    · exact absurd hl not_mem_nil
    · rcases hs.invariantLoads loop hloop l hl with ⟨hlt, hisLoad, hin, hdep⟩
      exact ⟨hlt, hisLoad, (hinnermost _ l hlt).mpr hin, hdep⟩
  · exact hs.settled

/-! ## The end of a loop -/

variable (g) in
/-- A store of the loop reaches the load's memory. -/
def Repaired (loop : LoopAliasInfo) (l : Nat) : Bool :=
  loop.loopStores.intersects (g.aliasSet l).flags

variable (g) in
/-- The dependencies after the end of a loop. -/
def leftDependency (loop : LoopAliasInfo) (ids : List Nat) (dependency : Nat → Option Nat) :
    Nat → Option Nat := fun l =>
  if l ∈ ids ∧ g.Repaired loop l = true then some (g.lastIns loop.loopHeader)
  else dependency l

variable (g) in
/-- The loads of a loop that may leave its outer loop too. -/
def promoted (loop outerLoop : LoopAliasInfo) (dependency : Nat → Option Nat) (ids : List Nat) :
    List Nat :=
  ids.filter fun l => !g.Repaired loop l &&
    (dependency l).any (· < g.firstInstruction outerLoop.loopHeader)

lemma foldl_visitInvariantLoad (loop : LoopAliasInfo) (ids : List Nat) (s : AliasState) :
    ids.foldl (AliasState.visitInvariantLoad g loop) s =
      { s with
        dependency := g.leftDependency loop ids s.dependency
        loops := s.loops.modifyHead fun outerLoop =>
          { outerLoop with invariantLoads :=
              outerLoop.invariantLoads ++ g.promoted loop outerLoop s.dependency ids } } := by
  induction ids generalizing s with
  | nil =>
    have hdep : g.leftDependency loop [] s.dependency = s.dependency := by
      funext l
      simp [leftDependency]
    rw [hdep]
    rcases s with ⟨newId, stores, loops, dependency⟩
    cases loops <;> simp [promoted]
  | cons id ids ih =>
    rw [foldl_cons, ih]
    cases hrep : g.Repaired loop id with
    | true =>
      -- a repaired load is on no list, and a second visit repairs it again
      have hvisit : s.visitInvariantLoad g loop id =
          { s with dependency :=
              Function.update s.dependency id (some (g.lastIns loop.loopHeader)) } :=
        if_pos hrep
      rw [hvisit]
      have hdep : g.leftDependency loop ids
          (Function.update s.dependency id (some (g.lastIns loop.loopHeader))) =
            g.leftDependency loop (id :: ids) s.dependency := by
        funext l
        by_cases hl : l = id
        · subst hl
          simp [leftDependency, hrep]
        · simp [leftDependency, hl]
      have hpromoted : ∀ outerLoop, g.promoted loop outerLoop
          (Function.update s.dependency id (some (g.lastIns loop.loopHeader))) ids =
            g.promoted loop outerLoop s.dependency (id :: ids) := by
        intro outerLoop
        unfold promoted
        rw [filter_cons_of_neg (by simp [hrep])]
        apply filter_congr
        intro l _
        by_cases hl : l = id
        · subst hl
          simp [hrep]
        · rw [Function.update_of_ne hl]
      simp only [hdep, hpromoted]
    | false =>
      have hvisit : s.visitInvariantLoad g loop id =
          { s with loops := s.loops.modifyHead fun outerLoop =>
              if (s.dependency id).any (· < g.firstInstruction outerLoop.loopHeader) then
                outerLoop.addInvariantLoad id
              else outerLoop } :=
        if_neg (by rw [Repaired] at hrep; rw [hrep]; exact false_ne_true)
      rw [hvisit]
      have hdep : g.leftDependency loop ids s.dependency =
          g.leftDependency loop (id :: ids) s.dependency := by
        funext l
        by_cases hl : l = id
        · subst hl
          simp [leftDependency, hrep]
        · simp [leftDependency, hl]
      rw [hdep]
      rcases s with ⟨newId, stores, loops, dependency⟩
      cases loops with
      | nil => rfl
      | cons outerLoop rest =>
        simp only [modifyHead_cons, promoted, filter_cons, hrep]
        split
        · rename_i hbefore
          simp [LoopAliasInfo.addInvariantLoad, hbefore]
          rfl
        · rename_i hbefore
          simp [hbefore]

variable (g) in
/-- The record of the outer loop after the end of a loop. -/
def leftOuter (loop : LoopAliasInfo) (dependency : Nat → Option Nat) (outerLoop : LoopAliasInfo) :
    LoopAliasInfo where
  loopHeader := outerLoop.loopHeader
  loopStores := outerLoop.loopStores.union loop.loopStores
  invariantLoads := outerLoop.invariantLoads ++
    g.promoted loop outerLoop dependency loop.invariantLoads

variable {outer : List LoopAliasInfo}

lemma leaveLoop_eq (hloops : s.loops = loop :: outer) :
    s.leaveLoop g =
      { s with
        dependency := g.leftDependency loop loop.invariantLoads s.dependency
        loops := outer.modifyHead (g.leftOuter loop s.dependency) } := by
  unfold AliasState.leaveLoop
  rw [hloops]
  simp only
  rw [foldl_visitInvariantLoad]
  cases outer <;> rfl

/-- The end of a loop moves dependencies only to later definitions, and only those of
loads it had on its list. -/
lemma SweepInv.leftDependency_spec (hs : g.SweepInv k s) (hloop : loop ∈ s.loops) (l : Nat) :
    (l ∈ loop.invariantLoads ∧ g.Repaired loop l = true ∧
      g.leftDependency loop loop.invariantLoads s.dependency l =
        some (g.lastIns loop.loopHeader) ∧
      ∃ d, s.dependency l = some d ∧ d < g.firstInstruction loop.loopHeader) ∨
    (g.leftDependency loop loop.invariantLoads s.dependency l = s.dependency l ∧
      (l ∈ loop.invariantLoads → g.Repaired loop l = false)) := by
  by_cases h : l ∈ loop.invariantLoads ∧ g.Repaired loop l = true
  · rcases hs.invariantLoads loop hloop l h.1 with ⟨_, _, _, d, hd, hlt⟩
    exact Or.inl ⟨h.1, h.2, if_pos h, d, hd, hlt⟩
  · refine Or.inr ⟨if_neg h, ?_⟩
    intro hmem
    rw [eq_false_iff]
    exact fun hrep => h ⟨hmem, hrep⟩

lemma SweepInv.le_of_leftDependency (hs : g.SweepInv k s) (hloop : loop ∈ s.loops) {l d' : Nat}
    (hd' : g.leftDependency loop loop.invariantLoads s.dependency l = some d') :
    ∃ d, s.dependency l = some d ∧ d ≤ d' := by
  rcases hs.leftDependency_spec hloop l with ⟨_, _, hleft, d, hd, hlt⟩ | ⟨hleft, _⟩
  · have hd' : g.lastIns loop.loopHeader = d' := some.inj (hleft.symm.trans hd')
    have := firstInstruction_le_lastIns (g := g) loop.loopHeader
    exact ⟨d, hd, by omega⟩
  · exact ⟨d', hleft.symm.trans hd', Nat.le_refl _⟩

/-- A load that still depends on something before the loop was not repaired. -/
lemma SweepInv.eq_of_leftDependency (hs : g.SweepInv k s) (hloop : loop ∈ s.loops) {l d' : Nat}
    (hd' : g.leftDependency loop loop.invariantLoads s.dependency l = some d')
    (hlt : d' < g.firstInstruction loop.loopHeader) :
    s.dependency l = some d' ∧ (l ∈ loop.invariantLoads → g.Repaired loop l = false) := by
  rcases hs.leftDependency_spec hloop l with ⟨_, _, hleft, _⟩ | ⟨hleft, hnot⟩
  · have hd' : g.lastIns loop.loopHeader = d' := some.inj (hleft.symm.trans hd')
    have := firstInstruction_le_lastIns (g := g) loop.loopHeader
    omega
  · exact ⟨hleft.symm.trans hd', hnot⟩

/-- The loads of the innermost loop that keep a dependency before it read memory that no
store of the loop reaches. -/
lemma SweepInv.not_clobbers_of_left (hs : g.SweepInv k s) (hloops : s.loops = loop :: outer)
    {l d : Nat} (hisLoad : g.IsLoad l) (hge : g.firstInstruction loop.loopHeader ≤ l)
    (hl : l < s.newId) (hd : g.leftDependency loop loop.invariantLoads s.dependency l = some d)
    (hlt : d < g.firstInstruction loop.loopHeader) :
    l ∈ loop.invariantLoads ∧ g.Repaired loop l = false ∧
      ∀ id, g.firstInstruction loop.loopHeader ≤ id → id < s.newId → ¬ g.Clobbers id l := by
  have hloop : loop ∈ s.loops := hloops ▸ mem_cons_self
  rcases hs.eq_of_leftDependency hloop hd hlt with ⟨hd, hnot⟩
  have hinnermost : g.Innermost s.headers loop.loopHeader l := by
    refine ⟨hge, ?_⟩
    intro h' hh' hlt'
    rcases mem_map.mp hh' with ⟨loop', hloop', rfl⟩
    have := hs.header_le hloops loop' hloop'
    omega
  have hmem := hs.kept loop hloop l hl hisLoad hinnermost d hd hlt
  refine ⟨hmem, hnot hmem, ?_⟩
  intro id hid hidnew hc
  rcases clobbers_iff.mp hc with ⟨f, hst, hf⟩
  rcases hs.loopStores loop hloop f id hid hidnew hst with ⟨inner, hinner, hle, hstore⟩
  -- no loop is further in, so the store is recorded for this one
  have heq : inner = loop := by
    rw [hloops] at hinner
    rcases mem_cons.mp hinner with rfl | hrest
    · rfl
    · have hdec := hs.decreasing
      rw [AliasState.headers, hloops, map_cons, pairwise_cons] at hdec
      have := hdec.1 _ (mem_map_of_mem hrest)
      omega
  subst heq
  have hrep : g.Repaired inner l = true := AliasFlags.intersects_iff.mpr ⟨f, hstore, hf⟩
  exact false_ne_true ((hnot hmem).symm.trans hrep)

/-- The end of the innermost loop at its backedge settles it, and keeps the invariant for
the outer loops. -/
lemma SweepInv.leaveLoop (hg : g.WellNested) (hs : g.SweepInv k s)
    (hnew : s.newId = g.firstId (k + 1)) (hloops : s.loops = loop :: outer)
    (hl : g.Loop loop.loopHeader k) : g.SweepInv (k + 1) (s.leaveLoop g) := by
  have hloop : loop ∈ s.loops := hloops ▸ mem_cons_self
  have hsub : ∀ loop₀ ∈ outer, loop₀ ∈ s.loops := fun loop₀ h =>
    hloops ▸ mem_cons_of_mem _ h
  have hdec := hs.decreasing
  rw [AliasState.headers, hloops, map_cons, pairwise_cons] at hdec
  have hbelow : ∀ loop₀ ∈ outer,
      g.firstInstruction loop₀.loopHeader < g.firstInstruction loop.loopHeader := by
    intro loop₀ hmem
    have := hdec.1 _ (mem_map_of_mem hmem)
    exact (firstInstruction_lt_of_lt this).trans_le (firstId_le_firstInstruction _)
  have hheaders : (outer.modifyHead (g.leftOuter loop s.dependency)).map
      LoopAliasInfo.loopHeader = outer.map LoopAliasInfo.loopHeader :=
    map_modifyHead (u := g.leftOuter loop s.dependency) (fun _ => rfl) outer
  -- a load on the list of an outer loop is before this loop
  have hnotmem : ∀ loop₀ ∈ outer, ∀ l ∈ loop₀.invariantLoads, l ∉ loop.invariantLoads := by
    intro loop₀ hmem l hl hl'
    have hin := (hs.invariantLoads loop₀ (hsub loop₀ hmem) l hl).2.2.1
    have hin' := (hs.invariantLoads loop hloop l hl').2.2.1
    have := hin.2 _ (mem_map_of_mem hloop) (hdec.1 _ (mem_map_of_mem hmem))
    have := hin'.1
    omega
  rw [leaveLoop_eq hloops]
  constructor
  · exact hnew.ge
  · exact hs.stores
  · exact fun f => (hs.stores_lt f).trans (firstId_lt (Nat.lt_succ_self _))
  · show ((outer.modifyHead _).map _).Pairwise _
    rw [hheaders]
    exact hdec.2
  · intro loop' hloop' f id hge hid hst
    rcases exists_of_mem_modifyHead hloop' with ⟨loop₀, hmem₀, hfrom⟩
    have hheader : loop'.loopHeader = loop₀.loopHeader := by
      rcases hfrom with rfl | ⟨rfl, _⟩ <;> rfl
    rw [hheader] at hge ⊢
    rcases hs.loopStores loop₀ (hsub loop₀ hmem₀) f id hge hid hst with
      ⟨inner, hinner, hle, hf⟩
    rw [hloops] at hinner
    rcases mem_cons.mp hinner with rfl | hinner
    · -- the loop hands the store on to its outer loop
      rcases outer with _ | ⟨top, rest⟩
      · exact absurd hmem₀ not_mem_nil
      · refine ⟨g.leftOuter inner s.dependency top, mem_cons_self, ?_,
          AliasFlags.union_eq_true.mpr (Or.inr hf)⟩
        show loop₀.loopHeader ≤ top.loopHeader
        rcases mem_cons.mp hmem₀ with rfl | hmem₀
        · exact Nat.le_refl _
        · rw [map_cons, pairwise_cons] at hdec
          exact (hdec.2.1 _ (mem_map_of_mem hmem₀)).le
    · rcases exists_mem_modifyHead (u := g.leftOuter loop s.dependency) hinner with
        ⟨inner', hmem', rfl | rfl⟩
      · exact ⟨inner', hmem', hle, hf⟩
      · exact ⟨_, hmem', hle, AliasFlags.union_eq_true.mpr (Or.inl hf)⟩
  · intro l hl hisLoad
    rcases hs.dependency l hl hisLoad with ⟨d, hd, hafter, hbetween⟩
    have hsome : ∃ d', g.leftDependency loop loop.invariantLoads s.dependency l = some d' ∧
        ∃ b, g.firstId b ≤ l ∧ d' < g.firstId (b + 1) := by
      rcases hs.leftDependency_spec hloop l with ⟨hmem, _, hleft, _⟩ | ⟨hleft, _⟩
      · have hin := (hs.invariantLoads loop hloop l hmem).2.2.1
        exact ⟨_, hleft, loop.loopHeader,
          (firstId_le_firstInstruction _).trans hin.1, lastIns_lt _⟩
      · exact ⟨d, hleft.trans hd, hafter⟩
    rcases hsome with ⟨d', hd', hafter'⟩
    rcases hs.le_of_leftDependency hloop hd' with ⟨d₀, hd₀, hle⟩
    have : d = d₀ := some.inj (hd.symm.trans hd₀)
    exact ⟨d', hd', hafter', fun id hid => hbetween id (by omega)⟩
  · intro loop' hloop' l hl hisLoad hinnermost d hd hlt
    rw [AliasState.headers, hheaders] at hinnermost
    rcases outer with _ | ⟨top, rest⟩
    · exact absurd hloop' not_mem_nil
    · rw [map_cons, pairwise_cons] at hdec
      have hcases : (loop' = g.leftOuter loop s.dependency top) ∨ loop' ∈ rest :=
        mem_cons.mp hloop'
      have hlt' : d < g.firstInstruction loop.loopHeader := by
        rcases hcases with rfl | hrest
        · exact hlt.trans (hbelow top mem_cons_self)
        · exact hlt.trans (hbelow loop' (mem_cons_of_mem _ hrest))
      by_cases hge : g.firstInstruction loop.loopHeader ≤ l
      · -- the load was in the loop, so it is handed to the next one
        rcases hs.not_clobbers_of_left hloops hisLoad hge hl hd hlt' with ⟨hmem, hrep, _⟩
        rcases hcases with rfl | hrest
        · refine mem_append_right _ (mem_filter.mpr ⟨hmem, ?_⟩)
          rw [hrep, (hs.eq_of_leftDependency hloop hd hlt').1]
          have hlt : d < g.firstInstruction top.loopHeader := hlt
          simpa using hlt
        · have := hinnermost.2 top.loopHeader mem_cons_self
            (hdec.2.1 _ (mem_map_of_mem hrest))
          have := hbelow top mem_cons_self
          omega
      · have hdep := (hs.eq_of_leftDependency hloop hd hlt').1
        have hold : ∀ loop₀ ∈ top :: rest, loop₀.loopHeader = loop'.loopHeader →
            l ∈ loop₀.invariantLoads := by
          intro loop₀ hmem₀ heq
          refine hs.kept loop₀ (hsub loop₀ hmem₀) l hl hisLoad ?_ d hdep (heq ▸ hlt)
          refine ⟨heq ▸ hinnermost.1, ?_⟩
          intro h' hh' hlt''
          rw [AliasState.headers, hloops] at hh'
          rcases mem_cons.mp hh' with rfl | hh'
          · exact Nat.lt_of_not_le hge
          · exact hinnermost.2 h' hh' (heq ▸ hlt'')
        rcases hcases with rfl | hrest
        · exact mem_append_left _ (hold top mem_cons_self rfl)
        · exact hold loop' (mem_cons_of_mem _ hrest) rfl
  · intro loop' hloop' l hl
    rw [AliasState.headers, hheaders]
    have hold : ∀ loop₀ ∈ outer, l ∈ loop₀.invariantLoads → l < s.newId ∧ g.IsLoad l ∧
        g.Innermost (outer.map LoopAliasInfo.loopHeader) loop₀.loopHeader l ∧
        ∃ d, g.leftDependency loop loop.invariantLoads s.dependency l = some d ∧
          d < g.firstInstruction loop₀.loopHeader := by
      intro loop₀ hmem₀ hl
      rcases hs.invariantLoads loop₀ (hsub loop₀ hmem₀) l hl with ⟨hlt, hisLoad, hin, d, hd, hdlt⟩
      refine ⟨hlt, hisLoad, ⟨hin.1, ?_⟩, d, ?_, hdlt⟩
      · intro h' hh'
        refine hin.2 h' ?_
        rw [AliasState.headers, hloops]
        exact mem_cons_of_mem _ hh'
      · exact (if_neg fun h => hnotmem loop₀ hmem₀ l hl h.1).trans hd
    rcases exists_of_mem_modifyHead hloop' with ⟨loop₀, hmem₀, rfl | ⟨rfl, rest, houter⟩⟩
    · exact hold _ hmem₀ hl
    · rcases mem_append.mp hl with hl | hl
      · exact hold loop₀ hmem₀ hl
      · rcases mem_filter.mp hl with ⟨hmem, hkeep⟩
        rw [and_eq_true, not_eq_true'] at hkeep
        rcases hs.invariantLoads loop hloop l hmem with ⟨hlt, hisLoad, hin, d, hd, _⟩
        refine ⟨hlt, hisLoad, ⟨?_, ?_⟩, d, ?_, ?_⟩
        · exact (hbelow loop₀ hmem₀).le.trans hin.1
        · intro h' hh' hlt'
          -- the outer loop is now the innermost one
          have hlt' : loop₀.loopHeader < h' := hlt'
          rw [houter, map_cons] at hh' hdec
          rw [pairwise_cons] at hdec
          rcases mem_cons.mp hh' with rfl | hh'
          · omega
          · have := hdec.2.1 h' hh'
            omega
        · refine (if_neg fun h => ?_).trans hd
          exact false_ne_true (hkeep.1.symm.trans h.2)
        · show d < g.firstInstruction loop₀.loopHeader
          simpa [hd] using hkeep.2
  · intro h e hloop' hek l d hisLoad hge hlt hd hdlt
    rcases Nat.lt_succ_iff_lt_or_eq.mp hek with hek | rfl
    · rcases hs.le_of_leftDependency hloop hd with ⟨d₀, hd₀, hle⟩
      exact hs.settled h e hloop' hek l d₀ hisLoad hge hlt hd₀ (by omega)
    · have hh : h = loop.loopHeader := hg.eq_header hloop' hl
      subst hh
      rw [← hnew] at hlt ⊢
      exact (hs.not_clobbers_of_left hloops hisLoad hge hlt hd hdlt).2.2

/-! ## The whole sweep -/

variable (g) in
/-- What holds before block `k`: the open loops are those around it. -/
structure BlockInv (k : Nat) (s : AliasState) : Prop where
  sweep : g.SweepInv k s
  newId_eq : s.newId = g.firstId k
  mem_headers : ∀ h, h ∈ s.headers ↔ h < k ∧ ∃ e, g.Loop h e ∧ k ≤ e

lemma isLoopHeader_iff (hk : k < g.numBlocks) :
    (g.block k).isLoopHeader = true ↔ ∃ e, g.Loop k e := by
  show (g.block k).backedge.isSome = true ↔ _
  rw [Option.isSome_iff_exists]
  constructor
  · intro ⟨e, he⟩
    exact ⟨e, hk, he⟩
  · intro ⟨e, he⟩
    exact ⟨e, he.2⟩

lemma isLoopBackedge_iff (hg : g.WellNested) (hk : k < g.numBlocks) :
    g.isLoopBackedge k = true ↔ ∃ h, g.Loop h k := by
  unfold isLoopBackedge
  constructor
  · intro h
    cases hlast : (g.block k).successors.getLast? with
    | none =>
      rw [hlast] at h
      exact absurd h false_ne_true
    | some c =>
      rw [hlast] at h
      have hc := hg.successor_lt k hk c (mem_of_getLast? hlast)
      exact ⟨c, hc, by simpa using h⟩
  · intro ⟨h, hl⟩
    rw [hg.backedge_successor h k hl]
    simpa using hl.2

lemma blockInv_initial : g.BlockInv 0 (AliasState.initial g) := by
  have hnone : ∀ id, id < 1 → ∀ f, ¬ g.StoresTo id f := by
    intro id hid f hst
    have : id = 0 := by omega
    subst this
    exact false_ne_true hst.1
  constructor
  · constructor
    · exact Nat.le_refl 1
    · intro f id _ hid
      exact hnone id hid f
    · exact fun _ => firstInstruction_lt 0
    · exact List.Pairwise.nil
    · intro loop hloop
      exact absurd hloop not_mem_nil
    · intro l hl hisLoad
      have hl : l < 1 := hl
      have : l = 0 := by omega
      subst this
      exact absurd hisLoad false_ne_true
    · intro loop hloop
      exact absurd hloop not_mem_nil
    · intro loop hloop
      exact absurd hloop not_mem_nil
    · intro h e _ he
      exact absurd he (Nat.not_lt_zero e)
  · rfl
  · intro h
    constructor
    · intro hh
      exact absurd hh not_mem_nil
    · intro hh
      exact absurd hh.1 (Nat.not_lt_zero h)

/-- A block other than a backedge settles no loop. -/
lemma SweepInv.next (hs : g.SweepInv k s) (hnew : s.newId = g.firstId (k + 1))
    (hnot : ∀ h, ¬ g.Loop h k) :
    g.SweepInv (k + 1) s where
  newId_ge := hnew.ge
  stores := hs.stores
  stores_lt f := (hs.stores_lt f).trans (firstId_lt (Nat.lt_succ_self _))
  decreasing := hs.decreasing
  loopStores := hs.loopStores
  dependency := hs.dependency
  kept := hs.kept
  invariantLoads := hs.invariantLoads
  settled := by
    intro h e hl hek
    rcases Nat.lt_succ_iff_lt_or_eq.mp hek with hek | rfl
    · exact hs.settled h e hl hek
    · exact absurd hl (hnot h)

lemma leaveLoop_headers (hloops : s.loops = loop :: outer) :
    (s.leaveLoop g).headers = outer.map LoopAliasInfo.loopHeader := by
  rw [leaveLoop_eq hloops]
  exact map_modifyHead (u := g.leftOuter loop s.dependency) (fun _ => rfl) outer

lemma leaveLoop_newId (hloops : s.loops = loop :: outer) : (s.leaveLoop g).newId = s.newId := by
  rw [leaveLoop_eq hloops]

/-- The step lemma of the sweep over blocks. -/
lemma BlockInv.visitBlock (hg : g.WellNested) (hs : g.BlockInv k s) (hk : k < g.numBlocks) :
    g.BlockInv (k + 1) (s.visitBlock g k) := by
  -- the loop of a header is opened
  have henter : ∃ s₁, (if (g.block k).isLoopHeader then s.enterLoop k else s) = s₁ ∧
      g.SweepInv k s₁ ∧ s₁.newId = g.firstId k ∧
      ∀ h, h ∈ s₁.headers ↔ h ≤ k ∧ ∃ e, g.Loop h e ∧ k ≤ e := by
    refine ⟨_, rfl, ?_⟩
    split
    · rename_i hheader
      refine ⟨hs.sweep.enterLoop hs.newId_eq fun h hh => ((hs.mem_headers h).mp hh).1,
        hs.newId_eq, ?_⟩
      rcases (isLoopHeader_iff hk).mp hheader with ⟨e, hl⟩
      intro h
      show h ∈ k :: s.headers ↔ _
      rw [mem_cons, hs.mem_headers, Nat.le_iff_lt_or_eq]
      constructor
      · intro hh
        rcases hh with rfl | hh
        · exact ⟨Or.inr rfl, e, hl, hg.header_le _ _ hl⟩
        · exact ⟨Or.inl hh.1, hh.2⟩
      · intro hh
        rcases hh.1 with hlt | rfl
        · exact Or.inr ⟨hlt, hh.2⟩
        · exact Or.inl rfl
    · rename_i hheader
      refine ⟨hs.sweep, hs.newId_eq, ?_⟩
      intro h
      rw [hs.mem_headers, Nat.le_iff_lt_or_eq]
      constructor
      · intro hh
        exact ⟨Or.inl hh.1, hh.2⟩
      · intro hh
        rcases hh.1 with hlt | rfl
        · exact ⟨hlt, hh.2⟩
        · rcases hh.2 with ⟨e, hl, _⟩
          exact absurd ((isLoopHeader_iff hk).mpr ⟨e, hl⟩) hheader
  rcases henter with ⟨s₁, hs₁, hsweep₁, hnew₁, hheaders₁⟩
  rcases hsweep₁.visitDefs hk hnew₁ (fun h hh => ((hheaders₁ h).mp hh).1) with
    ⟨hsweep₂, hnew₂, hheaders₂⟩
  show g.BlockInv (k + 1) (if g.isLoopBackedge k then
    ((g.block k).defs.foldl (AliasState.visitDef g)
      (if (g.block k).isLoopHeader then s.enterLoop k else s)).leaveLoop g
    else _)
  rw [hs₁]
  generalize (g.block k).defs.foldl (AliasState.visitDef g) s₁ = s₂ at hsweep₂ hnew₂ hheaders₂ ⊢
  have hmem₂ : ∀ h, h ∈ s₂.headers ↔ h ≤ k ∧ ∃ e, g.Loop h e ∧ k ≤ e := by
    intro h
    rw [hheaders₂]
    exact hheaders₁ h
  split
  · rename_i hback
    rcases (isLoopBackedge_iff hg hk).mp hback with ⟨h, hl⟩
    have hmem : h ∈ s₂.headers := (hmem₂ h).mpr ⟨hg.header_le _ _ hl, k, hl, Nat.le_refl k⟩
    rcases hloops : s₂.loops with _ | ⟨loop, outer⟩
    · rw [AliasState.headers, hloops] at hmem
      exact absurd hmem not_mem_nil
    · have hdec := hsweep₂.decreasing
      have hheaders : s₂.headers = loop.loopHeader :: outer.map LoopAliasInfo.loopHeader := by
        rw [AliasState.headers, hloops, map_cons]
      rw [hheaders, pairwise_cons] at hdec
      rw [hheaders] at hmem hmem₂
      -- loops nest, so the loop that ends is the innermost one
      have htop : loop.loopHeader = h := by
        rcases mem_cons.mp hmem with rfl | hrest
        · rfl
        · have hlt := hdec.1 h hrest
          rcases (hmem₂ loop.loopHeader).mp mem_cons_self with ⟨hle, e, hl', hke⟩
          have := hg.nested h k loop.loopHeader e hl hl' hlt hle
          have : e = k := by omega
          subst this
          exact hg.eq_header hl' hl
      subst htop
      refine ⟨hsweep₂.leaveLoop hg hnew₂ hloops hl, ?_, ?_⟩
      · rw [leaveLoop_newId hloops]
        exact hnew₂
      · intro h'
        rw [leaveLoop_headers hloops]
        constructor
        · intro hh'
          rcases (hmem₂ h').mp (mem_cons_of_mem _ hh') with ⟨hle, e, hl', hke⟩
          have hlt := hdec.1 h' hh'
          refine ⟨Nat.lt_succ_of_le hle, e, hl', ?_⟩
          rcases Nat.lt_or_eq_of_le hke with hke | rfl
          · exact hke
          · have := hg.eq_header hl' hl
            omega
        · intro ⟨hlt, e, hl', hke⟩
          rcases mem_cons.mp ((hmem₂ h').mpr
            ⟨Nat.lt_succ_iff.mp hlt, e, hl', Nat.le_of_succ_le hke⟩) with rfl | hh'
          · have := hl'.eq_backedge hl
            omega
          · exact hh'
  · rename_i hback
    have hnot : ∀ h, ¬ g.Loop h k := fun h hl =>
      hback ((isLoopBackedge_iff hg hk).mpr ⟨h, hl⟩)
    refine ⟨hsweep₂.next hnew₂ hnot, hnew₂, ?_⟩
    intro h
    rw [hmem₂]
    constructor
    · intro ⟨hle, e, hl, hke⟩
      refine ⟨Nat.lt_succ_of_le hle, e, hl, ?_⟩
      rcases Nat.lt_or_eq_of_le hke with hke | rfl
      · exact hke
      · exact absurd hl (hnot h)
    · intro ⟨hlt, e, hl, hke⟩
      exact ⟨Nat.lt_succ_iff.mp hlt, e, hl, Nat.le_of_succ_le hke⟩

/-- The run lemma of the sweep. -/
lemma blockInv_analyze (hg : g.WellNested) : g.BlockInv g.numBlocks g.analyze := by
  have hrun : ∀ n ≤ g.numBlocks,
      g.BlockInv n ((List.range n).foldl (AliasState.visitBlock g) (AliasState.initial g)) := by
    intro n
    induction n with
    | zero =>
      intro _
      exact blockInv_initial
    | succ n ih =>
      intro hn
      rw [range_succ, foldl_append]
      exact (ih (Nat.le_of_succ_le hn)).visitBlock hg hn
  exact hrun g.numBlocks (Nat.le_refl _)

/-- A definition of a graph is in one of its blocks. -/
lemma isLoad_lt {l : Nat} (h : g.IsLoad l) : l < g.firstId g.numBlocks := by
  have hlen := length_flatMap_defs (g := g) g.numBlocks
  by_contra hge
  have hnone : g.aliasSet l = .none := by
    rcases l with _ | n
    · rfl
    · show g.aliasSets.getD n .none = .none
      have hle : g.aliasSets.length ≤ n := by
        show ((List.range g.numBlocks).flatMap fun k => (g.block k).defs).length ≤ n
        omega
      rw [getD_eq_getElem?_getD, List.getElem?_eq_none hle]
      rfl
  rw [IsLoad, hnone] at h
  exact false_ne_true h

/-- A definition of a loop that reads or writes memory is not before the first instruction
of the header. -/
lemma InLoop.firstInstruction_le {h e id : Nat} (hh : h < g.numBlocks) (hin : g.InLoop h e id)
    (hset : g.aliasSet id ≠ .none) : g.firstInstruction h ≤ id := by
  by_contra hlt
  exact hset (aliasSet_phi hh hin.1 (Nat.lt_of_not_le hlt))

/-- Every load has a dependency that covers it. -/
lemma analyze_dependsOn (hg : g.WellNested) {l : Nat} (hisLoad : g.IsLoad l) :
    ∃ d, g.analyze.dependency l = some d ∧ g.DependsOn l d := by
  have hinv := blockInv_analyze hg
  have hl : l < g.analyze.newId := hinv.newId_eq ▸ isLoad_lt hisLoad
  rcases hinv.sweep.dependency l hl hisLoad with ⟨d, hd, hafter, hbetween⟩
  refine ⟨d, hd, hafter, hbetween, ?_⟩
  intro h e hloop hlin hdh id hin hc
  have hne : g.aliasSet l ≠ .none := by
    intro hset
    rw [IsLoad, hset] at hisLoad
    exact false_ne_true hisLoad
  have hne' : g.aliasSet id ≠ .none := by
    intro hset
    have := hc.1
    rw [hset] at this
    exact false_ne_true this
  refine hinv.sweep.settled h e hloop (hg.backedge_lt h e hloop) l d hisLoad
    (hlin.firstInstruction_le hloop.1 hne) hlin.2 hd
    (hdh.trans_le (firstId_le_firstInstruction h)) id
    (hin.firstInstruction_le hloop.1 hne') hin.2 hc

/-- A loop whose body stores to an element on both branches of a test, and then loads an
element and a slot: blocks 3 and 4 are the branches, block 5 joins them and is the
backedge. -/
def branchStores : AliasGraph where
  numBlocks := 7
  osrBlock := none
  block
    | 0 => { phis := 0, instructions := [], control := .none, successors := [1], backedge := none }
    | 1 => { phis := 0, instructions := [], control := .none, successors := [2, 6],
             backedge := some 5 }
    | 2 => { phis := 0, instructions := [], control := .none, successors := [3, 4],
             backedge := none }
    | 3 => { phis := 0, instructions := [.store (· == .element) ⟨.element, rfl⟩],
             control := .none, successors := [5], backedge := none }
    | 4 => { phis := 0, instructions := [.store (· == .element) ⟨.element, rfl⟩],
             control := .none, successors := [5], backedge := none }
    | 5 => { phis := 0,
             instructions := [.load (· == .element) ⟨.element, rfl⟩,
               .load (· == .slot) ⟨.slot, rfl⟩],
             control := .none, successors := [1], backedge := none }
    | _ => { phis := 0, instructions := [], control := .none, successors := [], backedge := none }

lemma branchStores_loop {h e : Nat} (hl : branchStores.Loop h e) : h = 1 ∧ e = 5 := by
  rcases hl with ⟨hlt, hback⟩
  have hheader : ∀ k < 7, (branchStores.block k).backedge ≠ none → k = 1 := by decide
  have hh : h = 1 := hheader h hlt (by rw [hback]; exact some_ne_none e)
  subst hh
  exact ⟨rfl, (some.inj hback).symm⟩

lemma branchStores_wellNested : branchStores.WellNested where
  header_le := by
    intro h e hl
    rcases branchStores_loop hl with ⟨rfl, rfl⟩
    decide
  backedge_lt := by
    intro h e hl
    rcases branchStores_loop hl with ⟨rfl, rfl⟩
    decide
  backedge_successor := by
    intro h e hl
    rcases branchStores_loop hl with ⟨rfl, rfl⟩
    rfl
  successor_lt := by decide
  edge := by
    have hedge : ∀ k < branchStores.numBlocks, ∀ c ∈ (branchStores.block k).successors,
        k < c ∨ (c = 1 ∧ k = 5) := by decide
    intro k hk c hc
    rcases hedge k hk c hc with hlt | ⟨rfl, rfl⟩
    · exact Or.inl hlt
    · exact Or.inr ⟨by decide, rfl⟩
  nested := by
    intro h e h' e' hl hl' hlt _
    rcases branchStores_loop hl with ⟨rfl, rfl⟩
    rcases branchStores_loop hl' with ⟨rfl, rfl⟩
    exact absurd hlt (Nat.lt_irrefl 1)
  entered_at_header := by
    intro h e hl
    rcases branchStores_loop hl with ⟨rfl, rfl⟩
    decide
  root_outside := by
    intro h e hl b hroot hle _
    rcases branchStores_loop hl with ⟨rfl, rfl⟩
    rcases hroot with rfl | hosr
    · omega
    · exact absurd hosr.symm (some_ne_none b)

end AliasGraph
end SpiderMonkey.Ion
