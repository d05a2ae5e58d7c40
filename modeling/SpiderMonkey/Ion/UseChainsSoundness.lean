import SpiderMonkey.Ion.UseChains

/-! # Use chains stay exact

A family of chains matches a table of operands if each use is once in the chain of the
definition the table has for it. Two rules move a table along with its chains: a use
is taken out of its chain, or pushed to one if it was in none. Each primitive is a
sequence of these two, and what is left to show is that the table it ends with is the
one of its operands.
-/

namespace SpiderMonkey.Ion

open Lib Function List

/-! ## Chains and tables -/

/-- The chains hold each use of the table once, and nothing else. -/
def Matches (uses : NodeId → List MUse) (table : MUse → Option NodeId) : Prop :=
  ∀ d u, (uses d).count u = if table u = some d then 1 else 0

section

variable {uses : NodeId → List MUse} {table : MUse → Option NodeId}

lemma Matches.mem_iff (h : Matches uses table) {d : NodeId} {u : MUse} :
    u ∈ uses d ↔ table u = some d := by
  rw [← count_pos_iff, h d u]
  split_ifs with heq <;> simp [heq]

lemma Matches.nodup (h : Matches uses table) (d : NodeId) : (uses d).Nodup := by
  rw [nodup_iff_count_le_one]
  intro u
  rw [h d u]
  split_ifs <;> omega

/-- A use is taken out of its chain. -/
lemma Matches.remove (h : Matches uses table) {d : NodeId} {u : MUse}
    (hu : table u = some d) :
    Matches (update uses d ((uses d).erase u)) (update table u none) := by
  intro e v
  have hv := h e v
  by_cases hed : e = d
  · subst hed
    by_cases hvu : v = u
    · subst hvu
      simp [hu] at hv
      simp [count_erase_self, hv]
    · simpa [update_of_ne hvu, count_erase_of_ne hvu] using hv
  · rw [update_of_ne hed, hv]
    by_cases hvu : v = u
    · subst hvu
      simp [hu, Ne.symm hed]
    · rw [update_of_ne hvu]

/-- A use that is in no chain is pushed to one. -/
lemma Matches.link (h : Matches uses table) {u : MUse} (hu : table u = none) (d : NodeId) :
    Matches (update uses d (u :: uses d)) (update table u (some d)) := by
  intro e v
  have hv := h e v
  by_cases hvu : v = u
  · subst hvu
    rw [hu] at hv
    by_cases hed : e = d
    · subst hed
      simpa using hv
    · simpa [update_of_ne hed, Ne.symm hed] using hv
  · rw [update_of_ne hvu, ← hv]
    by_cases hed : e = d
    · subst hed
      simp [count_cons_of_ne (Ne.symm hvu)]
    · rw [update_of_ne hed]

/-- A chain is emptied. -/
lemma Matches.clear (h : Matches uses table) (d : NodeId) :
    Matches (update uses d []) fun u => if table u = some d then none else table u := by
  intro e v
  have hv := h e v
  by_cases hed : e = d
  · subst hed
    by_cases hve : table v = some e <;> simp [hve]
  · rw [update_of_ne hed, hv]
    by_cases hvd : table v = some d
    · simp [hvd, Ne.symm hed]
    · simp [hvd]

end

namespace UseGraph

variable {g : UseGraph}

/-- The operands that count, as a table. -/
def table (g : UseGraph) (u : MUse) : Option NodeId := g.operand? u.node u.index

lemma exact_iff_matches : g.Exact ↔ Matches g.uses g.table := Iff.rfl

/-- The node counts and has an operand, maybe `NULL`, at the index. -/
def HasOperand (g : UseGraph) (u : MUse) : Prop :=
  g.discarded u.node = false ∧ u.index < (g.operands u.node).length

lemma hasOperand_of_table {u : MUse} {d : NodeId} (h : g.table u = some d) :
    g.HasOperand u := by
  unfold table operand? getOperand? at h
  split at h
  · cases h
  · rename_i hlive
    refine ⟨by simpa using hlive, ?_⟩
    by_contra hlen
    rw [List.getElem?_eq_none (by omega)] at h
    cases h

lemma table_eq {u : MUse} (h : g.HasOperand u) : g.table u = g.getOperand? u.node u.index := by
  unfold table operand?
  rw [h.1]
  rfl

/-! ## One operand -/

@[simp] lemma table_setUses (d : NodeId) (l : List MUse) : (g.setUses d l).table = g.table := rfl

@[simp] lemma table_linkUse (d : NodeId) (u : MUse) : (g.linkUse d u).table = g.table := rfl

@[simp] lemma table_removeUse (d : NodeId) (u : MUse) : (g.removeUse d u).table = g.table := rfl

lemma table_setOperand {u : MUse} (h : g.HasOperand u) (d : NodeId) :
    (g.setOperand u.node u.index d).table = update g.table u (some d) := by
  funext v
  by_cases hvu : v = u
  · subst hvu
    simp [table, operand?, getOperand?, setOperand, h.1, h.2]
  · rw [update_of_ne hvu]
    unfold table operand? getOperand? setOperand
    by_cases hnode : v.node = u.node
    · have hindex : u.index ≠ v.index := by
        intro hsame
        exact hvu (by cases u; cases v; simp_all)
      simp [hnode, List.getElem?_set_ne hindex]
    · simp [update_of_ne hnode]

lemma HasOperand.setOperand {u : MUse} (h : g.HasOperand u) (n : NodeId) (k : Nat) (d : NodeId) :
    (g.setOperand n k d).HasOperand u := by
  refine ⟨h.1, ?_⟩
  unfold UseGraph.setOperand
  by_cases hnode : u.node = n
  · subst hnode
    simpa using h.2
  · simpa [update_of_ne hnode] using h.2

/-- An operand that was `NULL` is initialised. -/
lemma exact_initSlot (hg : g.Exact) {resumePoint : NodeId} {slot : Nat}
    (hslot : g.HasOperand ⟨resumePoint, slot⟩) (hnull : g.table ⟨resumePoint, slot⟩ = none)
    (ins : NodeId) : (g.initSlot resumePoint slot ins).Exact := by
  rw [exact_iff_matches]
  unfold initSlot
  rw [table_linkUse, table_setOperand hslot]
  exact Matches.link hg hnull ins

/-- A use is moved from its chain to another one. -/
lemma exact_replaceUse (hg : g.Exact) {used : NodeId} {u : MUse} (hu : u ∈ g.uses used)
    (ins : NodeId) : (g.replaceUse used u ins).Exact := by
  have hg : Matches g.uses g.table := hg
  have htable := hg.mem_iff.mp hu
  unfold replaceUse
  split
  · exact hg
  · rw [exact_iff_matches, table_linkUse,
      table_setOperand (g := g.removeUse used u) (hasOperand_of_table htable), table_removeUse]
    have hmoved := (hg.remove htable).link (update_self u none g.table) ins
    rwa [update_idem] at hmoved

lemma exact_replaceOperand (hg : g.Exact) (n : NodeId) (k : Nat) (ins : NodeId) :
    (g.replaceOperand n k ins).Exact := by
  unfold replaceOperand
  split
  · split
    · rename_i hmem
      exact exact_replaceUse hg hmem ins
    · exact hg
  · exact hg

/-! ## Every use of a definition -/

section

variable {dom : NodeId}

lemma matches_moveUses (dom : NodeId) {l : List MUse} {table : MUse → Option NodeId}
    (h : Matches g.uses table) (hl : l.Nodup) (hnull : ∀ u ∈ l, table u = none) :
    Matches (l.foldl (fun g u => g.moveUse dom u) g).uses
      fun u => if u ∈ l then some dom else table u := by
  induction l generalizing g table with
  | nil => simpa using h
  | cons u l ih =>
    rcases nodup_cons.mp hl with ⟨hu, hl⟩
    have hmoved : Matches (g.moveUse dom u).uses (update table u (some dom)) :=
      h.link (hnull u (by simp)) dom
    have hrest := ih hmoved hl (by
      intro v hv
      have hvu : v ≠ u := fun heq => hu (heq ▸ hv)
      rw [update_of_ne hvu]
      exact hnull v (by simp [hv]))
    have htable : (fun v => if v ∈ u :: l then some dom else table v) =
        fun v => if v ∈ l then some dom else update table u (some dom) v := by
      funext v
      by_cases hvu : v = u
      · subst hvu
        simp [hu]
      · simp [hvu]
    rw [htable]
    exact hrest

lemma table_moveUses {l : List MUse} (hl : ∀ u ∈ l, g.HasOperand u) :
    (l.foldl (fun g u => g.moveUse dom u) g).table =
      fun u => if u ∈ l then some dom else g.table u := by
  induction l generalizing g with
  | nil => simp
  | cons u l ih =>
    have hu := hl u (by simp)
    have hrest : ∀ v ∈ l, (g.moveUse dom u).HasOperand v := by
      intro v hv
      exact HasOperand.setOperand (hl v (by simp [hv])) u.node u.index dom
    have hmoved : (g.moveUse dom u).table = update g.table u (some dom) := by
      unfold moveUse
      rw [table_linkUse, table_setOperand hu]
    rw [foldl_cons, ih hrest, hmoved]
    funext v
    by_cases hvu : v = u
    · subst hvu
      simp
    · simp [hvu]

end

lemma exact_replaceAllUsesWith (hg : g.Exact) {d dom : NodeId}
    (h : d = dom → (g.uses d).length ≤ 1) : (g.replaceAllUsesWith d dom).Exact := by
  have hg : Matches g.uses g.table := hg
  unfold replaceAllUsesWith
  split
  · rename_i hself
    -- a single use is its own last one
    have hsame : (g.uses d).getLast?.toList = g.uses d := by
      match hl : g.uses d, h hself with
      | [], _ => rfl
      | [u], _ => rfl
    rw [hsame]
    unfold setUses
    rw [update_eq_self]
    exact hg
  · have hoperands : ∀ u ∈ g.uses d, g.HasOperand u := fun u hu =>
      hasOperand_of_table (hg.mem_iff.mp hu)
    have hmoved := matches_moveUses dom (g := g.setUses d []) (hg.clear d) (hg.nodup d)
      (fun u hu => if_pos (hg.mem_iff.mp hu))
    rw [exact_iff_matches, table_moveUses (g := g.setUses d []) hoperands, table_setUses]
    convert hmoved using 2 with u
    by_cases hu : u ∈ g.uses d
    · simp [hu]
    · have hother : ¬ g.table u = some d := fun htable => hu (hg.mem_iff.mpr htable)
      simp [hu, hother]

/-! ## Discarded nodes -/

/-- The operands of a node are unlinked, up to an index. -/
def unlinkOperands (g : UseGraph) (n : NodeId) (m : Nat) : UseGraph :=
  (List.range m).foldl (fun g k => g.unlinkOperand n k) g

lemma unlinkOperands_succ (n : NodeId) (m : Nat) :
    g.unlinkOperands n (m + 1) = (g.unlinkOperands n m).unlinkOperand n m := by
  unfold unlinkOperands
  rw [range_succ, foldl_append]
  rfl

lemma operands_unlinkOperand (n : NodeId) (k : Nat) :
    (g.unlinkOperand n k).operands = g.operands ∧
      (g.unlinkOperand n k).discarded = g.discarded := by
  unfold unlinkOperand
  split <;> exact ⟨rfl, rfl⟩

lemma operands_unlinkOperands (n : NodeId) (m : Nat) :
    (g.unlinkOperands n m).operands = g.operands ∧
      (g.unlinkOperands n m).discarded = g.discarded := by
  induction m with
  | zero => exact ⟨rfl, rfl⟩
  | succ m ih =>
    rw [unlinkOperands_succ, (operands_unlinkOperand n m).1, (operands_unlinkOperand n m).2]
    exact ih

lemma matches_unlinkOperands (hg : g.Exact) {n : NodeId} (hn : g.discarded n = false)
    (m : Nat) :
    Matches (g.unlinkOperands n m).uses
      fun u => if u.node = n ∧ u.index < m then none else g.table u := by
  induction m with
  | zero =>
    have hg : Matches g.uses g.table := hg
    simpa [unlinkOperands] using hg
  | succ m ih =>
    have htable : g.table ⟨n, m⟩ = (g.unlinkOperands n m).getOperand? n m := by
      unfold getOperand?
      rw [(operands_unlinkOperands n m).1]
      simp [table, operand?, hn, getOperand?]
    have hrest : (fun u : MUse => if u.node = n ∧ u.index < m + 1 then none else g.table u) =
        update (fun u => if u.node = n ∧ u.index < m then none else g.table u)
          ⟨n, m⟩ none := by
      funext u
      by_cases hu : u = ⟨n, m⟩
      · subst hu
        simp
      · rw [update_of_ne hu]
        have hindex : u.node = n → u.index ≠ m := by
          intro hnode hindex
          exact hu (by cases u; simp_all)
        by_cases hnode : u.node = n
        · have hne := hindex hnode
          simp [hnode, show u.index < m + 1 ↔ u.index < m by omega]
        · simp [hnode]
    rw [unlinkOperands_succ, hrest]
    unfold unlinkOperand
    split
    · rename_i d hd
      exact ih.remove (by simp [htable, hd])
    · rename_i hd
      -- a `NULL` operand has no use
      rw [update_eq_self_iff.mpr (by simp [htable, hd])]
      exact ih

lemma exact_discard (hg : g.Exact) {n : NodeId} (hn : g.discarded n = false) :
    (g.discard n).Exact := by
  have hunlinked := matches_unlinkOperands hg hn (g.operands n).length
  have htable : (g.discard n).table =
      fun u => if u.node = n ∧ u.index < (g.operands n).length then none else g.table u := by
    funext u
    have hparts := operands_unlinkOperands (g := g) n (g.operands n).length
    unfold unlinkOperands at hparts
    unfold discard table operand? getOperand?
    simp only [hparts.1, hparts.2]
    by_cases hnode : u.node = n
    · rw [hnode]
      by_cases hindex : u.index < (g.operands n).length
      · simp [hindex]
      · simp [List.getElem?_eq_none (Nat.le_of_not_lt hindex)]
    · simp [hnode]
  rw [exact_iff_matches, htable]
  exact hunlinked

/-! ## Inputs of phis -/

lemma exact_addInput (hg : g.Exact) {phi : NodeId} (hphi : g.discarded phi = false)
    (ins : NodeId) : (g.addInput phi ins).Exact := by
  have hnull : g.table ⟨phi, (g.operands phi).length⟩ = none := by
    simp [table, operand?, hphi, getOperand?]
  have htable : (g.addInput phi ins).table =
      update g.table ⟨phi, (g.operands phi).length⟩ (some ins) := by
    funext u
    unfold addInput table operand? getOperand?
    by_cases hu : u = ⟨phi, (g.operands phi).length⟩
    · subst hu
      simp [linkUse, setUses, hphi]
    · rw [update_of_ne hu]
      by_cases hnode : u.node = phi
      · have hindex : u.index ≠ (g.operands phi).length := by
          intro hindex
          exact hu (by cases u; simp_all)
        rw [hnode]
        rcases Nat.lt_or_gt_of_ne hindex with hlt | hgt
        · simp [linkUse, setUses, hphi, List.getElem?_append_left hlt]
        · simp [linkUse, setUses, hphi, List.getElem?_eq_none (Nat.le_of_lt hgt),
            List.getElem?_eq_none (l := g.operands phi ++ [some ins]) (i := u.index)
              (by simp; omega)]
      · simp [linkUse, setUses, hnode]
  rw [exact_iff_matches, htable]
  exact Matches.link hg hnull ins

/-- No other node that has operands has the phi's id in the place of an id. -/
def OwnsId (g : UseGraph) (phi : NodeId) : Prop :=
  ∀ u, g.table u ≠ none → g.idWord u.node = g.idWord phi → u.node = phi

/-- The search for a use of the phi finds it. -/
lemma findUse?_eq {table : MUse → Option NodeId} (h : Matches g.uses table) {phi d : NodeId}
    {k : Nat} (hid : ∀ u, table u ≠ none → g.idWord u.node = g.idWord phi → u.node = phi)
    (hk : table ⟨phi, k⟩ = some d) : g.findUse? d phi k = some ⟨phi, k⟩ := by
  unfold findUse?
  cases hfound : (g.uses d).find? fun u => decide (g.idWord u.node = g.idWord phi ∧ u.index = k) with
  | none =>
    rw [List.find?_eq_none] at hfound
    exact absurd (by simp) (hfound ⟨phi, k⟩ (h.mem_iff.mpr hk))
  | some u =>
    have hmem := h.mem_iff.mp (mem_of_find?_eq_some hfound)
    have hsame := List.find?_some hfound
    simp only [decide_eq_true_eq] at hsame
    have hnode := hid u (by simp [hmem]) hsame.1
    cases u
    simp_all

/-- The uses of a phi while those from `k` on are shifted: up to `i` they belong to the
new operands, above `i` to the old ones. -/
def shiftedTable (old new : MUse → Option NodeId) (phi : NodeId) (i : Nat) (u : MUse) :
    Option NodeId :=
  if u.node = phi then
    if u.index < i then new u else if u.index = i then none else old u
  else old u

lemma matches_shiftUse {old new : MUse → Option NodeId} {phi : NodeId} {i : Nat}
    (h : Matches g.uses (shiftedTable old new phi i))
    (hid : ∀ u, old u ≠ none → g.idWord u.node = g.idWord phi → u.node = phi)
    (hnew : g.getOperand? phi i = new ⟨phi, i⟩) (hold : new ⟨phi, i⟩ = old ⟨phi, i + 1⟩) :
    Matches (g.shiftUse phi i).uses (shiftedTable old new phi (i + 1)) := by
  have htable : ∀ o, new ⟨phi, i⟩ = o → shiftedTable old new phi (i + 1) =
      update (update (shiftedTable old new phi i) ⟨phi, i + 1⟩ none)
        ⟨phi, i⟩ o := by
    intro o ho
    funext u
    by_cases hi : u = ⟨phi, i⟩
    · subst hi
      simp [shiftedTable, ho]
    · by_cases hsucc : u = ⟨phi, i + 1⟩
      · subst hsucc
        simp [shiftedTable]
      · rw [update_of_ne hi, update_of_ne hsucc]
        unfold shiftedTable
        by_cases hnode : u.node = phi
        · have hne : u.index ≠ i := fun heq => hi (by cases u; simp_all)
          have hne' : u.index ≠ i + 1 := fun heq => hsucc (by cases u; simp_all)
          simp only [hnode, if_true, hne, hne', if_false]
          simp only [show u.index < i + 1 ↔ u.index < i by omega]
        · simp [hnode]
  have hshifted : shiftedTable old new phi i ⟨phi, i + 1⟩ = old ⟨phi, i + 1⟩ := by
    have hlt : ¬ i + 1 < i := by omega
    simp [shiftedTable, hlt]
  have hgap : shiftedTable old new phi i ⟨phi, i⟩ = none := by
    simp [shiftedTable]
  unfold shiftUse
  rw [hnew]
  cases ho : new ⟨phi, i⟩ with
  | none =>
    -- a `NULL` operand has no use to shift
    have hsucc : none = shiftedTable old new phi i ⟨phi, i + 1⟩ := by
      rw [hshifted, ← hold, ho]
    have hinner : update (shiftedTable old new phi i) ⟨phi, i + 1⟩ none =
        shiftedTable old new phi i := update_eq_self_iff.mpr hsucc
    have houter : update (shiftedTable old new phi i) ⟨phi, i⟩ none =
        shiftedTable old new phi i := update_eq_self_iff.mpr hgap.symm
    rw [htable none ho, hinner, houter]
    exact h
  | some d =>
    have hk : shiftedTable old new phi i ⟨phi, i + 1⟩ = some d := by
      rw [hshifted, ← hold, ho]
    have hfound : g.findUse? d phi (i + 1) = some ⟨phi, i + 1⟩ := by
      apply findUse?_eq h _ hk
      intro u hu hword
      by_cases hnode : u.node = phi
      · exact hnode
      · rw [shiftedTable, if_neg hnode] at hu
        exact hid u hu hword
    simp only [hfound]
    rw [htable (some d) ho]
    refine (h.remove hk).link ?_ d
    rw [update_of_ne (by simp), hgap]

lemma operands_shiftUse (phi : NodeId) (i : Nat) :
    (g.shiftUse phi i).operands = g.operands ∧ (g.shiftUse phi i).discarded = g.discarded ∧
      (g.shiftUse phi i).idWord = g.idWord := by
  unfold shiftUse
  split
  · split <;> exact ⟨rfl, rfl, rfl⟩
  · exact ⟨rfl, rfl, rfl⟩

/-- The uses from `k` on are shifted one after the other. -/
lemma matches_shiftUses {old : MUse → Option NodeId} {phi : NodeId} {k m : Nat}
    (h : Matches g.uses (shiftedTable old g.table phi k)) (hphi : g.discarded phi = false)
    (hid : ∀ u, old u ≠ none → g.idWord u.node = g.idWord phi → u.node = phi)
    (hold : ∀ i, k ≤ i → i < k + m → g.table ⟨phi, i⟩ = old ⟨phi, i + 1⟩) :
    Matches ((List.range' k m).foldl (fun g i => g.shiftUse phi i) g).uses
      (shiftedTable old g.table phi (k + m)) := by
  induction m generalizing g k with
  | zero => exact h
  | succ m ih =>
    rcases operands_shiftUse (g := g) phi k with ⟨hoperands, hdiscarded, hword⟩
    have htable : (g.shiftUse phi k).table = g.table := by
      funext u
      unfold table operand? getOperand?
      rw [hoperands, hdiscarded]
    have hnew : g.getOperand? phi k = g.table ⟨phi, k⟩ := by
      simp [table, operand?, hphi]
    have hstep := matches_shiftUse h hid hnew (hold k (Nat.le_refl k) (by omega))
    rw [range'_succ, foldl_cons, show k + (m + 1) = k + 1 + m by omega, ← htable]
    apply ih
    · rwa [htable]
    · rwa [hdiscarded]
    · rwa [hword]
    · intro i hki hi
      rw [htable]
      exact hold i (by omega) (by omega)

lemma table_shiftUses (phi : NodeId) (l : List Nat) :
    (l.foldl (fun g i => g.shiftUse phi i) g).table = g.table := by
  induction l generalizing g with
  | nil => rfl
  | cons i l ih =>
    rcases operands_shiftUse (g := g) phi i with ⟨hoperands, hdiscarded, -⟩
    rw [foldl_cons, ih]
    funext u
    unfold table operand? getOperand?
    rw [hoperands, hdiscarded]

/-- The graph with one operand of a phi erased; the chains are those of `g`. -/
def eraseOperand (g : UseGraph) (phi : NodeId) (k : Nat) : UseGraph :=
  { g with operands := update g.operands phi ((g.operands phi).eraseIdx k) }

lemma table_eraseOperand {phi : NodeId} (hphi : g.discarded phi = false) (k : Nat) (u : MUse) :
    (g.eraseOperand phi k).table u =
      if u.node = phi then g.table (if u.index < k then u else ⟨phi, u.index + 1⟩)
      else g.table u := by
  unfold eraseOperand table operand? getOperand?
  by_cases hnode : u.node = phi
  · rw [hnode]
    by_cases hlt : u.index < k
    · simp [hnode, hphi, hlt, List.getElem?_eraseIdx]
    · simp [hphi, hlt, List.getElem?_eraseIdx]
  · simp [hnode]

lemma exact_removeOperand (hg : g.Exact) {phi : NodeId} {k : Nat}
    (hk : (g.operand? phi k).isSome = true) (hid : g.OwnsId phi) :
    (g.removeOperand phi k).Exact := by
  have hg : Matches g.uses g.table := hg
  rcases Option.isSome_iff_exists.mp hk with ⟨d, hd⟩
  have hd : g.table ⟨phi, k⟩ = some d := hd
  rcases hasOperand_of_table hd with ⟨hphi, hlen⟩
  have hdrop : g.dropUse phi k = g.removeUse d ⟨phi, k⟩ := by
    unfold dropUse
    rw [← table_eq ⟨hphi, hlen⟩, hd]
    simp only [findUse?_eq hg hid hd]
  -- the graph the second loop starts from, and how often it goes round
  obtain ⟨g₁, hg₁⟩ : ∃ g₁, g₁ = (g.removeUse d ⟨phi, k⟩).eraseOperand phi k := ⟨_, rfl⟩
  have hlength : (g₁.operands phi).length = (g.operands phi).length - 1 := by
    rw [hg₁]
    simp only [eraseOperand, update_self]
    exact length_eraseIdx_of_lt hlen
  have htable : ∀ u, g₁.table u = if u.node = phi then
      g.table (if u.index < k then u else ⟨phi, u.index + 1⟩) else g.table u := by
    intro u
    rw [hg₁]
    exact table_eraseOperand (g := g.removeUse d ⟨phi, k⟩) hphi k u
  have hremove : g.removeOperand phi k =
      (List.range' k ((g₁.operands phi).length - k)).foldl (fun g i => g.shiftUse phi i) g₁ := by
    unfold removeOperand
    rw [hdrop, hg₁]
    rfl
  have hstart : Matches g₁.uses (shiftedTable g.table g₁.table phi k) := by
    have hremoved := hg.remove hd
    convert hremoved using 1
    · rw [hg₁]
      rfl
    · funext u
      by_cases hu : u = ⟨phi, k⟩
      · subst hu
        simp [shiftedTable]
      · rw [update_of_ne hu]
        unfold shiftedTable
        by_cases hnode : u.node = phi
        · have hne : u.index ≠ k := fun heq => hu (by cases u; simp_all)
          by_cases hlt : u.index < k
          · simp [hnode, hlt, htable]
          · simp [hnode, hlt, hne]
        · simp [hnode]
  have hshifted := matches_shiftUses (m := (g₁.operands phi).length - k) hstart
    (by rw [hg₁]; exact hphi) (by rw [hg₁]; exact hid) (by
      intro i hki _
      rw [htable]
      simp [Nat.not_lt.mpr hki])
  rw [exact_iff_matches, hremove, table_shiftUses]
  convert hshifted using 1
  funext u
  unfold shiftedTable
  by_cases hnode : u.node = phi
  · rw [if_pos hnode]
    by_cases hlt : u.index < k + ((g₁.operands phi).length - k)
    · rw [if_pos hlt]
    · -- above the last operand there is none, neither before nor after
      have hnone : ∀ i, (g.operands phi).length ≤ i → g.table ⟨phi, i⟩ = none := by
        intro i hi
        simp [table, operand?, getOperand?, List.getElem?_eq_none hi]
      rw [if_neg hlt, htable, if_pos hnode, if_neg (by omega), hnone _ (by omega)]
      split
      · rfl
      · have hu : u = ⟨phi, u.index⟩ := by cases u; simp_all
        rw [hu]
        exact (hnone _ (by omega)).symm
  · rw [if_neg hnode, htable, if_neg hnode]

/-! ## Every primitive -/

/-- The calls that keep the chains: a resume point's slot is initialised once, nothing
with two uses or more is replaced by itself, and the phi that loses an operand is not
mistaken for another node. -/
def Keeps (g : UseGraph) : UseEdit → Prop
  | .initSlot resumePoint slot _ => g.operand? resumePoint slot = none
  | .replaceAllUsesWith d dom => d = dom → (g.uses d).length ≤ 1
  | .replaceWithInstruction d ins => d = ins → (g.uses d).length ≤ 1
  | .removeOperand phi _ => g.OwnsId phi
  | _ => True

lemma discarded_moveUses {dom : NodeId} (l : List MUse) :
    (l.foldl (fun g u => g.moveUse dom u) g).discarded = g.discarded := by
  induction l generalizing g with
  | nil => rfl
  | cons u l ih =>
    rw [foldl_cons, ih]
    rfl

lemma discarded_replaceAllUsesWith (d dom : NodeId) :
    (g.replaceAllUsesWith d dom).discarded = g.discarded := by
  unfold replaceAllUsesWith
  split
  · rfl
  · rw [discarded_moveUses]
    rfl

/-- One call keeps an exact graph exact. -/
lemma exact_edit (hg : g.Exact) {e : UseEdit} (henabled : g.Enabled e) (hkeeps : g.Keeps e) :
    (g.edit e).Exact := by
  cases e with
  | replaceUse used u ins => exact exact_replaceUse hg henabled ins
  | replaceOperand n k ins => exact exact_replaceOperand hg n k ins
  | replaceAllUsesWith d dom => exact exact_replaceAllUsesWith hg hkeeps
  | addInput phi ins => exact exact_addInput hg henabled.2 ins
  | removeOperand phi k => exact exact_removeOperand hg henabled.2 hkeeps
  | discard n => exact exact_discard hg henabled.1
  | initSlot resumePoint slot ins =>
    exact exact_initSlot hg ⟨henabled.2.1, henabled.2.2⟩ hkeeps ins
  | replaceWithInstruction d ins =>
    have hreplaced : (g.replaceAllUsesWith d ins).Exact := exact_replaceAllUsesWith hg hkeeps
    change (g.replaceWithInstruction d ins).Exact
    unfold replaceWithInstruction
    dsimp only
    split
    · apply exact_discard hreplaced
      rw [discarded_replaceAllUsesWith]
      exact henabled
    · exact hreplaced

end UseGraph

/-- In every run from an exact graph whose calls all keep the chains, every graph is
exact. -/
theorem exact_run {g : UseGraph} (hg : g.Exact) {events : List UseEdit}
    (h : useTransition.AllSteps UseGraph.Keeps g events) :
    useTransition.AllSteps (fun g e => (g.edit e).Exact) g events := by
  refine Transition.allSteps_of_invariant UseGraph.Exact ?_ hg h
  intro s e s' hs hkeeps hstep
  unfold useTransition at hstep
  simp only [Option.ite_none_right_eq_some, Option.some.injEq] at hstep
  rcases hstep with ⟨henabled, rfl⟩
  have hexact := UseGraph.exact_edit hs henabled hkeeps
  exact ⟨hexact, hexact⟩

/-! ## A phi of two equal constants -/

/-- Two constants, a phi of both, the entry resume point of its block and an addition of
the phi to itself. Node 5 is a constant not used yet. -/
def constantPhi : UseGraph where
  kind
    | 2 => .phi
    | 3 => .resumePoint
    | _ => .instruction false false
  idWord n := n
  discarded _ := false
  operands
    | 2 => [some 0, some 1]
    | 3 => [some 2]
    | 4 => [some 2, some 2]
    | _ => []
  uses
    | 0 => [⟨2, 0⟩]
    | 1 => [⟨2, 1⟩]
    | 2 => [⟨4, 1⟩, ⟨4, 0⟩, ⟨3, 0⟩]
    | _ => []

lemma constantPhi_exact : constantPhi.Exact := by
  rintro d ⟨n, k⟩
  rcases n with _ | _ | _ | _ | _ | n <;> rcases k with _ | _ | k <;>
    rcases d with _ | _ | _ | d <;>
    simp [constantPhi, UseGraph.operand?, UseGraph.getOperand?]

/-- The phi gets a third input and loses its first one, the addition gets another operand,
and the phi is replaced by the constant. -/
theorem exact_run_constantPhi :
    useTransition.AllSteps (fun g e => (g.edit e).Exact) constantPhi
      [.addInput 2 0, .removeOperand 2 0, .replaceOperand 4 1 1,
        .replaceWithInstruction 2 5] := by
  apply exact_run constantPhi_exact
  exact ⟨trivial, fun u _ hword => hword, trivial, fun hself => absurd hself (by decide), trivial⟩

/-- The phi is folded: its uses go to a new constant, and then the slot of the entry
resume point is set to that constant once more. -/
theorem exact_run_fails_constantPhi :
    ¬ ∀ (g : UseGraph) (events : List UseEdit), g.Exact →
      useTransition.AllSteps (fun g e => (g.edit e).Exact) g events := by
  intro h
  have hrun := h constantPhi [.replaceWithInstruction 2 5, .initSlot 3 0 5] constantPhi_exact
  have hlast := hrun.2.1 5 ⟨3, 0⟩
  exact absurd hlast (by decide)

end SpiderMonkey.Ion
