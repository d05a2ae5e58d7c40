import SpiderMonkey.Lib.Dominance

/-! # Executions of programs in SSA form

Blocks hold phis and a body of definitions. Entering a block along an edge sets
all its phis at once from the values at the end of the predecessor; the body then
assigns one definition after the other; and the block ends in a branch. What a
definition computes is a relation, so that a definition the model knows nothing
about may leave any value.

In SSA form a definition is only assigned in its own block, which gives two
rules. `holds_of_strictlyDominates`: wherever a block strictly dominates, its
definitions still hold the values their operands give. `persists`: a fact about
the phis of a block and definitions from above it, true whenever the block is
entered, stays true in all the blocks it dominates.
-/

namespace SpiderMonkey.Lib

open List

/-- A program over blocks `β`, definitions `δ` and values `ν`. -/
structure Ssa (β δ ν : Type*) extends FlowGraph β where
  phis : β → List δ
  body : β → List δ
  /-- The definitions a body definition reads. -/
  operands : δ → List δ
  /-- The sources the phis of the second block may read when entered from the
  first: one choice for each edge between the two. -/
  sources : β → β → (δ → δ) → Prop
  /-- The values a body definition may compute. -/
  computes : δ → (δ → ν) → ν → Prop
  /-- The successors a block may branch to. -/
  take : β → (δ → ν) → β → Prop
  computes_congr : ∀ {d env env' v}, (∀ o ∈ operands d, env o = env' o) →
    computes d env v → computes d env' v
  edge_of_take : ∀ {b env c}, take b env c → edge b c

namespace Ssa

variable {β δ ν : Type*} [DecidableEq δ] (P : Ssa β δ ν)

/-- `d` is a phi or a body definition of the block. -/
def Defines (b : β) (d : δ) : Prop := d ∈ P.phis b ∨ d ∈ P.body b

/-- SSA form: one assignment per definition, and operands that are defined
further up. -/
structure WellFormed : Prop where
  block_unique : ∀ {d a b}, P.Defines a d → P.Defines b d → a = b
  phi_not_body : ∀ {b d}, d ∈ P.phis b → d ∉ P.body b
  nodup_body : ∀ b, (P.body b).Nodup
  operand_above : ∀ {b d o before after}, P.body b = before ++ d :: after → o ∈ P.operands d →
    o ∈ P.phis b ∨ o ∈ before ∨ ∃ a, P.Defines a o ∧ P.StrictlyDominates a b

/-! ## Executions -/

/-- The assignments of a list of definitions, in order. -/
inductive Run : List δ → (δ → ν) → (δ → ν) → Prop
  | nil (env) : Run [] env env
  | cons {d ds env v env'} : P.computes d env v → Run ds (Function.update env d v) env' →
      Run (d :: ds) env env'

/-- The values after entering block `c`, its phis reading from `src`. -/
def enter (c : β) (src : δ → δ) (env : δ → ν) : δ → ν := fun d =>
  if d ∈ P.phis c then env (src d) else env d

/-- `Arrives b env`: some execution enters `b`, and `env` holds the values once
the phis of `b` are set. -/
inductive Arrives : β → (δ → ν) → Prop
  | root {b env} : P.root b → Arrives b env
  | step {b c env env' src} : Arrives b env → P.Run (P.body b) env env' → P.take b env' c →
      P.sources b c src → Arrives c (P.enter c src env')

/-- Some execution gets to the end of `b` with the values `env`. -/
def Leaves (b : β) (env : δ → ν) : Prop :=
  ∃ start, P.Arrives b start ∧ P.Run (P.body b) start env

/-- Some execution is in `b`, after some part of its body, with the values `env`. -/
def Within (b : β) (env : δ → ν) : Prop :=
  ∃ start before after, P.Arrives b start ∧ P.body b = before ++ after ∧ P.Run before start env

/-- Some execution is in `b`, after the part `before` of its body, with the values
`env`. -/
def WithinAfter (b : β) (before : List δ) (env : δ → ν) : Prop :=
  ∃ start after, P.Arrives b start ∧ P.body b = before ++ after ∧ P.Run before start env

/-- Every execution that is in `b` after that part of its body has assigned `d`. -/
def Available (b : β) (before : List δ) (d : δ) : Prop :=
  d ∈ P.phis b ∨ d ∈ before ∨ ∃ a, P.Defines a d ∧ P.StrictlyDominates a b

/-- An execution that begins with the values `start` went through the blocks `path` and
then enters `b`. -/
inductive Follows (start : δ → ν) : List β → β → (δ → ν) → Prop
  | root {b} : P.root b → Follows start [] b start
  | step {path b c env env' src} : Follows start path b env → P.Run (P.body b) env env' →
      P.take b env' c → P.sources b c src → Follows start (path ++ [b]) c (P.enter c src env')

/-- Such an execution is in `b`, after some part of its body. -/
def FollowsWithin (start : δ → ν) (path : List β) (b : β) (before : List δ) (env : δ → ν) :
    Prop :=
  ∃ entered after, P.Follows start path b entered ∧ P.body b = before ++ after ∧
    P.Run before entered env

variable {P}

variable {b : β} {env : δ → ν}

lemma Arrives.reachable (h : P.Arrives b env) : P.Reachable b := by
  induction h with
  | root hroot => exact .root hroot
  | step _ _ htake _ ih => exact .step ih (P.edge_of_take htake)

lemma Arrives.within (h : P.Arrives b env) : P.Within b env :=
  ⟨env, [], P.body b, h, rfl, .nil env⟩

lemma Leaves.within (h : P.Leaves b env) : P.Within b env := by
  rcases h with ⟨start, harr, hrun⟩
  exact ⟨start, P.body b, [], harr, (append_nil _).symm, hrun⟩

/-! ## What assignments leave alone -/

variable {d : δ}

/-- A run leaves every other definition as it was. -/
lemma Run.frame {ds : List δ} {env env' : δ → ν} (h : P.Run ds env env') (hd : d ∉ ds) :
    env' d = env d := by
  induction h with
  | nil => rfl
  | cons _ _ ih =>
    rw [mem_cons, not_or] at hd
    rw [ih hd.2, Function.update_of_ne hd.1]

omit [DecidableEq δ] in
/-- A definition from a block that dominates is available at the end of the block. -/
lemma available_at_end {a b : β} (hd : P.Defines a d) (hab : P.Dominates a b) :
    P.Available b (P.body b) d := by
  rcases Classical.em (a = b) with rfl | hne
  · exact hd.imp_right Or.inl
  · exact Or.inr (Or.inr ⟨a, hd, hab, hne⟩)

lemma enter_of_not_phi {c : β} {src : δ → δ} (hd : d ∉ P.phis c) :
    P.enter c src env d = env d := if_neg hd

lemma enter_of_phi {c : β} {src : δ → δ} (hd : d ∈ P.phis c) :
    P.enter c src env d = env (src d) := if_pos hd

/-- Values that already hold what the operands give are a fixed point of a run. -/
lemma Run.of_holds {ds : List δ} (h : ∀ d ∈ ds, P.computes d env (env d)) :
    P.Run ds env env := by
  induction ds with
  | nil => exact .nil env
  | cons d ds ih =>
    have hrest := ih fun e he => h e (mem_cons_of_mem d he)
    exact .cons (h d mem_cons_self) (by rwa [Function.update_eq_self])

/-- A block without phis is entered with the values the predecessor left. -/
lemma enter_eq_self {c : β} (hphis : P.phis c = []) (src : δ → δ) (env : δ → ν) :
    P.enter c src env = env := by
  funext d
  simp [enter, hphis]

/-- After a run, a definition holds what its operands give, if neither it nor
they are assigned again. -/
lemma Run.holds {ds : List δ} {env env' : δ → ν} (h : P.Run ds env env') (hnodup : ds.Nodup)
    (hd : d ∈ ds)
    (hops : ∀ before after, ds = before ++ d :: after → ∀ o ∈ P.operands d, o ∉ d :: after) :
    P.computes d env' (env' d) := by
  induction h with
  | nil => simp at hd
  | @cons e ds env v env' hv hrun ih =>
    rw [nodup_cons] at hnodup
    rcases mem_cons.mp hd with rfl | hd
    · have hself : env' d = v := by
        rw [hrun.frame hnodup.1, Function.update_self]
      rw [hself]
      refine P.computes_congr (fun o ho => ?_) hv
      have hout := hops [] ds rfl o ho
      rw [mem_cons, not_or] at hout
      rw [hrun.frame hout.2, Function.update_of_ne hout.1]
    · exact ih hnodup.2 hd fun before after heq =>
        hops (e :: before) after (by rw [heq, cons_append])

omit [DecidableEq δ] in
/-- Where two environments agree on all a definition reads and writes, it holds in
both or in neither. -/
lemma holds_congr {env env' : δ → ν} (h : P.computes d env (env d))
    (hsame : ∀ o, o = d ∨ o ∈ P.operands d → env' o = env o) : P.computes d env' (env' d) := by
  rw [hsame d (Or.inl rfl)]
  exact P.computes_congr (fun o ho => (hsame o (Or.inr ho)).symm) h

namespace WellFormed

variable (wf : P.WellFormed)
include wf

omit [DecidableEq δ] in
/-- A definition from strictly above `s` is not assigned in a block below `s`. -/
lemma not_defines_below {a s b : β} (hd : P.Defines a d) (has : P.StrictlyDominates a s)
    (hsb : P.Dominates s b) (hb : P.Reachable b) :
    ¬ P.Defines b d :=
  fun hbd => has.ne_of_dominates hsb hb (wf.block_unique hd hbd)

variable {before after : List δ}

omit [DecidableEq δ] in
/-- Within a block, the operands of a definition are not assigned from it on. -/
lemma operand_not_after {d o : δ} (hb : P.Reachable b) (heq : P.body b = before ++ d :: after)
    (ho : o ∈ P.operands d) : o ∉ d :: after := by
  intro hin
  have hbody : o ∈ P.body b := by
    rw [heq]
    exact mem_append_right _ hin
  rcases wf.operand_above heq ho with hphi | hbefore | ⟨a, hdef, hdom⟩
  · exact wf.phi_not_body hphi hbody
  · have hnodup := wf.nodup_body b
    rw [heq] at hnodup
    exact (nodup_append.mp hnodup).2.2 o hbefore o hin rfl
  · exact wf.not_defines_below hdef hdom (FlowGraph.dominates_refl b) hb (Or.inr hbody)

omit [DecidableEq δ] in
/-- An operand is defined in the block or strictly above it. -/
lemma operand_defined {d o : δ} (hd : d ∈ P.body b) (ho : o ∈ P.operands d) :
    P.Defines b o ∨ ∃ a, P.Defines a o ∧ P.StrictlyDominates a b := by
  obtain ⟨before, after, heq⟩ := append_of_mem hd
  rcases wf.operand_above heq ho with hphi | hbefore | habove
  · exact Or.inl (Or.inl hphi)
  · exact Or.inl (Or.inr (by rw [heq]; exact mem_append_left _ hbefore))
  · exact Or.inr habove

/-- After the body of its own block, a definition holds what its operands give. -/
lemma holds_of_run {env env' : δ → ν} (hb : P.Reachable b) (hrun : P.Run (P.body b) env env')
    (hd : d ∈ P.body b) :
    P.computes d env' (env' d) :=
  hrun.holds (wf.nodup_body b) hd fun _ _ heq _ ho => wf.operand_not_after hb heq ho

omit [DecidableEq δ] in
/-- Below its block, nothing a definition reads or writes is assigned. -/
lemma not_defines_of_above {a b : β} (hd : d ∈ P.body a) (hab : P.StrictlyDominates a b)
    (hb : P.Reachable b) :
    ∀ o, o = d ∨ o ∈ P.operands d → ¬ P.Defines b o := by
  rintro o (rfl | ho)
  · exact wf.not_defines_below (Or.inr hd) hab (FlowGraph.dominates_refl b) hb
  · rcases wf.operand_defined hd ho with hin | ⟨a', hdef, hdom⟩
    · exact wf.not_defines_below hin hab (FlowGraph.dominates_refl b) hb
    · exact wf.not_defines_below hdef hdom hab.1 hb

/-! ## The two rules -/

/-- Where its block strictly dominates, a definition holds what its operands
give. -/
lemma holds_of_strictlyDominates (h : P.Arrives b env) {a : β} (hd : d ∈ P.body a)
    (hab : P.StrictlyDominates a b) : P.computes d env (env d) := by
  induction h with
  | root hroot => exact absurd (hab.1.eq_of_root hroot) hab.2
  | @step b c env env' src harr hrun htake hsrc ih =>
    have hb := harr.reachable
    have hc : P.Reachable c := hb.step (P.edge_of_take htake)
    have habove := wf.not_defines_of_above hd hab hc
    have hend : P.computes d env' (env' d) := by
      rcases Classical.em (a = b) with rfl | hne
      · exact wf.holds_of_run hb hrun hd
      · have hstrict : P.StrictlyDominates a b :=
          ⟨hab.1.of_edge (P.edge_of_take htake) (Ne.symm hab.2), hne⟩
        refine holds_congr (ih hstrict) fun o ho => hrun.frame fun hin => ?_
        exact wf.not_defines_of_above hd hstrict hb o ho (Or.inr hin)
    exact holds_congr hend fun o ho => enter_of_not_phi fun hin => habove o ho (Or.inl hin)

/-- At the end of a block, the definitions of it and of the blocks above hold
what their operands give. -/
lemma holds_at_end (h : P.Leaves b env) {a : β} (hd : d ∈ P.body a) (hab : P.Dominates a b) :
    P.computes d env (env d) := by
  obtain ⟨start, harr, hrun⟩ := h
  rcases Classical.em (a = b) with rfl | hne
  · exact wf.holds_of_run harr.reachable hrun hd
  · refine holds_congr (wf.holds_of_strictlyDominates harr hd ⟨hab, hne⟩) fun o ho =>
      hrun.frame fun hin => ?_
    exact wf.not_defines_of_above hd ⟨hab, hne⟩ harr.reachable o ho (Or.inr hin)

omit [DecidableEq δ] in
/-- What an available instruction reads is available. -/
lemma available_operand {b a : β} {d o : δ} (hbody : P.body b = before ++ after)
    (hb : P.Reachable b) (hd : P.Available b before d) (hda : d ∈ P.body a) (ho : o ∈ P.operands d) :
    P.Available b before o := by
  rcases hd with hphi | hin | ⟨a', hdef, hdom⟩
  · obtain rfl := wf.block_unique (Or.inl hphi) (Or.inr hda)
    exact absurd hda (wf.phi_not_body hphi)
  · obtain ⟨start, rest, rfl⟩ := append_of_mem hin
    have hsplit : P.body b = start ++ d :: (rest ++ after) := by
      rw [hbody, append_assoc, cons_append]
    rcases wf.operand_above hsplit ho with hphi | hstart | habove
    · exact Or.inl hphi
    · exact Or.inr (Or.inl (mem_append_left _ hstart))
    · exact Or.inr (Or.inr habove)
  · obtain rfl := wf.block_unique hdef (Or.inr hda)
    rcases wf.operand_defined hda ho with hin | ⟨c, hdefc, hdomc⟩
    · exact Or.inr (Or.inr ⟨a', hin, hdom⟩)
    · exact Or.inr (Or.inr ⟨c, hdefc, hdomc.1.trans_strict hdom hb⟩)

/-- An available definition holds what its operands give. -/
lemma holds_available {b a : β} {before : List δ} (h : P.WithinAfter b before env)
    (hd : P.Available b before d) (hda : d ∈ P.body a) :
    P.computes d env (env d) := by
  rcases h with ⟨start, after, harr, hbody, hrun⟩
  rcases hd with hphi | hin | ⟨a', hdef, hdom⟩
  · obtain rfl := wf.block_unique (Or.inl hphi) (Or.inr hda)
    exact absurd hda (wf.phi_not_body hphi)
  · have hnodup := wf.nodup_body b
    rw [hbody] at hnodup
    refine hrun.holds (nodup_append.mp hnodup).1 hin fun front back heq o ho => ?_
    have hsplit : P.body b = front ++ d :: (back ++ after) := by
      rw [hbody, heq, append_assoc, cons_append]
    intro hback
    apply wf.operand_not_after harr.reachable hsplit ho
    rw [← cons_append]
    exact mem_append_left _ hback
  · obtain rfl := wf.block_unique hdef (Or.inr hda)
    refine holds_congr (wf.holds_of_strictlyDominates harr hda hdom) fun o ho => ?_
    apply hrun.frame
    intro hin
    apply wf.not_defines_of_above hda hdom harr.reachable o ho
    right
    rw [hbody]
    exact mem_append_left _ hin

omit [DecidableEq δ] in
/-- A definition from strictly above `s`, or a phi of `s`, is not assigned in the
body of a block below `s`, nor by the phis of another such block. -/
lemma not_assigned_below {s b : β}
    (hd : d ∈ P.phis s ∨ ∃ a, P.Defines a d ∧ P.StrictlyDominates a s) (hsb : P.Dominates s b)
    (hb : P.Reachable b) : d ∉ P.body b ∧ (b ≠ s → d ∉ P.phis b) := by
  rcases hd with hphi | ⟨a, hdef, hdom⟩
  · constructor
    · intro hin
      obtain rfl := wf.block_unique (Or.inl hphi) (Or.inr hin)
      exact wf.phi_not_body hphi hin
    · intro hne hin
      exact hne (wf.block_unique (Or.inl hin) (Or.inl hphi))
  · have hnot := wf.not_defines_below hdef hdom hsb hb
    exact ⟨fun hin => hnot (Or.inr hin), fun _ hin => hnot (Or.inl hin)⟩

/-- An invariant of the region `s` dominates: a fact about phis of `s` and
definitions from strictly above `s` that every entry to `s` establishes. On a back
edge the fact may be assumed at the end of the predecessor. -/
lemma persists {s : β} (reads : δ → Prop) (fact : (δ → ν) → Prop)
    (hreads : ∀ x, reads x → x ∈ P.phis s ∨ ∃ a, P.Defines a x ∧ P.StrictlyDominates a s)
    (hcongr : ∀ {env env'}, (∀ x, reads x → env' x = env x) → fact env → fact env')
    (hroot : P.root s → ∀ env, fact env)
    (hentry : ∀ {p env src}, P.Leaves p env → P.take p env s → P.sources p s src →
      (P.Dominates s p → fact env) → fact (P.enter s src env)) (h : P.Arrives b env)
    (hsb : P.Dominates s b) : fact env := by
  induction h with
  | @root b env hb =>
    obtain rfl := hsb.eq_of_root hb
    exact hroot hb env
  | @step b c env env' src harr hrun htake hsrc ih =>
    have hend : P.Dominates s b → fact env' := by
      intro hsb'
      refine hcongr (fun x hx => hrun.frame ?_) (ih hsb')
      exact (wf.not_assigned_below (hreads x hx) hsb' harr.reachable).1
    rcases Classical.em (c = s) with rfl | hne
    · exact hentry ⟨env, harr, hrun⟩ htake hsrc hend
    · refine hcongr (fun x hx => enter_of_not_phi ?_)
        (hend (hsb.of_edge (P.edge_of_take htake) hne))
      have hc : P.Reachable c := harr.reachable.step (P.edge_of_take htake)
      exact (wf.not_assigned_below (hreads x hx) hsb hc).2 hne

/-- An invariant of the region `s` dominates holds at the end of its blocks. -/
lemma persists_at_end {s : β} (reads : δ → Prop) (fact : (δ → ν) → Prop)
    (hreads : ∀ x, reads x → x ∈ P.phis s ∨ ∃ a, P.Defines a x ∧ P.StrictlyDominates a s)
    (hcongr : ∀ {env env'}, (∀ x, reads x → env' x = env x) → fact env → fact env')
    (hinv : ∀ {env}, P.Arrives b env → fact env) (h : P.Leaves b env) (hsb : P.Dominates s b) :
    fact env := by
  obtain ⟨start, harr, hrun⟩ := h
  refine hcongr (fun x hx => hrun.frame ?_) (hinv harr)
  exact (wf.not_assigned_below (hreads x hx) hsb harr.reachable).1

/-- An invariant of the region `s` dominates holds at every point of its blocks. -/
lemma persists_within {s : β} (reads : δ → Prop) (fact : (δ → ν) → Prop)
    (hreads : ∀ x, reads x → x ∈ P.phis s ∨ ∃ a, P.Defines a x ∧ P.StrictlyDominates a s)
    (hcongr : ∀ {env env'}, (∀ x, reads x → env' x = env x) → fact env → fact env')
    (hinv : ∀ {env}, P.Arrives b env → fact env) (h : P.Within b env) (hsb : P.Dominates s b) :
    fact env := by
  rcases h with ⟨start, before, after, harr, hbody, hrun⟩
  refine hcongr (fun x hx => hrun.frame fun hin => ?_) (hinv harr)
  apply (wf.not_assigned_below (hreads x hx) hsb harr.reachable).1
  rw [hbody]
  exact mem_append_left _ hin

/-! ## Facts about each definition of a region -/

omit [DecidableEq δ] in
/-- What holds of the definitions available at the start of a block holds of those in its
body, if each instruction hands it on from its operands. -/
lemma body_induction (hsplit : P.body b = before ++ after) (member : δ → Prop) (fact : δ → Prop)
    (hstart : ∀ d, member d → P.Available b [] d → fact d)
    (hbody : ∀ d ∈ P.body b, P.Available b before d → member d →
      (∀ o ∈ P.operands d, member o → fact o) → fact d) (hd : member d)
    (havail : P.Available b before d) : fact d := by
  have hinside : ∀ (n : Nat) front x back, front.length = n → before = front ++ x :: back →
      member x → fact x := by
    intro n
    induction n using Nat.strongRecOn with
    | ind n ih =>
      intro front x back hn heq hx
      have hin : x ∈ P.body b := by
        rw [hsplit, heq]
        exact mem_append_left _ (mem_append_right _ mem_cons_self)
      have hxavail : P.Available b before x := by
        right; left
        rw [heq]
        exact mem_append_right _ mem_cons_self
      refine hbody x hin hxavail hx fun o ho hmember => ?_
      have hbodySplit : P.body b = front ++ x :: (back ++ after) := by
        rw [hsplit, heq, append_assoc, cons_append]
      rcases wf.operand_above hbodySplit ho with hphi | hfront | habove
      · exact hstart o hmember (Or.inl hphi)
      · obtain ⟨front', back', rfl⟩ := append_of_mem hfront
        refine ih front'.length ?_ front' o (back' ++ x :: back) rfl ?_ hmember
        · simp only [length_append, length_cons] at hn
          omega
        · rw [heq, append_assoc, cons_append]
      · exact hstart o hmember (Or.inr (Or.inr habove))
  rcases havail with hphi | hin | habove
  · exact hstart d hd (Or.inl hphi)
  · obtain ⟨front, back, heq⟩ := append_of_mem hin
    exact hinside front.length front d back rfl heq hd
  · exact hstart d hd (Or.inr (Or.inr habove))

omit [DecidableEq δ] in
/-- No available definition depends on itself, but through a phi. -/
lemma available_depth (hb : P.Reachable b) (fact : δ → Prop)
    (hphi : ∀ {c d}, d ∈ P.phis c → fact d)
    (hbody : ∀ {c d}, d ∈ P.body c → (∀ o ∈ P.operands d, fact o) → fact d)
    (hsplit : P.body b = before ++ after) (havail : P.Available b before d) : fact d := by
  have hstart : ∀ d, P.Available b [] d → fact d := by
    clear hsplit havail
    induction hb with
    | root hroot =>
      rintro d (hin | hnil | ⟨a, _, hdom⟩)
      · exact hphi hin
      · exact absurd hnil not_mem_nil
      · exact absurd (hdom.1.eq_of_root hroot) hdom.2
    | step _ hedge ih =>
      rintro d (hin | hnil | ⟨a, hdef, hdom⟩)
      · exact hphi hin
      · exact absurd hnil not_mem_nil
      · -- what is available from above was so at the end of the predecessor
        have hap := hdom.1.of_edge hedge (Ne.symm hdom.2)
        exact wf.body_induction (append_nil _).symm (fun _ => True) fact
          (fun o _ ho => ih o ho) (fun o hin _ _ hops => hbody hin fun x hx => hops x hx trivial)
          trivial (available_at_end hdef hap)
  exact wf.body_induction hsplit (fun _ => True) fact (fun o _ ho => hstart o ho)
    (fun o hin _ _ hops => hbody hin fun x hx => hops x hx trivial) trivial havail

/-- An invariant of each definition in the region `s` dominates, over the definitions
`member`: it holds when the region is entered, and the phis and instructions of the region
hand it on. It may speak about definitions `reads` from strictly above `s` besides. -/
lemma region_induction {s : β} (member reads : δ → Prop) (fact : δ → (δ → ν) → Prop)
    (hreads : ∀ x, reads x → ∃ a, P.Defines a x ∧ P.StrictlyDominates a s)
    (hcongr : ∀ {d env env'}, env' d = env d → (∀ x, reads x → env' x = env x) →
      fact d env → fact d env') (hroot : ¬ P.root s)
    (hentry : ∀ {p env src}, P.Leaves p env → P.take p env s → P.sources p s src →
      ¬ P.Dominates s p → ∀ d, member d → P.Available s [] d → fact d (P.enter s src env))
    (hphi : ∀ {p c env src}, P.Leaves p env → P.sources p c src → P.edge p c →
      P.Dominates s p → P.Dominates s c →
      (∀ o, member o → P.Available p (P.body p) o → fact o env) →
      ∀ d ∈ P.phis c, member d → fact d (P.enter c src env))
    (hbody : ∀ {b before env}, P.WithinAfter b before env → P.Dominates s b →
      ∀ d ∈ P.body b, P.Available b before d → member d →
      (∀ o ∈ P.operands d, member o → fact o env) → fact d env) {before : List δ}
    (h : P.WithinAfter b before env) (hsb : P.Dominates s b) (hd : member d)
    (havail : P.Available b before d) :
    fact d env := by
  -- within a block, from its start
  have hwithin : ∀ {b before start env}, P.Arrives b start → P.Dominates s b →
      (∀ d, member d → P.Available b [] d → fact d start) → ∀ {after},
      P.body b = before ++ after → P.Run before start env →
      ∀ d, member d → P.Available b before d → fact d env := by
    intro b before start env harr hsb hstart after hsplit hrun d hd havail
    refine wf.body_induction hsplit member (fact · env) ?_ ?_ hd havail
    · intro o ho hoavail
      have hnot : ∀ x, P.Available b [] x → x ∉ before := by
        intro x hx hin
        have hxbody : x ∈ P.body b := by
          rw [hsplit]
          exact mem_append_left _ hin
        rcases hx with hphi | hnil | ⟨a, hdef, hdom⟩
        · exact wf.phi_not_body hphi hxbody
        · exact not_mem_nil hnil
        · exact hdom.2 (wf.block_unique hdef (Or.inr hxbody))
      refine hcongr (hrun.frame (hnot o hoavail)) (fun x hx => ?_) (hstart o ho hoavail)
      rcases hreads x hx with ⟨a, hdef, hdom⟩
      apply hrun.frame
      apply hnot
      exact Or.inr (Or.inr ⟨a, hdef, hdom.1.trans hsb, hdom.ne_of_dominates hsb harr.reachable⟩)
    · exact hbody ⟨start, after, harr, hsplit, hrun⟩ hsb
  have harrives : ∀ {b env}, P.Arrives b env → P.Dominates s b →
      ∀ d, member d → P.Available b [] d → fact d env := by
    intro b env harr
    induction harr with
    | @root b env hb =>
      intro hsb
      rw [hsb.eq_of_root hb] at hroot
      exact absurd hb hroot
    | @step p c env env' src harr hrun htake hsrc ih =>
      intro hsc d hd havail
      have hedge := P.edge_of_take htake
      by_cases hsp : P.Dominates s p
      · have hend : ∀ o, member o → P.Available p (P.body p) o → fact o env' :=
          hwithin harr hsp (ih hsp) (append_nil _).symm hrun
        by_cases hphis : d ∈ P.phis c
        · exact hphi ⟨env, harr, hrun⟩ hsrc hedge hsp hsc hend d hphis hd
        · -- a definition from above keeps its value into the block
          rcases havail with hin | hin | ⟨a, hdef, hdom⟩
          · exact absurd hin hphis
          · exact absurd hin not_mem_nil
          · have hap : P.Dominates a p := hdom.1.of_edge hedge (Ne.symm hdom.2)
            refine hcongr (enter_of_not_phi hphis) (fun x hx => ?_)
              (hend d hd (available_at_end hdef hap))
            rcases hreads x hx with ⟨a', hdef', hdom'⟩
            apply enter_of_not_phi
            intro hin
            exact hdom'.ne_of_dominates hsc (harr.reachable.step hedge)
              (wf.block_unique hdef' (Or.inl hin))
      · obtain rfl : c = s := by
          by_contra hne
          exact hsp (hsc.of_edge hedge hne)
        exact hentry ⟨env, harr, hrun⟩ htake hsrc hsp d hd havail
  rcases h with ⟨start, after, harr, hsplit, hrun⟩
  exact hwithin harr hsb (harrives harr hsb) hsplit hrun d hd havail

/-- A definition from above the predecessor keeps its value into a block the
predecessor strictly dominates. -/
lemma enter_of_above {a p b : β} (hd : P.Defines a d) (hap : P.Dominates a p)
    (hpb : P.StrictlyDominates p b) (hb : P.Reachable b) (src : δ → δ) (env : δ → ν) :
    P.enter b src env d = env d :=
  enter_of_not_phi fun hphi =>
    (hap.trans_strict hpb hb).2 (wf.block_unique hd (Or.inl hphi))

end WellFormed
end Ssa
end SpiderMonkey.Lib
