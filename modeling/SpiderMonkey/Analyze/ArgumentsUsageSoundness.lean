import SpiderMonkey.Analyze.ArgumentsUsage

/-! # The arguments object that is not made

Where the walk says that the arguments object is not needed, the values that come from
`JSOP_ARGUMENTS` are read in a few ways only, and another value in their place changes nothing.
-/

namespace SpiderMonkey.Analyze

open List Option Bool

namespace ScriptAnalysis

variable {a : ScriptAnalysis} {appends : Nat → Bool}

/-! ## The walk ends -/

/-- The values that were not seen yet. -/
def unseen (a : ScriptAnalysis) (seen : List SsaValue) : List SsaValue :=
  a.values.dedup.filter fun v => v ∉ seen

lemma unseen_mono {seen seen' : List SsaValue} (h : seen ⊆ seen') :
    (a.unseen seen').length ≤ (a.unseen seen).length := by
  refine (monotone_filter_right _ fun v hv => ?_).length_le
  rw [decide_eq_true_iff] at hv ⊢
  exact fun hmem => hv (h hmem)

lemma unseen_append {seen : List SsaValue} {v : SsaValue} (hv : v ∈ a.values) (hnot : v ∉ seen) :
    (a.unseen (seen ++ [v])).length < (a.unseen seen).length := by
  have hsub : (a.unseen (seen ++ [v])).Sublist (a.unseen seen) := by
    refine monotone_filter_right _ fun w hw => ?_
    rw [decide_eq_true_iff] at hw ⊢
    exact fun hmem => hw (mem_append_left _ hmem)
  refine Nat.lt_of_le_of_ne hsub.length_le fun heq => ?_
  have hmem : v ∈ a.unseen seen :=
    mem_filter.mpr ⟨mem_dedup.mpr hv, decide_eq_true hnot⟩
  rw [← hsub.eq_of_length heq] at hmem
  have hnew := of_decide_eq_true (mem_filter.mp hmem).2
  exact hnew (mem_append_right _ (mem_singleton_self v))

lemma ledTo_mem_values {v w : SsaValue} {use : SsaUse} (huse : use ∈ a.useChain v)
    (hw : w ∈ a.ledTo use) : w ∈ a.values := by
  rw [useChain] at huse
  cases hlookup : a.useChains.lookup v with
  | none =>
    rw [hlookup] at huse
    cases huse
  | some chain =>
    rw [hlookup] at huse
    have hchain : (v, chain) ∈ a.useChains := by
      obtain ⟨before, after, happ, -⟩ := lookup_eq_some_iff.mp hlookup
      rw [happ]
      exact mem_append_right _ (mem_cons_self ..)
    exact mem_cons_of_mem _
      (mem_flatMap.mpr ⟨_, hchain, mem_flatMap.mpr ⟨use, huse, hw⟩⟩)

/-- A walk from a value: it ends where fewer than `bound` values are unseen, and the values seen
only grow. -/
def Ends (a : ScriptAnalysis) (bound : Nat)
    (value : List SsaValue → SsaValue → Option (Bool × List SsaValue)) : Prop :=
  ∀ seen v, v ∈ a.values → (a.unseen seen).length < bound →
    ∃ needs seen', value seen v = some (needs, seen') ∧ seen ⊆ seen'

variable {value : List SsaValue → SsaValue → Option (Bool × List SsaValue)} {bound : Nat}

lemma needsUse_ends (hvalue : a.Ends bound value) {seen : List SsaValue} {use : SsaUse}
    (huse : ∀ w ∈ a.ledTo use, w ∈ a.values) (hlt : (a.unseen seen).length < bound) :
    ∃ needs seen', a.needsUse value seen use = some (needs, seen') ∧ seen ⊆ seen' := by
  cases use with
  | phi offset node =>
    exact hvalue seen _ (huse _ (mem_singleton_self _)) hlt
  | popped offset which =>
    rw [needsUse]
    rw [ledTo] at huse
    cases hop : a.op offset with
    | setLocal slot =>
      rw [hop] at huse
      dsimp only at huse ⊢
      by_cases htrack : (!a.trackSlot slot) = true
      · rw [if_pos htrack]
        exact ⟨true, seen, rfl, List.Subset.refl _⟩
      · rw [if_neg htrack]
        obtain ⟨needs, seen1, heq, hsub⟩ := hvalue seen _ (huse _ (mem_cons_self ..)) hlt
        rw [heq]
        cases needs with
        | true => exact ⟨true, seen1, rfl, hsub⟩
        | false =>
          have hlt1 := Nat.lt_of_le_of_lt (unseen_mono hsub) hlt
          obtain ⟨needs, seen2, heq2, hsub2⟩ :=
            hvalue seen1 _ (huse _ (mem_cons_of_mem _ (mem_singleton_self _))) hlt1
          exact ⟨needs, seen2, heq2, List.Subset.trans hsub hsub2⟩
    | getLocal slot =>
      rw [hop] at huse
      exact hvalue seen _ (huse _ (mem_singleton_self _)) hlt
    | arguments => exact ⟨_, seen, rfl, List.Subset.refl _⟩
    | pop => exact ⟨_, seen, rfl, List.Subset.refl _⟩
    | popN n => exact ⟨_, seen, rfl, List.Subset.refl _⟩
    | getElem => exact ⟨_, seen, rfl, List.Subset.refl _⟩
    | length => exact ⟨_, seen, rfl, List.Subset.refl _⟩
    | funApply argc => exact ⟨_, seen, rfl, List.Subset.refl _⟩
    | other nuses slot => exact ⟨_, seen, rfl, List.Subset.refl _⟩

lemma needsUses_ends (hvalue : a.Ends bound value) {seen : List SsaValue} {uses : List SsaUse}
    (huses : ∀ use ∈ uses, ∀ w ∈ a.ledTo use, w ∈ a.values)
    (hlt : (a.unseen seen).length < bound) :
    ∃ needs seen', a.needsUses value seen uses = some (needs, seen') ∧ seen ⊆ seen' := by
  induction uses generalizing seen with
  | nil => exact ⟨false, seen, rfl, List.Subset.refl _⟩
  | cons use uses ih =>
    obtain ⟨needs, seen1, heq, hsub⟩ :=
      needsUse_ends hvalue (huses use (mem_cons_self ..)) hlt
    rw [needsUses, heq]
    cases needs with
    | true => exact ⟨true, seen1, rfl, hsub⟩
    | false =>
      obtain ⟨needs, seen2, heq2, hsub2⟩ :=
        ih (fun use huse => huses use (mem_cons_of_mem _ huse))
          (Nat.lt_of_le_of_lt (unseen_mono hsub) hlt)
      exact ⟨needs, seen2, heq2, List.Subset.trans hsub hsub2⟩

lemma needsValue_ends (fuel : Nat) : a.Ends fuel (a.needsValue appends fuel) := by
  induction fuel with
  | zero => exact fun seen v _ hlt => absurd hlt (Nat.not_lt_zero _)
  | succ fuel ih =>
    intro seen v hv hlt
    rw [needsValue]
    by_cases htrack : (!v.trackUseChain) = true
    · rw [if_pos htrack]
      exact ⟨_, seen, rfl, List.Subset.refl _⟩
    · rw [if_neg htrack]
      by_cases hseen : v ∈ seen
      · rw [if_pos hseen]
        exact ⟨_, seen, rfl, List.Subset.refl _⟩
      · rw [if_neg hseen]
        by_cases happ : (!appends seen.length) = true
        · rw [if_pos happ]
          exact ⟨_, seen, rfl, List.Subset.refl _⟩
        · rw [if_neg happ]
          -- a cycle comes back to a value that is seen, and there is one value less to see
          have hlt1 := Nat.lt_of_lt_of_le (unseen_append hv hseen) (Nat.le_of_lt_succ hlt)
          obtain ⟨needs, seen', heq, hsub⟩ :=
            needsUses_ends ih (fun use huse w hw => ledTo_mem_values huse hw) hlt1
          exact ⟨needs, seen', heq, List.Subset.trans (subset_append_left _ _) hsub⟩

/-- The walk ends, with cycles or without. -/
lemma needsArgsObj_ends (a : ScriptAnalysis) (appends : Nat → Bool) :
    ∃ needs, a.needsArgsObj appends = some needs := by
  rw [needsArgsObj]
  split_ifs
  · exact ⟨true, rfl⟩
  · have hlt : (a.unseen []).length < a.values.length + 1 :=
      Nat.lt_succ_of_le (Nat.le_trans (length_filter_le ..) (dedup_sublist _).length_le)
    obtain ⟨needs, seen, heq, -⟩ := needsValue_ends _ [] _ (mem_cons_self ..) hlt
    rw [heq]
    exact ⟨needs, rfl⟩

/-! ## What the walk has looked at -/

/-- The use is one that needs no arguments object, as long as what it leads to does not. -/
def Allows (a : ScriptAnalysis) (seen : List SsaValue) : SsaUse → Prop
  | .phi offset node => .phi offset node ∈ seen
  | .popped offset which =>
    match a.op offset with
    | .pop => True
    | .popN _ => True
    | .funApply argc => argc = 2 ∧ which = 0
    | .getElem => which = 1
    | .length => True
    | .setLocal slot =>
      a.trackSlot slot = true ∧ .pushed offset 0 ∈ seen ∧ .written slot offset ∈ seen
    | .getLocal _ => .pushed offset 0 ∈ seen
    | .arguments => False
    | .other _ _ => False

lemma Allows.mono {seen seen' : List SsaValue} {use : SsaUse} (h : a.Allows seen use)
    (hsub : seen ⊆ seen') : a.Allows seen' use := by
  cases use with
  | phi offset node => exact hsub h
  | popped offset which =>
    rw [Allows] at h ⊢
    cases hop : a.op offset with
    | setLocal slot =>
      rw [hop] at h
      exact ⟨h.1, hsub h.2.1, hsub h.2.2⟩
    | getLocal slot =>
      rw [hop] at h
      exact hsub h
    | arguments => exact (hop ▸ h :)
    | pop => exact trivial
    | popN n => exact trivial
    | getElem => exact (hop ▸ h :)
    | length => exact trivial
    | funApply argc => exact (hop ▸ h :)
    | other nuses slot => exact (hop ▸ h :)

/-- The uses of each value seen since are allowed. -/
def Looked (a : ScriptAnalysis) (seen seen' : List SsaValue) : Prop :=
  seen ⊆ seen' ∧ (∀ v ∈ seen', v ∈ seen ∨ v.trackUseChain = true) ∧
    ∀ v ∈ seen', v ∈ seen ∨ ∀ use ∈ a.useChain v, a.Allows seen' use

lemma Looked.refl (seen : List SsaValue) : a.Looked seen seen :=
  ⟨List.Subset.refl _, fun _ hv => .inl hv, fun _ hv => .inl hv⟩

lemma Looked.trans {seen seen1 seen2 : List SsaValue} (h : a.Looked seen seen1)
    (h' : a.Looked seen1 seen2) : a.Looked seen seen2 := by
  refine ⟨List.Subset.trans h.1 h'.1, fun v hv => ?_, fun v hv => ?_⟩
  · rcases h'.2.1 v hv with hv1 | htrack
    · exact h.2.1 v hv1
    · exact .inr htrack
  · rcases h'.2.2 v hv with hv1 | hallows
    · exact (h.2.2 v hv1).imp_right fun hallows use huse => (hallows use huse).mono h'.1
    · exact .inr hallows

/-- A walk from a value that finds no need has looked at the value. -/
def Looks (a : ScriptAnalysis)
    (value : List SsaValue → SsaValue → Option (Bool × List SsaValue)) : Prop :=
  ∀ seen v seen', value seen v = some (false, seen') →
    a.Looked seen seen' ∧ (v.trackUseChain = true → v ∈ seen')

lemma needsUse_looks (hvalue : a.Looks value) {seen seen' : List SsaValue} {use : SsaUse}
    (h : a.needsUse value seen use = some (false, seen')) :
    a.Looked seen seen' ∧ a.Allows seen' use := by
  cases use with
  | phi offset node =>
    obtain ⟨hlooked, hmem⟩ := hvalue _ _ _ h
    exact ⟨hlooked, hmem rfl⟩
  | popped offset which =>
    rw [needsUse] at h
    rw [Allows]
    cases hop : a.op offset with
    | setLocal slot =>
      rw [hop] at h
      dsimp only at h ⊢
      by_cases htrack : (!a.trackSlot slot) = true
      · rw [if_pos htrack] at h
        cases h
      · rw [if_neg htrack] at h
        rw [not_eq_true, not_eq_false'] at htrack
        cases hpushed : value seen (.pushed offset 0) with
        | none =>
          rw [hpushed] at h
          cases h
        | some r =>
          obtain ⟨needs, seen1⟩ := r
          rw [hpushed] at h
          cases needs with
          | true => cases h
          | false =>
            obtain ⟨hlooked1, hmem1⟩ := hvalue _ _ _ hpushed
            obtain ⟨hlooked2, hmem2⟩ := hvalue _ _ _ h
            exact ⟨hlooked1.trans hlooked2, htrack, hlooked2.1 (hmem1 rfl), hmem2 rfl⟩
    | getLocal slot =>
      rw [hop] at h
      obtain ⟨hlooked, hmem⟩ := hvalue _ _ _ h
      exact ⟨hlooked, hmem rfl⟩
    | funApply argc =>
      rw [hop] at h
      obtain ⟨hneeds, rfl⟩ := Prod.mk.inj (some.inj h)
      rw [not_eq_false', and_eq_true, beq_iff_eq, beq_iff_eq] at hneeds
      exact ⟨.refl _, hneeds⟩
    | getElem =>
      rw [hop] at h
      obtain ⟨hneeds, rfl⟩ := Prod.mk.inj (some.inj h)
      rw [not_eq_false', beq_iff_eq] at hneeds
      exact ⟨.refl _, hneeds⟩
    | pop =>
      rw [hop] at h
      obtain ⟨-, rfl⟩ := Prod.mk.inj (some.inj h)
      exact ⟨.refl _, trivial⟩
    | popN n =>
      rw [hop] at h
      obtain ⟨-, rfl⟩ := Prod.mk.inj (some.inj h)
      exact ⟨.refl _, trivial⟩
    | length =>
      rw [hop] at h
      obtain ⟨-, rfl⟩ := Prod.mk.inj (some.inj h)
      exact ⟨.refl _, trivial⟩
    | arguments =>
      rw [hop] at h
      cases h
    | other nuses slot =>
      rw [hop] at h
      cases h

lemma needsUses_looks (hvalue : a.Looks value) {seen seen' : List SsaValue} {uses : List SsaUse}
    (h : a.needsUses value seen uses = some (false, seen')) :
    a.Looked seen seen' ∧ ∀ use ∈ uses, a.Allows seen' use := by
  induction uses generalizing seen with
  | nil =>
    obtain ⟨-, rfl⟩ := Prod.mk.inj (some.inj h)
    exact ⟨.refl _, fun use huse => absurd huse not_mem_nil⟩
  | cons use uses ih =>
    rw [needsUses] at h
    cases huse : a.needsUse value seen use with
    | none =>
      rw [huse] at h
      cases h
    | some r =>
      obtain ⟨needs, seen1⟩ := r
      rw [huse] at h
      cases needs with
      | true => cases h
      | false =>
        obtain ⟨hlooked1, hallows1⟩ := needsUse_looks hvalue huse
        obtain ⟨hlooked2, hallows2⟩ := ih h
        refine ⟨hlooked1.trans hlooked2, fun u hu => ?_⟩
        rcases mem_cons.mp hu with rfl | hu
        · exact hallows1.mono hlooked2.1
        · exact hallows2 u hu

lemma needsValue_looks (fuel : Nat) : a.Looks (a.needsValue appends fuel) := by
  induction fuel with
  | zero => exact fun _ _ _ h => by cases h
  | succ fuel ih =>
    intro seen v seen' h
    rw [needsValue] at h
    by_cases htrack : (!v.trackUseChain) = true
    · rw [if_pos htrack] at h
      obtain ⟨-, rfl⟩ := Prod.mk.inj (some.inj h)
      refine ⟨.refl _, fun htrue => ?_⟩
      rw [htrue] at htrack
      cases htrack
    · rw [if_neg htrack] at h
      rw [not_eq_true, not_eq_false'] at htrack
      by_cases hseen : v ∈ seen
      · rw [if_pos hseen] at h
        obtain ⟨-, rfl⟩ := Prod.mk.inj (some.inj h)
        exact ⟨.refl _, fun _ => hseen⟩
      · rw [if_neg hseen] at h
        by_cases happ : (!appends seen.length) = true
        · rw [if_pos happ] at h
          cases h
        · rw [if_neg happ] at h
          obtain ⟨hlooked, hallows⟩ := needsUses_looks ih h
          have hsub : seen ⊆ seen ++ [v] := subset_append_left _ _
          have hv : v ∈ seen' := hlooked.1 (mem_append_right _ (mem_singleton_self v))
          refine ⟨⟨List.Subset.trans hsub hlooked.1, fun w hw => ?_, fun w hw => ?_⟩, fun _ => hv⟩
          · rcases hlooked.2.1 w hw with hw | hw
            · rcases mem_append.mp hw with hw | hw
              · exact .inl hw
              · rw [mem_singleton.mp hw]
                exact .inr htrack
            · exact .inr hw
          · rcases hlooked.2.2 w hw with hw | hw
            · rcases mem_append.mp hw with hw | hw
              · exact .inl hw
              · rw [mem_singleton.mp hw]
                exact .inr hallows
            · exact .inr hw

/-- What a walk without need has seen: a set that the uses allowed do not lead out of. -/
lemma seen_of_not_needed (h : a.needsArgsObj appends = some false) :
    ∃ seen, .pushed a.argumentsBytecode 0 ∈ seen ∧ (∀ v ∈ seen, v.trackUseChain = true) ∧
      ∀ v ∈ seen, ∀ use ∈ a.useChain v, a.Allows seen use := by
  rw [needsArgsObj] at h
  split_ifs at h
  · cases h
  · cases hwalk : a.needsValue appends (a.values.length + 1) [] (.pushed a.argumentsBytecode 0) with
    | none =>
      rw [hwalk] at h
      cases h
    | some r =>
      obtain ⟨needs, seen⟩ := r
      rw [hwalk] at h
      obtain rfl : needs = false := some.inj h
      obtain ⟨hlooked, hmem⟩ := needsValue_looks _ _ _ _ hwalk
      refine ⟨seen, hmem rfl, fun v hv => ?_, fun v hv => ?_⟩
      · exact (hlooked.2.1 v hv).resolve_left not_mem_nil
      · exact (hlooked.2.2 v hv).resolve_left not_mem_nil

end ScriptAnalysis

/-! ## Executions -/

variable {V W : Type} {a : ScriptAnalysis} {m : Machine V W} {arguments : V} {start f f' : Frame V W}

/-- `d` is the definition that `v` names, or one of those reachable through the options of a phi. -/
inductive Names (a : ScriptAnalysis) : SsaValue → SsaValue → Prop
  | self (v : SsaValue) : Names a v v
  | option {offset node : Nat} {v d : SsaValue} : v ∈ a.phiOptions offset node → Names a v d →
      Names a (.phi offset node) d

/-- The SSA names and the use chains are sound for an execution. -/
structure SoundNames (a : ScriptAnalysis) (m : Machine V W) (arguments : V) (start : Frame V W) :
    Prop where
  names : ∀ f, Executes a m arguments start f → ∀ (which : Nat) (x : Traced V),
    (a.operands f)[which]? = some x → Names a (a.poppedValues f.offset which) x.definition
  poppedUse : ∀ f, Executes a m arguments start f → ∀ (which : Nat) (x : Traced V),
    (a.operands f)[which]? = some x → (a.poppedValues f.offset which).trackUseChain = true →
      .popped f.offset which ∈ a.useChain (a.poppedValues f.offset which)
  phiUse : ∀ offset node, ∀ v ∈ a.phiOptions offset node, v.trackUseChain = true →
    .phi offset node ∈ a.useChain v

/-- The ops that read the arguments, by the operand that they read. -/
def ReadsArguments : JsOp → Nat → Prop
  | .getElem, which => which = 1
  | .length, which => which = 0
  | .funApply argc, which => argc = 2 ∧ which = 0
  | _, _ => False

/-- What is done to a value that comes from `JSOP_ARGUMENTS`: it is popped, its elements or its length
are read, it is the array of an apply with two arguments, or it is copied to or from a tracked local. -/
def Consumes (a : ScriptAnalysis) (op : JsOp) (which : Nat) : Prop :=
  op = .pop ∨ (∃ n, op = .popN n) ∨ ReadsArguments op which ∨
    (∃ slot, (op = .setLocal slot ∨ op = .getLocal slot) ∧ a.trackSlot slot = true)

/-- Reading elements, the length or the arguments of an apply gives the same of two values, and
computes what it pushes. -/
structure ReadsAlike (a : ScriptAnalysis) (m : Machine V W) (v w : V) : Prop where
  alike : ∀ offset world before after outcome, ReadsArguments (a.op offset) before.length →
    (m.exec offset world (before ++ v :: after) outcome ↔
      m.exec offset world (before ++ w :: after) outcome)
  computes : ∀ offset world operands world' pushes write offset' which,
    ReadsArguments (a.op offset) which →
    m.exec offset world operands (.next world' pushes write offset') →
    (∀ p ∈ pushes, ∃ v, p = .computed v) ∧ write = none

/-- Nothing in the frame comes from `JSOP_ARGUMENTS` yet. -/
def Frame.Initial (f : Frame V W) : Prop :=
  f.stack = [] ∧ ∀ slot, (f.slots slot).fromArguments = false

/-- A value that comes from `JSOP_ARGUMENTS` is what that pushed, and its definition was seen. -/
def Traced.Seen (seen : List SsaValue) (arguments : V) (x : Traced V) : Prop :=
  x.fromArguments = true → x.definition ∈ seen ∧ x.value = arguments

def Frame.Seen (seen : List SsaValue) (arguments : V) (f : Frame V W) : Prop :=
  (∀ x ∈ f.stack, x.Seen seen arguments) ∧ ∀ slot, (f.slots slot).Seen seen arguments

/-- The set of values that the walk has seen. -/
structure Closed (a : ScriptAnalysis) (seen : List SsaValue) : Prop where
  arguments : .pushed a.argumentsBytecode 0 ∈ seen
  tracked : ∀ v ∈ seen, v.trackUseChain = true
  allows : ∀ v ∈ seen, ∀ use ∈ a.useChain v, a.Allows seen use

variable {seen : List SsaValue}

/-- A name for a definition that was seen was seen: the walk goes from an option to its phi. -/
lemma Closed.name_mem (h : Closed a seen) (hphi : ∀ offset node, ∀ v ∈ a.phiOptions offset node,
      v.trackUseChain = true → .phi offset node ∈ a.useChain v) {v d : SsaValue}
    (hnames : Names a v d) (hd : d ∈ seen) : v ∈ seen := by
  induction hnames with
  | self v => exact hd
  | option hmem _ ih =>
    have hv := ih hd
    exact h.allows _ hv _ (hphi _ _ _ hmem (h.tracked _ hv))

/-- The use of an operand that comes from `JSOP_ARGUMENTS` is one that the walk has allowed. -/
lemma allows_operand (hclosed : Closed a seen) (hsound : SoundNames a m arguments start)
    (hf : Executes a m arguments start f) {which : Nat} {x : Traced V}
    (hx : (a.operands f)[which]? = some x) (hseen : x.Seen seen arguments)
    (hfrom : x.fromArguments = true) : a.Allows seen (.popped f.offset which) := by
  have hname := hclosed.name_mem hsound.phiUse (hsound.names f hf which x hx) (hseen hfrom).1
  exact hclosed.allows _ hname _ (hsound.poppedUse f hf which x hx (hclosed.tracked _ hname))

lemma consumes_of_allows {offset which : Nat} (h : a.Allows seen (.popped offset which))
    (hwhich : a.op offset = .length → which = 0) (hlocal : ∀ slot, a.op offset = .getLocal slot →
      a.trackSlot slot = true) : Consumes a (a.op offset) which := by
  rw [ScriptAnalysis.Allows] at h
  cases hop : a.op offset with
  | pop => exact .inl rfl
  | popN n => exact .inr (.inl ⟨n, rfl⟩)
  | getElem =>
    rw [hop] at h
    exact .inr (.inr (.inl h))
  | length => exact .inr (.inr (.inl (hwhich hop)))
  | funApply argc =>
    rw [hop] at h
    exact .inr (.inr (.inl h))
  | setLocal slot =>
    rw [hop] at h
    exact .inr (.inr (.inr ⟨slot, .inl rfl, h.1⟩))
  | getLocal slot => exact .inr (.inr (.inr ⟨slot, .inr rfl, hlocal slot hop⟩))
  | arguments =>
    rw [hop] at h
    exact h.elim
  | other nuses slot =>
    rw [hop] at h
    exact h.elim

/-- Each operand that comes from `JSOP_ARGUMENTS` is consumed in one of the ways allowed. -/
lemma consumes_operand (hclosed : Closed a seen) (hsound : SoundNames a m arguments start)
    (hf : Executes a m arguments start f) {which : Nat} {x : Traced V}
    (hx : (a.operands f)[which]? = some x) (hseen : x.Seen seen arguments)
    (hfrom : x.fromArguments = true) : Consumes a (a.op f.offset) which := by
  refine consumes_of_allows (allows_operand hclosed hsound hf hx hseen hfrom) ?_ fun slot hop => ?_
  · intro hop
    have hlt := (List.getElem?_eq_some_iff.mp hx).1
    have hoperands : a.operands f = f.stack.take 1 := by
      rw [ScriptAnalysis.operands, hop]
      exact append_nil _
    rw [hoperands] at hlt
    exact Nat.lt_one_iff.mp (Nat.lt_of_lt_of_le hlt (length_take_le 1 f.stack))
  · by_contra htrack
    have hoperands : a.operands f = [] := by
      rw [ScriptAnalysis.operands, hop]
      exact if_neg htrack
    rw [hoperands] at hx
    cases hx

lemma readsArguments_of_consumes {which : Nat} (hmove : a.isMove f.offset = false)
    (h : Consumes a (a.op f.offset) which) : ReadsArguments (a.op f.offset) which := by
  rw [ScriptAnalysis.isMove] at hmove
  rcases h with hop | ⟨n, hop⟩ | hreads | ⟨slot, hop | hop, htrack⟩
  · rw [hop] at hmove
    cases hmove
  · rw [hop] at hmove
    cases hmove
  · exact hreads
  · rw [hop] at hmove
    exact absurd (htrack.symm.trans hmove) nofun
  · rw [hop] at hmove
    exact absurd (htrack.symm.trans hmove) nofun

lemma readsArguments_unique {op : JsOp} {i j : Nat} (hi : ReadsArguments op i)
    (hj : ReadsArguments op j) : i = j := by
  cases op with
  | getElem => exact Eq.trans hi (Eq.symm hj)
  | length => exact Eq.trans hi (Eq.symm hj)
  | funApply argc => exact hi.2.trans hj.2.symm
  | arguments => exact hi.elim
  | pop => exact hi.elim
  | popN n => exact hi.elim
  | setLocal slot => exact hi.elim
  | getLocal slot => exact hi.elim
  | other nuses slot => exact hi.elim

/-! ## Another value in place of the arguments object -/

/-- The value with `v` for what comes from `JSOP_ARGUMENTS`. -/
def Traced.replace (v : V) (x : Traced V) : Traced V :=
  if x.fromArguments then { x with value := v } else x

def Frame.replace (v : V) (f : Frame V W) : Frame V W :=
  ⟨f.world, f.offset, f.stack.map (·.replace v), fun slot => (f.slots slot).replace v⟩

variable {v : V}

lemma replace_of_not {x : Traced V} (h : x.fromArguments = false) : x.replace v = x := by
  rw [Traced.replace, h, if_neg Bool.false_ne_true]

lemma replace_with (x : Traced V) (d : SsaValue) :
    ({ x with definition := d } : Traced V).replace v = { x.replace v with definition := d } := by
  rw [Traced.replace, Traced.replace]
  dsimp only
  split_ifs <;> rfl

lemma operands_replace (f : Frame V W) :
    a.operands (f.replace v) = (a.operands f).map (·.replace v) := by
  rw [ScriptAnalysis.operands, ScriptAnalysis.operands, map_append, map_take]
  have hoffset : (f.replace v).offset = f.offset := rfl
  rw [hoffset]
  cases (a.op f.offset).extendedUse with
  | none => rfl
  | some slot =>
    dsimp only
    split_ifs <;> rfl

lemma eval_replace (operands : List (Traced V)) (d : SsaValue) (p : Produced V) :
    p.eval (operands.map (·.replace v)) d = (p.eval operands d).map (·.replace v) := by
  cases p with
  | computed w => rfl
  | copied operand sameDefinition =>
    rw [Produced.eval, Produced.eval, List.getElem?_map]
    cases operands[operand]? with
    | none => rfl
    | some x =>
      cases sameDefinition with
      | true => rfl
      | false => exact congrArg some (replace_with x d).symm

lemma pushAll_replace (operands : List (Traced V)) (offset index : Nat)
    (pushes : List (Produced V)) : pushAll (operands.map (·.replace v)) offset index pushes =
      (pushAll operands offset index pushes).map (List.map (·.replace v)) := by
  induction pushes generalizing index with
  | nil => rfl
  | cons p ps ih =>
    rw [pushAll, pushAll, eval_replace, ih]
    cases p.eval operands (.pushed offset index) with
    | none => rfl
    | some x =>
      cases pushAll operands offset (index + 1) ps with
      | none => rfl
      | some xs =>
        change some _ = some ((xs ++ [x]).map _)
        rw [map_append]
        rfl

lemma writeSlot_replace (operands : List (Traced V)) (f : Frame V W)
    (write : Option (Produced V)) :
    writeSlot a (operands.map (·.replace v)) (f.replace v) write =
      (writeSlot a operands f write).map fun slots slot => (slots slot).replace v := by
  cases write with
  | none => rfl
  | some p =>
    have hoffset : (f.replace v).offset = f.offset := rfl
    rw [writeSlot, writeSlot, hoffset]
    cases (a.op f.offset).extendedUse with
    | none => rfl
    | some slot =>
      dsimp only
      by_cases htrack : a.trackSlot slot = true
      · rw [if_pos htrack, if_pos htrack, eval_replace]
        cases p.eval operands (.written slot f.offset) with
        | none => rfl
        | some x =>
          refine congrArg some (funext fun i => ?_)
          change (if i = slot then _ else _) = Traced.replace v (if i = slot then _ else _)
          by_cases hi : i = slot
          · rw [if_pos hi, if_pos hi]
            exact (replace_with x _).symm
          · rw [if_neg hi, if_neg hi]
            rfl
      · rw [if_neg htrack, if_neg htrack]
        rfl

lemma map_replace_of_not {xs : List (Traced V)} (h : ∀ x ∈ xs, x.fromArguments = false) :
    xs.map (·.replace v) = xs := by
  rw [map_congr_left fun x hx => replace_of_not (h x hx)]
  exact map_id' xs

/-- An op reads the other value as it reads the arguments object. -/
lemma exec_replace (halike : ReadsAlike a m arguments v) {offset : Nat} {world : W}
    {xs : List (Traced V)} (hreads : ∀ (i : Nat) (x : Traced V), xs[i]? = some x →
      x.fromArguments = true → ReadsArguments (a.op offset) i ∧ x.value = arguments)
    (outcome : Outcome V W) : m.exec offset world (xs.map Traced.value) outcome ↔
      m.exec offset world ((xs.map (·.replace v)).map Traced.value) outcome := by
  by_cases hsome : ∃ x ∈ xs, x.fromArguments = true
  · obtain ⟨x, hx, hfrom⟩ := hsome
    obtain ⟨before, after, rfl⟩ := append_of_mem hx
    have hhere : (before ++ x :: after)[before.length]? = some x := by
      rw [List.getElem?_append_right (Nat.le_refl _), Nat.sub_self]
      rfl
    obtain ⟨hread, hvalue⟩ := hreads before.length x hhere hfrom
    -- an op reads the arguments in one operand only
    have hbefore : ∀ y ∈ before, y.fromArguments = false := by
      intro y hy
      by_contra hnot
      obtain ⟨i, hi, rfl⟩ := getElem_of_mem hy
      have hat : (before ++ x :: after)[i]? = some before[i] := by
        rw [List.getElem?_append_left hi, List.getElem?_eq_getElem hi]
      have heq := readsArguments_unique hread
        (hreads i _ hat ((not_eq_false _).mp hnot)).1
      omega
    have hafter : ∀ y ∈ after, y.fromArguments = false := by
      intro y hy
      by_contra hnot
      obtain ⟨i, hi, rfl⟩ := getElem_of_mem hy
      have hat : (before ++ x :: after)[before.length + (i + 1)]? = some after[i] := by
        rw [List.getElem?_append_right (Nat.le_add_right _ _), Nat.add_sub_cancel_left,
          List.getElem?_cons_succ, List.getElem?_eq_getElem hi]
      have heq := readsArguments_unique hread
        (hreads _ _ hat ((not_eq_false _).mp hnot)).1
      omega
    have hmap : (before ++ x :: after).map (·.replace v) = before ++ x.replace v :: after := by
      rw [map_append, map_cons, map_replace_of_not hbefore, map_replace_of_not hafter]
    have hnew : (x.replace v).value = v := by
      rw [Traced.replace, hfrom, if_pos rfl]
    rw [hmap, map_append, map_append, map_cons, map_cons, hvalue, hnew]
    refine halike.alike offset world _ _ outcome ?_
    rw [length_map]
    exact hread
  · have hnone : ∀ x ∈ xs, x.fromArguments = false := by
      intro x hx
      by_contra hnot
      exact hsome ⟨x, hx, (not_eq_false _).mp hnot⟩
    rw [map_replace_of_not hnone]

/-! ## Steps -/

lemma operand_seen (hseen : f.Seen seen arguments) {x : Traced V} (hx : x ∈ a.operands f) :
    x.Seen seen arguments := by
  rw [ScriptAnalysis.operands, mem_append] at hx
  rcases hx with hx | hx
  · exact hseen.1 x (mem_of_mem_take hx)
  · cases hslot : (a.op f.offset).extendedUse with
    | none =>
      rw [hslot] at hx
      cases hx
    | some slot =>
      rw [hslot] at hx
      dsimp only at hx
      split_ifs at hx
      · rw [mem_singleton.mp hx]
        exact hseen.2 slot
      · cases hx

lemma eval_computed {operands : List (Traced V)} {d : SsaValue} {p : Produced V} {x : Traced V}
    (h : p.eval operands d = some x)
    (hp : (∃ w, p = .computed w) ∨ ∀ y ∈ operands, y.fromArguments = false) :
    x.fromArguments = false := by
  cases p with
  | computed w =>
    rw [← some.inj h]
  | copied operand sameDefinition =>
    rw [Produced.eval] at h
    cases hy : operands[operand]? with
    | none =>
      rw [hy] at h
      cases h
    | some y =>
      rw [hy] at h
      have hfrom : y.fromArguments = false := by
        rcases hp with ⟨w, hw⟩ | hp
        · cases hw
        · exact hp y (mem_of_getElem? hy)
      rw [← some.inj h]
      split_ifs
      · exact hfrom
      · exact hfrom

lemma pushAll_computed {operands : List (Traced V)} {offset index : Nat}
    {pushes : List (Produced V)} {xs : List (Traced V)}
    (h : pushAll operands offset index pushes = some xs)
    (hp : (∀ p ∈ pushes, ∃ w, p = .computed w) ∨ ∀ y ∈ operands, y.fromArguments = false) :
    ∀ x ∈ xs, x.fromArguments = false := by
  induction pushes generalizing index xs with
  | nil =>
    rw [← some.inj h]
    exact fun x hx => absurd hx not_mem_nil
  | cons p ps ih =>
    rw [pushAll] at h
    cases hx : p.eval operands (.pushed offset index) with
    | none =>
      rw [hx] at h
      cases h
    | some x =>
      cases hxs : pushAll operands offset (index + 1) ps with
      | none =>
        rw [hx, hxs] at h
        cases h
      | some xs' =>
        rw [hx, hxs] at h
        rw [← some.inj h]
        intro y hy
        rcases mem_append.mp hy with hy | hy
        · exact ih hxs (hp.imp_left fun hall p hp => hall p (mem_cons_of_mem _ hp)) y hy
        · rw [mem_singleton.mp hy]
          exact eval_computed hx (hp.imp_left fun hall => hall p (mem_cons_self ..))

lemma writeSlot_seen (hseen : f.Seen seen arguments) {operands : List (Traced V)}
    {write : Option (Produced V)} {slots : Nat → Traced V}
    (h : writeSlot a operands f write = some slots)
    (hp : write = none ∨ ∀ y ∈ operands, y.fromArguments = false) (slot : Nat) :
    (slots slot).Seen seen arguments := by
  cases write with
  | none =>
    rw [← some.inj h]
    exact hseen.2 slot
  | some p =>
    have hnone : ∀ y ∈ operands, y.fromArguments = false := hp.resolve_left nofun
    rw [writeSlot] at h
    cases hext : (a.op f.offset).extendedUse with
    | none =>
      rw [hext] at h
      cases h
    | some written =>
      rw [hext] at h
      dsimp only at h
      split_ifs at h
      · cases hx : p.eval operands (.written written f.offset) with
        | none =>
          rw [hx] at h
          cases h
        | some x =>
          rw [hx] at h
          rw [← some.inj h]
          dsimp only
          split_ifs
          · intro hfrom
            have hnot : x.fromArguments = false := eval_computed hx (.inr hnone)
            exact absurd (hfrom.symm.trans hnot) nofun
          · exact hseen.2 slot
      · rw [← some.inj h]
        exact hseen.2 slot

lemma seen_initial (h : f.Initial) : f.Seen seen arguments := by
  constructor
  · rw [h.1]
    exact fun x hx => absurd hx not_mem_nil
  · exact fun slot hfrom => absurd (hfrom.symm.trans (h.2 slot)) nofun

lemma replace_initial (h : f.Initial) : f.replace v = f := by
  obtain ⟨world, offset, stack, slots⟩ := f
  obtain ⟨hstack, hslots⟩ := h
  dsimp only at hstack hslots
  rw [hstack, Frame.replace, funext fun slot => replace_of_not (hslots slot)]
  rfl

lemma frame_replace {world : W} {offset : Nat} {stack stack' : List (Traced V)}
    {slots slots' : Nat → Traced V} (hstack : stack.map (·.replace v) = stack')
    (hslots : ∀ slot, (slots slot).replace v = slots' slot) :
    (⟨world, offset, stack, slots⟩ : Frame V W).replace v = ⟨world, offset, stack', slots'⟩ := by
  rw [Frame.replace]
  dsimp only
  rw [hstack, funext hslots]

lemma map_cons_replace (x : Traced V) (d : SsaValue) (xs : List (Traced V)) :
    ({ x with definition := d } :: xs).map (·.replace v) =
      { x.replace v with definition := d } :: xs.map (·.replace v) := by
  rw [map_cons, replace_with]

lemma ite_replace (slots : Nat → Traced V) (x : Traced V) (d : SsaValue) (slot i : Nat) :
    (if i = slot then { x with definition := d } else slots i).replace v =
      if i = slot then { x.replace v with definition := d } else (slots i).replace v := by
  split_ifs
  · exact replace_with x d
  · rfl

lemma map_append_drop (xs ys : List (Traced V)) (n : Nat) :
    (xs ++ ys.drop n).map (·.replace v) =
      xs.map (·.replace v) ++ (ys.map (·.replace v)).drop n := by
  rw [map_append, map_drop]

lemma map_cut (xs : List (Traced V)) (depth : Nat) :
    (xs.drop (xs.length - depth)).map (·.replace v) =
      (xs.map (·.replace v)).drop ((xs.map (·.replace v)).length - depth) := by
  rw [map_drop, length_map]

section

variable (hclosed : Closed a seen) (hsound : SoundNames a m arguments start)
  (halike : ReadsAlike a m arguments v)

include hclosed hsound

/-- The operands of an op that does more than move values. -/
lemma reads_operand (hf : Executes a m arguments start f) (hseen : f.Seen seen arguments)
    (hmove : a.isMove f.offset = false) (which : Nat) (x : Traced V)
    (hx : (a.operands f)[which]? = some x) (hfrom : x.fromArguments = true) :
    ReadsArguments (a.op f.offset) which ∧ x.value = arguments := by
  have hxs := operand_seen hseen (mem_of_getElem? hx)
  exact ⟨readsArguments_of_consumes hmove (consumes_operand hclosed hsound hf hx hxs hfrom),
    (hxs hfrom).2⟩

include halike

lemma step_seen (hf : Executes a m arguments start f) (hseen : f.Seen seen arguments)
    (hstep : Step a m arguments f f') : f'.Seen seen arguments := by
  cases hstep with
  | arguments hop =>
    refine ⟨fun x hx => ?_, hseen.2⟩
    rcases mem_cons.mp hx with rfl | hx
    · intro _
      rw [a.arguments_eq _ hop]
      exact ⟨hclosed.arguments, rfl⟩
    · exact hseen.1 x hx
  | pop hop => exact ⟨fun x hx => hseen.1 x (mem_of_mem_drop hx), hseen.2⟩
  | popN hop => exact ⟨fun x hx => hseen.1 x (mem_of_mem_drop hx), hseen.2⟩
  | @getLocal slot hop htrack =>
    refine ⟨fun x hx => ?_, hseen.2⟩
    rcases mem_cons.mp hx with rfl | hx
    · exact hseen.2 slot
    · exact hseen.1 x hx
  | @setLocal slot x stack hop htrack hstack =>
    have hx : (a.operands f)[0]? = some x := by
      rw [ScriptAnalysis.operands, hop, hstack]
      rfl
    have hxs : x.Seen seen arguments := hseen.1 x (by rw [hstack]; exact mem_cons_self ..)
    -- the copies are definitions that the walk has gone on to
    have hnew (hfrom : x.fromArguments = true) :
        .pushed f.offset 0 ∈ seen ∧ .written slot f.offset ∈ seen := by
      have hallows := allows_operand hclosed hsound hf hx hxs hfrom
      rw [ScriptAnalysis.Allows, hop] at hallows
      exact hallows.2
    constructor
    · intro y hy
      rcases mem_cons.mp hy with rfl | hy
      · exact fun hfrom => ⟨(hnew hfrom).1, (hxs hfrom).2⟩
      · exact hseen.1 y (by rw [hstack]; exact mem_cons_of_mem _ hy)
    · intro i
      dsimp only
      split_ifs
      · exact fun hfrom => ⟨(hnew hfrom).2, (hxs hfrom).2⟩
      · exact hseen.2 i
  | @exec world pushes write offset pushed slots hmove hexec hpushed hslots =>
    have hcomputes : ((∀ p ∈ pushes, ∃ w, p = .computed w) ∧ write = none) ∨
        ∀ y ∈ a.operands f, y.fromArguments = false := by
      by_cases hsome : ∃ y ∈ a.operands f, y.fromArguments = true
      · obtain ⟨y, hy, hfrom⟩ := hsome
        obtain ⟨which, hwhich⟩ := List.getElem?_of_mem hy
        obtain ⟨hreads, -⟩ := reads_operand hclosed hsound hf hseen hmove which y hwhich hfrom
        exact .inl (halike.computes _ _ _ _ _ _ _ which hreads hexec)
      · refine .inr fun y hy => ?_
        by_contra hnot
        exact hsome ⟨y, hy, (not_eq_false _).mp hnot⟩
    constructor
    · intro x hx
      rcases mem_append.mp hx with hx | hx
      · intro hfrom
        have hnot := pushAll_computed hpushed (hcomputes.imp_left And.left) x hx
        exact absurd (hfrom.symm.trans hnot) nofun
      · exact hseen.1 x (mem_of_mem_drop hx)
    · exact writeSlot_seen hseen hslots (hcomputes.imp_left And.right)
  | thrown hmove hexec => exact ⟨fun x hx => hseen.1 x (mem_of_mem_drop hx), hseen.2⟩

lemma executes_seen (hstart : start.Seen seen arguments) (hf : Executes a m arguments start f) :
    f.Seen seen arguments := by
  induction hf with
  | start => exact hstart
  | step hf hstep ih => exact step_seen hclosed hsound halike hf ih hstep

/-- A step with the arguments object is one with the other value. -/
lemma step_replace (hf : Executes a m arguments start f) (hseen : f.Seen seen arguments)
    (hstep : Step a m arguments f f') : Step a m v (f.replace v) (f'.replace v) := by
  have hexec (hmove : a.isMove f.offset = false) (outcome : Outcome V W)
      (h : m.exec f.offset f.world ((a.operands f).map Traced.value) outcome) :
      m.exec f.offset f.world ((a.operands (f.replace v)).map Traced.value) outcome := by
    rw [operands_replace]
    exact (exec_replace halike (reads_operand hclosed hsound hf hseen hmove) outcome).mp h
  cases hstep with
  | arguments hop => exact .arguments (f := f.replace v) hop
  | pop hop =>
    have hstep := @Step.pop V W a m v (f.replace v) hop
    exact (congrArg (Step a m v _) (frame_replace (map_drop ..) fun _ => rfl)).mpr hstep
  | popN hop =>
    have hstep := @Step.popN V W a m v (f.replace v) _ hop
    exact (congrArg (Step a m v _) (frame_replace (map_drop ..) fun _ => rfl)).mpr hstep
  | getLocal hop htrack => exact @Step.getLocal V W a m v (f.replace v) _ hop htrack
  | @setLocal slot x stack hop htrack hstack =>
    have hstack' : (f.replace v).stack = x.replace v :: stack.map (·.replace v) := by
      rw [Frame.replace, hstack]
      rfl
    have hstep := @Step.setLocal V W a m v (f.replace v) slot _ _ hop htrack hstack'
    exact (congrArg (Step a m v _)
      (frame_replace (map_cons_replace x _ stack) (ite_replace f.slots x _ slot))).mpr hstep
  | @exec world pushes write offset pushed slots hmove hrun hpushed hslots =>
    have hpushed' : pushAll (a.operands (f.replace v)) f.offset 0 pushes =
        some (pushed.map (·.replace v)) := by
      rw [operands_replace, pushAll_replace, hpushed]
      rfl
    have hslots' : writeSlot a (a.operands (f.replace v)) (f.replace v) write =
        some fun slot => (slots slot).replace v := by
      rw [operands_replace, writeSlot_replace, hslots]
      rfl
    have hstep := @Step.exec V W a m v (f.replace v) _ _ _ _ _ _ hmove (hexec hmove _ hrun)
      hpushed' hslots'
    exact (congrArg (Step a m v _)
      (frame_replace (map_append_drop pushed f.stack _) fun _ => rfl)).mpr hstep
  | @thrown world depth offset hmove hrun =>
    have hstep := @Step.thrown V W a m v (f.replace v) _ _ _ hmove (hexec hmove _ hrun)
    exact (congrArg (Step a m v _) (frame_replace (map_cut f.stack depth) fun _ => rfl)).mpr hstep

/-- And the other way round. -/
lemma step_of_replace (hf : Executes a m arguments start f) (hseen : f.Seen seen arguments)
    {g : Frame V W} (hstep : Step a m v (f.replace v) g) :
    ∃ f', Step a m arguments f f' ∧ g = f'.replace v := by
  have hexec (hmove : a.isMove f.offset = false) (outcome : Outcome V W)
      (h : m.exec f.offset f.world ((a.operands (f.replace v)).map Traced.value) outcome) :
      m.exec f.offset f.world ((a.operands f).map Traced.value) outcome := by
    rw [operands_replace] at h
    exact (exec_replace halike (reads_operand hclosed hsound hf hseen hmove) outcome).mpr h
  cases hstep with
  | arguments hop => exact ⟨_, @Step.arguments V W a m arguments f hop, rfl⟩
  | pop hop =>
    exact ⟨_, @Step.pop V W a m arguments f hop,
      (frame_replace (map_drop ..) fun _ => rfl).symm⟩
  | popN hop =>
    exact ⟨_, @Step.popN V W a m arguments f _ hop,
      (frame_replace (map_drop ..) fun _ => rfl).symm⟩
  | getLocal hop htrack => exact ⟨_, @Step.getLocal V W a m arguments f _ hop htrack, rfl⟩
  | @setLocal slot x stack hop htrack hstack =>
    obtain ⟨y, ys, hys, rfl, rfl⟩ := map_eq_cons_iff.mp hstack
    exact ⟨_, @Step.setLocal V W a m arguments f slot _ _ hop htrack hys,
      (frame_replace (map_cons_replace y _ ys) (ite_replace f.slots y _ slot)).symm⟩
  | @exec world pushes write offset pushed slots hmove hrun hpushed hslots =>
    rw [operands_replace] at hpushed hslots
    change pushAll _ f.offset 0 pushes = _ at hpushed
    rw [pushAll_replace] at hpushed
    rw [writeSlot_replace] at hslots
    obtain ⟨xs, hxs, rfl⟩ := map_eq_some_iff.mp hpushed
    obtain ⟨ys, hys, rfl⟩ := map_eq_some_iff.mp hslots
    exact ⟨_, .exec hmove (hexec hmove _ hrun) hxs hys,
      (frame_replace (map_append_drop xs f.stack _) fun _ => rfl).symm⟩
  | @thrown world depth offset hmove hrun =>
    exact ⟨_, .thrown hmove (hexec hmove _ hrun),
      (frame_replace (map_cut f.stack depth) fun _ => rfl).symm⟩

lemma finishes_replace (hf : Executes a m arguments start f) (hseen : f.Seen seen arguments)
    (world : W) (result : Option V) :
    Finishes a m (f.replace v) world result ↔ Finishes a m f world result := by
  refine and_congr_right fun hmove => ?_
  rw [operands_replace]
  exact (exec_replace halike (reads_operand hclosed hsound hf hseen hmove) _).symm

lemma executes_replace (hstart : start.Initial) (g : Frame V W) :
    Executes a m v start g ↔ ∃ f, Executes a m arguments start f ∧ g = f.replace v := by
  have hseen : start.Seen seen arguments := seen_initial hstart
  have hself : start.replace v = start := replace_initial hstart
  constructor
  · intro hg
    induction hg with
    | start => exact ⟨start, .start, hself.symm⟩
    | step hg hstep ih =>
      obtain ⟨f, hf, rfl⟩ := ih
      have hfseen := executes_seen hclosed hsound halike hseen hf
      obtain ⟨f', hstep', rfl⟩ := step_of_replace hclosed hsound halike hf hfseen hstep
      exact ⟨f', hf.step hstep', rfl⟩
  · rintro ⟨f, hf, rfl⟩
    induction hf with
    | start =>
      rw [hself]
      exact .start
    | step hf hstep ih =>
      have hfseen := executes_seen hclosed hsound halike hseen hf
      exact ih.step (step_replace hclosed hsound halike hf hfseen hstep)

end

/-- The walk ends; and where it finds no need, what comes from `JSOP_ARGUMENTS` is consumed in the
ways allowed only, and another value that these read alike changes nothing. -/
theorem needsArgsObj_sound (a : ScriptAnalysis) (appends : Nat → Bool) :
    (∃ needs, a.needsArgsObj appends = some needs) ∧
    (a.needsArgsObj appends = some false →
      ∀ {V W : Type} (m : Machine V W) (arguments v : V) (start : Frame V W), start.Initial →
        SoundNames a m arguments start → ReadsAlike a m arguments v →
        (∀ f, Executes a m arguments start f → ∀ which x, (a.operands f)[which]? = some x →
          x.fromArguments = true → Consumes a (a.op f.offset) which) ∧
        (∀ g, Executes a m v start g ↔
          ∃ f, Executes a m arguments start f ∧ g = f.replace v) ∧
        ∀ world result, (∃ g, Executes a m v start g ∧ Finishes a m g world result) ↔
          ∃ f, Executes a m arguments start f ∧ Finishes a m f world result) := by
  refine ⟨a.needsArgsObj_ends appends, fun hneeds V W m arguments v start hstart hsound halike => ?_⟩
  obtain ⟨seen, hmem, htracked, hallows⟩ := ScriptAnalysis.seen_of_not_needed hneeds
  have hclosed : Closed a seen := ⟨hmem, htracked, hallows⟩
  have hseen : start.Seen seen arguments := seen_initial hstart
  have hall (f : Frame V W) (hf : Executes a m arguments start f) : f.Seen seen arguments :=
    executes_seen hclosed hsound halike hseen hf
  refine ⟨fun f hf which x hx hfrom => ?_, executes_replace hclosed hsound halike hstart,
    fun world result => ⟨?_, ?_⟩⟩
  · exact consumes_operand hclosed hsound hf hx
      (operand_seen (hall f hf) (mem_of_getElem? hx)) hfrom
  · rintro ⟨g, hg, hfinishes⟩
    obtain ⟨f, hf, rfl⟩ := (executes_replace hclosed hsound halike hstart g).mp hg
    exact ⟨f, hf, (finishes_replace hclosed hsound halike hf (hall f hf) world result).mp hfinishes⟩
  · rintro ⟨f, hf, hfinishes⟩
    exact ⟨f.replace v, (executes_replace hclosed hsound halike hstart _).mpr ⟨f, hf, rfl⟩,
      (finishes_replace hclosed hsound halike hf (hall f hf) world result).mpr hfinishes⟩

/-- `return arguments.length` -/
def lengthScript : ScriptAnalysis where
  op offset := if offset = 0 then .arguments else if offset = 1 then .length else .other 1 none
  trackSlot _ := true
  poppedValues offset _ := if offset = 1 then .pushed 0 0 else if offset = 2 then .pushed 1 0 else .empty
  phiOptions _ _ := []
  useChains := [(.pushed 0 0, [.popped 1 0]), (.pushed 1 0, [.popped 2 0])]
  bindingsAccessedDynamically := false
  numClosedArgs := 0
  localsAliasStack := false
  debugMode := false
  isGenerator := false
  argumentsBytecode := 0
  arguments_eq offset h := by
    split_ifs at h with h0
    · exact h0

example : lengthScript.needsArgsObj (fun _ => true) = some false := by decide

/-- Two arguments; the value `7` is the arguments object, and `9` stands for it. -/
def lengthMachine : Machine Nat Unit where
  next offset := offset + 1
  exec offset _ operands outcome :=
    (offset = 1 ∧ (operands = [7] ∨ operands = [9]) ∧ outcome = .next () [.computed 2] none 2) ∨
      (offset = 2 ∧ ∃ x, operands = [x] ∧ outcome = .finished () (some x))

def lengthStart : Frame Nat Unit := ⟨(), 0, [], fun slot => ⟨0, .initial slot, false⟩⟩

lemma executes_length {f : Frame Nat Unit}
    (h : Executes lengthScript lengthMachine 7 lengthStart f) :
    f = lengthStart ∨
      f = { lengthStart with offset := 1, stack := [⟨7, .pushed 0 0, true⟩] } ∨
        f = { lengthStart with offset := 2, stack := [⟨2, .pushed 1 0, false⟩] } := by
  induction h with
  | start => exact .inl rfl
  | step _ hstep ih =>
    rcases ih with rfl | rfl | rfl
    · cases hstep with
      | arguments hop => exact .inr (.inl rfl)
      | pop hop => exact absurd hop (by decide)
      | popN hop => exact absurd hop nofun
      | getLocal hop => exact absurd hop nofun
      | setLocal hop => exact absurd hop nofun
      | exec hmove => exact absurd hmove (by decide)
      | thrown hmove => exact absurd hmove (by decide)
    · cases hstep with
      | arguments hop => exact absurd hop (by decide)
      | pop hop => exact absurd hop (by decide)
      | popN hop => exact absurd hop nofun
      | getLocal hop => exact absurd hop nofun
      | setLocal hop => exact absurd hop nofun
      | exec hmove hrun hpushed hslots =>
        rcases hrun with ⟨-, -, heq⟩ | ⟨heq, -⟩
        · cases heq
          cases hpushed
          cases hslots
          exact .inr (.inr rfl)
        · exact absurd heq (by decide)
      | thrown hmove hrun =>
        rcases hrun with ⟨-, -, heq⟩ | ⟨heq, -⟩
        · cases heq
        · exact absurd heq (by decide)
    · cases hstep with
      | arguments hop => exact absurd hop (by decide)
      | pop hop => exact absurd hop (by decide)
      | popN hop => exact absurd hop nofun
      | getLocal hop => exact absurd hop nofun
      | setLocal hop => exact absurd hop nofun
      | exec hmove hrun =>
        rcases hrun with ⟨heq, -⟩ | ⟨-, x, -, heq⟩
        · exact absurd heq (by decide)
        · cases heq
      | thrown hmove hrun =>
        rcases hrun with ⟨heq, -⟩ | ⟨-, x, -, heq⟩
        · exact absurd heq (by decide)
        · cases heq

lemma soundNames_length : SoundNames lengthScript lengthMachine 7 lengthStart where
  names f hf which x hx := by
    rcases executes_length hf with rfl | rfl | rfl
    · exact absurd hx nofun
    · cases which with
      | zero =>
        rw [← some.inj hx]
        exact .self _
      | succ which => exact absurd hx nofun
    · cases which with
      | zero =>
        rw [← some.inj hx]
        exact .self _
      | succ which => exact absurd hx nofun
  poppedUse f hf which x hx _ := by
    rcases executes_length hf with rfl | rfl | rfl
    · exact absurd hx nofun
    · cases which with
      | zero => exact mem_singleton_self _
      | succ which => exact absurd hx nofun
    · cases which with
      | zero => exact mem_singleton_self _
      | succ which => exact absurd hx nofun
  phiUse _ _ _ hv := absurd hv not_mem_nil

lemma readsAlike_length : ReadsAlike lengthScript lengthMachine 7 9 where
  alike offset _ before after outcome hreads := by
    by_cases h1 : offset = 1
    · subst h1
      obtain rfl : before = [] := length_eq_zero_iff.mp hreads
      constructor
      · rintro (⟨-, heq, hout⟩ | ⟨heq, -⟩)
        · refine .inl ⟨rfl, .inr ?_, hout⟩
          rcases heq with heq | heq
          · rw [(List.cons.inj heq).2]
            rfl
          · exact absurd (List.cons.inj heq).1 (by decide)
        · exact absurd heq (by decide)
      · rintro (⟨-, heq, hout⟩ | ⟨heq, -⟩)
        · refine .inl ⟨rfl, .inl ?_, hout⟩
          rcases heq with heq | heq
          · exact absurd (List.cons.inj heq).1 (by decide)
          · rw [(List.cons.inj heq).2]
            rfl
        · exact absurd heq (by decide)
    · by_cases h0 : offset = 0
      · subst h0
        exact hreads.elim
      · change ReadsArguments (if offset = 0 then _ else if offset = 1 then _ else _) _ at hreads
        rw [if_neg h0, if_neg h1] at hreads
        exact hreads.elim
  computes offset _ _ _ _ _ _ _ _ hrun := by
    rcases hrun with ⟨-, -, heq⟩ | ⟨-, x, -, heq⟩
    · cases heq
      refine ⟨fun p hp => ⟨2, mem_singleton.mp hp⟩, rfl⟩
    · cases heq

/-- With the other value the script returns the length as well. -/
theorem needsArgsObj_sound_length : ∃ g, Executes lengthScript lengthMachine 9 lengthStart g ∧
    Finishes lengthScript lengthMachine g () (some 2) := by
  have hsound := (needsArgsObj_sound lengthScript fun _ => true).2 (by decide) lengthMachine 7 9
    lengthStart ⟨rfl, fun _ => rfl⟩ soundNames_length readsAlike_length
  refine (hsound.2.2 () (some 2)).mpr ⟨_, .step (.step .start (.arguments rfl))
    (.exec rfl (.inl ⟨rfl, .inl rfl, rfl⟩) rfl rfl), rfl, .inr ⟨rfl, 2, rfl, rfl⟩⟩

end SpiderMonkey.Analyze
