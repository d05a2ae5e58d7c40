import SpiderMonkey.Ds.SortInPlace

/-! # What the sort in place does

A comparator that never fails is followed through the loops: each leaves a rearrangement of a part
of the array, and the rest as it was. With a comparator that decides a relation the rearrangement is
that of the sort of lists.
-/

namespace SpiderMonkey.Ds.InPlace

open SpiderMonkey.Lib List

variable {σ α β : Type}

/-- The step does not stop, and its value has a property. -/
def Returns (m : EStateM Stop σ β) (post : β → Prop) : Prop :=
  Triple (fun _ => True) m (fun a _ => post a) fun _ => False

namespace Returns

lemma pure {post : β → Prop} {a : β} (h : post a) : Returns (pure a : EStateM Stop σ β) post :=
  Triple.pure fun _ _ => h

lemma bind {γ : Type} {m : EStateM Stop σ β} {k : β → EStateM Stop σ γ} {mid : β → Prop}
    {post : γ → Prop} (hm : Returns m mid) (hk : ∀ a, mid a → Returns (k a) post) :
    Returns (m >>= k) post :=
  Triple.bind hm fun a => Triple.of_state fun _ ha =>
    Triple.weaken (hk a ha) (fun _ _ => trivial) fun _ _ h => h

lemma weaken {m : EStateM Stop σ β} {post post' : β → Prop} (hm : Returns m post)
    (h : ∀ a, post a → post' a) : Returns m post' :=
  Triple.weaken hm (fun _ h => h) fun a _ => h a

lemma run {m : EStateM Stop σ β} {post : β → Prop} (h : Returns m post) (s : σ) :
    ∃ a s', m s = .ok a s' ∧ post a := by
  have hs := h s trivial
  cases hms : m s with
  | ok a s' =>
    rw [hms] at hs
    exact ⟨a, s', rfl, hs⟩
  | error e s' =>
    rw [hms] at hs
    exact hs.elim

end Returns

/-! ## Comparators -/

def NeverFails (c : Comparator σ α) : Prop := ∀ a b s, (c a b s).isSome

/-- The answers are those of a relation. -/
def Decides (c : Comparator σ α) (le : α → α → Bool) : Prop :=
  ∀ a b s, (c a b s).map Prod.fst = some (le a b)

variable {c : Comparator σ α}

lemma returns_compare (hc : NeverFails c) (a b : α) :
    Returns (compare c a b) fun lessOrEqual => ∀ le, Decides c le → lessOrEqual = le a b := by
  intro s _
  have hsome := hc a b s
  rw [compare]
  cases hcall : c a b s with
  | none =>
    rw [hcall] at hsome
    cases hsome
  | some answer =>
    intro le hle
    have hanswer := hle a b s
    rw [hcall] at hanswer
    exact Option.some.inj hanswer

/-- A part of an array rearranged, and as `f` does it if the comparator decides a relation. -/
structure Rearranged (c : Comparator σ α) (l : List α) (f : (α → α → Bool) → List α)
    (l' : List α) : Prop where
  perm : l'.Perm l
  refines : ∀ le, Decides c le → l' = f le

/-! ## Accesses -/

lemma load_eq {v : Array α} {before after : List α} {x : α} {i : ℕ}
    (h : v.toList = before ++ x :: after) (hi : i = before.length) :
    load v i = (pure x : EStateM Stop σ α) := by
  have hx : v[i]? = some x := by
    rw [← Array.getElem?_toList, h, hi, List.getElem?_append_right (Nat.le_refl _), Nat.sub_self,
      List.getElem?_cons_zero]
  rw [load, hx]

lemma store_eq {v : Array α} {before after : List α} {x y : α} {i : ℕ}
    (h : v.toList = before ++ x :: after) (hi : i = before.length) :
    ∃ v', store v i y = (pure v' : EStateM Stop σ (Array α)) ∧
      v'.toList = before ++ y :: after := by
  have hsize : v.size = before.length + (after.length + 1) := by
    rw [← Array.length_toList, h, length_append, length_cons]
  refine ⟨v.setIfInBounds i y, if_pos (by omega), ?_⟩
  rw [Array.toList_setIfInBounds, h, hi, set_append_right _ _ (Nat.le_refl _), Nat.sub_self,
    set_cons_zero]

lemma returns_copy {src : Array α} {l : List α} (hl : l ≠ []) {before after : List α}
    {dst : Array α} {before' old after' : List α} (hsrc : src.toList = before ++ l ++ after)
    (hdst : dst.toList = before' ++ old ++ after') (hold : old.length = l.length) {s d n : ℕ}
    (hs : s = before.length) (hd : d = before'.length) (hn : n = l.length) :
    Returns (copyNonEmptyArray (σ := σ) dst d src s n) fun v =>
      v.toList = before' ++ l ++ after' := by
  subst hn
  induction l generalizing dst before before' old s d with
  | nil => exact absurd rfl hl
  | cons x l ih =>
    cases old with
    | nil => cases hold
    | cons y old =>
      rw [append_assoc, cons_append] at hsrc hdst
      rcases store_eq (σ := σ) (y := x) hdst hd with ⟨v, hstore, hv⟩
      rw [length_cons, copyNonEmptyArray, load_eq hsrc hs, pure_bind, hstore, pure_bind]
      split_ifs with hlast
      · -- the element was the last
        have hnil := length_eq_zero_iff.1 hlast
        subst hnil
        have hold' : old = [] := length_eq_zero_iff.1 (Nat.succ.inj hold)
        apply Returns.pure
        rw [hv, hold', append_assoc]
        rfl
      · have hne : l ≠ [] := fun hnil => hlast (length_eq_zero_iff.2 hnil)
        have hsrc' : src.toList = (before ++ [x]) ++ l ++ after := by simp [hsrc]
        have hv' : v.toList = (before' ++ [x]) ++ old ++ after' := by simp [hv]
        have hnext := ih hne hsrc' hv' (Nat.succ.inj hold)
          (s := s + 1) (by rw [hs, length_append, length_singleton])
          (d := d + 1) (by rw [hd, length_append, length_singleton])
        apply Returns.weaken hnext
        intro w hw
        simp [hw]

/-! ## The insertion sort -/

lemma returns_insertLoop (hc : NeverFails c) {before : List α} (hbefore : before ≠ [])
    {array : Array α} {pre after : List α} {x : α} {j : ℕ}
    (harray : array.toList = pre ++ before.reverse ++ x :: after)
    (hj : j = pre.length + before.length) :
    Returns (insertLoop c pre.length array j) fun v => ∃ l, v.toList = pre ++ l ++ after ∧
      Rearranged c (before.reverse ++ [x]) (fun le => (insertDown le before x).reverse) l := by
  induction before generalizing array after j with
  | nil => exact absurd rfl hbefore
  | cons p before ih =>
    rw [reverse_cons] at harray
    have hp : array.toList = (pre ++ before.reverse) ++ p :: (x :: after) := by simp [harray]
    have hx : array.toList = (pre ++ before.reverse ++ [p]) ++ x :: after := by simp [harray]
    obtain ⟨k, rfl⟩ : ∃ k, j = k + 1 := ⟨pre.length + before.length, hj⟩
    have hk : k = (pre ++ before.reverse).length := by
      rw [length_append, length_reverse]
      exact Nat.succ.inj hj
    have hk' : k + 1 = (pre ++ before.reverse ++ [p]).length := by
      rw [length_append, ← hk, length_singleton]
    rw [insertLoop, load_eq hp hk, pure_bind, load_eq hx hk', pure_bind]
    apply Returns.bind (returns_compare hc p x)
    intro lessOrEqual hanswer
    by_cases hle : lessOrEqual = true
    · -- the element stays
      rw [if_pos hle]
      apply Returns.pure
      refine ⟨before.reverse ++ [p] ++ [x], by simp [hx], ?_⟩
      rw [reverse_cons]
      refine ⟨List.Perm.refl _, ?_⟩
      intro le hdecides
      rw [insertDown, if_pos ((hanswer le hdecides).symm.trans hle), reverse_cons,
        reverse_cons]
    · rcases store_eq (σ := σ) (y := x) hp hk with ⟨v, hstore, hv⟩
      have hv' : v.toList = (pre ++ before.reverse ++ [x]) ++ x :: after := by simp [hv]
      have hk'' : k + 1 = (pre ++ before.reverse ++ [x]).length := by
        rw [length_append, ← hk, length_singleton]
      rcases store_eq (σ := σ) (y := p) hv' hk'' with ⟨w, hstore', hw⟩
      rw [if_neg hle, pure_bind, pure_bind, hstore, pure_bind, hstore', pure_bind]
      have hdown : ∀ le, Decides c le →
          (insertDown le (p :: before) x).reverse = (insertDown le before x).reverse ++ [p] := by
        intro le hdecides
        rw [insertDown, if_neg (by rw [← hanswer le hdecides]; exact hle), reverse_cons]
      have hswap : (before.reverse ++ [x] ++ [p]).Perm ((p :: before).reverse ++ [x]) := by
        rw [reverse_cons, append_assoc, append_assoc]
        exact List.Perm.append_left _ (List.Perm.swap p x [])
      split_ifs with hlo
      · -- it has come down to `lo`
        have hnil : before = [] := by
          rw [length_append, length_reverse] at hk
          exact length_eq_zero_iff.1 (by omega)
        subst hnil
        apply Returns.pure
        refine ⟨[x] ++ [p], ?_, hswap, ?_⟩
        · simp [hw]
        · intro le hdecides
          rw [hdown le hdecides]
          rfl
      · have hne : before ≠ [] := by
          rintro rfl
          rw [reverse_nil, append_nil] at hk
          exact hlo hk
        have hw' : w.toList = pre ++ before.reverse ++ x :: (p :: after) := by simp [hw]
        have hnext := ih hne hw' (j := k) (by rw [hk, length_append, length_reverse])
        apply Returns.weaken hnext
        rintro v' ⟨l, hv', hl⟩
        refine ⟨l ++ [p], by simp [hv'], (hl.perm.append_right [p]).trans hswap, ?_⟩
        intro le hdecides
        rw [hdown le hdecides, hl.refines le hdecides]

lemma returns_chunkLoop (hc : NeverFails c) {chunk before : List α} (hbefore : before ≠ [])
    {array : Array α} {pre after : List α} {i : ℕ}
    (harray : array.toList = pre ++ before.reverse ++ (chunk ++ after))
    (hi : i = pre.length + before.length) :
    Returns (chunkLoop c pre.length array i chunk.length) fun v => ∃ l,
      v.toList = pre ++ l ++ after ∧ Rearranged c (before.reverse ++ chunk)
        (fun le => (chunk.foldl (insertDown le) before).reverse) l := by
  induction chunk generalizing array before i with
  | nil =>
    apply Returns.pure
    refine ⟨before.reverse, harray, ?_, fun le _ => rfl⟩
    rw [append_nil]
  | cons x chunk ih =>
    rw [length_cons, chunkLoop]
    apply Returns.bind (returns_insertLoop hc hbefore harray hi)
    rintro v ⟨l, hv, hl⟩
    have hlength : l.length = before.length + 1 := by
      rw [hl.perm.length_eq, length_append, length_reverse, length_singleton]
    have hne : l.reverse ≠ [] := by
      intro hnil
      rw [reverse_eq_nil_iff.1 hnil] at hlength
      cases hlength
    have hv' : v.toList = pre ++ l.reverse.reverse ++ (chunk ++ after) := by
      rw [hv, reverse_reverse]
      rfl
    have hnext := ih hne hv' (i := i + 1) (by rw [hi, length_reverse, hlength, Nat.add_assoc])
    apply Returns.weaken hnext
    rintro w ⟨l', hw, hl'⟩
    rw [reverse_reverse] at hl'
    refine ⟨l', hw, ?_, ?_⟩
    · have hperm := hl.perm.append_right chunk
      rw [append_assoc] at hperm
      exact hl'.perm.trans hperm
    · intro le hdecides
      rw [hl'.refines le hdecides, hl.refines le hdecides, reverse_reverse, foldl_cons]

/-- A chunk is sorted, the rest is left as it was. -/
lemma returns_chunk (hc : NeverFails c) {x : α} {chunk : List α} {array : Array α}
    {pre after : List α} (harray : array.toList = pre ++ (x :: chunk) ++ after) :
    Returns (chunkLoop c pre.length array (pre.length + 1) chunk.length) fun v => ∃ l,
      v.toList = pre ++ l ++ after ∧
        Rearranged c (x :: chunk) (fun le => insertionSort le (x :: chunk)) l := by
  have hsplit : array.toList = pre ++ [x].reverse ++ (chunk ++ after) := by simp [harray]
  exact returns_chunkLoop hc (cons_ne_nil x []) hsplit rfl

lemma sortChunks_end {nelems lo : ℕ} (h : nelems ≤ lo) (array : Array α) :
    sortChunks c nelems array lo = pure array := by
  rw [sortChunks, if_neg (by omega)]

lemma Rearranged.append {l₁ l₂ l₁' l₂' : List α} {f₁ f₂ : (α → α → Bool) → List α}
    (h₁ : Rearranged c l₁ f₁ l₁') (h₂ : Rearranged c l₂ f₂ l₂') :
    Rearranged c (l₁ ++ l₂) (fun le => f₁ le ++ f₂ le) (l₁' ++ l₂') where
  perm := h₁.perm.append h₂.perm
  refines le hdecides := by rw [h₁.refines le hdecides, h₂.refines le hdecides]

lemma returns_sortChunks (hc : NeverFails c) (rest : List α) {array : Array α} {pre : List α}
    {nelems : ℕ} (harray : array.toList = pre ++ rest) (hn : nelems = pre.length + rest.length) :
    Returns (sortChunks c nelems array pre.length) fun v => ∃ l,
      v.toList = pre ++ l ∧ Rearranged c rest (fun le => Ds.sortChunks le rest) l := by
  induction hlen : rest.length using Nat.strongRecOn generalizing rest array pre with
  | ind n ih =>
    cases rest with
    | nil =>
      have hend : nelems ≤ pre.length := Nat.le_of_eq hn
      rw [sortChunks_end hend]
      apply Returns.pure
      refine ⟨[], harray, List.Perm.refl _, ?_⟩
      intro le _
      rw [Ds.sortChunks]
    | cons x rest =>
      have hlength : nelems = pre.length + (rest.length + 1) := hn
      have hsplit : array.toList =
          pre ++ (x :: rest.take (insSortLimit - 1)) ++ rest.drop (insSortLimit - 1) := by
        rw [harray, append_assoc, cons_append, take_append_drop]
      have hunfold : ∀ le : α → α → Bool, Ds.sortChunks le (x :: rest) =
          insertionSort le (x :: rest.take (insSortLimit - 1)) ++
            Ds.sortChunks le (rest.drop (insSortLimit - 1)) := by
        intro le
        rw [Ds.sortChunks]
        rfl
      have hsteps : (if pre.length + insSortLimit ≥ nelems then nelems
          else pre.length + insSortLimit) - (pre.length + 1) =
            (rest.take (insSortLimit - 1)).length := by
        have hlimit : insSortLimit = 3 := rfl
        rw [length_take]
        by_cases hend : pre.length + insSortLimit ≥ nelems
        · rw [if_pos hend]
          omega
        · rw [if_neg hend]
          omega
      rw [sortChunks, if_pos (by omega)]
      simp only [hsteps]
      apply Returns.bind (returns_chunk hc hsplit)
      rintro v ⟨l, hv, hl⟩
      have hwhole : (x :: rest.take (insSortLimit - 1) ++ rest.drop (insSortLimit - 1)) =
          x :: rest := by
        rw [cons_append, take_append_drop]
      by_cases hlast : rest.length ≤ insSortLimit - 1
      · -- the last chunk
        have hnil : rest.drop (insSortLimit - 1) = [] := drop_eq_nil_of_le hlast
        have hstop : nelems ≤ pre.length + insSortLimit := by
          simp only [insSortLimit] at hlast ⊢
          omega
        rw [sortChunks_end hstop]
        apply Returns.pure
        rw [hnil, append_nil] at hv hwhole
        rw [hwhole] at hl
        refine ⟨l, hv, hl.perm, ?_⟩
        intro le hdecides
        rw [hunfold, hnil, Ds.sortChunks, append_nil, hwhole, ← hl.refines le hdecides]
      · have hl3 : l.length = insSortLimit := by
          rw [hl.perm.length_eq, length_cons, length_take]
          simp only [insSortLimit] at hlast ⊢
          omega
        have hfewer : (rest.drop (insSortLimit - 1)).length < n := by
          rw [← hlen, length_drop, length_cons]
          omega
        have hn' : nelems = (pre ++ l).length + (rest.drop (insSortLimit - 1)).length := by
          rw [hlength, length_append, length_drop, hl3]
          simp only [insSortLimit] at hlast ⊢
          omega
        have hnext := ih _ hfewer (rest.drop (insSortLimit - 1)) hv hn' rfl
        rw [length_append, hl3] at hnext
        apply Returns.weaken hnext
        rintro w ⟨l', hw, hl'⟩
        have hboth := hl.append hl'
        rw [hwhole] at hboth
        refine ⟨l ++ l', by rw [hw, append_assoc], hboth.perm, ?_⟩
        intro le hdecides
        rw [hunfold, ← hboth.refines le hdecides]

/-! ## Merging -/

lemma Rearranged.merge_left {x y : α} {run1 run2 l : List α}
    (h : Rearranged c (run1 ++ y :: run2) (fun le => run1.merge (y :: run2) le) l)
    (hle : ∀ le, Decides c le → le x y = true) :
    Rearranged c (x :: run1 ++ y :: run2) (fun le => (x :: run1).merge (y :: run2) le)
      (x :: l) where
  perm := h.perm.cons x
  refines le hdecides := by
    rw [cons_merge_cons_pos _ _ _ (hle le hdecides), h.refines le hdecides]

lemma Rearranged.merge_right {x y : α} {run1 run2 l : List α}
    (h : Rearranged c (x :: run1 ++ run2) (fun le => (x :: run1).merge run2 le) l)
    (hgt : ∀ le, Decides c le → ¬ le x y = true) :
    Rearranged c (x :: run1 ++ y :: run2) (fun le => (x :: run1).merge (y :: run2) le)
      (y :: l) where
  perm := (h.perm.cons y).trans perm_middle.symm
  refines le hdecides := by
    rw [cons_merge_cons_neg _ _ _ (hgt le hdecides), h.refines le hdecides]

/-- The loop and the copy that follows it. -/
lemma returns_mergeLoop (hc : NeverFails c) {src : Array α} {run1 run2 : List α}
    (h1 : run1 ≠ []) (h2 : run2 ≠ []) {dst : Array α} {preA preB postA postB pre old post : List α}
    (hA : src.toList = preA ++ run1 ++ postA) (hB : src.toList = preB ++ run2 ++ postB)
    (hdst : dst.toList = pre ++ old ++ post) (hold : old.length = run1.length + run2.length)
    {d a b n1 n2 : ℕ} (hd : d = pre.length) (ha : a = preA.length) (hb : b = preB.length)
    (hn1 : n1 = run1.length) (hn2 : n2 = run2.length) :
    Returns (mergeLoop c src dst d a b n1 n2) fun r =>
      Returns (copyNonEmptyArray (σ := σ) r.1 r.2.1 src r.2.2.1 r.2.2.2) fun v => ∃ l,
        v.toList = pre ++ l ++ post ∧
          Rearranged c (run1 ++ run2) (fun le => run1.merge run2 le) l := by
  induction hm : run1.length + run2.length using Nat.strongRecOn
    generalizing run1 run2 dst preA preB pre old d a b n1 n2 with
  | ind m ih =>
    obtain ⟨x, run1, rfl⟩ := exists_cons_of_ne_nil h1
    obtain ⟨y, run2, rfl⟩ := exists_cons_of_ne_nil h2
    subst hn1 hn2
    rw [length_cons, length_cons] at hold hm
    obtain ⟨o, old, rfl⟩ : ∃ o rest, old = o :: rest := by
      apply exists_cons_of_ne_nil
      rintro rfl
      rw [length_nil] at hold
      omega
    rw [length_cons] at hold
    have hx : src.toList = preA ++ x :: (run1 ++ postA) := by simp [hA]
    have hy : src.toList = preB ++ y :: (run2 ++ postB) := by simp [hB]
    have ho : dst.toList = pre ++ o :: (old ++ post) := by simp [hdst]
    rw [length_cons, length_cons, mergeLoop, load_eq hx ha, pure_bind, load_eq hy hb,
      pure_bind]
    apply Returns.bind (returns_compare hc x y)
    intro lessOrEqual hanswer
    have happend (z : α) (l : List α) : pre ++ [z] ++ l ++ post = pre ++ (z :: l) ++ post := by simp
    by_cases hle : lessOrEqual = true
    · -- the first run gives its element
      have hall : ∀ le, Decides c le → le x y = true := fun le hdecides =>
        (hanswer le hdecides).symm.trans hle
      rcases store_eq (σ := σ) (y := x) ho hd with ⟨v, hstore, hv⟩
      have hv' : v.toList = pre ++ [x] ++ old ++ post := by simp [hv]
      have hd' : d + 1 = (pre ++ [x]).length := by
        rw [length_append, length_singleton, hd]
      rw [if_pos hle, pure_bind, hstore, pure_bind]
      by_cases hlast : run1.length = 0
      · have hnil := length_eq_zero_iff.1 hlast
        subst hnil
        rw [if_pos hlast]
        apply Returns.pure
        rw [length_nil] at hold ⊢
        have hcopy := returns_copy (σ := σ) h2 hB hv' (by rw [length_cons]; omega) hb hd'
          (n := 0 + (run2.length + 1)) (Nat.zero_add _)
        have hrest : Rearranged c ([] ++ y :: run2) (fun le => [].merge (y :: run2) le)
            (y :: run2) := ⟨List.Perm.refl _, fun le _ => (nil_merge _).symm⟩
        apply Returns.weaken hcopy
        intro w hw
        exact ⟨x :: y :: run2, hw.trans (happend x _), hrest.merge_left hall⟩
      · rw [if_neg hlast]
        have hne : run1 ≠ [] := fun hnil => hlast (length_eq_zero_iff.2 hnil)
        have hA' : src.toList = preA ++ [x] ++ run1 ++ postA := by simp [hA]
        have hnext := ih (run1.length + (run2.length + 1)) (by omega) hne h2 hA' hB hv'
          (by rw [length_cons]; omega) hd' (a := a + 1)
          (by rw [length_append, length_singleton, ha]) hb rfl rfl rfl
        apply Returns.weaken hnext
        intro r hr
        apply Returns.weaken hr
        rintro w ⟨l, hw, hl⟩
        exact ⟨x :: l, hw.trans (happend x l), hl.merge_left hall⟩
    · -- the second one does
      have hall : ∀ le, Decides c le → ¬ le x y = true := by
        intro le hdecides
        rw [← hanswer le hdecides]
        exact hle
      rcases store_eq (σ := σ) (y := y) ho hd with ⟨v, hstore, hv⟩
      have hv' : v.toList = pre ++ [y] ++ old ++ post := by simp [hv]
      have hd' : d + 1 = (pre ++ [y]).length := by
        rw [length_append, length_singleton, hd]
      rw [if_neg hle, pure_bind, hstore, pure_bind]
      by_cases hlast : run2.length = 0
      · have hnil := length_eq_zero_iff.1 hlast
        subst hnil
        rw [if_pos hlast]
        apply Returns.pure
        rw [length_nil] at hold ⊢
        have hcopy := returns_copy (σ := σ) h1 hA hv' (by rw [length_cons]; omega) ha hd'
          (n := run1.length + 1 + 0) rfl
        have hrest : Rearranged c (x :: run1 ++ []) (fun le => (x :: run1).merge [] le)
            (x :: run1) :=
          ⟨by rw [append_nil], fun le _ => (merge_right _).symm⟩
        apply Returns.weaken hcopy
        intro w hw
        exact ⟨y :: x :: run1, hw.trans (happend y _), hrest.merge_right hall⟩
      · rw [if_neg hlast]
        have hne : run2 ≠ [] := fun hnil => hlast (length_eq_zero_iff.2 hnil)
        have hB' : src.toList = preB ++ [y] ++ run2 ++ postB := by simp [hB]
        have hnext := ih (run1.length + 1 + run2.length) (by omega) h1 hne hA hB' hv'
          (by rw [length_cons]; omega) hd' ha (b := b + 1)
          (by rw [length_append, length_singleton, hb]) rfl rfl rfl
        apply Returns.weaken hnext
        intro r hr
        apply Returns.weaken hr
        rintro w ⟨l, hw, hl⟩
        exact ⟨y :: l, hw.trans (happend y l), hl.merge_right hall⟩

lemma returns_mergeArrayRuns (hc : NeverFails c) {src : Array α} {run1 run2 : List α}
    (h1 : run1 ≠ []) (h2 : run2 ≠ []) {dst : Array α} {pre' post' pre old post : List α}
    (hsrc : src.toList = pre' ++ run1 ++ run2 ++ post') (hdst : dst.toList = pre ++ old ++ post)
    (hold : old.length = run1.length + run2.length) {d s : ℕ} (hd : d = pre.length)
    (hs : s = pre'.length) :
    Returns (mergeArrayRuns c dst d src s run1.length run2.length) fun v => ∃ l,
      v.toList = pre ++ l ++ post ∧
        Rearranged c (run1 ++ run2) (fun le => Ds.mergeArrayRuns le run1 run2) l := by
  have hpos1 : 0 < run1.length := length_pos_iff.2 h1
  have hpos2 : 0 < run2.length := length_pos_iff.2 h2
  obtain ⟨init, x, hinit⟩ : ∃ init x, run1 = init ++ [x] :=
    ⟨_, _, (dropLast_append_getLast h1).symm⟩
  obtain ⟨y, rest, hrest⟩ := exists_cons_of_ne_nil h2
  have hlist (le : α → α → Bool) : Ds.mergeArrayRuns le run1 run2 =
      if le x y = true then run1 ++ run2 else run1.merge run2 le := by
    rw [Ds.mergeArrayRuns, hinit, hrest, List.getLast?_append, List.getLast?_singleton]
    rfl
  have hx : src.toList = (pre' ++ init) ++ x :: (run2 ++ post') := by simp [hsrc, hinit]
  have hy : src.toList = (pre' ++ run1) ++ y :: (rest ++ post') := by simp [hsrc, hrest]
  have hb : s + run1.length = (pre' ++ run1).length := by rw [length_append, hs]
  have hb' : s + run1.length - 1 = (pre' ++ init).length := by
    rw [hb, hinit, length_append, length_append, length_append,
      length_singleton]
    rfl
  rw [mergeArrayRuns, if_neg (by omega)]
  simp only
  rw [load_eq hx hb', pure_bind, load_eq hy hb, pure_bind]
  apply Returns.bind (returns_compare hc x y)
  intro lessOrEqual hanswer
  by_cases hle : lessOrEqual = true
  · -- the runs are in order
    have hboth : src.toList = pre' ++ (run1 ++ run2) ++ post' := by simp [hsrc]
    have hcopy := returns_copy (σ := σ) (append_ne_nil_of_left_ne_nil h1 run2) hboth hdst
      (by rw [length_append, hold]) hs hd length_append.symm
    rw [if_pos hle]
    apply Returns.weaken hcopy
    intro v hv
    refine ⟨run1 ++ run2, hv, List.Perm.refl _, ?_⟩
    intro le hdecides
    rw [hlist, if_pos ((hanswer le hdecides).symm.trans hle)]
  · have hA : src.toList = pre' ++ run1 ++ (run2 ++ post') := by simp [hsrc]
    rw [if_neg hle]
    apply Returns.bind (returns_mergeLoop hc h1 h2 hA hsrc hdst hold hd hs hb rfl rfl)
    intro r hr
    apply Returns.weaken hr
    rintro v ⟨l, hv, hl⟩
    refine ⟨l, hv, hl.perm, ?_⟩
    intro le hdecides
    rw [hlist, if_neg (by rw [← hanswer le hdecides]; exact hle), hl.refines le hdecides]

/-! ## Passes -/

lemma mergePass_end {nelems run lo : ℕ} (hrun : 0 < run) (h : nelems ≤ lo) (vec1 vec2 : Array α) :
    mergePass c nelems run hrun vec1 vec2 lo = pure vec2 := by
  rw [mergePass, if_neg (by omega)]

lemma returns_mergePass (hc : NeverFails c) {run nelems : ℕ} (hrun : 0 < run) (rest : List α)
    {vec1 vec2 : Array α} {pre1 pre2 old : List α} (hvec1 : vec1.toList = pre1 ++ rest)
    (hvec2 : vec2.toList = pre2 ++ old) (hold : old.length = rest.length)
    (hpre : pre2.length = pre1.length) (hn : nelems = pre1.length + rest.length) :
    Returns (mergePass c nelems run hrun vec1 vec2 pre1.length) fun v => ∃ l,
      v.toList = pre2 ++ l ∧ Rearranged c rest (fun le => Ds.mergePass le run rest) l := by
  induction hlen : rest.length using Nat.strongRecOn generalizing rest vec2 pre1 pre2 old with
  | ind n ih =>
    by_cases hrest : rest = []
    · subst hrest
      have hend : nelems ≤ pre1.length := Nat.le_of_eq hn
      rw [mergePass_end hrun hend]
      apply Returns.pure
      refine ⟨[], ?_, List.Perm.refl _, ?_⟩
      · rw [hvec2, length_eq_zero_iff.1 hold]
      · intro le _
        rw [Ds.mergePass, dif_pos (.inl (Nat.zero_le _))]
    have hpos : 0 < rest.length := length_pos_iff.2 hrest
    rw [mergePass, if_pos (by omega)]
    by_cases hlast : pre1.length + run ≥ nelems
    · -- the last run has no other to be merged with
      have hvec1' : vec1.toList = pre1 ++ rest ++ [] := by rw [append_nil, hvec1]
      have hvec2' : vec2.toList = pre2 ++ old ++ [] := by rw [append_nil, hvec2]
      have hcopy := returns_copy (σ := σ) hrest hvec1' hvec2' hold rfl hpre.symm
        (n := nelems - pre1.length) (by omega)
      simp only [if_pos hlast]
      apply Returns.weaken hcopy
      intro v hv
      rw [append_nil] at hv
      refine ⟨rest, hv, List.Perm.refl _, ?_⟩
      intro le _
      rw [Ds.mergePass, dif_pos (.inl (by omega))]
    · have hlist (le : α → α → Bool) : Ds.mergePass le run rest =
          Ds.mergeArrayRuns le (rest.take run) ((rest.drop run).take run) ++
            Ds.mergePass le run (rest.drop (2 * run)) := by
        rw [Ds.mergePass, dif_neg (by omega)]
      have hlen1 : (rest.take run).length = run := by
        rw [length_take]
        omega
      have hlen2 : ((rest.drop run).take run).length =
          if run ≤ nelems - (pre1.length + run) then run else nelems - (pre1.length + run) := by
        rw [length_take, length_drop]
        split_ifs <;> omega
      have hlen2' : ((rest.drop run).take run).length = min run (rest.length - run) := by
        rw [length_take, length_drop]
      have hsplit : rest.take run ++ (rest.drop run).take run ++ rest.drop (2 * run) = rest := by
        rw [append_assoc, Nat.two_mul, ← drop_drop, take_append_drop,
          take_append_drop]
      have h1 : rest.take run ≠ [] := ne_nil_of_length_pos (by omega)
      have h2 : (rest.drop run).take run ≠ [] := ne_nil_of_length_pos (by omega)
      have hvec1' : vec1.toList =
          pre1 ++ rest.take run ++ (rest.drop run).take run ++ rest.drop (2 * run) := by
        rw [hvec1, append_assoc, append_assoc, ← append_assoc (rest.take run),
          hsplit]
      -- the place of the two runs in the other array
      obtain ⟨k, hk⟩ : ∃ k, k = (rest.take run).length + ((rest.drop run).take run).length :=
        ⟨_, rfl⟩
      have hvec2' : vec2.toList = pre2 ++ old.take k ++ old.drop k := by
        rw [hvec2, append_assoc, take_append_drop]
      have hmerge := returns_mergeArrayRuns hc h1 h2 hvec1' hvec2'
        (by rw [length_take, hold]; omega) hpre.symm rfl
      rw [hlen1, hlen2] at hmerge
      simp only [if_neg hlast]
      apply Returns.bind hmerge
      rintro v ⟨l, hv, hl⟩
      have hlk : l.length = k := by rw [hl.perm.length_eq, length_append, hk]
      by_cases hfull : 2 * run ≤ rest.length
      · have hfewer : (rest.drop (2 * run)).length < n := by
          rw [length_drop]
          omega
        have hpre1' : (pre1 ++ rest.take run ++ (rest.drop run).take run).length =
            pre1.length + 2 * run := by
          rw [length_append, length_append]
          omega
        have hnext := ih _ hfewer (rest.drop (2 * run)) hvec1' hv
          (by rw [length_drop, length_drop]; omega)
          (by rw [hpre1', length_append]; omega)
          (by rw [hpre1', length_drop]; omega) rfl
        rw [hpre1'] at hnext
        apply Returns.weaken hnext
        rintro w ⟨l', hw, hl'⟩
        have hboth := hl.append hl'
        rw [hsplit] at hboth
        refine ⟨l ++ l', by rw [hw, append_assoc], hboth.perm, ?_⟩
        intro le hdecides
        rw [hlist, ← hboth.refines le hdecides]
      · -- the second run was the last
        have hnil : rest.drop (2 * run) = [] := drop_eq_nil_of_le (by omega)
        have hnil' : old.drop k = [] := drop_eq_nil_of_le (by omega)
        rw [mergePass_end hrun (by omega)]
        apply Returns.pure
        rw [hnil, append_nil] at hsplit
        rw [hnil', append_nil] at hv
        rw [hsplit] at hl
        refine ⟨l, hv, hl.perm, ?_⟩
        intro le hdecides
        rw [hlist, hnil, Ds.mergePass, dif_pos (.inl (Nat.zero_le _)), append_nil,
          ← hl.refines le hdecides]

lemma returns_mergePasses (hc : NeverFails c) {nelems run : ℕ} (hrun : 0 < run) (l : List α)
    {vec1 vec2 : Array α} (hvec1 : vec1.toList = l) (hl : l.length = nelems)
    (hvec2 : vec2.size = nelems) (scratchFirst : Bool) :
    Returns (mergePasses c nelems run hrun vec1 vec2 scratchFirst) fun r =>
      Rearranged c l (fun le => Ds.mergePasses le nelems run l) r.1.toList ∧
        r.2.1.size = nelems := by
  induction hm : nelems - run using Nat.strongRecOn generalizing run l vec1 vec2 scratchFirst with
  | ind m ih =>
    rw [mergePasses]
    by_cases hlast : run < nelems
    · have hvec1' : vec1.toList = [] ++ l := hvec1
      have hvec2' : vec2.toList = [] ++ vec2.toList := rfl
      have hn : nelems = ([] : List α).length + l.length := by
        rw [hl, length_nil, Nat.zero_add]
      have hpass := returns_mergePass hc hrun l hvec1' hvec2'
        (by rw [Array.length_toList, hvec2, hl]) rfl hn
      rw [if_pos hlast]
      apply Returns.bind hpass
      rintro v ⟨l', hv, hl'⟩
      have hnext := ih (nelems - run * 2) (by omega) (Nat.mul_pos hrun Nat.two_pos) l' hv
        (hl'.perm.length_eq.trans hl) (by rw [← Array.length_toList, hvec1, hl]) (!scratchFirst) rfl
      apply Returns.weaken hnext
      rintro r ⟨hr, hsize⟩
      refine ⟨⟨hr.perm.trans hl'.perm, ?_⟩, hsize⟩
      intro le hdecides
      rw [Ds.mergePasses, dif_neg (by omega), ← hl'.refines le hdecides, hr.refines le hdecides]
    · rw [if_neg hlast]
      apply Returns.pure
      refine ⟨⟨by rw [hvec1], ?_⟩, hvec2⟩
      intro le _
      rw [Ds.mergePasses, dif_pos (.inl (by omega)), hvec1]

lemma returns_mergeSort (hc : NeverFails c) {array scratch : Array α}
    (hscratch : scratch.size = array.size) :
    Returns (mergeSort c array array.size scratch) fun r =>
      Rearranged c array.toList (fun le => Ds.mergeSort le array.toList) r.1.toList ∧
        r.2.size = array.size := by
  rw [mergeSort]
  by_cases hshort : array.size ≤ 1
  · rw [if_pos hshort]
    apply Returns.pure
    refine ⟨⟨List.Perm.refl _, ?_⟩, hscratch⟩
    intro le _
    rw [Ds.mergeSort, Array.length_toList, if_pos hshort]
  · have harray : array.toList = [] ++ array.toList := rfl
    have hn : array.size = ([] : List α).length + array.toList.length := by
      rw [length_nil, Nat.zero_add, Array.length_toList]
    have hchunks := returns_sortChunks hc array.toList harray hn
    rw [if_neg hshort]
    apply Returns.bind hchunks
    rintro v ⟨l, hv, hl⟩
    have hlength : l.length = array.size := by rw [hl.perm.length_eq, Array.length_toList]
    apply Returns.bind (returns_mergePasses hc (by decide) l hv hlength hscratch false)
    rintro ⟨vec1, vec2, scratchFirst⟩ ⟨hr, hsize⟩
    have hsorted : Rearranged c array.toList (fun le => Ds.mergeSort le array.toList)
        vec1.toList := by
      refine ⟨hr.perm.trans hl.perm, ?_⟩
      intro le hdecides
      rw [Ds.mergeSort, Array.length_toList, if_neg hshort, ← hl.refines le hdecides,
        hr.refines le hdecides]
    have hvec1 : vec1.toList.length = array.size := by
      rw [hsorted.perm.length_eq, Array.length_toList]
    cases scratchFirst with
    | false =>
      apply Returns.pure
      exact ⟨hsorted, hsize⟩
    | true =>
      -- the last pass went to the scratch array
      have hne : vec1.toList ≠ [] := ne_nil_of_length_pos (by omega)
      have hsrc : vec1.toList = [] ++ vec1.toList ++ [] := by rw [append_nil, nil_append]
      have hdst : vec2.toList = [] ++ vec2.toList ++ [] := by rw [append_nil, nil_append]
      have hcopy := returns_copy (σ := σ) hne hsrc hdst
        (by rw [Array.length_toList, hsize, hvec1]) rfl rfl hvec1.symm
      apply Returns.bind hcopy
      intro w hw
      rw [nil_append, append_nil] at hw
      apply Returns.pure
      refine ⟨?_, ?_⟩
      · rw [hw]
        exact hsorted
      · rw [← Array.length_toList, hvec1]

/-- **`MergeSort` returns** with a comparator that never fails, whatever it answers, and leaves a
permutation of the elements; if the answers are those of a total preorder, the elements are sorted
stably. No access lies outside of the two arrays. -/
theorem mergeSort_exact (c : Comparator σ α) (array scratch : Array α) (s : σ)
    (hc : NeverFails c) (hscratch : scratch.size = array.size) :
    ∃ array' scratch' s', mergeSort c array array.size scratch s = .ok (array', scratch') s' ∧
      array'.toList.Perm array.toList ∧
      ∀ le, Decides c le → Compares le → StableSort le array.toList array'.toList := by
  rcases (returns_mergeSort hc hscratch).run s with ⟨⟨array', scratch'⟩, s', hrun, hsorted, -⟩
  refine ⟨array', scratch', s', hrun, hsorted.perm, ?_⟩
  intro le hdecides hle
  rw [hsorted.refines le hdecides]
  exact mergeSort_spec hle array.toList

theorem mergeSort_exact_pairs :
    let c : Comparator ℕ (ℕ × ℕ) := fun a b calls => some (decide (a.1 ≤ b.1), calls + 1)
    let array := #[(2, 0), (1, 0), (2, 1), (0, 0), (1, 1)]
    let scratch := #[(0, 0), (0, 0), (0, 0), (0, 0), (0, 0)]
    ∃ array' scratch' s', mergeSort c array array.size scratch 0 = .ok (array', scratch') s' ∧
      array'.toList.Perm array.toList ∧
      ∀ le, Decides c le → Compares le → StableSort le array.toList array'.toList :=
  mergeSort_exact _ _ _ _ (fun _ _ _ => rfl) rfl

end SpiderMonkey.Ds.InPlace
