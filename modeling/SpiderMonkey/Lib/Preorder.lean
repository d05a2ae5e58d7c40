import Mathlib

/-! # Pre-order traversals

A traversal takes a node from the top of a stack and puts the children of the node
there. The nodes below a node are then visited right after it: when the number of
nodes below each node is known, the position of a node in the traversal tells from
its number alone whether it is below an earlier one (`Traversal.below`).
-/

namespace SpiderMonkey.Lib

open List

/-- A place in a list with one more is a place in the list or the new one. -/
lemma getElem?_concat_eq_some {β : Type*} {visited : List β} {j : Nat} {a c : β}
    (h : (visited ++ [c])[j]? = some a) : visited[j]? = some a ∨ j = visited.length ∧ a = c := by
  rcases Nat.lt_or_ge j visited.length with hlt | hge
  · rw [List.getElem?_append_left hlt] at h
    exact .inl h
  · have hle := (List.getElem?_eq_some_iff.mp h).1
    obtain rfl : j = visited.length := by
      rw [length_append, length_singleton] at hle
      omega
    rw [List.getElem?_concat_length] at h
    exact .inr ⟨rfl, (Option.some.inj h).symm⟩

/-- A forest, with the number of nodes strictly below each node. -/
structure Forest (β : Type*) where
  children : β → List β
  numBelow : β → Nat

namespace Forest

variable {β : Type*} (F : Forest β)

/-- The second node is the first one or below it. -/
def Below : β → β → Prop := Relation.ReflTransGen fun a c => c ∈ F.children a

/-- The number of nodes a stack stands for. -/
def pending (stack : List β) : Nat := (stack.map fun c => F.numBelow c + 1).sum

structure WellFormed : Prop where
  numBelow_eq : ∀ a, F.numBelow a = F.pending (F.children a)
  nodup_children : ∀ a, (F.children a).Nodup
  parent_unique : ∀ {a b c}, c ∈ F.children a → c ∈ F.children b → a = b

/-- Where a traversal stands with respect to the node `a` it visited at position `j`:
it has left the nodes below `a`, or those still to come are on top of the stack. -/
def Window (visited stack : List β) (j : Nat) (a : β) : Prop :=
  j + F.numBelow a < visited.length ∨
    ∃ top rest, stack = top ++ rest ∧ (∀ c ∈ top, F.Below a c) ∧
      visited.length + F.pending top = j + F.numBelow a + 1

/-- The nodes visited so far and the stack, with its top first. -/
structure Traversal (visited stack : List β) : Prop where
  nodup : (visited ++ stack).Nodup
  parent_visited : ∀ x ∈ visited ++ stack, ∀ a, x ∈ F.children a → a ∈ visited
  window : ∀ (j : Nat) a, visited[j]? = some a → F.Window visited stack j a

variable {F}

@[simp] lemma pending_nil : F.pending [] = 0 := rfl

@[simp] lemma pending_cons (c : β) (stack : List β) :
    F.pending (c :: stack) = F.numBelow c + 1 + F.pending stack := by
  simp [pending]

@[simp] lemma pending_append (top rest : List β) :
    F.pending (top ++ rest) = F.pending top + F.pending rest := by
  simp [pending]

lemma pending_perm {stack stack' : List β} (h : stack.Perm stack') :
    F.pending stack = F.pending stack' :=
  (h.map _).sum_eq

/-- A traversal starts with nodes that have no parent on its stack. -/
lemma Traversal.start {roots : List β} (hnodup : roots.Nodup)
    (hroot : ∀ r ∈ roots, ∀ a, r ∉ F.children a) : F.Traversal [] roots where
  nodup := hnodup
  parent_visited := fun r hr a ha => absurd ha (hroot r hr a)
  window := by simp

/-- Visiting a node keeps the window of an earlier one. -/
lemma Window.visit (wf : F.WellFormed) {visited stack pushed : List β} {c : β} {j : Nat}
    {a : β} (h : F.Window visited (c :: stack) j a) (hpushed : pushed.Perm (F.children c)) :
    F.Window (visited ++ [c]) (pushed ++ stack) j a := by
  have hsize : F.pending pushed = F.numBelow c := by
    rw [pending_perm hpushed, wf.numBelow_eq c]
  rcases h with hleft | ⟨top, rest, hstack, hbelow, hcount⟩
  · left
    simp only [length_append, length_singleton]
    omega
  · cases top with
    | nil =>
      -- nothing below `a` is pending, so `c` is not below `a`
      left
      simp only [pending_nil, Nat.add_zero] at hcount
      simp only [length_append, length_singleton]
      omega
    | cons x top =>
      rw [cons_append, List.cons.injEq] at hstack
      rcases hstack with ⟨rfl, rfl⟩
      right
      refine ⟨pushed ++ top, rest, (append_assoc _ _ _).symm, ?_, ?_⟩
      · intro y hy
        rcases mem_append.mp hy with hin | hin
        · have hc : F.Below a c := hbelow c mem_cons_self
          exact hc.tail (hpushed.subset hin)
        · exact hbelow y (mem_cons_of_mem _ hin)
      · simp only [pending_cons] at hcount
        simp only [pending_append, hsize, length_append, length_singleton]
        omega

/-- The children of the top of the stack are neither visited nor on the stack. -/
lemma Traversal.child_fresh {visited stack : List β} {c x : β}
    (h : F.Traversal visited (c :: stack)) (hx : x ∈ F.children c) :
    x ∉ visited ++ c :: stack := by
  intro hin
  have hc : c ∈ visited := h.parent_visited x hin c hx
  exact (nodup_append.mp h.nodup).2.2 c hc c mem_cons_self rfl

lemma Traversal.visit (wf : F.WellFormed) {visited stack pushed : List β} {c : β}
    (h : F.Traversal visited (c :: stack)) (hpushed : pushed.Perm (F.children c)) :
    F.Traversal (visited ++ [c]) (pushed ++ stack) where
  nodup := by
    have hmove : (visited ++ [c] ++ (pushed ++ stack)).Perm
        (pushed ++ (visited ++ c :: stack)) := by
      rw [append_cons visited c stack, ← append_assoc]
      exact (perm_append_comm.append_right stack).trans (by rw [append_assoc])
    rw [hmove.nodup_iff]
    refine nodup_append.mpr ⟨hpushed.nodup_iff.mpr (wf.nodup_children c), h.nodup, ?_⟩
    rintro x hx y hy rfl
    exact h.child_fresh (hpushed.subset hx) hy
  parent_visited := by
    intro x hx a ha
    by_cases hin : x ∈ visited ++ c :: stack
    · exact mem_append_left _ (h.parent_visited x hin a ha)
    · -- a node that is new on the stack is a child of `c`
      have hxc : x ∈ F.children c := by
        apply hpushed.subset
        simp only [mem_append, mem_cons, not_mem_nil, or_false] at hx hin
        tauto
      rw [wf.parent_unique ha hxc]
      exact mem_append_right _ mem_cons_self
  window := by
    intro j a hj
    rcases getElem?_concat_eq_some hj with hj | ⟨rfl, rfl⟩
    · exact (h.window j a hj).visit wf hpushed
    · -- the node visited now: what is below it is what was pushed
      right
      refine ⟨pushed, stack, rfl, ?_, ?_⟩
      · intro x hx
        exact Relation.ReflTransGen.single (hpushed.subset hx)
      · rw [pending_perm hpushed, ← wf.numBelow_eq a]
        simp only [length_append, length_singleton]
        omega

/-- The next node is below every visited node whose window is still open. -/
lemma Traversal.below {visited stack : List β} {c : β}
    (h : F.Traversal visited (c :: stack)) {j : Nat} {a : β} (hj : visited[j]? = some a)
    (hopen : visited.length ≤ j + F.numBelow a) : F.Below a c := by
  rcases h.window j a hj with hleft | ⟨top, rest, hstack, hbelow, hcount⟩
  · omega
  · cases top with
    | nil =>
      simp only [pending_nil, Nat.add_zero] at hcount
      omega
    | cons x top =>
      rw [cons_append, List.cons.injEq] at hstack
      rw [hstack.1]
      exact hbelow x mem_cons_self

/-- A traversal of `nodes` has visited at most as many. -/
lemma Traversal.length_le {visited stack nodes : List β} (h : F.Traversal visited stack)
    (hnodes : visited ++ stack ⊆ nodes) : visited.length + stack.length ≤ nodes.length := by
  rw [← length_append]
  exact (subperm_of_subset h.nodup hnodes).length_le

/-! ## The numbers are exact

A walk visits all the nodes below its roots, and the nodes below a node are just those whose numbers
are in its window.
-/

/-- A traversal that started with `roots`. -/
structure Walk (F : Forest β) (roots visited stack : List β) : Prop where
  traversal : F.Traversal visited stack
  roots : roots ⊆ visited ++ stack
  children : ∀ a ∈ visited, F.children a ⊆ visited ++ stack
  confined : ∀ (j : Nat) a, visited[j]? = some a → ∀ (pre : List β) x post, stack = pre ++ x :: post →
    F.Below a x → visited.length + F.pending (pre ++ [x]) ≤ j + F.numBelow a + 1
  exact : ∀ (j k : Nat) a c, visited[j]? = some a → visited[k]? = some c →
    (F.Below a c ↔ j ≤ k ∧ k ≤ j + F.numBelow a)

/-- What is above a visited node has been visited. -/
lemma Traversal.above_visited {visited stack : List β} (h : F.Traversal visited stack) {a c : β}
    (hbelow : F.Below a c) (hc : c ∈ visited) : a ∈ visited := by
  induction hbelow with
  | refl => exact hc
  | tail _ hchild ih => exact ih (h.parent_visited _ (mem_append_left _ hc) _ hchild)

/-- What is below another node is below its parent. -/
lemma Below.parent (wf : F.WellFormed) {a c x : β} (h : F.Below a x) (hne : a ≠ x)
    (hx : x ∈ F.children c) : F.Below a c := by
  rcases Relation.ReflTransGen.cases_tail h with rfl | ⟨b, hab, hb⟩
  · exact absurd rfl hne
  · rwa [wf.parent_unique hx hb]

lemma Walk.start {roots : List β} (hnodup : roots.Nodup)
    (hroot : ∀ r ∈ roots, ∀ a, r ∉ F.children a) : F.Walk roots [] roots where
  traversal := .start hnodup hroot
  roots := fun _ h => h
  children := nofun
  confined := by simp
  exact := by simp

lemma Walk.visit (wf : F.WellFormed) {roots visited stack pushed : List β} {c : β}
    (h : F.Walk roots visited (c :: stack)) (hpushed : pushed.Perm (F.children c)) :
    F.Walk roots (visited ++ [c]) (pushed ++ stack) := by
  have hnodup := h.traversal.nodup
  have hfresh : c ∉ visited := fun hc =>
    (nodup_append.mp hnodup).2.2 c hc c mem_cons_self rfl
  have hmove : visited ++ c :: stack ⊆ visited ++ [c] ++ (pushed ++ stack) := by
    intro x hx
    simp only [mem_append, mem_cons, not_mem_nil, or_false] at hx ⊢
    rcases hx with hx | hx | hx
    · exact .inl (.inl hx)
    · exact .inl (.inr hx)
    · exact .inr (.inr hx)
  have hsize : F.pending pushed = F.numBelow c := by
    rw [pending_perm hpushed, wf.numBelow_eq c]
  -- what is not visited yet is not above `c`, except `c` itself
  have hbelowc (x : β) (hx : x ∈ stack) : ¬F.Below c x := by
    intro hbelow
    rcases Relation.ReflTransGen.cases_tail hbelow with rfl | ⟨b, hcb, hb⟩
    · exact (nodup_cons.mp (nodup_append.mp hnodup).2.1).1 hx
    · have hparent : b ∈ visited := h.traversal.parent_visited x
        (mem_append_right _ (mem_cons_of_mem _ hx)) b hb
      exact hfresh (h.traversal.above_visited hcb hparent)
  refine ⟨h.traversal.visit wf hpushed, fun x hx => hmove (h.roots hx), ?_, ?_, ?_⟩
  · intro a ha x hx
    rcases mem_append.mp ha with hold | hnew
    · exact hmove (h.children a hold hx)
    · rw [mem_singleton.mp hnew] at hx
      exact mem_append_right _ (mem_append_left _ (hpushed.symm.subset hx))
  · intro j a hj pre x post hstack hbelow
    rw [length_append, length_singleton]
    -- the node was on the stack, or it has been pushed now
    have hcases : (∃ rest, pre = pushed ++ rest ∧ stack = rest ++ x :: post) ∨
        ∃ rest, pushed = pre ++ x :: rest := by
      rcases append_eq_append_iff.mp hstack with ⟨rest, hpre, hrest⟩ | ⟨rest, hpre, hrest⟩
      · exact .inl ⟨rest, hpre, hrest⟩
      · cases rest with
        | nil => exact .inl ⟨[], by rw [hpre]; simp, hrest.symm⟩
        | cons y rest =>
          rw [cons_append, List.cons.injEq] at hrest
          exact .inr ⟨rest, by rw [hpre, hrest.1]⟩
    rcases hcases with ⟨rest, rfl, rfl⟩ | ⟨rest, hpre⟩
    · rcases getElem?_concat_eq_some hj with hj | ⟨rfl, rfl⟩
      · have hold := h.confined j a hj (c :: rest) x post rfl hbelow
        simp only [cons_append, pending_cons, pending_append, hsize] at hold ⊢
        omega
      · exact absurd hbelow (hbelowc x (by simp))
    · have hx : x ∈ F.children c := hpushed.subset (by rw [hpre]; simp)
      have hpart : F.pending (pre ++ [x]) ≤ F.numBelow c := by
        rw [← hsize, hpre]
        simp only [pending_append, pending_cons, pending_nil]
        omega
      rcases getElem?_concat_eq_some hj with hj | ⟨rfl, rfl⟩
      · have hne : a ≠ x := by
          rintro rfl
          exact h.traversal.child_fresh hx (mem_append_left _ (mem_of_getElem? hj))
        have hold := h.confined j a hj [] c stack rfl (hbelow.parent wf hne hx)
        simp only [nil_append, pending_cons, pending_nil] at hold
        omega
      · omega
  · intro j k a b hj hk
    rcases getElem?_concat_eq_some hj with hold | ⟨rfl, rfl⟩
    · rcases getElem?_concat_eq_some hk with hold' | ⟨rfl, rfl⟩
      · exact h.exact j k a b hold hold'
      · have hlt : j < visited.length := (List.getElem?_eq_some_iff.mp hold).1
        constructor
        · intro hbelow
          have hroom := h.confined j a hold [] b stack rfl hbelow
          simp only [nil_append, pending_cons, pending_nil] at hroom
          omega
        · rintro ⟨-, hopen⟩
          exact h.traversal.below hold hopen
    · rcases getElem?_concat_eq_some hk with hold | ⟨rfl, rfl⟩
      · have hlt : k < visited.length := (List.getElem?_eq_some_iff.mp hold).1
        constructor
        · intro hbelow
          exact absurd (h.traversal.above_visited hbelow (mem_of_getElem? hold)) hfresh
        · omega
      · exact ⟨fun _ => ⟨Nat.le_refl _, Nat.le_add_right _ _⟩, fun _ => .refl⟩

/-- At the end everything below the roots has been visited. -/
lemma Walk.mem_visited {roots visited : List β} (h : F.Walk roots visited []) {r x : β}
    (hr : r ∈ roots) (hbelow : F.Below r x) : x ∈ visited := by
  induction hbelow with
  | refl => simpa using h.roots hr
  | tail _ hchild ih => simpa using h.children _ ih hchild

end Forest
end SpiderMonkey.Lib
