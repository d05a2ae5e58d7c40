import SpiderMonkey.Lib.StableSort

/-! # Merge sort

`MergeSort` of `ds/Sort.h`: chunks of three elements are sorted by insertion, then runs are merged
from one half of the scratch space into the other, each pass with runs twice as long.
-/

namespace SpiderMonkey.Ds

open SpiderMonkey.Lib List

variable {α : Type}

/-- `INS_SORT_LIMIT`. -/
def insSortLimit : Nat := 3

/-- The inner loop of the insertion sort: the element goes down past those that are not less or
equal. What is before it stands in reverse, as does the result. -/
def insertDown (c : α → α → Bool) : List α → α → List α
  | [], x => [x]
  | p :: before, x => if c p x then x :: p :: before else p :: insertDown c before x

/-- The insertion sort of a chunk. -/
def insertionSort (c : α → α → Bool) (chunk : List α) : List α :=
  (chunk.foldl (insertDown c) []).reverse

/-- The chunks of the array. -/
def sortChunks (c : α → α → Bool) (l : List α) : List α :=
  match l with
  | [] => []
  | x :: rest =>
    insertionSort c ((x :: rest).take insSortLimit) ++
      sortChunks c (rest.drop (insSortLimit - 1))
termination_by l.length
decreasing_by
  simp only [length_drop, length_cons]
  omega

/-- `MergeArrayRuns`: nothing is to be done if the last element of the first run is at most the
first of the second one; else the runs are merged, and what is left of one of them is copied. -/
def mergeArrayRuns (c : α → α → Bool) (run1 run2 : List α) : List α :=
  match run1.getLast?, run2.head? with
  | some last, some first => if c last first then run1 ++ run2 else run1.merge run2 c
  | _, _ => run1 ++ run2

/-- One pass over the runs. -/
def mergePass (c : α → α → Bool) (run : Nat) (l : List α) : List α :=
  if _h : l.length ≤ run ∨ run = 0 then l
  else
    mergeArrayRuns c (l.take run) ((l.drop run).take run) ++ mergePass c run (l.drop (2 * run))
termination_by l.length
decreasing_by
  rw [length_drop]
  omega

/-- The passes, up to a run that takes in all elements. -/
def mergePasses (c : α → α → Bool) (nelems run : Nat) (l : List α) : List α :=
  if h : nelems ≤ run ∨ run = 0 then l
  else mergePasses c nelems (run * 2) (mergePass c run l)
termination_by nelems - run
decreasing_by omega

/-- `MergeSort`. -/
def mergeSort (c : α → α → Bool) (l : List α) : List α :=
  if l.length ≤ 1 then l else mergePasses c l.length insSortLimit (sortChunks c l)

/-! ## The insertion sort -/

section

variable {c : α → α → Bool}

lemma StableSort.of_sameClasses {l l' sorted : List α} (hperm : l'.Perm l)
    (hclasses : SameClasses c l l') (h : StableSort c l' sorted) : StableSort c l sorted :=
  ⟨h.perm.trans hperm, h.ascending, hclasses.trans h.classes⟩

lemma insertDown_spec (h : Compares c) (before : List α) (x : α)
    (hbefore : Ascending c before.reverse) :
    StableSort c (before.reverse ++ [x]) (insertDown c before x).reverse := by
  induction before with
  | nil =>
    refine ⟨List.Perm.refl _, ?_, fun k => rfl⟩
    exact pairwise_singleton _ x
  | cons p before ih =>
    rw [reverse_cons] at hbefore ⊢
    have happend := pairwise_append.1 hbefore
    rw [insertDown]
    split_ifs with hle
    · -- the element stays where it is
      rw [reverse_cons, reverse_cons]
      refine ⟨List.Perm.refl _, ?_, fun k => rfl⟩
      apply pairwise_append.2
      refine ⟨hbefore, pairwise_singleton _ x, ?_⟩
      intro a ha b hb
      rw [mem_singleton.1 hb]
      rcases mem_append.1 ha with ha | ha
      · exact h.trans a p x (happend.2.2 a ha p mem_cons_self) hle
      · rw [mem_singleton.1 ha]
        exact hle
    · rw [Bool.not_eq_true] at hle
      have hsorted := ih happend.1
      rw [reverse_cons]
      have hswap : SameClasses c (before.reverse ++ [p] ++ [x]) (before.reverse ++ [x] ++ [p]) := by
        rw [append_assoc, append_assoc]
        exact SameClasses.swap h hle before.reverse []
      have hperm : (before.reverse ++ [x] ++ [p]).Perm (before.reverse ++ [p] ++ [x]) := by
        rw [append_assoc, append_assoc]
        exact List.Perm.append_left _ (List.Perm.swap p x [])
      apply StableSort.of_sameClasses hperm hswap
      refine ⟨hsorted.perm.append_right [p], ?_, hsorted.classes.append fun k => rfl⟩
      apply pairwise_append.2
      refine ⟨hsorted.ascending, pairwise_singleton _ p, ?_⟩
      intro a ha b hb
      rw [mem_singleton.1 hb]
      rcases mem_append.1 (hsorted.perm.subset ha) with ha | ha
      · exact happend.2.2 a ha p mem_cons_self
      · rw [mem_singleton.1 ha]
        exact h.le_of_not_le hle

lemma foldl_insertDown (h : Compares c) (chunk l before : List α)
    (hbefore : StableSort c l before.reverse) :
    StableSort c (l ++ chunk) (chunk.foldl (insertDown c) before).reverse := by
  induction chunk generalizing l before with
  | nil => simpa using hbefore
  | cons x chunk ih =>
    have hnext : StableSort c (l ++ [x]) (insertDown c before x).reverse := by
      apply StableSort.of_sameClasses (hbefore.perm.append_right [x])
        (hbefore.classes.append fun k => rfl)
      exact insertDown_spec h before x hbefore.ascending
    have hrest := ih (l ++ [x]) (insertDown c before x) hnext
    rwa [append_assoc] at hrest

lemma insertionSort_spec (h : Compares c) (chunk : List α) :
    StableSort c chunk (insertionSort c chunk) :=
  foldl_insertDown h chunk [] [] ⟨List.Perm.refl _, List.Pairwise.nil, fun _ => rfl⟩

/-! ## Runs -/

/-- The runs of the array are in ascending order. -/
def SortedRuns (c : α → α → Bool) (run : Nat) (l : List α) : Prop :=
  ∀ k, Ascending c ((l.drop (k * run)).take run)

lemma SortedRuns.first {run : Nat} {l : List α} (h : SortedRuns c run l) :
    Ascending c (l.take run) := by
  simpa using h 0

lemma SortedRuns.drop {run : Nat} {l : List α} (h : SortedRuns c run l) :
    SortedRuns c run (l.drop run) := by
  intro k
  rw [drop_drop]
  have hnext := h (k + 1)
  rwa [show (k + 1) * run = run + k * run by rw [Nat.add_mul, Nat.one_mul, Nat.add_comm]] at hnext

lemma SortedRuns.append {run : Nat} {r rest : List α} (hr : Ascending c r)
    (hlength : r.length = run ∨ r.length ≤ run ∧ rest = []) (hrest : SortedRuns c run rest) :
    SortedRuns c run (r ++ rest) := by
  intro k
  rcases hlength with rfl | ⟨hle, rfl⟩
  · cases k with
    | zero =>
      rw [Nat.zero_mul, drop_zero, take_left]
      exact hr
    | succ k =>
      rw [Nat.add_mul, Nat.one_mul, Nat.add_comm, drop_append]
      have hzero : r.drop (r.length + k * r.length) = [] := drop_eq_nil_of_le (by omega)
      rw [hzero, nil_append, Nat.add_sub_cancel_left]
      exact hrest k
  · rw [append_nil]
    exact hr.sublist ((take_sublist run _).trans (drop_sublist _ r))

lemma sortedRuns_nil (run : Nat) : SortedRuns c run [] := by
  intro k
  rw [drop_nil, take_nil]
  exact List.Pairwise.nil

lemma SortedRuns.ascending {run : Nat} {l : List α} (h : SortedRuns c run l)
    (hle : l.length ≤ run) : Ascending c l := by
  have hfirst := h.first
  rwa [take_of_length_le hle] at hfirst

lemma sortChunks_spec (h : Compares c) (l : List α) :
    (sortChunks c l).Perm l ∧ SameClasses c l (sortChunks c l) ∧
      SortedRuns c insSortLimit (sortChunks c l) := by
  fun_induction sortChunks c l with
  | case1 => exact ⟨List.Perm.refl _, fun k => rfl, sortedRuns_nil _⟩
  | case2 x rest ih =>
    rcases ih with ⟨hperm, hclasses, hruns⟩
    have hsplit : x :: rest = (x :: rest).take insSortLimit ++ rest.drop (insSortLimit - 1) :=
      (take_append_drop insSortLimit (x :: rest)).symm
    have hchunk := insertionSort_spec h ((x :: rest).take insSortLimit)
    refine ⟨?_, ?_, ?_⟩
    · have hboth := hchunk.perm.append hperm
      rwa [← hsplit] at hboth
    · have hboth := hchunk.classes.append hclasses
      rwa [← hsplit] at hboth
    · apply SortedRuns.append hchunk.ascending _ hruns
      rw [hchunk.perm.length_eq, length_take]
      by_cases hlast : insSortLimit ≤ (x :: rest).length
      · exact Or.inl (Nat.min_eq_left hlast)
      · -- the last chunk is shorter
        have hnil : rest.drop (insSortLimit - 1) = [] := by
          apply drop_eq_nil_of_le
          rw [length_cons] at hlast
          omega
        rw [hnil, sortChunks]
        exact Or.inr ⟨Nat.min_le_left _ _, rfl⟩

/-! ## Merging -/

lemma mergeArrayRuns_spec (h : Compares c) {run1 run2 : List α} (h1 : Ascending c run1)
    (h2 : Ascending c run2) : StableSort c (run1 ++ run2) (mergeArrayRuns c run1 run2) := by
  have hmerged : StableSort c (run1 ++ run2) (run1.merge run2 c) :=
    ⟨merge_perm_append c, h1.merge h h2, SameClasses.merge h run1 run2 h1⟩
  have hkept (hle : ∀ a ∈ run1, ∀ b ∈ run2, c a b = true) :
      StableSort c (run1 ++ run2) (run1 ++ run2) :=
    ⟨List.Perm.refl _, pairwise_append.2 ⟨h1, h2, hle⟩, fun k => rfl⟩
  rw [mergeArrayRuns]
  cases hlast : run1.getLast? with
  | none =>
    rw [List.getLast?_eq_none_iff.1 hlast] at hkept ⊢
    exact hkept fun a ha => absurd ha not_mem_nil
  | some last =>
    cases hfirst : run2.head? with
    | none =>
      rw [List.head?_eq_none_iff.1 hfirst] at hkept ⊢
      exact hkept fun a ha b hb => absurd hb not_mem_nil
    | some first =>
      simp only
      split_ifs with hle
      · -- the runs are in order already
        apply hkept
        intro a ha b hb
        have halast : c a last = true := by
          rcases List.getLast?_eq_some_iff.1 hlast with ⟨init, rfl⟩
          rcases mem_append.1 ha with ha | ha
          · exact (pairwise_append.1 h1).2.2 a ha last mem_cons_self
          · rw [mem_singleton.1 ha]
            exact h.refl last
        have hfirstb : c first b = true := by
          rcases List.head?_eq_some_iff.1 hfirst with ⟨rest, rfl⟩
          rcases mem_cons.1 hb with rfl | hb
          · exact h.refl b
          · exact rel_of_pairwise_cons h2 hb
        exact h.trans a last b halast (h.trans last first b hle hfirstb)
      · exact hmerged

lemma mergePass_spec (h : Compares c) {run : Nat} (hrun : 0 < run) (l : List α)
    (hl : SortedRuns c run l) :
    (mergePass c run l).Perm l ∧ SameClasses c l (mergePass c run l) ∧
      SortedRuns c (run * 2) (mergePass c run l) := by
  fun_induction mergePass c run l with
  | case1 l hend =>
    have hle : l.length ≤ run := by omega
    refine ⟨List.Perm.refl _, fun k => rfl, ?_⟩
    have happend := SortedRuns.append (hl.ascending hle)
      (Or.inr ⟨(by omega : l.length ≤ run * 2), rfl⟩) (sortedRuns_nil (run * 2))
    rwa [append_nil] at happend
  | case2 l hend ih =>
    have hmerged := mergeArrayRuns_spec h hl.first hl.drop.first
    have hdrop : SortedRuns c run (l.drop (2 * run)) := by
      have htwice := hl.drop.drop
      rwa [drop_drop, ← Nat.two_mul] at htwice
    rcases ih hdrop with ⟨hperm, hclasses, hruns⟩
    have hsplit : l = l.take run ++ (l.drop run).take run ++ l.drop (2 * run) := by
      rw [append_assoc, Nat.two_mul, ← drop_drop, take_append_drop,
        take_append_drop]
    refine ⟨?_, ?_, ?_⟩
    · have hboth := hmerged.perm.append hperm
      rwa [← hsplit] at hboth
    · have hboth := hmerged.classes.append hclasses
      rwa [← hsplit] at hboth
    · apply SortedRuns.append hmerged.ascending _ hruns
      rw [hmerged.perm.length_eq, length_append, length_take, length_take,
        length_drop]
      by_cases hlast : 2 * run ≤ l.length
      · left
        omega
      · right
        constructor
        · omega
        · rw [drop_eq_nil_of_le (by omega : l.length ≤ 2 * run), mergePass]
          simp

lemma mergePasses_spec (h : Compares c) {nelems run : Nat} (hrun : 0 < run) (l : List α)
    (hlength : l.length = nelems) (hl : SortedRuns c run l) :
    StableSort c l (mergePasses c nelems run l) := by
  fun_induction mergePasses c nelems run l with
  | case1 run l hend =>
    have hle : l.length ≤ run := by omega
    exact ⟨List.Perm.refl _, hl.ascending hle, fun k => rfl⟩
  | case2 run l hend ih =>
    rcases mergePass_spec h hrun l hl with ⟨hperm, hclasses, hruns⟩
    apply StableSort.of_sameClasses hperm hclasses
    exact ih (by omega) (hperm.length_eq.trans hlength) hruns

/-- **`MergeSort` sorts stably**, by any comparison that is a total preorder. -/
lemma mergeSort_spec (h : Compares c) (l : List α) : StableSort c l (mergeSort c l) := by
  rw [mergeSort]
  split_ifs with hshort
  · refine ⟨List.Perm.refl _, ?_, fun k => rfl⟩
    match l with
    | [] => exact List.Pairwise.nil
    | [a] => exact pairwise_singleton _ a
    | _ :: _ :: _ =>
      simp only [length_cons] at hshort
      omega
  · rcases sortChunks_spec h l with ⟨hperm, hclasses, hruns⟩
    apply StableSort.of_sameClasses hperm hclasses
    exact mergePasses_spec h (by decide) _ hperm.length_eq hruns

end

end SpiderMonkey.Ds
