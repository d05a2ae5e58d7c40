import SpiderMonkey.Ion.MoveResolver

/-! # The resolved moves happen at once

The invariant of the traversal: nothing still to be emitted reads what has been written, but
for the root of a cycle, whose value is in the slot while the cycle is open. Since no place
is written twice, the stack is a path of moves that block each other, and a path that comes
back to itself comes back to the root.
-/

namespace SpiderMonkey.Ion

open Lib List

lemma perm_removeBlockingMove {pending : List Move} {last blocking : Move}
    (h : findBlockingMove pending last = some blocking) :
    pending.Perm (blocking :: removeBlockingMove pending last) := by
  rcases find?_eq_some_iff_append.1 h with ⟨hblocks, before, after, rfl, hbefore⟩
  have hnone : ∀ m ∈ before, ¬ last.blockedBy m = true := by
    intro m hm
    have h := hbefore m hm
    simpa using h
  rw [removeBlockingMove, List.eraseP_append_right _ hnone, List.eraseP_cons_of_pos hblocks]
  exact perm_middle

/-- A move that is found is pending, and reads what `last` writes. -/
lemma findBlockingMove_spec {pending : List Move} {last blocking : Move}
    (h : findBlockingMove pending last = some blocking) :
    blocking ∈ pending ∧ blocking.src = last.dst :=
  ⟨mem_of_find?_eq_some h, of_decide_eq_true (find?_some (p := last.blockedBy) h)⟩

lemma findBlockingMove_eq_none {pending : List Move} {last : Move}
    (h : findBlockingMove pending last = none) : ∀ m ∈ pending, m.src ≠ last.dst := by
  intro m hm heq
  have hblocked : last.blockedBy m = true := decide_eq_true heq
  exact find?_eq_none.1 h m hm hblocked

namespace MoveResolver

/-- All moves of the group, wherever they are. -/
def all (r : MoveResolver) : List Move := r.orderedMoves ++ (r.root :: r.upper) ++ r.pending

/-- The invariant of the inner loop, for the group `moves`. `c` is the location saved in the
slot once the moves emitted so far have been carried out. -/
structure Inv (moves : List Move) (c : Option MoveOperand) (r : MoveResolver) : Prop where
  perm : (r.all.map Move.unmarked).Perm moves
  fresh : ∀ m ∈ r.pending, m.inCycle = false
  chain : (r.upper ++ [r.root]).IsChain fun above below => above.src = below.dst
  donePending : ∀ m ∈ r.orderedMoves, ∀ m' ∈ r.pending, m'.src ≠ m.dst
  doneUpper : ∀ m ∈ r.orderedMoves, ∀ m' ∈ r.upper, m'.src ≠ m.dst
  doneRoot : ∀ m ∈ r.orderedMoves, m.dst = r.root.src → c = some r.root.src
  marked : ∀ m ∈ r.upper, m.inCycle = true ↔ m.dst = r.root.src
  sequenced : Sequenced (r.orderedMoves.map Move.toParallel) c
  saved : c = none ∨ c = some r.root.src
  rootMarked : r.root.inCycle = true ↔ c = some r.root.src ∨ ∃ m ∈ r.upper, m.dst = r.root.src

section

variable {moves : List Move} {c : Option MoveOperand} {r : MoveResolver}

/-- No place is written twice. -/
lemma Inv.nodup (h : r.Inv moves c) (hdst : (moves.map Move.dst).Nodup) :
    (r.all.map Move.dst).Nodup := by
  have hmap : r.all.map Move.dst = (r.all.map Move.unmarked).map Move.dst := by
    rw [map_map]
    rfl
  rw [hmap]
  exact (h.perm.map Move.dst).nodup_iff.2 hdst

/-- What is on the stack and in the pending list writes elsewhere than what has been emitted. -/
lemma Inv.dst_ne (h : r.Inv moves c) (hdst : (moves.map Move.dst).Nodup) :
    (∀ m ∈ r.orderedMoves, ∀ m' ∈ r.root :: r.upper, m.dst ≠ m'.dst) ∧
      (∀ m ∈ r.orderedMoves ++ (r.root :: r.upper), ∀ m' ∈ r.pending, m.dst ≠ m'.dst) := by
  have hnodup := h.nodup hdst
  rw [all, map_append, nodup_append, map_append, nodup_append] at hnodup
  rcases hnodup with ⟨⟨_, _, hdone⟩, _, hpending⟩
  constructor
  · intro m hm m' hm'
    exact hdone _ (mem_map_of_mem hm) _ (mem_map_of_mem hm')
  · intro m hm m' hm'
    rw [← map_append] at hpending
    exact hpending _ (mem_map_of_mem hm) _ (mem_map_of_mem hm')

/-- On the stack, too, no place is written twice. -/
lemma Inv.stack_nodup (h : r.Inv moves c) (hdst : (moves.map Move.dst).Nodup) :
    ((r.root :: r.upper).map Move.dst).Nodup := by
  have hnodup := h.nodup hdst
  rw [all, map_append, nodup_append, map_append, nodup_append] at hnodup
  exact hnodup.1.2.1

/-- Each move above the root reads what another move on the stack writes. -/
lemma src_of_chain {upper : List Move} {root : Move}
    (h : (upper ++ [root]).IsChain fun above below => above.src = below.dst) :
    ∀ m ∈ upper, ∃ below ∈ root :: upper, m.src = below.dst := by
  induction upper with
  | nil =>
    intro m hm
    cases hm
  | cons top upper ih =>
    intro m hm
    rcases mem_cons.1 hm with rfl | hm
    · cases upper with
      | nil => exact ⟨root, mem_cons_self, (List.isChain_cons_cons.1 h).1⟩
      | cons next rest =>
        exact ⟨next, by simp, (List.isChain_cons_cons.1 h).1⟩
    · rcases ih (List.IsChain.tail h) m hm with ⟨below, hbelow, hsrc⟩
      refine ⟨below, ?_, hsrc⟩
      rw [mem_cons] at hbelow ⊢
      exact hbelow.imp_right (mem_cons_of_mem top)

/-- A blocking move reads what the top of the stack writes, so the stack stays a chain. -/
lemma chain_push {r : MoveResolver} {blocking : Move}
    (h : (r.upper ++ [r.root]).IsChain fun above below => above.src = below.dst)
    (hsrc : blocking.src = r.last.dst) :
    (blocking :: r.upper ++ [r.root]).IsChain fun above below => above.src = below.dst := by
  rw [last] at hsrc
  cases hupper : r.upper with
  | nil =>
    rw [hupper] at hsrc
    exact List.isChain_cons_cons.2 ⟨hsrc, List.isChain_singleton _⟩
  | cons top upper =>
    rw [hupper] at h hsrc
    exact List.isChain_cons_cons.2 ⟨hsrc, h⟩

/-- A blocking move, marked or not, goes from the pending list to the stack. -/
lemma perm_all_push {blocking : Move} (blocking' root' : Move)
    (hblocking : findBlockingMove r.pending r.last = some blocking)
    (hblocking' : blocking'.unmarked = blocking.unmarked)
    (hroot' : root'.unmarked = r.root.unmarked) :
    ((r.orderedMoves ++ (root' :: blocking' :: r.upper) ++
      removeBlockingMove r.pending r.last).map Move.unmarked).Perm (r.all.map Move.unmarked) := by
  have hpending : r.all.Perm (r.orderedMoves ++ (r.root :: r.upper) ++
      blocking :: removeBlockingMove r.pending r.last) :=
    (perm_removeBlockingMove hblocking).append_left _
  refine List.Perm.trans ?_ (hpending.map _).symm
  simp only [map_append, map_cons, hblocking', hroot', append_assoc,
    cons_append]
  refine List.Perm.append_left _ (List.Perm.cons _ ?_)
  exact perm_middle.symm

/-! ### One step each -/

lemma Inv.push (h : r.Inv moves c) {blocking : Move}
    (hblocking : findBlockingMove r.pending r.last = some blocking)
    (hne : blocking.dst ≠ r.root.src) : (r.push blocking).Inv moves c := by
  rcases findBlockingMove_spec hblocking with ⟨hmem, hsrc⟩
  have hsub : ∀ m ∈ removeBlockingMove r.pending r.last, m ∈ r.pending := fun m hm =>
    (perm_removeBlockingMove hblocking).mem_iff.2 (mem_cons_of_mem _ hm)
  refine ⟨(perm_all_push blocking r.root hblocking rfl rfl).trans h.perm,
    fun m hm => h.fresh m (hsub m hm), chain_push h.chain hsrc, fun m hm m' hm' => h.donePending m hm m' (hsub m' hm'), ?_,
    h.doneRoot, ?_, h.sequenced, h.saved, ?_⟩
  · intro m hm m' hm'
    rcases mem_cons.1 hm' with rfl | hm'
    · exact h.donePending m hm m' hmem
    · exact h.doneUpper m hm m' hm'
  · intro m hm
    rcases mem_cons.1 hm with rfl | hm
    · rw [h.fresh m hmem]
      simp [hne, MoveResolver.push]
    · exact h.marked m hm
  · show r.root.inCycle = true ↔ c = some r.root.src ∨ ∃ m ∈ blocking :: r.upper, m.dst = r.root.src
    rw [h.rootMarked, exists_mem_cons_iff, or_iff_right hne]

lemma Inv.pushInCycle (h : r.Inv moves c) {blocking : Move}
    (hblocking : findBlockingMove r.pending r.last = some blocking)
    (heq : blocking.dst = r.root.src) : (r.pushInCycle blocking).Inv moves c := by
  rcases findBlockingMove_spec hblocking with ⟨hmem, hsrc⟩
  have hsub : ∀ m ∈ removeBlockingMove r.pending r.last, m ∈ r.pending := fun m hm =>
    (perm_removeBlockingMove hblocking).mem_iff.2 (mem_cons_of_mem _ hm)
  refine ⟨(perm_all_push blocking.setInCycle r.root.setInCycle hblocking rfl rfl).trans h.perm,
    fun m hm => h.fresh m (hsub m hm), ?_,
    fun m hm m' hm' => h.donePending m hm m' (hsub m' hm'), ?_, h.doneRoot, ?_, h.sequenced,
    h.saved, ?_⟩
  · -- the marks do not matter to the chain
    have hchain := chain_push h.chain hsrc
    rw [← List.isChain_map (f := fun m : Move => (m.src, m.dst))
      (R := fun above below => above.1 = below.2)] at hchain ⊢
    simp only [MoveResolver.pushInCycle, map_append, map_cons] at hchain ⊢
    exact hchain
  · intro m hm m' hm'
    rcases mem_cons.1 hm' with rfl | hm'
    · exact h.donePending m hm blocking hmem
    · exact h.doneUpper m hm m' hm'
  · intro m hm
    rcases mem_cons.1 hm with rfl | hm
    · show true = true ↔ blocking.dst = r.root.src
      simp [heq]
    · exact h.marked m hm
  · show true = true ↔ c = some r.root.src ∨
      ∃ m ∈ blocking.setInCycle :: r.upper, m.dst = r.root.src
    rw [exists_mem_cons_iff]
    exact ⟨fun _ => Or.inr (Or.inl heq), fun _ => rfl⟩

/-- The move on top is emitted: nothing left, but perhaps the root, reads what it writes. -/
lemma Inv.pop (h : r.Inv moves c) (hdst : (moves.map Move.dst).Nodup) {done : Move}
    {upper : List Move} (hupper : r.upper = done :: upper)
    (hnone : findBlockingMove r.pending r.last = none) :
    ∃ c', (r.pop done upper).Inv moves c' := by
  have hlast : r.last = done := by rw [last, hupper]; rfl
  have hmem : done ∈ r.upper := by rw [hupper]; exact mem_cons_self
  have hpending := findBlockingMove_eq_none hnone
  rw [hlast] at hpending
  have hstack := h.stack_nodup hdst
  rw [hupper, map_cons, map_cons, nodup_cons, nodup_cons] at hstack
  rcases hstack with ⟨hroot, hdone, _⟩
  have hne : ∀ below ∈ r.root :: upper, below.dst ≠ done.dst := by
    intro below hbelow heq
    rcases mem_cons.1 hbelow with rfl | hbelow
    · exact hroot (heq ▸ mem_cons_self)
    · exact hdone (heq ▸ mem_map_of_mem hbelow)
  have hchain : (upper ++ [r.root]).IsChain fun above below => above.src = below.dst := by
    have hall := h.chain
    rw [hupper] at hall
    exact hall.tail
  -- a move below the top reads what another move below the top writes
  have hupperSrc : ∀ m ∈ upper, m.src ≠ done.dst := by
    intro m hm heq
    rcases src_of_chain hchain m hm with ⟨below, hbelow, hsrc⟩
    exact hne below hbelow (hsrc.symm.trans heq)
  have hfresh : ∀ m' ∈ r.orderedMoves.map Move.toParallel, m'.dst ≠ done.toParallel.dst := by
    intro m' hm'
    rcases mem_map.1 hm' with ⟨m, hm, rfl⟩
    exact (h.dst_ne hdst).1 m hm done (mem_cons_of_mem _ hmem)
  have hsrc : ∀ m' ∈ r.orderedMoves.map Move.toParallel, m'.dst ≠ done.toParallel.src := by
    intro m' hm' heq
    rcases mem_map.1 hm' with ⟨m, hm, rfl⟩
    exact h.doneUpper m hm done hmem heq.symm
  -- only the move that closes the cycle writes what the root reads, and no cycle is open then
  have hclosed : done.dst = r.root.src → c = none := by
    intro heq
    rcases h.saved with hc | hc
    · exact hc
    · have hsequenced := h.sequenced
      rw [hc] at hsequenced
      rcases hsequenced.exists_dst with ⟨m', hm', hdst'⟩
      exact absurd (hdst'.trans heq.symm) (hfresh m' hm')
  have hstep : ∀ c', Sequenced ((r.orderedMoves ++ [done]).map Move.toParallel) c' →
      (∀ m ∈ r.orderedMoves ++ [done], m.dst = r.root.src → c' = some r.root.src) →
      (c' = none ∨ c' = some r.root.src) →
      (r.root.inCycle = true ↔ c' = some r.root.src ∨ ∃ m ∈ upper, m.dst = r.root.src) →
      (r.pop done upper).Inv moves c' := by
    intro c' hsequenced hdoneRoot hsaved hrootMarked
    refine ⟨List.Perm.trans (List.Perm.map _ ?_) h.perm, h.fresh, hchain, ?_, ?_, hdoneRoot, ?_,
      hsequenced, hsaved, hrootMarked⟩
    · rw [all, all, hupper]
      refine List.Perm.append_right _ ?_
      show (r.orderedMoves ++ [done] ++ r.root :: upper).Perm
        (r.orderedMoves ++ r.root :: done :: upper)
      rw [append_assoc]
      exact List.Perm.append_left _ (List.Perm.swap _ _ _)
    · intro m hm m' hm'
      rcases mem_append.1 hm with hm | hm
      · exact h.donePending m hm m' hm'
      · rw [mem_singleton.1 hm]
        exact hpending m' hm'
    · intro m hm m' hm'
      rcases mem_append.1 hm with hm | hm
      · exact h.doneUpper m hm m' (hupper ▸ mem_cons_of_mem _ hm')
      · rw [mem_singleton.1 hm]
        exact hupperSrc m' hm'
    · intro m hm
      exact h.marked m (hupper ▸ mem_cons_of_mem _ hm)
  have hmap : (r.orderedMoves ++ [done]).map Move.toParallel =
      r.orderedMoves.map Move.toParallel ++ [done.toParallel] := by simp
  have hrootMarked := h.rootMarked
  rw [hupper, exists_mem_cons_iff] at hrootMarked
  rw [hmap] at hstep
  rcases Decidable.em (done.dst = r.root.src) with heq | hother
  · -- the move that closes the cycle comes first, and opens it
    have hsequenced := h.sequenced
    rw [hclosed heq] at hsequenced
    have hopens := hsequenced.opens (m := done.toParallel) ((h.marked done hmem).2 heq) hsrc hfresh
    rw [Move.toParallel_dst, heq] at hopens
    refine ⟨some r.root.src, hstep _ hopens (fun _ _ _ => rfl) (Or.inr rfl) ?_⟩
    rw [hrootMarked]
    exact ⟨fun _ => Or.inl rfl, fun _ => Or.inr (Or.inl heq)⟩
  · have hplain : done.inCycle = false := by
      rw [Bool.eq_false_iff, Ne, h.marked done hmem]
      exact hother
    refine ⟨c, hstep _ (h.sequenced.plain (m := done.toParallel) hplain hsrc hfresh) ?_ h.saved ?_⟩
    · intro m hm heq
      rcases mem_append.1 hm with hm | hm
      · exact h.doneRoot m hm heq
      · rw [mem_singleton.1 hm] at heq
        exact absurd heq hother
    · rw [hrootMarked, or_iff_right hother]

/-- What holds between two traversals. -/
structure Between (moves pending ordered : List Move) : Prop where
  perm : ((ordered ++ pending).map Move.unmarked).Perm moves
  fresh : ∀ m ∈ pending, m.inCycle = false
  done : ∀ m ∈ ordered, ∀ m' ∈ pending, m'.src ≠ m.dst
  sequenced : Sequenced (ordered.map Move.toParallel) none

/-- The root is emitted last, and closes the cycle if there is one. -/
lemma Inv.pop_root (h : r.Inv moves c) (hdst : (moves.map Move.dst).Nodup)
    (hupper : r.upper = []) (hnone : findBlockingMove r.pending r.last = none) :
    Between moves (r.pop r.root []).pending (r.pop r.root []).orderedMoves := by
  have hlast : r.last = r.root := by rw [last, hupper]; rfl
  have hpending := findBlockingMove_eq_none hnone
  rw [hlast] at hpending
  have hfresh : ∀ m' ∈ r.orderedMoves.map Move.toParallel, m'.dst ≠ r.root.toParallel.dst := by
    intro m' hm'
    rcases mem_map.1 hm' with ⟨m, hm, rfl⟩
    exact (h.dst_ne hdst).1 m hm r.root mem_cons_self
  have hrootMarked := h.rootMarked
  have hempty : ¬ ∃ m ∈ ([] : List Move), m.dst = r.root.src := by simp
  rw [hupper, or_iff_left hempty] at hrootMarked
  have hmap : (r.orderedMoves ++ [r.root]).map Move.toParallel =
      r.orderedMoves.map Move.toParallel ++ [r.root.toParallel] := by simp
  refine ⟨?_, h.fresh, ?_, ?_⟩
  · have hperm := h.perm
    rw [all, hupper] at hperm
    exact hperm
  · intro m hm m' hm'
    rcases mem_append.1 hm with hm | hm
    · exact h.donePending m hm m' hm'
    · rw [mem_singleton.1 hm]
      exact hpending m' hm'
  · show Sequenced ((r.orderedMoves ++ [r.root]).map Move.toParallel) none
    rw [hmap]
    have hsequenced := h.sequenced
    rcases h.saved with hc | hc
    · -- no cycle: the root is not marked, and nothing emitted writes what it reads
      rw [hc] at hsequenced hrootMarked
      have hplain : r.root.inCycle = false := by
        rw [Bool.eq_false_iff, Ne, hrootMarked]
        simp
      refine hsequenced.plain hplain ?_ hfresh
      intro m' hm' heq
      rcases mem_map.1 hm' with ⟨m, hm, rfl⟩
      have hsome := h.doneRoot m hm heq
      rw [hc] at hsome
      cases hsome
    · rw [hc] at hsequenced
      exact hsequenced.closes (hrootMarked.2 hc) hfresh

/-- A traversal, by induction over its steps. -/
lemma Inv.traverse (h : r.Inv moves c) (hdst : (moves.map Move.dst).Nodup) :
    Between moves r.traverse.pending r.traverse.orderedMoves := by
  fun_induction MoveResolver.traverse r generalizing c with
  | case1 r blocking hblocking heq ih => exact ih (h.pushInCycle hblocking heq)
  | case2 r blocking hblocking hne ih => exact ih (h.push hblocking hne)
  | case3 r hnone hupper => exact h.pop_root hdst hupper hnone
  | case4 r hnone done upper hupper ih =>
    rcases h.pop hdst hupper hnone with ⟨c', hpop⟩
    exact ih hpop

/-- The last pending move starts a traversal. -/
lemma Between.start {pending ordered : List Move} {pm : Move} {hasCycles : Bool}
    (h : Between moves (pending ++ [pm]) ordered) :
    Inv moves none {
      pending := pending
      upper := []
      root := pm
      orderedMoves := ordered
      hasCycles := hasCycles } := by
  have hpm : pm.inCycle = false := h.fresh pm (by simp)
  refine ⟨?_, fun m hm => h.fresh m (mem_append_left _ hm), List.isChain_singleton _,
    fun m hm m' hm' => h.done m hm m' (mem_append_left _ hm'), ?_, ?_, ?_, h.sequenced,
    Or.inl rfl, ?_⟩
  · refine List.Perm.trans (List.Perm.map _ ?_) h.perm
    rw [all, append_assoc]
    exact List.Perm.append_left _ (perm_append_singleton pm pending).symm
  · intro m _ m' hm'
    cases hm'
  · intro m hm heq
    exact absurd heq.symm (h.done m hm pm (by simp))
  · intro m hm
    cases hm
  · simp [hpm]

end

end MoveResolver

open MoveResolver

/-- All traversals. -/
lemma resolveLoop_between {moves : List Move} (hdst : (moves.map Move.dst).Nodup)
    (pending : List Move) (resolved : ResolvedMoves)
    (h : Between moves pending resolved.orderedMoves) :
    Between moves [] (resolveLoop pending resolved).orderedMoves := by
  fun_induction resolveLoop pending resolved with
  | case1 pending resolved hpm =>
    rw [List.getLast?_eq_none_iff.1 hpm] at h
    exact h
  | case2 pending resolved pm hpm r ih =>
    have hsplit : pending = pending.dropLast ++ [pm] := by
      rw [List.dropLast_append_getLast? pm hpm]
    rw [hsplit] at h
    exact ih (h.start.traverse hdst)

/-- Every mark is noted in `hasCycles`, by which the emitter reserves the cycle slot. -/
lemma MoveResolver.traverse_hasCycles (r : MoveResolver)
    (h : ∀ m ∈ r.all, m.inCycle = true → r.hasCycles = true) :
    ∀ m ∈ r.traverse.orderedMoves ++ r.traverse.pending, m.inCycle = true →
      r.traverse.hasCycles = true := by
  fun_induction MoveResolver.traverse r with
  | case1 r blocking _ _ ih => exact ih fun _ _ _ => rfl
  | case2 r blocking hblocking _ ih =>
    refine ih fun m hm => h m ?_
    have hmem := findBlockingMove_spec hblocking
    simp only [all, MoveResolver.push, mem_append, mem_cons] at hm ⊢
    rcases hm with (hm | rfl | rfl | hm) | hm
    · exact Or.inl (Or.inl hm)
    · exact Or.inl (Or.inr (Or.inl rfl))
    · exact Or.inr hmem.1
    · exact Or.inl (Or.inr (Or.inr hm))
    · exact Or.inr ((perm_removeBlockingMove hblocking).mem_iff.2 (mem_cons_of_mem _ hm))
  | case3 r _ hupper =>
    intro m hm
    refine h m ?_
    simp only [all, hupper, MoveResolver.pop, mem_append, mem_cons, not_mem_nil,
      or_false] at hm ⊢
    exact hm
  | case4 r _ done upper hupper ih =>
    refine ih fun m hm => h m ?_
    simp only [all, hupper, MoveResolver.pop, mem_append, mem_cons, not_mem_nil,
      or_false] at hm ⊢
    rcases hm with ((hm | rfl) | rfl | hm) | hm
    · exact Or.inl (Or.inl hm)
    · exact Or.inl (Or.inr (Or.inr (Or.inl rfl)))
    · exact Or.inl (Or.inr (Or.inl rfl))
    · exact Or.inl (Or.inr (Or.inr (Or.inr hm)))
    · exact Or.inr hm

lemma resolveLoop_hasCycles (pending : List Move) (resolved : ResolvedMoves)
    (h : ∀ m ∈ resolved.orderedMoves ++ pending, m.inCycle = true → resolved.hasCycles = true) :
    ∀ m ∈ (resolveLoop pending resolved).orderedMoves, m.inCycle = true →
      (resolveLoop pending resolved).hasCycles = true := by
  fun_induction resolveLoop pending resolved with
  | case1 pending resolved _ => exact fun m hm => h m (mem_append_left _ hm)
  | case2 pending resolved pm hpm r ih =>
    refine ih (MoveResolver.traverse_hasCycles _ fun m hm => h m ?_)
    have hsplit : pending = pending.dropLast ++ [pm] := by
      rw [List.dropLast_append_getLast? pm hpm]
    rw [hsplit]
    simp only [MoveResolver.all, mem_append, mem_cons, not_mem_nil, or_false] at hm ⊢
    rcases hm with (hm | rfl) | hm
    · exact Or.inl hm
    · exact Or.inr (Or.inr rfl)
    · exact Or.inr (Or.inl hm)

/-- A marked move is emitted only where the cycle slot has been reserved. -/
lemma resolve_hasCycles (moves : List (MoveOperand × MoveOperand × MoveKind)) :
    ∀ m ∈ (resolve (addMoves moves)).orderedMoves, m.inCycle = true →
      (resolve (addMoves moves)).hasCycles = true := by
  refine resolveLoop_hasCycles _ _ ?_
  intro m hm hmark
  rcases mem_map.1 hm with ⟨move, _, rfl⟩
  cases hmark

/-- A move that is carried out by the emitter is one step of the sequence. -/
lemma emit_eq_step {V : Type} (s : EmitterState V) (m : Move) :
    (s.emit m).toMoveState = s.toMoveState.step m.toParallel := by
  rw [EmitterState.emit, MoveState.step]
  cases hmark : m.inCycle <;> cases hopen : s.inCycle <;>
    simp [hmark, hopen, EmitterState.toMoveState, EmitterState.emitMove, EmitterState.breakCycle,
      EmitterState.completeCycle]

lemma emitAll_eq_run {V : Type} (s : EmitterState V) (ms : List Move) :
    (s.emitAll ms).toMoveState = s.toMoveState.run (ms.map Move.toParallel) := by
  induction ms generalizing s with
  | nil => rfl
  | cons m ms ih =>
    show ((s.emit m).emitAll ms).toMoveState = (s.toMoveState.step m.toParallel).run _
    rw [ih, emit_eq_step]

/-- When all moves are done. -/
lemma resolve_between (moves : List (MoveOperand × MoveOperand × MoveKind))
    (hdst : (moves.map fun m => m.2.1).Nodup) :
    Between (addMoves moves) [] (resolve (addMoves moves)).orderedMoves := by
  have hnodup : ((addMoves moves).map Move.dst).Nodup := by
    rw [addMoves, map_map]
    exact hdst
  have hunmarked : (addMoves moves).map Move.unmarked = addMoves moves := by
    rw [addMoves, map_map]
    rfl
  have hstart : Between (addMoves moves) (addMoves moves) [] := by
    refine ⟨?_, ?_, ?_, Sequenced.nil⟩
    · rw [nil_append, hunmarked]
    · intro m hm
      rcases mem_map.1 hm with ⟨move, _, rfl⟩
      rfl
    · intro m hm
      cases hm
  exact resolveLoop_between hnodup (addMoves moves) ⟨[], false⟩ hstart

lemma resolve_perm (moves : List (MoveOperand × MoveOperand × MoveKind))
    (hdst : (moves.map fun m => m.2.1).Nodup) :
    ((resolve (addMoves moves)).orderedMoves.map Move.unmarked).Perm (addMoves moves) := by
  have hperm := (resolve_between moves hdst).perm
  rwa [append_nil] at hperm

/-- A move that is emitted is one that was added. -/
lemma resolve_mem (moves : List (MoveOperand × MoveOperand × MoveKind))
    (hdst : (moves.map fun m => m.2.1).Nodup) {m : Move}
    (hm : m ∈ (resolve (addMoves moves)).orderedMoves) : (m.src, m.dst, m.kind) ∈ moves := by
  have hadded := (resolve_perm moves hdst).mem_iff.1 (mem_map_of_mem hm)
  rcases mem_map.1 hadded with ⟨move, hmove, heq⟩
  have hsrc : move.1 = m.src := congrArg Move.src heq
  have hdst : move.2.1 = m.dst := congrArg Move.dst heq
  have hkind : move.2.2 = m.kind := congrArg Move.kind heq
  rw [← hsrc, ← hdst, ← hkind]
  exact hmove

/-- Carried out in order, the moves of a group deliver every value. -/
lemma emitAll_delivers (moves : List (MoveOperand × MoveOperand × MoveKind))
    (hdst : (moves.map fun m => m.2.1).Nodup) {V : Type} (s : EmitterState V)
    (hclosed : s.inCycle = false) :
    (s.emitAll (resolve (addMoves moves)).orderedMoves).inCycle = false ∧
      (∀ m ∈ moves, (s.emitAll (resolve (addMoves moves)).orderedMoves).places m.2.1 =
        s.places m.1) ∧
      ∀ place, place ∉ moves.map (fun m => m.2.1) →
        (s.emitAll (resolve (addMoves moves)).orderedMoves).places place = s.places place := by
  have hrun := (resolve_between moves hdst).sequenced.run s.toMoveState hclosed
  rw [← emitAll_eq_run] at hrun
  refine ⟨hrun.isOpen, ?_, ?_⟩
  · intro move hmove
    have hadded : (⟨move.1, move.2.1, move.2.2, false⟩ : Move) ∈ addMoves moves :=
      mem_map_of_mem hmove
    rcases mem_map.1 ((resolve_perm moves hdst).mem_iff.2 hadded) with ⟨m, hm, heq⟩
    have hdelivered := hrun.dst m.toParallel (mem_map_of_mem hm)
    have hsrc : m.src = move.1 := congrArg Move.src heq
    have hdst : m.dst = move.2.1 := congrArg Move.dst heq
    rw [Move.toParallel_src, Move.toParallel_dst, hsrc, hdst] at hdelivered
    exact hdelivered
  · intro place hplace
    refine hrun.other place ?_
    intro m hm heq
    rcases mem_map.1 hm with ⟨m', hm', rfl⟩
    exact hplace (mem_map.2 ⟨_, resolve_mem moves hdst hm', heq⟩)

/-- **The moves of a group are put in a right order.** Each is emitted once. Each cycle that
is opened is closed by the move that reads the place saved, before another is opened. Carried
out in order, with one slot for cycles, they leave in every destination what its source held
before the first of them, and nothing else is changed. -/
theorem resolve_sequential (moves : List (MoveOperand × MoveOperand × MoveKind))
    (hdst : (moves.map fun m => m.2.1).Nodup) :
    ((resolve (addMoves moves)).orderedMoves.map Move.unmarked).Perm (addMoves moves) ∧
      CyclesPaired none ((resolve (addMoves moves)).orderedMoves.map Move.toParallel) ∧
      ∀ (V : Type) (s : EmitterState V), s.inCycle = false →
        let s' := s.emitAll (resolve (addMoves moves)).orderedMoves
        s'.inCycle = false ∧ (∀ m ∈ moves, s'.places m.2.1 = s.places m.1) ∧
          ∀ place, place ∉ moves.map (fun m => m.2.1) → s'.places place = s.places place := by
  refine ⟨resolve_perm moves hdst, (resolve_between moves hdst).sequenced.paired, ?_⟩
  intro V s hclosed
  exact emitAll_delivers moves hdst s hclosed

/-- Two registers exchanged, with a third fed from one of them; a place's value is its name. -/
theorem resolve_sequential_exchange :
    let s := (⟨id, .reg 0, false⟩ : EmitterState MoveOperand).emitAll (resolve (addMoves
      [(.reg 0, .reg 1, .general), (.reg 1, .reg 0, .general),
        (.reg 0, .reg 3, .general)])).orderedMoves
    s.places (.reg 1) = .reg 0 ∧ s.places (.reg 0) = .reg 1 ∧ s.places (.reg 3) = .reg 0 := by
  have h := (resolve_sequential [(.reg 0, .reg 1, .general), (.reg 1, .reg 0, .general),
    (.reg 0, .reg 3, .general)] (by decide)).2.2 MoveOperand ⟨id, .reg 0, false⟩ rfl
  exact ⟨h.2.1 (.reg 0, .reg 1, .general) (by decide), h.2.1 (.reg 1, .reg 0, .general) (by decide),
    h.2.1 (.reg 0, .reg 3, .general) (by decide)⟩

end SpiderMonkey.Ion
