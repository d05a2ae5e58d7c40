import Mathlib

/-! # Sequences that become constant

Two reasons for a sequence of states to become constant: it descends in a well-founded
order, or from some point on it only ever moves to one fixed value. Finitely many such
sequences are constant from a common point on.
-/

namespace SpiderMonkey.Lib

open Filter

variable {α : Type*}

/-- A sequence that never rises. -/
lemma eventuallyConst_of_antitone [PartialOrder α] [WellFoundedLT α] {f : ℕ → α}
    (hf : Antitone f) : EventuallyConst f atTop := by
  rw [eventuallyConst_atTop]
  rcases WellFoundedLT.antitone_chain_condition hf with ⟨n, hn⟩
  exact ⟨n, fun m hm => (hn m hm).symm⟩

/-- An increasing sequence of integers below a bound. -/
lemma eventuallyConst_of_monotone {f : ℕ → Int} (hf : Monotone f) {bound : Int}
    (hbound : ∀ n, f n ≤ bound) : EventuallyConst f atTop := by
  have hanti : Antitone fun n => (bound - f n).toNat := by
    intro m n hmn
    have := hf hmn
    show (bound - f n).toNat ≤ (bound - f m).toNat
    omega
  have hconst := (eventuallyConst_of_antitone hanti).comp fun k => bound - (k : Int)
  refine hconst.congr (Eventually.of_forall fun n => ?_)
  have := hbound n
  show bound - ((bound - f n).toNat : Int) = f n
  omega

/-- A sequence that from some point on moves to one value only. -/
lemma eventuallyConst_of_settles {f : ℕ → α} {c : α} {N : ℕ}
    (h : ∀ n ≥ N, f (n + 1) = f n ∨ f (n + 1) = c) : EventuallyConst f atTop := by
  rw [eventuallyConst_atTop_nat]
  by_cases hc : ∃ n ≥ N, f n = c
  · rcases hc with ⟨n, hn, hfn⟩
    refine ⟨n, fun m hm => ?_⟩
    have hm' : f m = c := by
      induction m, hm using Nat.le_induction with
      | base => exact hfn
      | succ m hm ih =>
        rcases h m (by omega) with hsame | hmove
        · exact hsame.trans ih
        · exact hmove
    rcases h m (by omega) with hsame | hmove
    · exact hsame
    · exact hmove.trans hm'.symm
  · refine ⟨N, fun m hm => ?_⟩
    rcases h m hm with hsame | hmove
    · exact hsame
    · exact absurd ⟨m + 1, by omega, hmove⟩ hc

/-- Finitely many sequences that become constant. -/
lemma exists_common_of_eventuallyConst {ι : Type*} {f : ι → ℕ → α}
    (h : ∀ d, EventuallyConst (f d) atTop) (ds : List ι) :
    ∃ N, ∀ d ∈ ds, ∀ n ≥ N, f d (n + 1) = f d n := by
  induction ds with
  | nil => exact ⟨0, fun d hd => absurd hd List.not_mem_nil⟩
  | cons d ds ih =>
    rcases ih with ⟨N, hN⟩
    rcases eventuallyConst_atTop_nat.mp (h d) with ⟨M, hM⟩
    refine ⟨max N M, fun e he n hn => ?_⟩
    rcases List.mem_cons.mp he with rfl | he
    · exact hM n (by omega)
    · exact hN e he n (by omega)

end SpiderMonkey.Lib
