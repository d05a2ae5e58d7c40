import Mathlib

/-! # Dominance in flow graphs

A flow graph has roots and edges. `a` dominates `b` when no path from a root
reaches `b` without going through `a`. `Avoids a b` is the inductive form of
such a path, so facts about dominance are inductions on paths.
-/

namespace SpiderMonkey.Lib

/-- Where control may enter and how it may move. -/
structure FlowGraph (β : Type*) where
  root : β → Prop
  edge : β → β → Prop

namespace FlowGraph

variable {β : Type*} (G : FlowGraph β)

/-- Some path from a root ends in the block. -/
inductive Reachable : β → Prop
  | root {b} : G.root b → Reachable b
  | step {b c} : Reachable b → G.edge b c → Reachable c

/-- Some path from a root ends in the block and never visits `a`. -/
inductive Avoids (a : β) : β → Prop
  | root {b} : G.root b → b ≠ a → Avoids a b
  | step {b c} : Avoids a b → G.edge b c → c ≠ a → Avoids a c

/-- Every path to `b` goes through `a`. -/
def Dominates (a b : β) : Prop := ¬ G.Avoids a b

/-- Every path to `b` goes through `a` before it reaches `b`. -/
def StrictlyDominates (a b : β) : Prop := G.Dominates a b ∧ a ≠ b

variable {G}

lemma Avoids.ne {a b : β} (h : G.Avoids a b) : b ≠ a := by
  cases h <;> assumption

lemma dominates_refl (a : β) : G.Dominates a a := fun h => h.ne rfl

/-- A root is dominated by itself only. -/
lemma Dominates.eq_of_root {a b : β} (h : G.Dominates a b) (hb : G.root b) : a = b := by
  by_contra hne
  exact h (.root hb (Ne.symm hne))

/-- The only root dominates every block. -/
lemma dominates_of_sole_root {a : β} (h : ∀ r, G.root r → r = a) (b : β) : G.Dominates a b := by
  intro hav
  induction hav with
  | root hroot hne => exact hne (h _ hroot)
  | step _ _ _ ih => exact ih

/-- Dominance over the target of an edge, other than by the target itself, is
dominance over its source. -/
lemma Dominates.of_edge {a b c : β} (h : G.Dominates a c) (he : G.edge b c) (hne : c ≠ a) :
    G.Dominates a b :=
  fun hav => h (hav.step he hne)

lemma Dominates.trans {a b c : β} (hab : G.Dominates a b) (hbc : G.Dominates b c) :
    G.Dominates a c := by
  intro hac
  have hsplit : G.Avoids a b ∨ G.Avoids b c := by
    induction hac with
    | @root c hroot hca =>
      rcases Classical.em (c = b) with rfl | hcb
      · exact Or.inl (.root hroot hca)
      · exact Or.inr (.root hroot hcb)
    | @step x c hax hxc hca ih =>
      rcases Classical.em (c = b) with rfl | hcb
      · exact Or.inl (hax.step hxc hca)
      · by_cases hbx : G.Dominates b x
        · exact Or.inl ((ih hbx).resolve_right hbx)
        · exact Or.inr ((Classical.not_not.mp hbx).step hxc hcb)
  exact hsplit.elim hab hbc

/-- Of two blocks that dominate a reachable block, one dominates the other. -/
lemma Dominates.total {a b c : β} (hac : G.Dominates a c) (hbc : G.Dominates b c)
    (hc : G.Reachable c) : G.Dominates a b ∨ G.Dominates b a := by
  induction hc with
  | root hroot =>
    left
    rw [hac.eq_of_root hroot, hbc.eq_of_root hroot]
    exact dominates_refl _
  | @step x c _ hxc ih =>
    rcases Classical.em (c = a) with rfl | hca
    · exact Or.inr hbc
    · rcases Classical.em (c = b) with rfl | hcb
      · exact Or.inl hac
      · exact ih (hac.of_edge hxc hca) (hbc.of_edge hxc hcb)

/-- Two blocks that dominate each other are one block, once one of them is
reachable: on a path to it, one of the two is visited first. -/
lemma Dominates.antisymm {a b : β} (hab : G.Dominates a b) (hba : G.Dominates b a)
    (hb : G.Reachable b) : a = b := by
  by_contra hne
  have hneither : ∀ x, G.Reachable x → G.Avoids a x ∧ G.Avoids b x := by
    intro x hx
    induction hx with
    | @root x hroot =>
      have hxa : x ≠ a := by
        rintro rfl
        exact hba (.root hroot hne)
      have hxb : x ≠ b := by
        rintro rfl
        exact hab (.root hroot (Ne.symm hne))
      exact ⟨.root hroot hxa, .root hroot hxb⟩
    | @step x y _ hxy ih =>
      have hya : y ≠ a := by
        rintro rfl
        exact hba (ih.2.step hxy hne)
      have hyb : y ≠ b := by
        rintro rfl
        exact hab (ih.1.step hxy (Ne.symm hne))
      exact ⟨ih.1.step hxy hya, ih.2.step hxy hyb⟩
  exact (hneither b hb).2.ne rfl

/-- What dominates a reachable block is reachable. -/
lemma Dominates.reachable {a b : β} (h : G.Dominates a b) (hb : G.Reachable b) :
    G.Reachable a := by
  by_contra ha
  have hall : ∀ x, G.Reachable x → G.Avoids a x := by
    intro x hx
    induction hx with
    | root hroot =>
      refine .root hroot ?_
      rintro rfl
      exact ha (.root hroot)
    | step hx hxy ih =>
      refine ih.step hxy ?_
      rintro rfl
      exact ha (hx.step hxy)
  exact h (hall b hb)

/-- A block strictly above one that dominates a reachable block is not that
block. -/
lemma StrictlyDominates.ne_of_dominates {a s b : β} (h : G.StrictlyDominates a s)
    (hsb : G.Dominates s b) (hb : G.Reachable b) : a ≠ b := by
  rintro rfl
  exact h.2 (hsb.antisymm h.1 hb).symm

/-- Dominance followed by strict dominance is strict. -/
lemma Dominates.trans_strict {a p b : β} (hap : G.Dominates a p)
    (hpb : G.StrictlyDominates p b) (hb : G.Reachable b) : G.StrictlyDominates a b := by
  refine ⟨hap.trans hpb.1, ?_⟩
  rintro rfl
  exact hpb.2 (hpb.1.antisymm hap hb)

/-- The only predecessor of a block that is not a root strictly dominates it. -/
lemma strictlyDominates_of_sole_predecessor {p b : β} (hroot : ¬ G.root b)
    (hpred : ∀ x, G.edge x b → x = p) (hb : G.Reachable b) : G.StrictlyDominates p b := by
  constructor
  · intro hav
    cases hav with
    | root h => exact hroot h
    | step hx he => exact hx.ne (hpred _ he)
  · rintro rfl
    have hnot : ∀ x, G.Reachable x → x ≠ p := by
      intro x hx
      induction hx with
      | root h =>
        rintro rfl
        exact hroot h
      | step _ he ih =>
        rintro rfl
        exact ih (hpred _ he)
    exact hnot p hb rfl

end FlowGraph
end SpiderMonkey.Lib
