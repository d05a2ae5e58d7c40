import Mathlib

/-! # Triples for steps that change a state and may fail

`Triple pre m post fail`: from a state with `pre`, the step gives a value and a state with `post`,
or it fails in a state with `fail`.
-/

namespace SpiderMonkey.Lib

variable {ε σ α β : Type}

lemma bind_run (m : EStateM ε σ α) (k : α → EStateM ε σ β) (s : σ) :
    (m >>= k) s =
      match m s with
      | .ok a s' => k a s'
      | .error e s' => .error e s' := by
  show EStateM.bind m k s = _
  rw [EStateM.bind]
  cases m s with
  | ok a s' => rfl
  | error e s' => rfl

def Triple (pre : σ → Prop) (m : EStateM ε σ α) (post : α → σ → Prop) (fail : σ → Prop) : Prop :=
  ∀ s, pre s →
    match m s with
    | .ok a s' => post a s'
    | .error _ s' => fail s'

namespace Triple

variable {pre pre' : σ → Prop} {m : EStateM ε σ α} {post post' : α → σ → Prop} {fail : σ → Prop}

lemma pure {a : α} (h : ∀ s, pre s → post a s) :
    Triple (ε := ε) pre (pure a) post fail := h

lemma bind {k : α → EStateM ε σ β} {last : β → σ → Prop} (hm : Triple pre m post fail)
    (hk : ∀ a, Triple (post a) (k a) last fail) : Triple pre (m >>= k) last fail := by
  intro s hs
  have hfirst := hm s hs
  rw [bind_run]
  cases hms : m s with
  | ok a s' =>
    rw [hms] at hfirst
    exact hk a s' hfirst
  | error e s' =>
    rw [hms] at hfirst
    exact hfirst

lemma modify {f : σ → σ} {post : PUnit → σ → Prop} (h : ∀ s, pre s → post ⟨⟩ (f s)) :
    Triple (ε := ε) pre (modify f) post fail := h

lemma weaken (hm : Triple pre m post fail) (hpre : ∀ s, pre' s → pre s)
    (hpost : ∀ a s, post a s → post' a s) : Triple pre' m post' fail := by
  intro s hs
  have h := hm s (hpre s hs)
  cases hms : m s with
  | ok a s' =>
    rw [hms] at h
    exact hpost a s' h
  | error e s' =>
    rw [hms] at h
    exact h

lemma ite {c : Prop} [Decidable c] {m' : EStateM ε σ α} (hthen : c → Triple pre m post fail)
    (helse : ¬ c → Triple pre m' post fail) : Triple pre (if c then m else m') post fail := by
  by_cases hc : c
  · rw [if_pos hc]
    exact hthen hc
  · rw [if_neg hc]
    exact helse hc

/-- The state in which the step starts. -/
lemma of_state (h : ∀ s, pre s → Triple (fun s' => s' = s) m post fail) :
    Triple pre m post fail := fun s hs => h s hs s rfl

end Triple

end SpiderMonkey.Lib
