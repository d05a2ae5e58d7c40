import Mathlib

/-! # Occurrences of a list in another

The first place at which a pattern stands in a text, as the searches report it: its index, or -1.
-/

namespace SpiderMonkey.Lib

open List

variable {α : Type*}

/-- `pat` stands at `i` in `text`. -/
def OccursAt (pat text : List α) (i : Nat) : Prop := pat <+: text.drop i

/-- It stands nowhere before `n`. -/
def NoneBefore (pat text : List α) (n : Nat) : Prop := ∀ i < n, ¬ OccursAt pat text i

/-- What a search reports. -/
inductive FindsFirst (pat text : List α) : Int → Prop
  | found (i : Nat) : OccursAt pat text i → NoneBefore pat text i → FindsFirst pat text i
  | absent : (∀ i, ¬ OccursAt pat text i) → FindsFirst pat text (-1)

variable {pat text : List α}

lemma occursAt_iff {i : Nat} :
    OccursAt pat text i ↔ ∀ j < pat.length, text[i + j]? = pat[j]? := by
  rw [OccursAt, prefix_iff_getElem?]
  refine forall₂_congr fun j hj => ?_
  rw [List.getElem?_drop, List.getElem?_eq_getElem hj]

lemma OccursAt.length_le {i : Nat} (h : OccursAt pat text i) (hpat : pat ≠ []) :
    i + pat.length ≤ text.length := by
  have hlen := List.IsPrefix.length_le h
  rw [length_drop] at hlen
  have hpos := length_pos_iff.mpr hpat
  omega

/-- What stands at `i` begins there, and goes on behind. -/
lemma occursAt_cons_iff {a : α} {i : Nat} :
    OccursAt (a :: pat) text i ↔ text[i]? = some a ∧ pat <+: text.drop (i + 1) := by
  rw [OccursAt, ← drop_drop]
  have hget : text[i]? = (text.drop i)[0]? := by rw [List.getElem?_drop, Nat.add_zero]
  rw [hget]
  cases text.drop i with
  | nil => simp
  | cons b rest =>
    rw [cons_prefix_cons]
    simp [eq_comm]

lemma noneBefore_zero : NoneBefore pat text 0 := nofun

lemma NoneBefore.succ {n : Nat} (h : NoneBefore pat text n) (hn : ¬ OccursAt pat text n) :
    NoneBefore pat text (n + 1) := by
  intro i hi
  rcases Nat.lt_succ_iff_lt_or_eq.mp hi with hlt | rfl
  · exact h i hlt
  · exact hn

/-- The end of the text leaves no room. -/
lemma NoneBefore.absent {n : Nat} (h : NoneBefore pat text n) (hpat : pat ≠ [])
    (hend : text.length < n + pat.length) : ∀ i, ¬ OccursAt pat text i := by
  intro i hi
  have hle := hi.length_le hpat
  exact h i (by omega) hi

/-- A search has one answer. -/
lemma FindsFirst.unique {r r' : Int} (h : FindsFirst pat text r) (h' : FindsFirst pat text r') :
    r = r' := by
  cases h with
  | found i hi hnone =>
    cases h' with
    | found j hj hnone' =>
      have hle : ¬ i < j := fun hlt => hnone' i hlt hi
      have hge : ¬ j < i := fun hlt => hnone j hlt hj
      omega
    | absent habsent => exact absurd hi (habsent i)
  | absent habsent =>
    cases h' with
    | found j hj hnone' => exact absurd hj (habsent j)
    | absent _ => rfl

/-! ## Texts in parts -/

/-- In a text of two parts, what stands within the first stands there alone. -/
lemma occursAt_append_iff {front back : List α} {i : Nat} (h : i + pat.length ≤ front.length) :
    OccursAt pat (front ++ back) i ↔ OccursAt pat front i := by
  rw [OccursAt, OccursAt, drop_append_of_le_length (by omega)]
  constructor
  · intro hprefix
    exact prefix_of_prefix_length_le hprefix (prefix_append _ _) (by
      rw [length_drop]
      omega)
  · intro hprefix
    exact List.IsPrefix.trans hprefix (prefix_append _ _)

/-- What stands behind the first part. -/
lemma occursAt_append_right {front back : List α} (i : Nat) :
    OccursAt pat (front ++ back) (front.length + i) ↔ OccursAt pat back i := by
  rw [OccursAt, OccursAt, ← drop_drop, drop_left]

/-- An answer for a text, as one for a longer text in which it begins at `n`. -/
def offsetBy (n : Nat) (r : Int) : Int := if r = -1 then -1 else n + r

lemma offsetBy_natCast (n i : Nat) : offsetBy n (i : Int) = ((n + i : Nat) : Int) := by
  rw [offsetBy, if_neg (by omega)]
  omega

lemma offsetBy_offsetBy (n m : Nat) {r : Int} (h : FindsFirst pat text r) :
    offsetBy n (offsetBy m r) = offsetBy (n + m) r := by
  cases h with
  | found i _ _ => rw [offsetBy_natCast, offsetBy_natCast, offsetBy_natCast, Nat.add_assoc]
  | absent _ => rfl

/-- Where the pattern does not begin in the first part, the answer is that for the second. -/
lemma FindsFirst.append {front back : List α} {r : Int}
    (hfront : NoneBefore pat (front ++ back) front.length) (h : FindsFirst pat back r) :
    FindsFirst pat (front ++ back) (offsetBy front.length r) := by
  have hback {n : Nat} (hnone : NoneBefore pat back n) :
      NoneBefore pat (front ++ back) (front.length + n) := by
    intro i hi hoccurs
    by_cases hlt : i < front.length
    · exact hfront i hlt hoccurs
    · obtain ⟨j, rfl⟩ := Nat.exists_eq_add_of_le (Nat.le_of_not_lt hlt)
      exact hnone j (by omega) ((occursAt_append_right j).mp hoccurs)
  cases h with
  | found i hi hnone =>
    rw [offsetBy_natCast]
    exact .found _ ((occursAt_append_right i).mpr hi) (hback hnone)
  | absent habsent =>
    refine .absent fun i => ?_
    have hnone : NoneBefore pat back (i + 1) := fun j _ => habsent j
    exact hback hnone i (by omega)

/-! ## Skipping -/

/-- The rule of a search that compares from the end and shifts by the unit under the end of the
pattern: a shift that passes over no such unit of the pattern misses nothing. -/
lemma NoneBefore.shift {k shift : Nat} (hpat : pat ≠ [])
    (h : NoneBefore pat text (k + 1 - (pat.length - 1))) (hk : pat.length - 1 ≤ k)
    (hshift : shift ≤ pat.length)
    (hskip : ∀ j < pat.length - 1, text[k]? = pat[j]? → shift ≤ pat.length - 1 - j) :
    NoneBefore pat text (k + shift - (pat.length - 1)) := by
  intro i hi hoccurs
  have hpos := length_pos_iff.mpr hpat
  by_cases hbefore : i < k + 1 - (pat.length - 1)
  · exact h i hbefore hoccurs
  · have hunit := occursAt_iff.mp hoccurs (k - i) (by omega)
    rw [show i + (k - i) = k by omega] at hunit
    have hle := hskip (k - i) (by omega) hunit
    omega

end SpiderMonkey.Lib
