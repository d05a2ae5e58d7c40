import Mathlib

/-! # Bit sets

`BitSet` of `ion/BitSet.h` and `ion/BitSet.cpp`, the loop over its iterator, and programs over
sets of one maximum.
-/

namespace SpiderMonkey.Ion.BitSets

/-- `RawLengthForBits(max_)`. -/
def BitSet.numWords (max : ℕ) : ℕ := 1 + max / 32

instance (max : ℕ) : NeZero (BitSet.numWords max) := ⟨by rw [BitSet.numWords]; omega⟩

structure BitSet (max : ℕ) where
  bits : Vector (BitVec 32) (BitSet.numWords max)

namespace BitSet

variable {max : ℕ}

def New (max : ℕ) : BitSet max := ⟨Vector.replicate _ 0⟩

def bitForValue (value : ℕ) : BitVec 32 := 1#32 <<< (value % 32)

def wordForValue (value : Fin (max + 1)) : Fin (numWords max) :=
  ⟨value / 32, by rw [numWords]; omega⟩

section

variable (set other : BitSet max) (value : Fin (max + 1))

def contains : Bool :=
  (set.bits[wordForValue value] &&& bitForValue value) != 0

def empty : Bool :=
  set.bits.all (· == 0)

def insert : BitSet max :=
  let word := wordForValue value
  ⟨set.bits.set word (set.bits[word] ||| bitForValue value) word.2⟩

def remove : BitSet max :=
  let word := wordForValue value
  ⟨set.bits.set word (set.bits[word] &&& ~~~ bitForValue value) word.2⟩

def insertAll : BitSet max := ⟨set.bits.zipWith (· ||| ·) other.bits⟩

def removeAll : BitSet max := ⟨set.bits.zipWith (· &&& ~~~ ·) other.bits⟩

def intersect : BitSet max := ⟨set.bits.zipWith (· &&& ·) other.bits⟩

/-- The intersection, and whether a word of it is not the old one. -/
def fixedPointIntersect : BitSet max × Bool :=
  let result := set.intersect other
  (result, (set.bits.zip result.bits).any fun (old, new) => old != new)

def complement : BitSet max := ⟨set.bits.map (~~~ ·)⟩

def clear : BitSet max := ⟨set.bits.map fun _ => 0⟩

end

/-! ## The iterator -/

structure Iterator where
  index : ℕ
  word : ℕ
  value : BitVec 32

section

variable (set : BitSet max)

/-- `operator++` from the loop on that skips the words containing only zeros. -/
def skipZeros (it : Iterator) : Iterator :=
  if it.value = 0 then
    if h : it.word + 1 < numWords max then
      skipZeros ⟨(it.word + 1) * 32, it.word + 1, set.bits[it.word + 1]⟩
    else { it with word := it.word + 1 }
  else
    let numZeros := it.value.ctz.toNat
    { it with index := it.index + numZeros, value := it.value >>> numZeros }
termination_by numWords max - it.word

/-- `operator++`. -/
def next (it : Iterator) : Iterator :=
  set.skipZeros { it with index := it.index + 1, value := it.value >>> 1 }

/-- The constructor. -/
def begin : Iterator :=
  let it : Iterator := ⟨0, 0, set.bits[(0 : Fin _)]⟩
  if set.contains 0 then it else set.next it

lemma skipZeros_decreases (it : Iterator) :
    it.word < (set.skipZeros it).word ∨ (set.skipZeros it).word = it.word ∧
      it.value ≠ 0 ∧ (set.skipZeros it).value.toNat ≤ it.value.toNat := by
  fun_induction skipZeros set it with
  | case1 it hzero h ih => left; simp only at ih; omega
  | case2 it hzero h => exact .inl (Nat.lt_succ_self _)
  | case3 it hzero numZeros =>
    refine .inr ⟨rfl, hzero, ?_⟩
    rw [BitVec.toNat_ushiftRight, Nat.shiftRight_eq_div_pow]
    exact Nat.div_le_self _ _

lemma next_decreases (it : Iterator) (hmore : it.word < numWords max) :
    Prod.Lex (· < ·) (· < ·)
      (numWords max - (set.next it).word, (set.next it).value.toNat)
      (numWords max - it.word, it.value.toNat) := by
  rcases set.skipZeros_decreases { it with index := it.index + 1, value := it.value >>> 1 } with
    hword | ⟨hword, hne, hvalue⟩
  · exact .left _ _ (by simp only [next] at hword ⊢; omega)
  · have hpos : 0 < it.value.toNat := by
      rw [Nat.pos_iff_ne_zero]
      intro hzero
      exact hne (by simp [← BitVec.toNat_inj, hzero])
    rw [next, hword]
    refine .right _ (Nat.lt_of_le_of_lt hvalue ?_)
    rw [BitVec.toNat_ushiftRight, Nat.shiftRight_eq_div_pow]
    omega

/-- The loop `for (; it; it++)` with `*it` in its body: what it yields, or none where an assertion
fails. The one about `contains` stands at the end of `operator++`. -/
def yieldFrom (it : Iterator) : Option (List ℕ) :=
  if it.word < numWords max then
    if h : it.index ≤ max then
      if set.contains ⟨it.index, Nat.lt_succ_of_le h⟩ then
        (it.index :: ·) <$> yieldFrom (set.next it)
      else none
    else none
  else some []
termination_by (numWords max - it.word, it.value.toNat)
decreasing_by exact set.next_decreases it ‹_›

def iterate : Option (List ℕ) :=
  set.yieldFrom set.begin

end

/-! ## Programs -/

/-- The operations on sets, which are counted. -/
inductive Op (max : ℕ)
  | insert (i : ℕ) (value : Fin (max + 1))
  | remove (i : ℕ) (value : Fin (max + 1))
  | insertAll (i j : ℕ)
  | removeAll (i j : ℕ)
  | intersect (i j : ℕ)
  | fixedPointIntersect (i j : ℕ)
  | complement (i : ℕ)
  | clear (i : ℕ)
  | contains (i : ℕ) (value : Fin (max + 1))
  | empty (i : ℕ)
  | iterate (i : ℕ)

inductive Outcome
  | done
  | answer (b : Bool)
  | yielded (values : Option (List ℕ))
deriving DecidableEq

open Function in
def step (s : ℕ → BitSet max) : Op max → (ℕ → BitSet max) × Outcome
  | .insert i value => (update s i ((s i).insert value), .done)
  | .remove i value => (update s i ((s i).remove value), .done)
  | .insertAll i j => (update s i ((s i).insertAll (s j)), .done)
  | .removeAll i j => (update s i ((s i).removeAll (s j)), .done)
  | .intersect i j => (update s i ((s i).intersect (s j)), .done)
  | .fixedPointIntersect i j =>
    let (result, changed) := (s i).fixedPointIntersect (s j)
    (update s i result, .answer changed)
  | .complement i => (update s i (s i).complement, .done)
  | .clear i => (update s i (s i).clear, .done)
  | .contains i value => (s, .answer ((s i).contains value))
  | .empty i => (s, .answer (s i).empty)
  | .iterate i => (s, .yielded (s i).iterate)

open Function in
/-- The operations on subsets of `{0, …, max}`. -/
def denote (S : ℕ → Finset ℕ) : Op max → (ℕ → Finset ℕ) × Outcome
  | .insert i value => (update S i (Insert.insert value.1 (S i)), .done)
  | .remove i value => (update S i ((S i).erase value), .done)
  | .insertAll i j => (update S i (S i ∪ S j), .done)
  | .removeAll i j => (update S i (S i \ S j), .done)
  | .intersect i j => (update S i (S i ∩ S j), .done)
  | .fixedPointIntersect i j => (update S i (S i ∩ S j), .answer (decide (S i ∩ S j ≠ S i)))
  | .complement i => (update S i (Finset.range (max + 1) \ S i), .done)
  | .clear i => (update S i ∅, .done)
  | .contains i value => (S, .answer (decide (value.1 ∈ S i)))
  | .empty i => (S, .answer (decide (S i = ∅)))
  | .iterate i => (S, .yielded (some ((List.range (max + 1)).filter (· ∈ S i))))

/-- The outcomes of a program. -/
def outcomes {σ : Type} (step : σ → Op max → σ × Outcome) (s : σ) : List (Op max) → List Outcome
  | [] => []
  | op :: ops => (step s op).2 :: outcomes step (step s op).1 ops

end BitSet

end SpiderMonkey.Ion.BitSets
