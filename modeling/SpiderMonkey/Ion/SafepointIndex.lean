import Mathlib

/-! # The search for a safepoint index

`IonScript::getSafepointIndex` of `ion/Ion.cpp`: a guess by interpolation, and a scan from there.
-/

namespace SpiderMonkey.Ion

structure SafepointIndex where
  displacement : UInt32
  safepointOffset : UInt32

/-- What `copySafepointIndices` leaves. The indices are counted by `safepointIndexEntries_`, and
calls are encoded by increasing offset. -/
structure SafepointIndices where
  table : List SafepointIndex
  nonempty : table ≠ []
  length_lt : table.length < 2 ^ 32
  increasing : (table.map SafepointIndex.displacement).Pairwise (· < ·)

section

variable (table : List SafepointIndex) (disp : UInt32)

/-- `while (--guess >= minEntry)`. Below the first place `guess` wraps around, and what is read is
not of the table. -/
def scanDown : ℕ → Option ℕ
  | 0 => none
  | guess + 1 => do
    let guessDisp := (← table[guess]?).displacement
    if guessDisp < disp then none
    else if guessDisp = disp then some guess
    else scanDown guess

/-- `while (++guess <= maxEntry)`, where `maxEntry` is so many places behind. -/
def scanUp : ℕ → ℕ → Option ℕ
  | 0, _ => none
  | behind + 1, guess => do
    let guessDisp := (← table[guess + 1]?).displacement
    if disp < guessDisp then none
    else if guessDisp = disp then some (guess + 1)
    else scanUp behind (guess + 1)

/-- `getSafepointIndex`, with a `size_t` of so many bits: the place of the index that is returned.
It is none where an assertion fails, the division is one by zero, or a read is not of the table. -/
def getSafepointIndex (sizeBits : ℕ) : Option ℕ := do
  if table.length = 1 then
    if disp = (← table[0]?).displacement then some 0 else none
  else
    let minEntry := 0
    let maxEntry := table.length - 1
    let min := (← table[minEntry]?).displacement
    let max := (← table[maxEntry]?).displacement
    if ¬ (min ≤ disp ∧ disp ≤ max) ∨ max - min = 0 then none
    else
      let product := (disp - min).toNat * (maxEntry - minEntry) % 2 ^ sizeBits
      let guess := (product / (max - min).toNat + minEntry) % 2 ^ sizeBits
      let guessDisp := (← table[guess]?).displacement
      if guessDisp = disp then some guess
      else if disp < guessDisp then scanDown table disp guess
      else scanUp table disp (maxEntry - guess) guess

end

namespace SafepointIndices

variable (s : SafepointIndices) {i k : ℕ} (hk : k < s.table.length)

include hk

/-- Displacements are ordered as their places. -/
lemma displacement_lt (hik : i < k) : s.table[i].displacement < s.table[k].displacement := by
  have hlt := List.pairwise_iff_getElem.1 s.increasing i k (by simp; omega) (by simpa) hik
  simpa using hlt

lemma displacement_le (hik : i ≤ k) : s.table[i].displacement ≤ s.table[k].displacement := by
  rcases Nat.lt_or_eq_of_le hik with hlt | rfl
  · exact UInt32.le_of_lt (s.displacement_lt hk hlt)
  · exact UInt32.le_refl _

lemma scanDown_finds (hik : k < i) (hi : i ≤ s.table.length) :
    scanDown s.table s.table[k].displacement i = some k := by
  induction i with
  | zero => exact absurd hik (Nat.not_lt_zero k)
  | succ guess ih =>
    have hguess : guess < s.table.length := hi
    simp only [scanDown, List.getElem?_eq_getElem hguess, Option.bind_eq_bind, Option.bind_some]
    rcases Nat.lt_succ_iff_lt_or_eq.1 hik with hlt | rfl
    · have hdisp := s.displacement_lt hguess hlt
      rw [if_neg (UInt32.lt_asymm hdisp), if_neg (UInt32.ne_of_lt hdisp).symm]
      exact ih hlt (Nat.le_of_lt hguess)
    · rw [if_neg (UInt32.lt_irrefl _), if_pos rfl]

lemma scanUp_finds {behind guess : ℕ} (hlt : guess < k)
    (hbehind : guess + behind + 1 = s.table.length) :
    scanUp s.table s.table[k].displacement behind guess = some k := by
  induction behind generalizing guess with
  | zero => omega
  | succ behind ih =>
    have hnext : guess + 1 < s.table.length := by omega
    simp only [scanUp, List.getElem?_eq_getElem hnext, Option.bind_eq_bind, Option.bind_some]
    rcases Nat.lt_or_eq_of_le hlt with hlt | rfl
    · have hdisp := s.displacement_lt hk hlt
      rw [if_neg (UInt32.lt_asymm hdisp), if_neg (UInt32.ne_of_lt hdisp)]
      exact ih hlt (by omega)
    · rw [if_neg (UInt32.lt_irrefl _), if_pos rfl]

end SafepointIndices

/-- The interpolation stays in the table, even where the product wraps around. -/
lemma guess_le {a b : ℕ} (hab : a ≤ b) (n m m' : ℕ) : a * n % m / b % m' ≤ n :=
  calc a * n % m / b % m' ≤ a * n % m / b := Nat.mod_le _ _
    _ ≤ b * n / b :=
      Nat.div_le_div_right (Nat.le_trans (Nat.mod_le _ _) (Nat.mul_le_mul_right n hab))
    _ ≤ n := Nat.div_le_of_le_mul (Nat.le_refl _)

/-- Every index is found by its displacement, whatever the width of `size_t`. -/
theorem getSafepointIndex_finds (s : SafepointIndices) (k : Fin s.table.length) (sizeBits : ℕ) :
    getSafepointIndex s.table s.table[k].displacement sizeBits = some k.1 := by
  obtain ⟨k, hk⟩ := k
  have hpos : 0 < s.table.length := Nat.zero_lt_of_lt hk
  have hmax : s.table.length - 1 < s.table.length := by omega
  have hmin' := s.displacement_le hk (Nat.zero_le k)
  have hmax' := s.displacement_le hmax (Nat.le_sub_one_of_lt hk)
  simp only [getSafepointIndex, Fin.getElem_fin, List.getElem?_eq_getElem hpos,
    List.getElem?_eq_getElem hmax, Option.bind_eq_bind, Option.bind_some]
  by_cases hone : s.table.length = 1
  · obtain rfl : k = 0 := by omega
    rw [if_pos hone, if_pos rfl]
  have hlt := s.displacement_lt hmax (i := 0) (by omega)
  have hne : s.table[s.table.length - 1].displacement - s.table[0].displacement ≠ 0 := by
    intro hzero
    have htoNat := UInt32.toNat_sub_of_le _ _ (UInt32.le_of_lt hlt)
    rw [UInt32.lt_iff_toNat_lt] at hlt
    rw [hzero, UInt32.toNat_zero] at htoNat
    omega
  rw [if_neg hone, if_neg (not_or.2 ⟨not_not.2 ⟨hmin', hmax'⟩, hne⟩)]
  have hdisp : (s.table[k].displacement - s.table[0].displacement).toNat ≤
      (s.table[s.table.length - 1].displacement - s.table[0].displacement).toNat := by
    rw [UInt32.toNat_sub_of_le _ _ hmin', UInt32.toNat_sub_of_le _ _ (UInt32.le_of_lt hlt)]
    exact Nat.sub_le_sub_right (UInt32.le_iff_toNat_le.1 hmax') _
  have hguess := guess_le hdisp (s.table.length - 1 - 0) (2 ^ sizeBits) (2 ^ sizeBits)
  simp only [Nat.add_zero]
  generalize _ % 2 ^ sizeBits = guess at hguess ⊢
  have hin : guess < s.table.length := by omega
  simp only [List.getElem?_eq_getElem hin, Option.bind_some]
  rcases Nat.lt_trichotomy guess k with hbelow | rfl | habove
  · have hdisp := s.displacement_lt hk hbelow
    rw [if_neg (UInt32.ne_of_lt hdisp), if_neg (UInt32.lt_asymm hdisp)]
    exact s.scanUp_finds hk hbelow (by omega)
  · rw [if_pos rfl]
  · have hdisp := s.displacement_lt hin habove
    rw [if_neg (UInt32.ne_of_lt hdisp).symm, if_pos hdisp]
    exact s.scanDown_finds hk habove (Nat.le_of_lt hin)

end SpiderMonkey.Ion
