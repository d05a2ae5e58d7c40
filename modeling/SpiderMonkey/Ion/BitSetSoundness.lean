import SpiderMonkey.Ion.BitSet

/-! # What a bit set denotes

The sets denote subsets of `{0, …, max}`, and `complement` also sets the bits of the last word
beyond `max`. The outcomes of a program are those of the subsets as long as those bits do not show.
-/

namespace SpiderMonkey.Ion.BitSets.BitSet

variable {max : ℕ}

/-! ## Bits -/

/-- The bit for a value, which is beyond `max` in part of the last word. -/
def bit (set : BitSet max) (n : ℕ) : Bool :=
  (set.bits[n / 32]?.getD 0).getLsbD (n % 32)

section

variable (set other : BitSet max) (n : ℕ) (value : Fin (max + 1))

lemma div_lt_of_le (h : n ≤ max) : n / 32 < numWords max := by
  rw [numWords]
  omega

lemma bit_of_lt (h : n / 32 < numWords max) :
    set.bit n = set.bits[n / 32].getLsbD (n % 32) := by
  rw [bit, Vector.getElem?_eq_getElem h, Option.getD_some]

lemma bit_of_not_lt (h : ¬ n / 32 < numWords max) : set.bit n = false := by
  rw [bit, Vector.getElem?_eq_none (Nat.le_of_not_lt h), Option.getD_none]
  exact BitVec.getLsbD_zero

@[simp] lemma bit_New : (New max).bit n = false := by
  by_cases hn : n / 32 < numWords max
  · simp [bit_of_lt _ _ hn, New]
  · exact bit_of_not_lt _ _ hn

@[simp] lemma bit_clear : set.clear.bit n = false := by
  by_cases hn : n / 32 < numWords max
  · simp [bit_of_lt _ _ hn, clear]
  · exact bit_of_not_lt _ _ hn

@[simp] lemma bit_insertAll : (set.insertAll other).bit n = (set.bit n || other.bit n) := by
  by_cases hn : n / 32 < numWords max
  · simp [bit_of_lt _ _ hn, insertAll]
  · simp [bit_of_not_lt _ _ hn]

@[simp] lemma bit_removeAll : (set.removeAll other).bit n = (set.bit n && !other.bit n) := by
  by_cases hn : n / 32 < numWords max
  · simp [bit_of_lt _ _ hn, removeAll, Nat.mod_lt]
  · simp [bit_of_not_lt _ _ hn]

@[simp] lemma bit_intersect : (set.intersect other).bit n = (set.bit n && other.bit n) := by
  by_cases hn : n / 32 < numWords max
  · simp [bit_of_lt _ _ hn, intersect]
  · simp [bit_of_not_lt _ _ hn]

lemma bit_complement (hn : n / 32 < numWords max) : set.complement.bit n = !set.bit n := by
  simp [bit_of_lt _ _ hn, complement, Nat.mod_lt]

lemma bitForValue_eq : bitForValue n = BitVec.twoPow 32 (n % 32) :=
  (BitVec.twoPow_eq _ _).symm

lemma getLsbD_bitForValue (k : ℕ) : (bitForValue n).getLsbD k = decide (n % 32 = k) := by
  simp [bitForValue_eq, BitVec.getLsbD_twoPow, Nat.mod_lt]

@[simp] lemma bit_insert : (set.insert value).bit n = (decide (n = value) || set.bit n) := by
  by_cases hn : n / 32 < numWords max
  · simp only [bit_of_lt _ _ hn, insert, Fin.getElem_fin, wordForValue, Vector.getElem_set]
    split_ifs with hword
    · simp only [BitVec.getLsbD_or, getLsbD_bitForValue, hword,
        Bool.or_comm (decide _)]
      congr 2
      rw [eq_iff_iff]
      omega
    · have hne : n ≠ value := by omega
      simp [hne]
  · have hne : n ≠ value := by rintro rfl; exact hn (wordForValue value).2
    simp [bit_of_not_lt _ _ hn, hne]

@[simp] lemma bit_remove : (set.remove value).bit n = (decide (n ≠ value) && set.bit n) := by
  by_cases hn : n / 32 < numWords max
  · simp only [bit_of_lt _ _ hn, remove, Fin.getElem_fin, wordForValue, Vector.getElem_set]
    split_ifs with hword
    · have hlt := Nat.mod_lt n (show 32 > 0 by decide)
      simp only [BitVec.getLsbD_and, BitVec.getLsbD_not, getLsbD_bitForValue, hword, hlt,
        Bool.and_comm (decide _), ← decide_not, decide_true, Bool.true_and]
      congr 2
      rw [eq_iff_iff]
      omega
    · have hne : n ≠ value := by omega
      simp [hne]
  · simp [bit_of_not_lt _ _ hn]

lemma contains_eq : set.contains value = set.bit value := by
  rw [contains, bit_of_lt _ _ (wordForValue value).2, Bool.eq_iff_iff, bne_iff_ne, ne_eq]
  constructor
  · intro h
    by_contra hfalse
    exact h (by rw [bitForValue_eq, BitVec.and_twoPow]; exact if_neg hfalse)
  · intro h hzero
    have hbit := congrArg (BitVec.getLsbD · (value.1 % 32)) hzero
    rw [BitVec.getLsbD_and, getLsbD_bitForValue, decide_eq_true rfl, Bool.and_true,
      BitVec.ofNat_eq_ofNat, BitVec.getLsbD_zero] at hbit
    exact Bool.false_ne_true (hbit.symm.trans h)

end

/-! ## The iterator -/

section

variable {set : BitSet max} {it : Iterator} {start : ℕ}

/-- The value is what the word has from the index on. -/
structure At (set : BitSet max) (it : Iterator) : Prop where
  word_lt : it.word < numWords max
  le_index : it.word * 32 ≤ it.index
  index_le : it.index ≤ it.word * 32 + 32
  value_eq : it.value = set.bits[it.word] >>> (it.index - it.word * 32)

/-- The iterator stands at the first bit from a place on. -/
structure Stands (set : BitSet max) (start : ℕ) (it : Iterator) : Prop extends At set it where
  start_le : start ≤ it.index
  index_lt : it.index < it.word * 32 + 32
  bit_index : set.bit it.index = true
  clear : ∀ n, start ≤ n → n < it.index → set.bit n = false

/-- It stands there, or no bit is left. -/
def Comes (set : BitSet max) (start : ℕ) (it : Iterator) : Prop :=
  set.Stands start it ∨ it.word = numWords max ∧ ∀ n, start ≤ n → set.bit n = false

lemma At.getLsbD_value (h : set.At it) {n : ℕ} (hle : it.index ≤ n)
    (hlt : n < it.word * 32 + 32) : it.value.getLsbD (n - it.index) = set.bit n := by
  have hlow := h.le_index
  have hword : n / 32 = it.word := by omega
  have hplace : it.index - it.word * 32 + (n - it.index) = n % 32 := by omega
  rw [h.value_eq, BitVec.getLsbD_ushiftRight, hplace, bit_of_lt _ _ (hword ▸ h.word_lt)]
  simp only [hword]

lemma At.clear_of_value (h : set.At it) (hzero : it.value = 0) {n : ℕ} (hle : it.index ≤ n)
    (hlt : n < it.word * 32 + 32) : set.bit n = false := by
  rw [← h.getLsbD_value hle hlt, hzero]
  exact BitVec.getLsbD_zero

lemma Comes.mono {start' : ℕ} (h : set.Comes start' it) (hle : start ≤ start')
    (hclear : ∀ n, start ≤ n → n < start' → set.bit n = false) : set.Comes start it := by
  have hsplit : ∀ n, start ≤ n → (start' ≤ n → set.bit n = false) → set.bit n = false := by
    intro n hn hrest
    rcases Nat.lt_or_ge n start' with hlt | hge
    · exact hclear n hn hlt
    · exact hrest hge
  rcases h with h | ⟨hword, hrest⟩
  · exact .inl { h with
      start_le := Nat.le_trans hle h.start_le
      clear := fun n hn hlt => hsplit n hn fun hge => h.clear n hge hlt }
  · exact .inr ⟨hword, fun n hn => hsplit n hn (hrest n)⟩

lemma Comes.stands (h : set.Comes start it) (hword : it.word < numWords max) :
    set.Stands start it :=
  h.resolve_right fun hend => Nat.ne_of_lt hword hend.1

lemma At.skipZeros (h : set.At it) : set.Comes it.index (set.skipZeros it) := by
  fun_induction BitSet.skipZeros set it with
  | case1 it hzero hword ih =>
    refine Comes.mono (ih ⟨hword, Nat.le_refl _, Nat.le_add_right _ _, ?_⟩) ?_ ?_
    · simp
    · have := h.index_le
      simp only
      omega
    · intro n hn hlt
      exact h.clear_of_value hzero hn (by simp only at hlt; omega)
  | case2 it hzero hword =>
    have hlast : it.word + 1 = numWords max := by
      have := h.word_lt
      omega
    refine .inr ⟨hlast, fun n hn => ?_⟩
    rcases Nat.lt_or_ge n (it.word * 32 + 32) with hlt | hge
    · exact h.clear_of_value hzero hn hlt
    · exact bit_of_not_lt _ _ (by omega)
  | case3 it hne numZeros =>
    have hnumZeros : numZeros < 32 := by
      have := BitVec.lt_def.1 (BitVec.ctz_lt_iff_ne_zero.2 hne)
      simpa using this
    have htrue := BitVec.getLsbD_true_ctz_of_ne_zero hne
    have hword := h.word_lt
    have hlow := h.le_index
    have hlt : it.index + numZeros < it.word * 32 + 32 := by
      have hbit : (set.bits[it.word] >>> (it.index - it.word * 32)).getLsbD numZeros = true := by
        rw [← h.value_eq]
        exact htrue
      rw [BitVec.getLsbD_ushiftRight] at hbit
      have := BitVec.lt_of_getLsbD hbit
      omega
    left
    refine ⟨⟨h.word_lt, by simp only; omega, Nat.le_of_lt hlt, ?_⟩, ?_, hlt, ?_, ?_⟩
    · simp only [h.value_eq, ← BitVec.shiftRight_add]
      congr 1
      omega
    · exact Nat.le_add_right _ _
    · rw [← h.getLsbD_value (Nat.le_add_right _ _) hlt, Nat.add_sub_cancel_left]
      exact htrue
    · intro n hn hlt'
      simp only at hlt'
      rw [← h.getLsbD_value hn (by omega)]
      exact BitVec.getLsbD_false_of_lt_ctz (by omega)

lemma At.next (h : set.At it) (hlt : it.index < it.word * 32 + 32) :
    set.Comes (it.index + 1) (set.next it) := by
  have hlow := h.le_index
  have hat : set.At { it with index := it.index + 1, value := it.value >>> 1 } := by
    refine ⟨h.word_lt, Nat.le_succ_of_le hlow, hlt, ?_⟩
    simp only [h.value_eq, ← BitVec.shiftRight_add]
    congr 1
    omega
  exact hat.skipZeros

lemma comes_begin : set.Comes 0 set.begin := by
  have hat : set.At ⟨0, 0, set.bits[(0 : Fin _)]⟩ :=
    ⟨Nat.pos_of_neZero _, Nat.le_refl _, Nat.le_add_left _ _, by simp⟩
  rw [begin]
  split_ifs with hfirst
  · rw [contains_eq] at hfirst
    exact .inl ⟨hat, Nat.le_refl _, by simp, hfirst, fun n _ hn => absurd hn (Nat.not_lt_zero n)⟩
  · rw [contains_eq, Bool.not_eq_true] at hfirst
    refine (hat.next (by simp)).mono (Nat.zero_le _) fun n _ hn => ?_
    rw [Nat.lt_one_iff.1 hn]
    exact hfirst

/-- What is yielded from a place on: the bits in ascending order, as long as none is beyond
`max`. -/
lemma Comes.yieldFrom (h : set.Comes start it) :
    match set.yieldFrom it with
    | some values => values.Pairwise (· < ·) ∧ (∀ n, n ∈ values ↔ start ≤ n ∧ set.bit n = true) ∧
        ∀ n ∈ values, n ≤ max
    | none => ∃ n, max < n ∧ set.bit n = true := by
  fun_induction BitSet.yieldFrom set it generalizing start with
  | case1 it hword hle hcontains ih =>
    have hstands := h.stands hword
    have hrest := ih (hstands.toAt.next hstands.index_lt)
    cases hvalues : set.yieldFrom (set.next it) with
    | none =>
      rw [hvalues] at hrest
      exact hrest
    | some values =>
      rw [hvalues] at hrest
      obtain ⟨hsorted, hmem, hmax⟩ := hrest
      refine ⟨List.pairwise_cons.2 ⟨fun n hn => ((hmem n).1 hn).1, hsorted⟩, fun n => ?_, ?_⟩
      · rw [List.mem_cons, hmem]
        constructor
        · rintro (rfl | ⟨hn, hbit⟩)
          · exact ⟨hstands.start_le, hstands.bit_index⟩
          · exact ⟨Nat.le_trans hstands.start_le (Nat.le_of_lt hn), hbit⟩
        · rintro ⟨hn, hbit⟩
          rcases Nat.lt_trichotomy n it.index with hlt | heq | hgt
          · rw [hstands.clear n hn hlt] at hbit
            cases hbit
          · exact .inl heq
          · exact .inr ⟨hgt, hbit⟩
      · intro n hn
        rcases List.mem_cons.1 hn with rfl | hn
        · exact hle
        · exact hmax n hn
  | case2 it hword hle hcontains =>
    rw [contains_eq] at hcontains
    exact absurd (h.stands hword).bit_index hcontains
  | case3 it hword hle => exact ⟨it.index, Nat.lt_of_not_le hle, (h.stands hword).bit_index⟩
  | case4 it hword =>
    rcases h with h | ⟨-, hclear⟩
    · exact absurd h.word_lt hword
    · refine ⟨.nil, fun n => ?_, fun n hn => absurd hn List.not_mem_nil⟩
      constructor
      · intro hn
        cases hn
      · rintro ⟨hn, hbit⟩
        rw [hclear n hn] at hbit
        cases hbit

end

/-! ## Members -/

section

variable (set other : BitSet max) (n : ℕ) (value : Fin (max + 1))

/-- The subset that is denoted. -/
def members : Finset ℕ := {n ∈ Finset.range (max + 1) | set.bit n = true}

/-- The last word has no bit beyond `max`. -/
def NoneBeyond : Prop := ∀ n, max < n → set.bit n = false

@[simp] lemma mem_members : n ∈ set.members ↔ n ≤ max ∧ set.bit n = true := by
  simp [members]

@[simp] lemma members_New : (New max).members = ∅ := by ext n; simp

@[simp] lemma members_clear : set.clear.members = ∅ := by ext n; simp

@[simp] lemma members_insert :
    (set.insert value).members = Insert.insert value.1 set.members := by
  ext n
  simp only [mem_members, bit_insert, Bool.or_eq_true, decide_eq_true_eq, Finset.mem_insert]
  have := value.2
  constructor
  · rintro ⟨hn, rfl | hbit⟩
    · exact .inl rfl
    · exact .inr ⟨hn, hbit⟩
  · rintro (rfl | ⟨hn, hbit⟩)
    · exact ⟨by omega, .inl rfl⟩
    · exact ⟨hn, .inr hbit⟩

@[simp] lemma members_remove : (set.remove value).members = set.members.erase value := by
  ext n; simp [and_left_comm]

@[simp] lemma members_insertAll :
    (set.insertAll other).members = set.members ∪ other.members := by
  ext n; simp [and_or_left]

@[simp] lemma members_removeAll :
    (set.removeAll other).members = set.members \ other.members := by
  ext n; simp; tauto

@[simp] lemma members_intersect :
    (set.intersect other).members = set.members ∩ other.members := by
  ext n; simp; tauto

@[simp] lemma members_complement :
    set.complement.members = Finset.range (max + 1) \ set.members := by
  ext n
  simp only [mem_members, Finset.mem_sdiff, Finset.mem_range, Nat.lt_succ_iff]
  refine and_congr_right fun hn => ?_
  simp [bit_complement _ _ (div_lt_of_le _ hn), hn]

lemma bits_eq_iff : (∀ (i : ℕ) (hi : i < numWords max), set.bits[i] = other.bits[i]) ↔
    ∀ n, set.bit n = other.bit n := by
  constructor
  · intro h n
    by_cases hn : n / 32 < numWords max
    · rw [bit_of_lt _ _ hn, bit_of_lt _ _ hn, h]
    · rw [bit_of_not_lt _ _ hn, bit_of_not_lt _ _ hn]
  · intro h i hi
    refine BitVec.eq_of_getLsbD_eq fun k hk => ?_
    have hdiv : (32 * i + k) / 32 = i := by omega
    have hmod : (32 * i + k) % 32 = k := by omega
    have hlt : (32 * i + k) / 32 < numWords max := by omega
    have hbit := h (32 * i + k)
    rw [bit_of_lt _ _ hlt, bit_of_lt _ _ hlt] at hbit
    simpa only [hdiv, hmod] using hbit

lemma empty_eq_false_iff : set.empty = false ↔ ∃ n, set.bit n = true := by
  have hwords : set.empty = true ↔ ∀ n, set.bit n = (New max).bit n := by
    rw [← bits_eq_iff, empty, Vector.all_eq_true]
    simp [New]
  rw [← Bool.not_eq_true, hwords]
  simp

lemma fixedPointIntersect_eq_true_iff :
    (set.fixedPointIntersect other).2 = true ↔ ∃ n, set.bit n = true ∧ other.bit n = false := by
  have hwords : (set.fixedPointIntersect other).2 = false ↔
      ∀ n, set.bit n = (set.intersect other).bit n := by
    rw [← bits_eq_iff, fixedPointIntersect, Bool.eq_false_iff, ne_eq, Vector.any_eq_true]
    simp
  rw [← Bool.not_eq_false, hwords]
  simp

lemma iterate_eq_iff :
    set.iterate = some ((List.range (max + 1)).filter (· ∈ set.members)) ↔ set.NoneBeyond := by
  have hyields := (comes_begin : set.Comes 0 set.begin).yieldFrom
  rw [iterate]
  cases hvalues : set.yieldFrom set.begin with
  | none =>
    rw [hvalues] at hyields
    obtain ⟨n, hn, hbit⟩ := hyields
    constructor
    · intro h
      cases h
    · intro h
      rw [h n hn] at hbit
      cases hbit
  | some values =>
    rw [hvalues] at hyields
    obtain ⟨hsorted, hmem, hmax⟩ := hyields
    have hnone : set.NoneBeyond := by
      intro n hn
      by_contra hbit
      exact Nat.not_lt_of_le (hmax n ((hmem n).2 ⟨Nat.zero_le n, by simpa using hbit⟩)) hn
    refine iff_of_true (congrArg some ?_) hnone
    refine List.Perm.eq_of_pairwise (fun n m _ _ hlt hgt => absurd hlt (Nat.lt_asymm hgt)) hsorted
      (List.pairwise_lt_range.filter _) ?_
    rw [List.perm_ext_iff_of_nodup (hsorted.imp Nat.ne_of_lt) (List.nodup_range.filter _)]
    intro n
    rw [hmem, List.mem_filter, List.mem_range, decide_eq_true_iff, mem_members]
    constructor
    · rintro ⟨-, hbit⟩
      have hn := hmax n ((hmem n).2 ⟨Nat.zero_le n, hbit⟩)
      exact ⟨Nat.lt_succ_of_le hn, hn, hbit⟩
    · exact fun h => ⟨Nat.zero_le n, h.2.2⟩

end

/-! ## Programs -/

section

variable (s : ℕ → BitSet max)

/-- The bits beyond `max` do not show in the outcome: what is asked of the words holds of a value
in the subset as well, or it holds of no bit beyond `max`. -/
def Meets : Op max → Prop
  | .empty i => (∃ n ≤ max, (s i).bit n = true) ∨ (s i).NoneBeyond
  | .fixedPointIntersect i j => (∃ n ≤ max, (s i).bit n = true ∧ (s j).bit n = false) ∨
      ∀ n, max < n → (s i).bit n = true → (s j).bit n = true
  | .iterate i => (s i).NoneBeyond
  | _ => True

def MeetsAll (s : ℕ → BitSet max) : List (Op max) → Prop
  | [] => True
  | op :: ops => Meets s op ∧ MeetsAll (step s op).1 ops

lemma exists_iff_iff (p : ℕ → Prop) :
    ((∃ n, p n) ↔ ∃ n ≤ max, p n) ↔ (∃ n ≤ max, p n) ∨ ∀ n, max < n → ¬ p n := by
  constructor
  · intro h
    by_cases hsome : ∃ n ≤ max, p n
    · exact .inl hsome
    · exact .inr fun n _ hn => hsome (h.1 ⟨n, hn⟩)
  · rintro (hsome | hnone)
    · exact iff_of_true (hsome.imp fun n hn => hn.2) hsome
    · refine exists_congr fun n => ⟨fun hn => ⟨?_, hn⟩, And.right⟩
      exact Nat.le_of_not_lt fun hlt => hnone n hlt hn

lemma members_step (op : Op max) :
    (fun k => ((step s op).1 k).members) = (denote (fun k => (s k).members) op).1 := by
  have hupdate : ∀ i set, (fun k => (Function.update s i set k).members) =
      Function.update (fun k => (s k).members) i set.members := by
    intro i set
    exact Function.comp_update members s i set
  cases op <;> simp [step, denote, hupdate, fixedPointIntersect]

lemma outcome_step_iff (op : Op max) :
    (step s op).2 = (denote (fun k => (s k).members) op).2 ↔ Meets s op := by
  cases op with
  | contains i value =>
    refine iff_of_true (congrArg Outcome.answer ?_) trivial
    simp [contains_eq, Nat.le_of_lt_succ value.2]
  | empty i =>
    have hsome : ¬ (s i).members = ∅ ↔ ∃ n ≤ max, (s i).bit n = true := by
      simp [Finset.ext_iff]
    have hnone : (s i).NoneBeyond ↔ ∀ n, max < n → ¬ (s i).bit n = true := by
      simp [NoneBeyond]
    rw [Meets, hnone, ← exists_iff_iff, ← empty_eq_false_iff, ← hsome]
    by_cases h : (s i).members = ∅ <;> simp [step, denote, h]
  | fixedPointIntersect i j =>
    have hsome : (s i).members ∩ (s j).members ≠ (s i).members ↔
        ∃ n ≤ max, (s i).bit n = true ∧ (s j).bit n = false := by
      simp [Finset.ext_iff]
      exact exists_congr fun n => and_congr_right fun hn => by simp [hn]
    have hnone : (∀ n, max < n → (s i).bit n = true → (s j).bit n = true) ↔
        ∀ n, max < n → ¬ ((s i).bit n = true ∧ (s j).bit n = false) := by
      simp
    rw [Meets, hnone, ← exists_iff_iff, ← fixedPointIntersect_eq_true_iff, ← hsome]
    by_cases h : (s i).members ∩ (s j).members = (s i).members <;> simp [step, denote, h]
  | iterate i => rw [step, denote, Meets, Outcome.yielded.injEq, iterate_eq_iff]
  | _ => exact iff_of_true rfl trivial

lemma outcomes_eq_denote_iff (ops : List (Op max)) :
    outcomes step s ops = outcomes denote (fun k => (s k).members) ops ↔ MeetsAll s ops := by
  induction ops generalizing s with
  | nil => exact iff_of_true rfl trivial
  | cons op ops ih =>
    rw [outcomes, outcomes, List.cons.injEq, outcome_step_iff, ← members_step, ih, MeetsAll]

/-- The outcomes of a program on new sets are those of the subsets if and only if no step of it
shows a bit beyond `max`. -/
theorem outcomes_eq_iff (ops : List (Op max)) :
    outcomes step (fun _ => New max) ops = outcomes denote (fun _ => ∅) ops ↔
      MeetsAll (fun _ => New max) ops := by
  rw [← outcomes_eq_denote_iff]
  simp only [members_New]

/-- The only bits beyond `max` are those of a complement where the last word is used in part. -/
lemma noneBeyond_step (h : ∀ k, (s k).NoneBeyond) (op : Op max)
    (hop : (∀ i, op ≠ .complement i) ∨ max % 32 = 31) (k : ℕ) :
    ((step s op).1 k).NoneBeyond := by
  have hupdate : ∀ i set, set.NoneBeyond → (Function.update s i set k).NoneBeyond := by
    intro i set hset
    rcases eq_or_ne k i with rfl | hne
    · rwa [Function.update_self]
    · rw [Function.update_of_ne hne]
      exact h k
  cases op with
  | contains | empty | iterate => exact h k
  | complement i =>
    refine hupdate _ _ fun n hn => bit_of_not_lt _ _ ?_
    rcases hop with hop | hop
    · exact absurd rfl (hop i)
    · rw [numWords]
      omega
  | insert i value =>
    refine hupdate _ _ fun n hn => ?_
    have hne : n ≠ value := by omega
    simp [h i n hn, hne]
  | insertAll i j => exact hupdate _ _ fun n hn => by simp [h i n hn, h j n hn]
  | clear i => exact hupdate _ _ fun n hn => by simp
  | _ i => exact hupdate _ _ fun n hn => by simp [h i n hn]

/-- The complement of `{0}` in `{0}` is not empty. -/
theorem outcomes_ne : ¬ ∀ (max : ℕ) (ops : List (Op max)),
    outcomes step (fun _ => New max) ops = outcomes denote (fun _ => ∅) ops := by
  intro h
  have hfalse : ((New 0).insert 0).complement.empty = false :=
    (empty_eq_false_iff _).2 ⟨1, by simp [bit_complement, numWords]⟩
  have hends := h 0 [.insert 0 0, .complement 0, .empty 0]
  simp [outcomes, step, denote, hfalse] at hends

end

/-- Without complements, or where the last word is used in full, the outcomes are those of the
subsets, from any sets with no bit beyond `max`. -/
theorem outcomes_eq_of_noneBeyond {s : ℕ → BitSet max} (h : ∀ k, (s k).NoneBeyond)
    (ops : List (Op max)) (hops : (∀ i, .complement i ∉ ops) ∨ max % 32 = 31) :
    outcomes step s ops = outcomes denote (fun k => (s k).members) ops := by
  rw [outcomes_eq_denote_iff]
  induction ops generalizing s with
  | nil => trivial
  | cons op ops ih =>
    have hmeets : Meets s op := by
      cases op with
      | empty i => exact .inr (h i)
      | fixedPointIntersect i j => exact .inr fun n hn hbit => by rw [h i n hn] at hbit; cases hbit
      | iterate i => exact h i
      | _ => trivial
    refine ⟨hmeets, ih (noneBeyond_step s h op (hops.imp_left fun hops i => ?_))
      (hops.imp_left fun hops i hi => hops i (.tail _ hi))⟩
    rintro rfl
    exact hops i (.head _)

theorem outcomes_eq_of_noneBeyond_new :
    outcomes step (fun _ => New 31) [.complement 0, .empty 0] =
      outcomes denote (fun _ => (New 31).members) ([.complement 0, .empty 0] : List (Op 31)) :=
  outcomes_eq_of_noneBeyond (fun _ n _ => by simp) _ (.inr rfl)

end SpiderMonkey.Ion.BitSets.BitSet
