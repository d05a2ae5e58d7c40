import SpiderMonkey.Lib.IntSteps

/-! # The cache of offsets for daylight saving time

`DSTOffsetCache` of `prmjtime.cpp`: two ranges of seconds, the newer of which is extended by thirty
days at a time where its offset is also that of the new end.
-/

namespace SpiderMonkey.Vm

open Lib

abbrev maxUnixTimet : Int := 2145859200
abbrev secondsPerDay : Int := 24 * (60 * 60)
abbrev rangeExpansionAmount : Int := 30 * secondsPerDay

/-- `INT64_MIN`. -/
abbrev int64Min : Int := -(2 ^ 63)

structure DSTOffsetCache where
  offsetMilliseconds : Int
  rangeStartSeconds : Int
  rangeEndSeconds : Int
  oldOffsetMilliseconds : Int
  oldRangeStartSeconds : Int
  oldRangeEndSeconds : Int

namespace DSTOffsetCache

/-- The cache as `purge` leaves it. -/
def purged : DSTOffsetCache := ⟨0, int64Min, int64Min, 0, int64Min, int64Min⟩

/-- The assertions of `sanityCheck`. -/
def sanityCheck (c : DSTOffsetCache) : Prop :=
  c.rangeStartSeconds ≤ c.rangeEndSeconds ∧
    (c.rangeStartSeconds = int64Min → c.rangeEndSeconds = int64Min) ∧
    (c.rangeEndSeconds = int64Min → c.rangeStartSeconds = int64Min) ∧
    (c.rangeStartSeconds ≠ int64Min → 0 ≤ c.rangeStartSeconds ∧ 0 ≤ c.rangeEndSeconds) ∧
    (c.rangeStartSeconds ≠ int64Min →
      c.rangeStartSeconds ≤ maxUnixTimet ∧ c.rangeEndSeconds ≤ maxUnixTimet)

/-- The seconds that are looked for. -/
def clampSeconds (localTimeMilliseconds : Int) : Int :=
  let localTimeSeconds := localTimeMilliseconds.tdiv 1000
  if maxUnixTimet < localTimeSeconds then maxUnixTimet
  -- a day ahead: 0 does not work with localtime
  else if localTimeSeconds < 0 then secondsPerDay
  else localTimeSeconds

/-- `getDSTOffsetMilliseconds`, from the seconds on; `dst` is `computeDSTOffsetMilliseconds`. -/
def lookup (dst : Int → Int) (c : DSTOffsetCache) (localTimeSeconds : Int) : Int × DSTOffsetCache :=
  if c.rangeStartSeconds ≤ localTimeSeconds ∧ localTimeSeconds ≤ c.rangeEndSeconds then
    (c.offsetMilliseconds, c)
  else if c.oldRangeStartSeconds ≤ localTimeSeconds ∧ localTimeSeconds ≤ c.oldRangeEndSeconds then
    (c.oldOffsetMilliseconds, c)
  else
    let c := { c with
      oldOffsetMilliseconds := c.offsetMilliseconds
      oldRangeStartSeconds := c.rangeStartSeconds
      oldRangeEndSeconds := c.rangeEndSeconds }
    if c.rangeStartSeconds ≤ localTimeSeconds then
      let newEndSeconds := min (c.rangeEndSeconds + rangeExpansionAmount) maxUnixTimet
      if localTimeSeconds ≤ newEndSeconds then
        let endOffsetMilliseconds := dst newEndSeconds
        if endOffsetMilliseconds = c.offsetMilliseconds then
          (c.offsetMilliseconds, { c with rangeEndSeconds := newEndSeconds })
        else
          let offsetMilliseconds := dst localTimeSeconds
          if offsetMilliseconds = endOffsetMilliseconds then
            (offsetMilliseconds, { c with
              offsetMilliseconds := offsetMilliseconds
              rangeStartSeconds := localTimeSeconds
              rangeEndSeconds := newEndSeconds })
          else
            (offsetMilliseconds, { c with
              offsetMilliseconds := offsetMilliseconds
              rangeEndSeconds := localTimeSeconds })
      else
        let offsetMilliseconds := dst localTimeSeconds
        (offsetMilliseconds, { c with
          offsetMilliseconds := offsetMilliseconds
          rangeStartSeconds := localTimeSeconds
          rangeEndSeconds := localTimeSeconds })
    else
      let newStartSeconds := max (c.rangeStartSeconds - rangeExpansionAmount) 0
      if newStartSeconds ≤ localTimeSeconds then
        let startOffsetMilliseconds := dst newStartSeconds
        if startOffsetMilliseconds = c.offsetMilliseconds then
          (c.offsetMilliseconds, { c with rangeStartSeconds := newStartSeconds })
        else
          let offsetMilliseconds := dst localTimeSeconds
          if offsetMilliseconds = startOffsetMilliseconds then
            (offsetMilliseconds, { c with
              offsetMilliseconds := offsetMilliseconds
              rangeStartSeconds := newStartSeconds
              rangeEndSeconds := localTimeSeconds })
          else
            (offsetMilliseconds, { c with
              offsetMilliseconds := offsetMilliseconds
              rangeStartSeconds := localTimeSeconds })
      else
        let offsetMilliseconds := dst localTimeSeconds
        (offsetMilliseconds, { c with
          offsetMilliseconds := offsetMilliseconds
          rangeStartSeconds := localTimeSeconds
          rangeEndSeconds := localTimeSeconds })

def getDSTOffsetMilliseconds (dst : Int → Int) (c : DSTOffsetCache) (localTimeMilliseconds : Int) :
    Int × DSTOffsetCache :=
  c.lookup dst (clampSeconds localTimeMilliseconds)

/-! ## What is cached -/

/-- A range in which the offset is right; there may be no range yet. -/
def RangeRight (dst : Int → Int) (rangeStart rangeEnd offset : Int) : Prop :=
  ∀ t, 0 ≤ t → t ≤ maxUnixTimet → rangeStart ≤ t → t ≤ rangeEnd → dst t = offset

/-- Both ranges are right. -/
structure Right (dst : Int → Int) (c : DSTOffsetCache) : Prop where
  sane : c.sanityCheck
  range : RangeRight dst c.rangeStartSeconds c.rangeEndSeconds c.offsetMilliseconds
  oldRange : RangeRight dst c.oldRangeStartSeconds c.oldRangeEndSeconds c.oldOffsetMilliseconds

/-- The offset changes at most once in as many seconds as a range is extended by. -/
def ChangesOnce (dst : Int → Int) : Prop :=
  ∀ a b, 0 ≤ a → b ≤ maxUnixTimet → b ≤ a + rangeExpansionAmount →
    ∀ x y, a < x → x ≤ b → a < y → y ≤ b → ChangesAt dst x → ChangesAt dst y → x = y

/-- Every answer is that of the function, and both ranges stay right. -/
def Transparent (dst : Int → Int) : DSTOffsetCache → List Int → Prop
  | c, [] => c.Right dst
  | c, q :: qs => c.Right dst ∧ (c.getDSTOffsetMilliseconds dst q).1 = dst (clampSeconds q) ∧
      Transparent dst (c.getDSTOffsetMilliseconds dst q).2 qs

lemma clampSeconds_nonneg (q : Int) : 0 ≤ clampSeconds q := by
  simp only [clampSeconds, maxUnixTimet, secondsPerDay]
  split_ifs <;> omega

lemma clampSeconds_le (q : Int) : clampSeconds q ≤ maxUnixTimet := by
  simp only [clampSeconds, maxUnixTimet, secondsPerDay]
  split_ifs <;> omega

lemma purged_right (dst : Int → Int) : purged.Right dst := by
  refine ⟨⟨Int.le_refl _, fun _ => rfl, fun _ => rfl, fun h => absurd rfl h,
    fun h => absurd rfl h⟩, fun t ht _ _ hend => ?_, fun t ht _ _ hend => ?_⟩
  all_goals
    exact absurd (ht.trans hend) (by decide)

/-- A range of the seconds that there are is sane. -/
lemma sane_of {c : DSTOffsetCache} (hstart : 0 ≤ c.rangeStartSeconds)
    (hle : c.rangeStartSeconds ≤ c.rangeEndSeconds) (hend : c.rangeEndSeconds ≤ maxUnixTimet) :
    c.sanityCheck := by
  have hmin : int64Min < 0 := by decide
  refine ⟨hle, fun h => ?_, fun h => ?_, fun _ => ⟨hstart, hstart.trans hle⟩,
    fun _ => ⟨hle.trans hend, hend⟩⟩
  · omega
  · omega

section

variable {dst : Int → Int} {c : DSTOffsetCache}

/-- There is no range yet, or one of the seconds that there are. -/
lemma Right.bounds (h : c.Right dst) :
    (c.rangeStartSeconds = int64Min ∧ c.rangeEndSeconds = int64Min) ∨
      0 ≤ c.rangeStartSeconds ∧ c.rangeStartSeconds ≤ c.rangeEndSeconds ∧
        c.rangeEndSeconds ≤ maxUnixTimet := by
  obtain ⟨hle, hstart, hend, hnonneg, hmax⟩ := h.sane
  by_cases hmin : c.rangeStartSeconds = int64Min
  · exact .inl ⟨hmin, hstart hmin⟩
  · exact .inr ⟨(hnonneg hmin).1, hle, (hmax hmin).2⟩

lemma rangeRight_single (t : Int) : RangeRight dst t t (dst t) := by
  intro x _ _ hstart hend
  rw [Int.le_antisymm hend hstart]

/-- A window with the same offset at both ends. -/
lemma rangeRight_window (hdst : ChangesOnce dst) {a b : Int} (ha : 0 ≤ a) (hb : b ≤ maxUnixTimet)
    (hab : b ≤ a + rangeExpansionAmount) {offset : Int} (hsa : dst a = offset)
    (hsb : dst b = offset) : RangeRight dst a b offset := by
  intro t _ _ hat htb
  rcases eq_left_or_right (hdst a b ha hb hab) hat htb with heq | heq
  · exact heq.trans hsa
  · exact heq.trans hsb

lemma RangeRight.append {a b x : Int} {offset : Int} (h : RangeRight dst a x offset)
    (h' : RangeRight dst x b offset) : RangeRight dst a b offset := by
  intro t ht htmax hat htb
  rcases Int.le_total t x with htx | hxt
  · exact h t ht htmax hat htx
  · exact h' t ht htmax hxt htb

/-- One query. -/
lemma Right.lookup (hdst : ChangesOnce dst) (h : c.Right dst) {t : Int} (ht : 0 ≤ t)
    (htmax : t ≤ maxUnixTimet) :
    (c.lookup dst t).1 = dst t ∧ (c.lookup dst t).2.Right dst := by
  have hpos : 0 < rangeExpansionAmount := by decide
  rw [DSTOffsetCache.lookup]
  by_cases hin : c.rangeStartSeconds ≤ t ∧ t ≤ c.rangeEndSeconds
  · rw [if_pos hin]
    exact ⟨(h.range t ht htmax hin.1 hin.2).symm, h⟩
  rw [if_neg hin]
  by_cases hold : c.oldRangeStartSeconds ≤ t ∧ t ≤ c.oldRangeEndSeconds
  · rw [if_pos hold]
    exact ⟨(h.oldRange t ht htmax hold.1 hold.2).symm, h⟩
  rw [if_neg hold]
  simp only
  by_cases hafter : c.rangeStartSeconds ≤ t
  · rw [if_pos hafter]
    have hend : c.rangeEndSeconds < t := Int.lt_of_not_ge fun hle => hin ⟨hafter, hle⟩
    generalize hnew : min (c.rangeEndSeconds + rangeExpansionAmount) maxUnixTimet = newEnd
    have hnewmax : newEnd ≤ maxUnixTimet := by omega
    have hnewle : newEnd ≤ c.rangeEndSeconds + rangeExpansionAmount := by omega
    by_cases hnear : t ≤ newEnd
    · rw [if_pos hnear]
      -- the range is not the empty one, as that is too far away
      have hmin : int64Min + rangeExpansionAmount < 0 := by decide
      obtain ⟨hstart, hle, _⟩ := h.bounds.resolve_left fun hnone => by omega
      have hright : dst c.rangeEndSeconds = c.offsetMilliseconds :=
        h.range _ (hstart.trans hle) (by omega) hle (Int.le_refl _)
      by_cases hsame : dst newEnd = c.offsetMilliseconds
      · rw [if_pos hsame]
        have hwindow := h.range.append
          (rangeRight_window hdst (hstart.trans hle) hnewmax hnewle hright hsame)
        exact ⟨(hwindow t ht htmax hafter hnear).symm,
          sane_of hstart (by dsimp only; omega) hnewmax, hwindow, h.range⟩
      · rw [if_neg hsame]
        by_cases hlater : dst t = dst newEnd
        · rw [if_pos hlater]
          exact ⟨rfl, sane_of ht hnear hnewmax,
            rangeRight_window hdst ht hnewmax (by omega) rfl hlater.symm, h.range⟩
        · rw [if_neg hlater]
          -- the change is after `t`
          have hearlier : dst t = c.offsetMilliseconds :=
            ((eq_left_or_right (hdst _ _ (hstart.trans hle) hnewmax hnewle) (Int.le_of_lt hend)
              hnear).resolve_right hlater).trans hright
          have hwindow := h.range.append
            (rangeRight_window hdst (hstart.trans hle) htmax (by omega) hright hearlier)
          rw [hearlier]
          exact ⟨rfl, sane_of hstart hafter htmax, hwindow, h.range⟩
    · rw [if_neg hnear]
      exact ⟨rfl, sane_of ht (Int.le_refl _) htmax, rangeRight_single t, h.range⟩
  · rw [if_neg hafter]
    have hbefore : t < c.rangeStartSeconds := Int.lt_of_not_ge hafter
    have hmin : int64Min < 0 := by decide
    obtain ⟨hstart, hle, hmax⟩ := h.bounds.resolve_left fun hnone => by omega
    generalize hnew : max (c.rangeStartSeconds - rangeExpansionAmount) 0 = newStart
    have hnewpos : 0 ≤ newStart := by omega
    have hnewle : c.rangeStartSeconds ≤ newStart + rangeExpansionAmount := by omega
    by_cases hnear : newStart ≤ t
    · rw [if_pos hnear]
      have hright : dst c.rangeStartSeconds = c.offsetMilliseconds :=
        h.range _ hstart (hle.trans hmax) (Int.le_refl _) hle
      by_cases hsame : dst newStart = c.offsetMilliseconds
      · rw [if_pos hsame]
        have hwindow := (rangeRight_window hdst hnewpos (hle.trans hmax) hnewle hsame hright).append
          h.range
        exact ⟨(hwindow t ht htmax hnear (by omega)).symm,
          sane_of hnewpos (by dsimp only; omega) hmax, hwindow, h.range⟩
      · rw [if_neg hsame]
        by_cases hearlier : dst t = dst newStart
        · rw [if_pos hearlier]
          exact ⟨rfl, sane_of hnewpos hnear htmax,
            rangeRight_window hdst hnewpos htmax (by omega) hearlier.symm rfl, h.range⟩
        · rw [if_neg hearlier]
          -- the change is before `t`
          have hlater : dst t = c.offsetMilliseconds :=
            ((eq_left_or_right (hdst _ _ hnewpos (hle.trans hmax) hnewle) hnear
              (Int.le_of_lt hbefore)).resolve_left hearlier).trans hright
          have hwindow := (rangeRight_window hdst ht (hle.trans hmax) (by omega) hlater hright).append
            h.range
          rw [hlater]
          exact ⟨rfl, sane_of ht (by dsimp only; omega) hmax, hwindow, h.range⟩
    · rw [if_neg hnear]
      exact ⟨rfl, sane_of ht (Int.le_refl _) htmax, rangeRight_single t, h.range⟩

lemma Right.transparent (hdst : ChangesOnce dst) (queries : List Int) (h : c.Right dst) :
    Transparent dst c queries := by
  induction queries generalizing c with
  | nil => exact h
  | cons q qs ih =>
    obtain ⟨hanswer, hright⟩ := h.lookup hdst (clampSeconds_nonneg q) (clampSeconds_le q)
    exact ⟨h, hanswer, ih hright⟩

end

/-- The cache does not change any answer. -/
theorem dstOffsetCache_transparent (dst : Int → Int) (hdst : ChangesOnce dst) (queries : List Int) :
    Transparent dst purged queries :=
  (purged_right dst).transparent hdst queries

/-- An hour from some second on. -/
def summerFrom (s : Int) (t : Int) : Int := if t < s then 0 else 3600000

lemma changesOnce_summerFrom (s : Int) : ChangesOnce (summerFrom s) := by
  have hat : ∀ x, ChangesAt (summerFrom s) x → x = s := by
    intro x hx
    by_contra hne
    refine hx ?_
    rw [summerFrom, summerFrom]
    exact if_congr (by omega) rfl rfl
  intro a b _ _ _ x y _ _ _ _ hx hy
  exact (hat x hx).trans (hat y hy).symm

theorem dstOffsetCache_transparent_summer :
    Transparent (summerFrom 1333245600) purged [1333245599000, 1333245600000] :=
  dstOffsetCache_transparent _ (changesOnce_summerFrom 1333245600) _

end DSTOffsetCache

end SpiderMonkey.Vm
