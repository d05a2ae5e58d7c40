import SpiderMonkey.Vm.PrefixInteger

/-! # The prefix is read as the nearest double

A reader gives the bits of its digits, which denote the same number. Below `2 ^ 53` no operation of
the fast loop rounds. From there on the leading 53 bits are kept, and the bit behind them, with
whether any bit follows that is set, decides on the rounding.
-/

namespace SpiderMonkey.Vm

open Lib BinaryDigitReader List

/-! ## Numbers -/

/-- The number that bits denote, behind a number. -/
def bitsValue (v : ℕ) (bs : List ℕ) : ℕ := bs.foldl (fun v b => v * 2 + b) v

/-- A unit that is a digit of the base. -/
def isDigitOf (base : ℕ) (c : Jschar) : Bool := (digitValue c).any (· < base)

/-- The number that digits denote, behind a number. -/
def numberOf (base v : ℕ) (ds : List Jschar) : ℕ :=
  ds.foldl (fun v c => v * base + (digitValue c).getD 0) v

@[simp] lemma bitsValue_nil (v : ℕ) : bitsValue v [] = v := rfl

@[simp] lemma bitsValue_cons (v b : ℕ) (bs : List ℕ) :
    bitsValue v (b :: bs) = bitsValue (v * 2 + b) bs := rfl

lemma bitsValue_append (v : ℕ) (bs cs : List ℕ) :
    bitsValue v (bs ++ cs) = bitsValue (bitsValue v bs) cs := foldl_append

lemma bitsValue_from (v : ℕ) (bs : List ℕ) :
    bitsValue v bs = v * 2 ^ bs.length + bitsValue 0 bs := by
  induction bs generalizing v with
  | nil => simp
  | cons b bs ih =>
    rw [bitsValue_cons, bitsValue_cons, ih, ih (0 * 2 + b), length_cons, pow_succ]
    ring

variable {bs : List ℕ}

lemma bitsValue_lt (h : ∀ b ∈ bs, b < 2) : bitsValue 0 bs < 2 ^ bs.length := by
  induction bs with
  | nil => exact Nat.one_pos
  | cons b bs ih =>
    have hb := h b mem_cons_self
    have hrest := ih fun c hc => h c (mem_cons_of_mem b hc)
    have hle := Nat.mul_le_mul_right (2 ^ bs.length) (show 0 * 2 + b ≤ 1 by omega)
    rw [bitsValue_cons, bitsValue_from, length_cons, pow_succ]
    omega

/-- Bits that denote a number have a first one that is set. -/
lemma exists_leading (h : ∀ b ∈ bs, b < 2) (hne : bitsValue 0 bs ≠ 0) :
    ∃ k cs, bs = List.replicate k 0 ++ 1 :: cs := by
  induction bs with
  | nil => exact absurd rfl hne
  | cons b bs ih =>
    have hb := h b mem_cons_self
    obtain rfl | rfl : b = 0 ∨ b = 1 := by omega
    · obtain ⟨k, cs, rfl⟩ := ih (fun c hc => h c (mem_cons_of_mem 0 hc)) hne
      exact ⟨k + 1, cs, rfl⟩
    · exact ⟨0, bs, rfl⟩

lemma bitsValue_zeroes (k : ℕ) (bs : List ℕ) :
    bitsValue 0 (List.replicate k 0 ++ bs) = bitsValue 0 bs := by
  induction k with
  | zero => rfl
  | succ k ih => rw [replicate_succ, cons_append, bitsValue_cons, ← ih]

/-! ## The bits that a reader gives -/

/-- The bits of a digit under a mask that moves down. -/
def maskBits (digit mask : ℕ) : List ℕ :=
  if mask = 0 then [] else (if digit &&& mask ≠ 0 then 1 else 0) :: maskBits digit (mask >>> 1)
termination_by mask
decreasing_by
  rw [Nat.shiftRight_eq_div_pow]
  omega

lemma maskBits_lt {digit mask b : ℕ} (h : b ∈ maskBits digit mask) : b < 2 := by
  induction mask using Nat.strongRecOn with
  | _ mask ih =>
    rw [maskBits] at h
    split_ifs at h with hmask hbit
    · cases h
    · rcases mem_cons.mp h with rfl | h
      · decide
      · exact ih _ (by rw [Nat.shiftRight_eq_div_pow]; omega) h
    · rcases mem_cons.mp h with rfl | h
      · decide
      · exact ih _ (by rw [Nat.shiftRight_eq_div_pow]; omega) h

lemma maskedBit_eq (digit j : ℕ) :
    (if digit &&& 2 ^ j ≠ 0 then 1 else 0) = digit / 2 ^ j % 2 := by
  rw [Nat.and_two_pow, ← Nat.toNat_testBit]
  cases digit.testBit j with
  | false => simp
  | true => simp

lemma bitsValue_maskBits (v digit j : ℕ) :
    bitsValue v (maskBits digit (2 ^ j)) = v * 2 ^ (j + 1) + digit % 2 ^ (j + 1) := by
  induction j generalizing v with
  | zero =>
    have hlast : maskBits digit (2 ^ 0 >>> 1) = [] := by rw [maskBits]; rfl
    rw [maskBits, if_neg (Nat.two_pow_pos 0).ne', maskedBit_eq, hlast, bitsValue_cons,
      bitsValue_nil, pow_zero, Nat.div_one, Nat.zero_add, pow_one]
  | succ j ih =>
    have hshift : 2 ^ (j + 1) >>> 1 = 2 ^ j := by
      rw [Nat.shiftRight_eq_div_pow, pow_succ, pow_one, Nat.mul_div_cancel _ (by decide)]
    rw [maskBits, if_neg (Nat.two_pow_pos _).ne', maskedBit_eq, hshift, bitsValue_cons, ih,
      Nat.mod_pow_succ (k := j + 1), pow_succ 2 (j + 1)]
    ring

namespace BinaryDigitReader

def bits (bdr : BinaryDigitReader) : List ℕ :=
  maskBits bdr.digit bdr.digitMask ++
    bdr.start.flatMap fun c => maskBits (digitOf c) (bdr.base >>> 1)

/-- A reader of a base, and the bits that it has to give. -/
structure Gives (bdr : BinaryDigitReader) (bs : List ℕ) : Prop where
  base : 2 ≤ bdr.base
  bits : bdr.bits = bs

variable {bdr : BinaryDigitReader}

lemma maskedBit_spec (h : Gives bdr bs) (hmask : bdr.digitMask ≠ 0) :
    ∃ b cs bdr', bs = b :: cs ∧ bdr.maskedBit = (some b, bdr') ∧ Gives bdr' cs := by
  have hbits := h.bits
  rw [BinaryDigitReader.bits, maskBits, if_neg hmask, cons_append] at hbits
  exact ⟨_, _, _, hbits.symm, rfl, h.base, rfl⟩

/-- Where the mask is empty, the next digit is taken. -/
lemma nextDigit_spec (h : Gives bdr bs) :
    (bs = [] ∧ bdr.nextDigit.1 = none) ∨
      ∃ b cs bdr', bs = b :: cs ∧ bdr.nextDigit = (some b, bdr') ∧ Gives bdr' cs := by
  rw [nextDigit]
  split_ifs with hmask
  · have hbits := h.bits
    rw [BinaryDigitReader.bits, maskBits, if_pos hmask, nil_append] at hbits
    cases hstart : bdr.start with
    | nil =>
      rw [hstart] at hbits
      exact .inl ⟨hbits.symm, rfl⟩
    | cons c start =>
      have hne : bdr.base >>> 1 ≠ 0 := by
        have hbase := h.base
        rw [Nat.shiftRight_eq_div_pow]
        omega
      rw [hstart] at hbits
      exact .inr (maskedBit_spec ⟨h.base, hbits⟩ hne)
  · exact .inr (maskedBit_spec h hmask)

lemma nextDigit_nil (h : Gives bdr []) : bdr.nextDigit.1 = none := by
  rcases nextDigit_spec h with ⟨-, hnone⟩ | ⟨b, cs, bdr', heq, -⟩
  · exact hnone
  · cases heq

lemma nextDigit_cons {b : ℕ} (h : Gives bdr (b :: bs)) :
    ∃ bdr', bdr.nextDigit = (some b, bdr') ∧ Gives bdr' bs := by
  rcases nextDigit_spec h with ⟨heq, -⟩ | ⟨c, cs, bdr', heq, hnext, hgives⟩
  · cases heq
  · cases heq
    exact ⟨bdr', hnext, hgives⟩

end BinaryDigitReader

/-! ## The loops -/

lemma skipZeroes_spec {bdr : BinaryDigitReader} {k : ℕ}
    (h : Gives bdr (List.replicate k 0 ++ 1 :: bs)) :
    ∃ bdr', skipZeroes bdr = (some 1, bdr') ∧ Gives bdr' bs := by
  induction k generalizing bdr with
  | zero =>
    obtain ⟨bdr', hnext, hgives⟩ := nextDigit_cons h
    refine ⟨bdr', ?_, hgives⟩
    rw [skipZeroes]
    split
    · rename_i heq
      cases hnext.symm.trans heq
    · rename_i heq
      cases hnext.symm.trans heq
      rfl
    · rename_i heq
      cases hnext.symm.trans heq
  | succ k ih =>
    obtain ⟨bdr', hnext, hgives⟩ := nextDigit_cons h
    obtain ⟨bdr'', hskip, hgives'⟩ := ih hgives
    refine ⟨bdr'', ?_, hgives'⟩
    rw [skipZeroes]
    split
    · rename_i heq
      cases hnext.symm.trans heq
      exact hskip
    · rename_i heq
      cases hnext.symm.trans heq
    · rename_i heq
      cases hnext.symm.trans heq

lemma ofExact_of_fits {n : ℕ} (h : Fits 53 n) :
    WholeDouble.ofExact n = if n < 2 ^ 1024 then .finite n else .infinity := by
  rw [WholeDouble.ofExact, roundEven_of_fits (by decide) h]

lemma lt_two_pow_of_le {n a b : ℕ} (h : n ≤ 2 ^ a) (hab : a < b) : n < 2 ^ b :=
  h.trans_lt (Nat.pow_lt_pow_right (by decide) hab)

lemma two_pow_le_mul {n a j : ℕ} (h : a ≤ j) (hpos : 0 < n) : 2 ^ a ≤ n * 2 ^ j :=
  (Nat.pow_le_pow_right (by decide) h).trans (Nat.le_mul_of_pos_left _ hpos)

lemma ofExact_of_le {n : ℕ} (h : n ≤ 2 ^ 53) : WholeDouble.ofExact n = .finite n := by
  have hfits : Fits 53 n := by
    have := fits_of_le (e := 0) (by decide : 0 < 53) h
    rwa [pow_zero, Nat.mul_one] at this
  rw [ofExact_of_fits hfits, if_pos (lt_two_pow_of_le h (by decide))]

/-- Nothing is rounded while the significant bits are gathered. -/
lemma gatherBits_spec {bdr : BinaryDigitReader} {bs rest : List ℕ} (h : Gives bdr (bs ++ rest))
    (hbits : ∀ b ∈ bs, b < 2) {v : ℕ} (hv : v < 2 ^ (53 - bs.length)) (hlen : bs.length ≤ 52) :
    ∃ bdr', gatherBits bs.length (.finite v) (v % 2) bdr =
        (.finite (bitsValue v bs), some (bitsValue v bs % 2, bdr')) ∧ Gives bdr' rest := by
  induction bs generalizing v bdr with
  | nil => exact ⟨bdr, rfl, h⟩
  | cons b bs ih =>
    obtain ⟨bdr', hnext, hgives⟩ := nextDigit_cons h
    have hb := hbits b mem_cons_self
    rw [length_cons] at hv hlen
    have hv' : v * 2 + b < 2 ^ (53 - bs.length) := by
      rw [show 53 - bs.length = 53 - (bs.length + 1) + 1 by omega, pow_succ]
      omega
    have hle : v * 2 + b ≤ 2 ^ 53 :=
      hv'.le.trans (Nat.pow_le_pow_right (by decide) (Nat.sub_le _ _))
    obtain ⟨bdr'', hgather, hgives'⟩ := ih hgives (fun c hc => hbits c (mem_cons_of_mem b hc))
      hv' (by omega)
    refine ⟨bdr'', ?_, hgives'⟩
    rw [length_cons, gatherBits, hnext]
    simp only [WholeDouble.mul, WholeDouble.add, ofExact_of_le (show v * 2 ≤ 2 ^ 53 by omega),
      ofExact_of_le hle]
    rw [show (v * 2 + b) % 2 = b by omega] at hgather
    exact hgather

/-- A power of two, as `factor` holds it. -/
def powDouble (j : ℕ) : WholeDouble := if j < 1024 then .finite (2 ^ j) else .infinity

lemma powDouble_succ (j : ℕ) : (powDouble j).mul (.finite 2) = powDouble (j + 1) := by
  have hfits : Fits 53 (2 ^ j * 2) := ⟨1, j + 1, by decide, by rw [Nat.one_mul, pow_succ]⟩
  have hlt : 2 ^ j * 2 < 2 ^ 1024 ↔ j + 1 < 1024 := by
    rw [← pow_succ, Nat.pow_lt_pow_iff_right (by decide)]
  rw [powDouble]
  split_ifs with h
  · rw [WholeDouble.mul, ofExact_of_fits hfits, powDouble, if_congr hlt rfl rfl, pow_succ]
  · rw [powDouble, if_neg (by omega)]
    rfl

lemma or_bit {a b : ℕ} (ha : a < 2) (hb : b < 2) : a ||| b = if a = 0 ∧ b = 0 then 0 else 1 := by
  obtain rfl | rfl : a = 0 ∨ a = 1 := by omega
  · obtain rfl | rfl : b = 0 ∨ b = 1 := by omega
    · rfl
    · rfl
  · obtain rfl | rfl : b = 0 ∨ b = 1 := by omega
    · rfl
    · rfl

/-- The last loop doubles the factor for each bit, and finds out whether one is set. -/
lemma stickyBits_spec {bdr : BinaryDigitReader} (h : Gives bdr bs) (hbits : ∀ b ∈ bs, b < 2)
    (j : ℕ) {sticky : ℕ} (hsticky : sticky < 2) :
    stickyBits (powDouble j) sticky bdr =
      (powDouble (j + bs.length), if sticky = 0 ∧ bitsValue 0 bs = 0 then 0 else 1) := by
  induction bs generalizing bdr j sticky with
  | nil =>
    have hnext := nextDigit_nil h
    rw [stickyBits]
    split
    · obtain rfl | rfl : sticky = 0 ∨ sticky = 1 := by omega
      · rfl
      · rfl
    · rename_i heq
      rw [heq] at hnext
      cases hnext
  | cons b bs ih =>
    obtain ⟨bdr', hnext, hgives⟩ := nextDigit_cons h
    have hb := hbits b mem_cons_self
    have hor := or_bit hsticky hb
    have hlt : sticky ||| b < 2 := by
      rw [hor]
      split_ifs <;> decide
    have hpos := Nat.two_pow_pos bs.length
    have hrest := ih hgives (fun c hc => hbits c (mem_cons_of_mem b hc)) (j + 1) hlt
    have hzero : bitsValue 0 (b :: bs) = 0 ↔ b = 0 ∧ bitsValue 0 bs = 0 := by
      rw [bitsValue_cons, bitsValue_from]
      obtain rfl | rfl : b = 0 ∨ b = 1 := by omega
      · omega
      · omega
    rw [stickyBits]
    split
    · rename_i heq
      cases hnext.symm.trans heq
    · rename_i heq
      cases hnext.symm.trans heq
      have hset : sticky ||| b = 0 ∧ bitsValue 0 bs = 0 ↔
          sticky = 0 ∧ bitsValue 0 (b :: bs) = 0 := by
        rw [hzero, hor]
        by_cases hboth : sticky = 0 ∧ b = 0
        · rw [if_pos hboth]
          tauto
        · rw [if_neg hboth]
          tauto
      rw [powDouble_succ, hrest, if_congr hset rfl rfl, length_cons, Nat.add_right_comm,
        Nat.add_assoc]

/-- A significand that is scaled is what it rounds, unless it is too large. -/
lemma mul_powDouble {n j m : ℕ} (hn : n ≤ 2 ^ 53) (hpos : 0 < n)
    (hround : roundEven 53 m = n * 2 ^ j) :
    (WholeDouble.finite n).mul (powDouble j) = .ofExact m := by
  rw [WholeDouble.ofExact, hround, powDouble]
  split_ifs with hj hlt hlt
  · rw [WholeDouble.mul, ofExact_of_fits (fits_of_le (by decide) hn), if_pos hlt]
  · rw [WholeDouble.mul, ofExact_of_fits (fits_of_le (by decide) hn), if_neg hlt]
  · exact absurd hlt (Nat.not_lt.mpr (two_pow_le_mul (Nat.le_of_not_lt hj) hpos))
  · rfl

lemma carry_eq {b q t : ℕ} (hb : b < 2) :
    b &&& (q % 2 ||| if t = 0 then 0 else 1) =
      if b = 1 ∧ (q % 2 = 1 ∨ t ≠ 0) then 1 else 0 := by
  have hq : q % 2 < 2 := Nat.mod_lt q (by decide)
  rw [or_bit hq (by split_ifs <;> decide)]
  obtain rfl | rfl : b = 0 ∨ b = 1 := by omega
  · rw [Nat.zero_and, if_neg (by omega)]
  · by_cases ht : t = 0
    · by_cases hodd : q % 2 = 0
      · rw [if_pos ⟨hodd, if_pos ht⟩, if_neg (by omega)]
        rfl
      · rw [if_neg (fun h => hodd h.1), if_pos (by omega)]
        rfl
    · rw [if_neg (fun h => absurd h.2 (by rw [if_neg ht]; decide)), if_pos ⟨rfl, .inr ht⟩]
      rfl

/-- The bits are put together as rounding does it. -/
lemma computeAccurateBinaryBaseInteger_spec {chars : List Jschar} {base : ℕ} (hbase : 2 ≤ base)
    (hgives : (BinaryDigitReader.mk base 0 0 chars).bits = bs) (hbits : ∀ b ∈ bs, b < 2)
    (hlarge : 2 ^ 53 ≤ bitsValue 0 bs) :
    computeAccurateBinaryBaseInteger chars base = .ofExact (bitsValue 0 bs) := by
  obtain ⟨k, cs, rfl⟩ := exists_leading hbits (by omega)
  have hcs (b : ℕ) (hb : b ∈ cs) : b < 2 :=
    hbits b (mem_append_right _ (mem_cons_of_mem 1 hb))
  rw [bitsValue_zeroes, bitsValue_cons] at hlarge ⊢
  have hlength : 53 ≤ cs.length := by
    have hlt := bitsValue_lt hcs
    rw [bitsValue_from] at hlarge
    by_contra hshort
    have hpow : 2 ^ (cs.length + 1) ≤ 2 ^ 53 := Nat.pow_le_pow_right (by decide) (by omega)
    rw [pow_succ] at hpow
    omega
  obtain ⟨lead, b, tail, rfl, hlead⟩ : ∃ lead b tail, cs = lead ++ b :: tail ∧ lead.length = 52 :=
    ⟨cs.take 52, cs[52], cs.drop 53, by
      rw [← drop_eq_getElem_cons, take_append_drop], by rw [length_take]; omega⟩
  have hleadBits (c : ℕ) (hc : c ∈ lead) : c < 2 := hcs c (mem_append_left _ hc)
  have htailBits (c : ℕ) (hc : c ∈ tail) : c < 2 :=
    hcs c (mem_append_right _ (mem_cons_of_mem b hc))
  have hb : b < 2 := hcs b (mem_append_right _ mem_cons_self)
  -- what the three loops find
  obtain ⟨bdr₁, hskip, hgives₁⟩ := skipZeroes_spec ⟨hbase, hgives⟩
  obtain ⟨bdr₂, hgather, hgives₂⟩ := gatherBits_spec hgives₁ hleadBits (v := 1)
    (Nat.one_lt_two_pow (by omega)) hlead.le
  obtain ⟨bdr₃, hnext, hgives₃⟩ := nextDigit_cons hgives₂
  have hsticky := stickyBits_spec hgives₃ htailBits 1 (show 0 < 2 by decide)
  have hone : powDouble 1 = .finite 2 := rfl
  rw [hlead] at hgather
  rw [hone, if_congr (and_iff_right rfl) rfl rfl] at hsticky
  -- the leading 53 bits
  have hq := bitsValue_from 1 lead
  have hqlt := bitsValue_lt hleadBits
  rw [hlead] at hq hqlt
  have hvalue : bitsValue (0 * 2 + 1) (lead ++ b :: tail) =
      (2 * bitsValue 1 lead + b) * 2 ^ tail.length + bitsValue 0 tail := by
    rw [bitsValue_append, bitsValue_cons, bitsValue_from, Nat.mul_comm _ 2]
  have hround := roundEven_bits (p := 53) (by decide) (q := bitsValue 1 lead) (by omega) (by omega)
    hb (bitsValue_lt htailBits)
  rw [hvalue, computeAccurateBinaryBaseInteger, hskip]
  simp only [hgather, hnext, hsticky]
  have hsum : bitsValue 1 lead + (if b = 1 ∧ (bitsValue 1 lead % 2 = 1 ∨ bitsValue 0 tail ≠ 0)
      then 1 else 0) ≤ 2 ^ 53 := by
    split_ifs <;> omega
  rw [carry_eq hb, WholeDouble.add, ofExact_of_le hsum]
  exact mul_powDouble hsum (by omega) (hround.trans (by rw [Nat.add_comm 1]))

/-! ## The prefix -/

lemma digitOf_eq {base : ℕ} {c : Jschar} (h : isDigitOf base c = true) :
    digitOf c = (digitValue c).getD 0 ∧ (digitValue c).getD 0 < base := by
  rw [isDigitOf] at h
  cases hc : digitValue c with
  | none =>
    rw [hc] at h
    cases h
  | some d =>
    rw [hc] at h
    refine ⟨?_, of_decide_eq_true h⟩
    rw [digitValue] at hc
    rw [digitOf]
    split_ifs at hc ⊢ <;> cases hc <;> rfl

/-- The bits of the digits denote the same number. -/
lemma bitsValue_digits {w : ℕ} (hw : 0 < w) {ds : List Jschar}
    (h : ∀ c ∈ ds, isDigitOf (2 ^ w) c = true) (v : ℕ) :
    bitsValue v (ds.flatMap fun c => maskBits (digitOf c) (2 ^ w >>> 1)) =
      numberOf (2 ^ w) v ds := by
  have hmask : 2 ^ w >>> 1 = 2 ^ (w - 1) := by
    rw [Nat.shiftRight_eq_div_pow, Nat.pow_div hw (by decide)]
  induction ds generalizing v with
  | nil => rfl
  | cons c ds ih =>
    obtain ⟨hdigit, hlt⟩ := digitOf_eq (h c mem_cons_self)
    rw [flatMap_cons, bitsValue_append, ih fun e he => h e (mem_cons_of_mem c he), hmask,
      bitsValue_maskBits, Nat.sub_add_cancel hw, hdigit, Nat.mod_eq_of_lt hlt]
    rfl

/-- The number so far: exact while it is small, and from then on not small. -/
inductive Tracks : ℕ → WholeDouble → Prop
  | exact (n : ℕ) : Tracks n (.finite n)
  | large {n d : ℕ} (hn : 2 ^ 53 ≤ n) (hd : 2 ^ 53 ≤ d) : Tracks n (.finite d)
  | infinity {n : ℕ} (hn : 2 ^ 53 ≤ n) : Tracks n .infinity

lemma Tracks.ofExact {n d : ℕ} (h : d = n ∨ 2 ^ 53 ≤ n ∧ 2 ^ 53 ≤ d) :
    Tracks n (WholeDouble.ofExact d) := by
  rcases Nat.lt_or_ge d (2 ^ 53) with hsmall | hlarge
  · obtain rfl : d = n := by omega
    rw [ofExact_of_le hsmall.le]
    exact .exact d
  · have hround := le_roundEven (by decide : 2 ≤ 53) ⟨1, 53, by decide, (Nat.one_mul _).symm⟩ hlarge
    have hn : 2 ^ 53 ≤ n := by omega
    rw [WholeDouble.ofExact]
    split_ifs
    · exact .large hn hround
    · exact .infinity hn

lemma Tracks.mul {n b : ℕ} {d : WholeDouble} (h : Tracks n d) (hb : 0 < b) :
    Tracks (n * b) (d.mul (.finite b)) := by
  have hgrow (a : ℕ) : a ≤ a * b := Nat.le_mul_of_pos_right a hb
  cases h with
  | exact => exact Tracks.ofExact (.inl rfl)
  | large hn hd => exact Tracks.ofExact (.inr ⟨hn.trans (hgrow n), hd.trans (hgrow _)⟩)
  | infinity hn => exact .infinity (hn.trans (hgrow n))

lemma Tracks.add {n c : ℕ} {d : WholeDouble} (h : Tracks n d) :
    Tracks (n + c) (d.add (.finite c)) := by
  cases h with
  | exact => exact Tracks.ofExact (.inl rfl)
  | large hn hd =>
    exact Tracks.ofExact (.inr ⟨hn.trans (Nat.le_add_right n c), hd.trans (Nat.le_add_right _ c)⟩)
  | infinity hn => exact .infinity (hn.trans (Nat.le_add_right n c))

lemma prefixLoop_spec {base : ℕ} (hbase : 0 < base) {n : ℕ} {d : WholeDouble} (h : Tracks n d)
    (chars : List Jschar) :
    ∃ d', prefixLoop base d chars = (chars.dropWhile (isDigitOf base), d') ∧
      Tracks (numberOf base n (chars.takeWhile (isDigitOf base))) d' := by
  induction chars generalizing n d with
  | nil => exact ⟨d, rfl, h⟩
  | cons c s ih =>
    rw [prefixLoop]
    cases hc : digitValue c with
    | none =>
      have hno : ¬ isDigitOf base c = true := by
        rw [isDigitOf, hc]
        exact Bool.false_ne_true
      rw [dropWhile_cons_of_neg hno, takeWhile_cons_of_neg hno]
      exact ⟨d, rfl, h⟩
    | some digit =>
      have hiff : isDigitOf base c = true ↔ digit < base := by
        rw [isDigitOf, hc]
        exact decide_eq_true_iff
      by_cases hdigit : base ≤ digit
      · have hno : ¬ isDigitOf base c = true := fun h => Nat.not_lt.mpr hdigit (hiff.mp h)
        rw [dropWhile_cons_of_neg hno, takeWhile_cons_of_neg hno]
        simp only [if_pos hdigit]
        exact ⟨d, rfl, h⟩
      · have hyes := hiff.mpr (Nat.lt_of_not_le hdigit)
        rw [dropWhile_cons_of_pos hyes, takeWhile_cons_of_pos hyes]
        simp only [if_neg hdigit]
        obtain ⟨d', hloop, htracks⟩ := ih ((h.mul hbase).add (c := digit))
        refine ⟨d', hloop, ?_⟩
        rw [numberOf, foldl_cons, hc]
        exact htracks

lemma take_consumed (p : Jschar → Bool) (chars : List Jschar) :
    chars.take (chars.length - (chars.dropWhile p).length) = chars.takeWhile p := by
  have hsplit := takeWhile_append_dropWhile (p := p) (l := chars)
  have hlength := congrArg List.length hsplit
  rw [length_append] at hlength
  rw [show chars.length - (chars.dropWhile p).length = (chars.takeWhile p).length by omega]
  exact prefix_iff_eq_take.mp ( takeWhile_prefix p) |>.symm

lemma getPrefixInteger_eq {w : ℕ} (hw : 0 < w) (hten : 2 ^ w ≠ 10)
    (decimal : List Jschar → Option WholeDouble) (chars : List Jschar) :
    getPrefixInteger decimal (2 ^ w) chars = (chars.dropWhile (isDigitOf (2 ^ w)),
      some (.ofExact (numberOf (2 ^ w) 0 (chars.takeWhile (isDigitOf (2 ^ w)))))) := by
  obtain ⟨d, hloop, htracks⟩ := prefixLoop_spec (Nat.two_pow_pos w) (.exact 0) chars
  have hpower : 2 ^ w &&& (2 ^ w - 1) = 0 := by rw [Nat.and_two_pow_sub_one_eq_mod, Nat.mod_self]
  rw [getPrefixInteger, hloop]
  simp only [if_neg hten, if_pos hpower, take_consumed]
  split_ifs with hlt
  · cases htracks with
    | exact => rw [ofExact_of_le (of_decide_eq_true hlt : _ < 2 ^ 53).le]
    | large hn hd => exact absurd (of_decide_eq_true hlt) (Nat.not_lt.mpr hd)
    | infinity hn => cases hlt
  · have hlarge : 2 ^ 53 ≤ numberOf (2 ^ w) 0 (chars.takeWhile (isDigitOf (2 ^ w))) := by
      cases htracks with
      | exact => exact Nat.le_of_not_lt fun h => hlt (decide_eq_true h)
      | large hn hd => exact hn
      | infinity hn => exact hn
    have hvalid (c : Jschar) (hc : c ∈ chars.takeWhile (isDigitOf (2 ^ w))) :
        isDigitOf (2 ^ w) c = true := mem_takeWhile_imp hc
    have hempty (digit : ℕ) : maskBits digit 0 = [] := by rw [maskBits, if_pos rfl]
    have hbits := bitsValue_digits hw hvalid 0
    rw [← hbits] at hlarge ⊢
    rw [computeAccurateBinaryBaseInteger_spec (Nat.one_lt_two_pow hw.ne') _ _ hlarge]
    · rw [BinaryDigitReader.bits, hempty, nil_append]
    · intro b hb
      obtain ⟨c, -, hb⟩ := mem_flatMap.mp hb
      exact maskBits_lt hb

/-! ## The nearest double -/

/-- The double that a whole number is rounded to; infinity stands for all that is too large. -/
def IsNearestDouble (n : ℕ) (d : WholeDouble) : Prop :=
  ∃ r, IsNearestEven 53 n r ∧ d = if r < 2 ^ 1024 then .finite r else .infinity

lemma isNearestDouble_ofExact (n : ℕ) : IsNearestDouble n (WholeDouble.ofExact n) :=
  ⟨roundEven 53 n, isNearestEven_roundEven (by decide) n, by rw [WholeDouble.ofExact]⟩

/-- The longest prefix of digits is consumed, and gives the nearest double. -/
theorem getPrefixInteger_exact (decimal : List Jschar → Option WholeDouble) (base : ℕ)
    (hbase : base ∈ [2, 4, 8, 16, 32]) (chars : List Jschar) :
    ∃ d, getPrefixInteger decimal base chars = (chars.dropWhile (isDigitOf base), some d) ∧
      IsNearestDouble (numberOf base 0 (chars.takeWhile (isDigitOf base))) d := by
  obtain ⟨w, hw, hten, rfl⟩ : ∃ w, 0 < w ∧ 2 ^ w ≠ 10 ∧ base = 2 ^ w := by
    simp only [mem_cons, not_mem_nil, or_false] at hbase
    rcases hbase with rfl | rfl | rfl | rfl | rfl
    · exact ⟨1, by decide⟩
    · exact ⟨2, by decide⟩
    · exact ⟨3, by decide⟩
    · exact ⟨4, by decide⟩
    · exact ⟨5, by decide⟩
  exact ⟨_, getPrefixInteger_eq hw hten decimal chars, isNearestDouble_ofExact _⟩

/-- A number that the fast loop rounds the wrong way, and what is no digit behind it. -/
theorem getPrefixInteger_exact_hex :
    ∃ d, getPrefixInteger (fun _ => none) 16 (asciiChars "1000000000000081;") =
        ((asciiChars "1000000000000081;").dropWhile (isDigitOf 16), some d) ∧
      IsNearestDouble
        (numberOf 16 0 ((asciiChars "1000000000000081;").takeWhile (isDigitOf 16))) d :=
  getPrefixInteger_exact (fun _ => none) 16 (by decide) (asciiChars "1000000000000081;")

end SpiderMonkey.Vm
