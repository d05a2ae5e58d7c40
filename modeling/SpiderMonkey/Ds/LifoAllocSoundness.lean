import SpiderMonkey.Ds.LifoAlloc

/-! # Blocks of a bump allocator are apart

A position is a chunk and an address in it. The blocks that are not released lie under the position
of the allocator, and those of a mark under the position where it was taken; the positions of the
marks descend. As requests that wrap are not noticed, all this holds for requests that do not.
-/

namespace SpiderMonkey.Ds

open List Option

/-! ## Chunks -/

lemma alignPtr_spec {x limit : ℕ} (hle : x ≤ limit) (haligned : 8 ∣ limit)
    (hlimit : limit < 2 ^ 64) : x ≤ alignPtr x ∧ alignPtr x ≤ limit ∧ 8 ∣ alignPtr x := by
  obtain ⟨k, rfl⟩ := haligned
  rw [alignPtr]
  omega

lemma alignPtr_of_dvd {x : ℕ} (h : 8 ∣ x) (hlt : x < 2 ^ 64) : alignPtr x = x := by
  obtain ⟨k, rfl⟩ := h
  rw [alignPtr]
  omega

namespace BumpChunk

variable (c : BumpChunk)

/-- The memory of a chunk. -/
def extent : ℕ × ℕ := (c.headerBase, c.limit)

/-- The request does not end behind the header again. -/
def Fits (n : ℕ) : Prop := alignPtr c.bump + n ≤ 2 ^ 64 + c.headerBase

lemma align_bump : c.bump ≤ alignPtr c.bump ∧ alignPtr c.bump ≤ c.limit ∧ 8 ∣ alignPtr c.bump :=
  alignPtr_spec c.le_limit c.aligned.2 c.limit_lt

lemma bumpBase_le : c.headerBase < c.bumpBase ∧ c.bumpBase ≤ c.bump :=
  ⟨Nat.lt_add_of_pos_right (Nat.succ_pos _), c.base_le⟩

variable {c} {n p : ℕ} {c' : BumpChunk}

/-- What fits does not wrap, or is too large. -/
lemma Fits.mod_cases (h : c.Fits n) (hn : n < 2 ^ 64) :
    alignPtr c.bump + n < 2 ^ 64 ∧ (alignPtr c.bump + n) % 2 ^ 64 = alignPtr c.bump + n ∨
      2 ^ 64 ≤ alignPtr c.bump + n ∧ (alignPtr c.bump + n) % 2 ^ 64 ≤ c.headerBase := by
  rw [Fits] at h
  have hlimit := c.limit_lt
  have halign := c.align_bump.2.1
  omega

lemma canAlloc_iff (h : c.Fits n) (hn : n < 2 ^ 64) :
    c.canAlloc n = true ↔ alignPtr c.bump + n ≤ c.limit := by
  have hbase := c.bumpBase_le
  have halign := c.align_bump.1
  have hlimit := c.limit_lt
  rw [canAlloc, decide_eq_true_iff]
  rcases h.mod_cases hn with ⟨-, hmod⟩ | ⟨hle, hmod⟩
  · rw [hmod]
    omega
  · omega

lemma tryAlloc_isSome_iff (h : c.Fits n) (hn : n < 2 ^ 64) :
    (c.tryAlloc n).isSome ↔ alignPtr c.bump + n ≤ c.limit := by
  have hbase := c.bumpBase_le
  have halign := c.align_bump.1
  have hlimit := c.limit_lt
  have hsome : (c.tryAlloc n).isSome ↔
      (alignPtr c.bump + n) % 2 ^ 64 ≤ c.limit ∧ c.bump ≤ (alignPtr c.bump + n) % 2 ^ 64 := by
    rw [tryAlloc]
    split
    · rename_i hfits
      exact ⟨fun _ => hfits, fun _ => rfl⟩
    · rename_i hfits
      exact ⟨nofun, fun hfits' => absurd hfits' hfits⟩
  rw [hsome]
  rcases h.mod_cases hn with ⟨-, hmod⟩ | ⟨hle, hmod⟩
  · rw [hmod]
    omega
  · omega

lemma tryAlloc_eq_some (htry : c.tryAlloc n = some (p, c')) :
    p = alignPtr c.bump ∧ c'.extent = c.extent ∧ c'.bump = (alignPtr c.bump + n) % 2 ^ 64 ∧
      c'.bump ≤ c.limit ∧ c.bump ≤ c'.bump := by
  rw [tryAlloc] at htry
  split at htry
  · rename_i h
    obtain ⟨rfl, rfl⟩ := Prod.mk.injEq .. ▸ Option.some.inj htry
    exact ⟨rfl, rfl, rfl, h⟩
  · cases htry

/-- The block of an allocation. -/
lemma Fits.tryAlloc (h : c.Fits n) (hn : n < 2 ^ 64) (htry : c.tryAlloc n = some (p, c')) :
    8 ∣ p ∧ c.bump ≤ p ∧ c'.extent = c.extent ∧ c'.bump = p + n ∧ p + n ≤ c.limit := by
  have hbase := c.bumpBase_le
  obtain ⟨hle, -, hdvd⟩ := c.align_bump
  obtain ⟨rfl, hextent, hbump, hlimit, hgrows⟩ := tryAlloc_eq_some htry
  rcases h.mod_cases hn with ⟨-, hmod⟩ | ⟨-, hmod⟩
  · rw [hmod] at hbump
    exact ⟨hdvd, hle, hextent, hbump, hbump ▸ hlimit⟩
  · omega

/-- Both tests agree, and the block is in the chunk, exactly for the requests that fit. -/
lemma fits_iff (c : BumpChunk) {n : ℕ} (hn : n < 2 ^ 64) :
    ((c.canAlloc n = true ↔ (c.tryAlloc n).isSome) ∧
      ∀ p c', c.tryAlloc n = some (p, c') → p + n ≤ c.limit) ↔ c.Fits n := by
  constructor
  · rintro ⟨hcan, hinside⟩
    by_contra hwraps
    have halign := c.align_bump.2.1
    have hlimit := c.limit_lt
    have hbase := c.bumpBase_le
    rw [Fits, Nat.not_le] at hwraps
    have hcan' : c.canAlloc n = true := by
      rw [canAlloc, decide_eq_true_iff]
      omega
    obtain ⟨⟨p, c'⟩, htry⟩ := isSome_iff_exists.1 (hcan.1 hcan')
    have hp := (tryAlloc_eq_some htry).1
    have hend := hinside p c' htry
    omega
  · intro h
    refine ⟨(canAlloc_iff h hn).trans (tryAlloc_isSome_iff h hn).symm, ?_⟩
    intro p c' htry
    exact (h.tryAlloc hn htry).2.2.2.2

end BumpChunk

/-! ## Positions -/

/-- Chunks that do not overlap; they may be adjacent. -/
def Apart (e e' : ℕ × ℕ) : Prop := e.2 ≤ e'.1 ∨ e'.2 ≤ e.1

/-- A block lies in a chunk, under a position. -/
def UnderAt (chain : List BumpChunk) (pos : ℕ × ℕ) (i : ℕ) (b : LifoBlock) : Prop :=
  ∃ c, chain[i]? = some c ∧ c.bumpBase ≤ b.address ∧ b.address + b.size ≤ c.limit ∧
    (i < pos.1 ∧ b.address + b.size ≤ c.bump ∨ i = pos.1 ∧ b.address + b.size ≤ pos.2)

def LifoMark.position (m : LifoMark) : Option (ℕ × ℕ) := m.latest.map fun i => (i, m.mark)

/-- A mark lies under a position; one that was taken before there was a chunk is null. -/
def MarkAt (chain : List BumpChunk) (pos : Option (ℕ × ℕ)) (m : LifoMark) : Prop :=
  m.latest = none ∧ m.mark = 0 ∨
    ∃ p i, m.latest = some i ∧ pos = some p ∧ UnderAt chain p i ⟨m.mark, 0⟩

def InPlace (chain : List BumpChunk) (pos : Option (ℕ × ℕ)) (blocks : List LifoBlock) : Prop :=
  ∀ b ∈ blocks, ∃ p i, pos = some p ∧ UnderAt chain p i b

def Stacked (chain : List BumpChunk) : Option (ℕ × ℕ) → List LifoBlock → List LifoMark → Prop
  | pos, blocks, [] => InPlace chain pos blocks
  | pos, blocks, m :: marks => InPlace chain pos blocks ∧ m.blocks <:+ blocks ∧
    MarkAt chain pos m ∧ Stacked chain m.position m.blocks marks

variable {chain : List BumpChunk}

lemma Stacked.inPlace {pos : Option (ℕ × ℕ)} {blocks : List LifoBlock} {marks : List LifoMark}
    (h : Stacked chain pos blocks marks) : InPlace chain pos blocks := by
  cases marks with
  | nil => exact h
  | cons m marks => exact h.1

/-- Everything up to a chunk, but for how full that one is, is the same in two chains. -/
def SameUpTo (l : ℕ) (chain chain' : List BumpChunk) : Prop :=
  (∀ i < l, chain'[i]? = chain[i]?) ∧
    ∀ c, chain[l]? = some c → ∃ c', chain'[l]? = some c' ∧ c'.extent = c.extent

lemma bumpBase_eq_of_extent {c c' : BumpChunk} (h : c'.extent = c.extent) :
    c'.bumpBase = c.bumpBase ∧ c'.limit = c.limit := by
  obtain ⟨hbase, hlimit⟩ := Prod.mk.injEq .. ▸ h
  exact ⟨congrArg (· + chunkHeaderSize) hbase, hlimit⟩

variable {i : ℕ}

lemma UnderAt.congr {chain chain' : List BumpChunk} {l : ℕ} (h : SameUpTo l chain chain')
    {pos : ℕ × ℕ} (hpos : pos.1 ≤ l) {b : LifoBlock} (hb : UnderAt chain pos i b) :
    UnderAt chain' pos i b := by
  obtain ⟨c, hc, hbase, hlimit, hcases⟩ := hb
  have hi : i ≤ pos.1 := by
    rcases hcases with ⟨hlt, -⟩ | ⟨heq, -⟩
    · exact hlt.le
    · exact heq.le
  rcases (hi.trans hpos).lt_or_eq with hlt | rfl
  · exact ⟨c, (h.1 i hlt).trans hc, hbase, hlimit, hcases⟩
  · obtain ⟨c', hc', hextent⟩ := h.2 c hc
    obtain ⟨hbase', hlimit'⟩ := bumpBase_eq_of_extent hextent
    refine ⟨c', hc', hbase'.trans_le hbase, hlimit.trans_eq hlimit'.symm, .inr ?_⟩
    rcases hcases with ⟨hlt, -⟩ | heq
    · exact absurd hpos (Nat.not_le.2 hlt)
    · exact heq

lemma Stacked.congr {chain chain' : List BumpChunk} {l : ℕ} (h : SameUpTo l chain chain')
    {pos : Option (ℕ × ℕ)} (hpos : ∀ p, pos = some p → p.1 ≤ l) {blocks : List LifoBlock}
    {marks : List LifoMark} (hs : Stacked chain pos blocks marks) :
    Stacked chain' pos blocks marks := by
  have hplace : ∀ {pos : Option (ℕ × ℕ)} {blocks}, (∀ p, pos = some p → p.1 ≤ l) →
      InPlace chain pos blocks → InPlace chain' pos blocks := by
    intro pos blocks hpos hin b hb
    obtain ⟨p, i, hp, hunder⟩ := hin b hb
    exact ⟨p, i, hp, hunder.congr h (hpos p hp)⟩
  induction marks generalizing pos blocks with
  | nil => exact hplace hpos hs
  | cons m marks ih =>
    obtain ⟨hin, hsuffix, hmark, hrest⟩ := hs
    refine ⟨hplace hpos hin, hsuffix, ?_, ?_⟩
    · rcases hmark with hnone | ⟨p, i, hlatest, hp, hunder⟩
      · exact .inl hnone
      · exact .inr ⟨p, i, hlatest, hp, hunder.congr h (hpos p hp)⟩
    · refine ih ?_ hrest
      intro q hq
      rcases hmark with ⟨hnone, -⟩ | ⟨p, i, hlatest, hp, c, -, -, -, hcases⟩
      · rw [LifoMark.position, hnone] at hq
        cases hq
      · rw [LifoMark.position, hlatest] at hq
        rw [← Option.some.inj hq]
        have hle := hpos p hp
        rcases hcases with ⟨hlt, -⟩ | ⟨heq, -⟩
        · exact hlt.le.trans hle
        · exact heq.le.trans hle

/-- A position that is further on. -/
lemma Stacked.mono {pos pos' : Option (ℕ × ℕ)}
    (hpos : ∀ p i b, pos = some p → UnderAt chain p i b →
      ∃ p', pos' = some p' ∧ UnderAt chain p' i b) {blocks : List LifoBlock}
    {marks : List LifoMark} (h : Stacked chain pos blocks marks) :
    Stacked chain pos' blocks marks := by
  have hplace : InPlace chain pos' blocks := by
    intro b hb
    obtain ⟨p, i, hp, hunder⟩ := h.inPlace b hb
    obtain ⟨p', hp', hunder'⟩ := hpos p i b hp hunder
    exact ⟨p', i, hp', hunder'⟩
  cases marks with
  | nil => exact hplace
  | cons m marks =>
    obtain ⟨-, hsuffix, hmark, hrest⟩ := h
    refine ⟨hplace, hsuffix, ?_, hrest⟩
    rcases hmark with hnone | ⟨p, i, hlatest, hp, hunder⟩
    · exact .inl hnone
    · obtain ⟨p', hp', hunder'⟩ := hpos p i _ hp hunder
      exact .inr ⟨p', i, hlatest, hp', hunder'⟩

/-! ## The invariant -/

namespace LifoAlloc

def position (a : LifoAlloc) : Option (ℕ × ℕ) :=
  a.latest.bind fun i => (a.chain[i]?).map fun c => (i, c.bump)

/-- Blocks that do not overlap. -/
def DisjointBlocks (b b' : LifoBlock) : Prop :=
  b.address + b.size ≤ b'.address ∨ b'.address + b'.size ≤ b.address

/-- The chain is well formed. -/
structure Chained (a : LifoAlloc) : Prop where
  latest_lt : ∀ i, a.latest = some i → i < a.chain.length
  latest_none : a.latest = none → a.chain = []
  apart : (a.chain.map BumpChunk.extent).Pairwise Apart

structure Sound (a : LifoAlloc) (blocks : List LifoBlock) (marks : List LifoMark) : Prop
    extends Chained a where
  aligned : ∀ b ∈ blocks, 8 ∣ b.address
  disjoint : blocks.Pairwise DisjointBlocks
  stacked : Stacked a.chain a.position blocks marks

variable {a a' : LifoAlloc} {blocks : List LifoBlock} {marks : List LifoMark} {n p : ℕ}
  {malloc : Malloc}

lemma Chained.latest_cases (h : a.Chained) :
    (a.latest = none ∧ a.chain = [] ∧ a.position = none ∧ a.latestChunk = none) ∨
      ∃ i c, a.latest = some i ∧ a.chain[i]? = some c ∧ a.position = some (i, c.bump) ∧
        a.latestChunk = some c := by
  cases hlatest : a.latest with
  | none =>
    refine .inl ⟨rfl, h.latest_none hlatest, ?_, ?_⟩
    · rw [position, hlatest, bind_none]
    · rw [latestChunk, hlatest, bind_none]
  | some i =>
    have hi := List.getElem?_eq_getElem (h.latest_lt i hlatest)
    refine .inr ⟨i, _, rfl, hi, ?_, ?_⟩
    · rw [position, hlatest, bind_some, hi, map_some]
    · rw [latestChunk, hlatest, bind_some, hi]

/-- Two chunks of a chain. -/
lemma Chained.apart_getElem (h : a.Chained) {i j : ℕ} {c c' : BumpChunk}
    (hi : a.chain[i]? = some c) (hj : a.chain[j]? = some c') (hij : i ≠ j) :
    Apart c.extent c'.extent := by
  have hi' : (a.chain.map BumpChunk.extent)[i]? = some c.extent := by
    rw [List.getElem?_map, hi, map_some]
  have hj' : (a.chain.map BumpChunk.extent)[j]? = some c'.extent := by
    rw [List.getElem?_map, hj, map_some]
  obtain ⟨hlti, hgeti⟩ := List.getElem?_eq_some_iff.1 hi'
  obtain ⟨hltj, hgetj⟩ := List.getElem?_eq_some_iff.1 hj'
  have hpairwise := pairwise_iff_getElem.1 h.apart
  rcases Nat.lt_or_gt_of_ne hij with hlt | hgt
  · have hapart := hpairwise i j hlti hltj hlt
    rwa [hgeti, hgetj] at hapart
  · have hapart := hpairwise j i hltj hlti hgt
    rw [hgeti, hgetj] at hapart
    exact hapart.symm

lemma sameUpTo_set {c c' : BumpChunk} (hc : chain[i]? = some c) (hextent : c'.extent = c.extent) :
    SameUpTo i chain (chain.set i c') := by
  obtain ⟨hi, -⟩ := List.getElem?_eq_some_iff.1 hc
  refine ⟨fun j hj => List.getElem?_set_ne hj.ne', ?_⟩
  intro d hd
  refine ⟨c', List.getElem?_set_self hi, ?_⟩
  rw [hc] at hd
  rw [hextent, Option.some.inj hd]

lemma map_extent_set {c c' : BumpChunk} (hc : chain[i]? = some c)
    (hextent : c'.extent = c.extent) :
    (chain.set i c').map BumpChunk.extent = chain.map BumpChunk.extent := by
  obtain ⟨hi, hget⟩ := List.getElem?_eq_some_iff.1 hc
  rw [map_set, hextent, ← hget]
  conv_lhs => rw [← getElem_map BumpChunk.extent (h := by rwa [length_map])]
  exact set_getElem_self _

/-- The chunk at `i` changes, and is the latest one then. -/
lemma Chained.set (h : a.Chained) {c c' : BumpChunk} (hc : a.chain[i]? = some c)
    (hextent : c'.extent = c.extent) :
    Chained { a with chain := a.chain.set i c', latest := some i } := by
  obtain ⟨hi, -⟩ := List.getElem?_eq_some_iff.1 hc
  refine ⟨?_, nofun, ?_⟩
  · rintro j ⟨rfl⟩
    rwa [length_set]
  · rw [map_extent_set hc hextent]
    exact h.apart

lemma position_set {c c' : BumpChunk} (hc : a.chain[i]? = some c) :
    position { a with chain := a.chain.set i c', latest := some i } = some (i, c'.bump) := by
  obtain ⟨hi, -⟩ := List.getElem?_eq_some_iff.1 hc
  rw [position, bind_some, List.getElem?_set_self hi, map_some]

/-! ## Allocation -/

lemma tryLatest_eq {c : BumpChunk} (hlatest : a.latest = some i) (hc : a.chain[i]? = some c) :
    a.tryLatest n =
      (c.tryAlloc n).map fun r =>
        (r.1, { a with chain := a.chain.set i r.2, latest := some i }) := by
  rw [tryLatest, hlatest]
  simp only [bind_eq_bind, bind_some, hc]
  cases c.tryAlloc n with
  | none => rfl
  | some r => rw [← hlatest]; rfl

/-- A block from the latest chunk. -/
lemma Sound.tryLatest (h : a.Sound blocks marks) (hn : n < 2 ^ 64) (hfits : a.Fits n)
    (htry : a.tryLatest n = some (p, a')) : a'.Sound (⟨p, n⟩ :: blocks) marks := by
  rcases h.latest_cases with ⟨hlatest, -⟩ | ⟨i, c, hlatest, hc, hposition, hchunk⟩
  · rw [LifoAlloc.tryLatest, hlatest] at htry
    cases htry
  rw [tryLatest_eq hlatest hc, map_eq_some_iff] at htry
  obtain ⟨⟨q, c'⟩, htry, heq⟩ := htry
  obtain ⟨rfl, rfl⟩ := Prod.mk.injEq .. ▸ heq
  obtain ⟨hdvd, hbump, hextent, hbump', hlimit⟩ :=
    BumpChunk.Fits.tryAlloc (hfits c hchunk) hn htry
  have hbase := c.bumpBase_le
  obtain ⟨hbase', hlimit'⟩ := bumpBase_eq_of_extent hextent
  have hself : (a.chain.set i c')[i]? = some c' :=
    List.getElem?_set_self (h.latest_lt i hlatest)
  have hstacked : Stacked (a.chain.set i c') (some (i, c'.bump)) blocks marks := by
    have hsame := sameUpTo_set hc hextent
    have hold := h.stacked
    rw [hposition] at hold
    refine (hold.congr hsame ?_).mono ?_
    · rintro q' ⟨rfl⟩
      exact Nat.le_refl _
    · rintro - j b ⟨rfl⟩ ⟨d, hd, hd₁, hd₂, hcases⟩
      refine ⟨_, rfl, d, hd, hd₁, hd₂, hcases.imp_right ?_⟩
      rintro ⟨rfl, hle⟩
      exact ⟨rfl, by simp only at hle ⊢; omega⟩
  refine ⟨h.toChained.set hc hextent, ?_, ?_, ?_⟩
  · intro b hb
    rcases mem_cons.1 hb with rfl | hb
    · exact hdvd
    · exact h.aligned b hb
  · refine pairwise_cons.2 ⟨?_, h.disjoint⟩
    intro b hb
    obtain ⟨pos, j, hpos, d, hd, hd₁, hd₂, hcases⟩ := h.stacked.inPlace b hb
    rw [hposition] at hpos
    obtain rfl := Option.some.inj hpos
    by_cases hij : i = j
    · subst hij
      rcases hcases with ⟨hlt, -⟩ | ⟨-, hle⟩
      · exact absurd hlt (Nat.lt_irrefl _)
      · exact .inr (hle.trans hbump)
    · have hdbase := d.bumpBase_le
      rcases h.apart_getElem hc hd hij with hle | hle
      · simp only [BumpChunk.extent] at hle
        exact .inl (show q + n ≤ b.address by omega)
      · simp only [BumpChunk.extent] at hle
        exact .inr (show b.address + b.size ≤ q by omega)
  · rw [position_set hc]
    have hnew : ∃ pos k, some (i, c'.bump) = some pos ∧
        UnderAt (a.chain.set i c') pos k ⟨q, n⟩ := by
      refine ⟨_, i, rfl, c', hself, ?_, ?_, .inr ⟨rfl, hbump'.ge⟩⟩
      · exact (hbase'.trans_le hbase.2).trans hbump
      · exact hlimit.trans_eq hlimit'.symm
    have hplace : InPlace (a.chain.set i c') (some (i, c'.bump)) (⟨q, n⟩ :: blocks) := by
      intro b hb
      rcases mem_cons.1 hb with rfl | hb
      · exact hnew
      · exact hstacked.inPlace b hb
    cases marks with
    | nil => exact hplace
    | cons m marks =>
      obtain ⟨-, hsuffix, hrest⟩ := hstacked
      exact ⟨hplace, hsuffix.trans (suffix_cons _ _), hrest⟩

/-! ## Chunks for a request -/

/-- What looking for a chunk, or making one, leaves as it is. -/
structure Advances (a a' : LifoAlloc) : Prop extends Chained a' where
  same : ∀ l, a.latest = some l → ∃ l', a'.latest = some l' ∧ l ≤ l' ∧
    ∀ i ≤ l, a'.chain[i]? = a.chain[i]?

lemma Sound.advance (h : a.Sound blocks marks) (hadvances : Advances a a') :
    a'.Sound blocks marks := by
  refine ⟨hadvances.toChained, h.aligned, h.disjoint, ?_⟩
  have hold := h.stacked
  rcases h.latest_cases with ⟨hlatest, hchain, hposition, -⟩ | ⟨l, c, hlatest, hc, hposition, -⟩
  · -- there are no chunks yet, and so no blocks
    rw [hposition] at hold
    have hsame : SameUpTo 0 a.chain a'.chain := by
      refine ⟨fun i hi => absurd hi (Nat.not_lt_zero i), ?_⟩
      intro c hc
      rw [hchain] at hc
      cases hc
    refine (hold.congr hsame ?_).mono ?_
    · rintro p ⟨⟩
    · rintro p i b ⟨⟩
  · obtain ⟨l', hlatest', hle, hsame⟩ := hadvances.same l hlatest
    rw [hposition] at hold
    have hsame' : SameUpTo l a.chain a'.chain :=
      ⟨fun i hi => hsame i hi.le, fun d hd => ⟨d, (hsame l (Nat.le_refl l)).trans hd, rfl⟩⟩
    have hc' : a'.chain[l]? = some c := (hsame l (Nat.le_refl l)).trans hc
    have hposition' : ∃ d, a'.chain[l']? = some d ∧ a'.position = some (l', d.bump) := by
      rcases hadvances.toChained.latest_cases with ⟨hnone, -⟩ | ⟨j, d, hj, hd, hpos, -⟩
      · rw [hlatest'] at hnone
        cases hnone
      · rw [hlatest'] at hj
        obtain rfl := Option.some.inj hj
        exact ⟨d, hd, hpos⟩
    obtain ⟨d, hd, hposition'⟩ := hposition'
    rw [hposition']
    refine (hold.congr hsame' ?_).mono ?_
    · rintro q ⟨rfl⟩
      exact Nat.le_refl _
    · rintro - i b ⟨rfl⟩ ⟨e, he, he₁, he₂, hcases⟩
      refine ⟨_, rfl, e, he, he₁, he₂, ?_⟩
      rcases hcases with ⟨hlt, hend⟩ | ⟨rfl, hend⟩
      · exact .inl ⟨hlt.trans_le hle, hend⟩
      · rw [hc'] at he
        rcases hle.lt_or_eq with hlt | rfl
        · refine .inl ⟨hlt, ?_⟩
          rwa [← Option.some.inj he]
        · refine .inr ⟨rfl, ?_⟩
          rw [hc'] at hd
          rwa [← Option.some.inj hd]

/-- The walk over the chunks that are not used. -/
lemma seekChunk_spec {n rest l : ℕ} (hrest : l + rest < chain.length) :
    (seekChunk n rest l chain).2.2.map BumpChunk.extent = chain.map BumpChunk.extent ∧
      l ≤ (seekChunk n rest l chain).2.1 ∧ (seekChunk n rest l chain).2.1 < chain.length ∧
      (∀ i ≤ l, (seekChunk n rest l chain).2.2[i]? = chain[i]?) ∧
      ((seekChunk n rest l chain).1 = true →
        ∃ c, (seekChunk n rest l chain).2.2[(seekChunk n rest l chain).2.1]? = some c ∧
          c.bump = c.bumpBase ∧ c.canAlloc n = true) := by
  induction rest generalizing l chain with
  | zero => exact ⟨rfl, Nat.le_refl _, hrest, fun _ _ => rfl, nofun⟩
  | succ rest ih =>
    have hl : l + 1 < chain.length := by omega
    have hchain : chain.modify (l + 1) BumpChunk.resetBump =
        chain.set (l + 1) chain[l + 1].resetBump := by
      rw [modify_eq_set_getElem?, List.getElem?_eq_getElem hl]
      rfl
    have hextents : (chain.modify (l + 1) BumpChunk.resetBump).map BumpChunk.extent =
        chain.map BumpChunk.extent := by
      rw [hchain]
      exact map_extent_set (List.getElem?_eq_getElem hl) rfl
    have hbefore : ∀ i ≤ l, (chain.modify (l + 1) BumpChunk.resetBump)[i]? = chain[i]? := by
      intro i hi
      rw [hchain]
      exact List.getElem?_set_ne (by omega)
    have hself : (chain.modify (l + 1) BumpChunk.resetBump)[l + 1]? =
        some chain[l + 1].resetBump := by
      rw [hchain]
      exact List.getElem?_set_self hl
    rw [seekChunk, hself, any_some]
    cases hcan : chain[l + 1].resetBump.canAlloc n with
    | true =>
      rw [if_pos rfl]
      exact ⟨hextents, Nat.le_succ l, hl, hbefore, fun _ => ⟨_, hself, rfl, hcan⟩⟩
    | false =>
      rw [if_neg Bool.false_ne_true]
      obtain ⟨hmap, hle, hlt, hsame, hfound⟩ :=
        ih (show l + 1 + rest < (chain.modify (l + 1) BumpChunk.resetBump).length by
          rw [length_modify]; omega)
      rw [length_modify] at hlt
      refine ⟨hmap.trans hextents, Nat.le_of_succ_le hle, hlt, ?_, hfound⟩
      intro i hi
      exact (hsame i (Nat.le_succ_of_le hi)).trans (hbefore i hi)

/-- A new chunk has room for the request. -/
lemma newChunkSize_spec {size : ChunkSize} (h : a.newChunkSize n = some size) :
    n + chunkHeaderSize ≤ size.1 := by
  rw [newChunkSize] at h
  simp only at h
  split at h
  · split at h
    · rename_i hguard
      rw [← Option.some.inj h]
      have hmod : (n + chunkHeaderSize) % 2 ^ 64 = n + chunkHeaderSize := by
        rw [chunkHeaderSize] at hguard ⊢
        omega
      change n + chunkHeaderSize ≤ roundUpPow2 ((n + chunkHeaderSize) % 2 ^ 64)
      rw [hmod]
      exact Nat.le_pow_clog Nat.one_lt_two _
    · cases h
  · rename_i hfree
    rw [← Option.some.inj h]
    have hdefault := a.defaultChunkSize.2.2
    simp only [chunkHeaderSize] at hfree hdefault ⊢
    omega

lemma Chained.push (h : a.Chained) {size : ChunkSize} (mem : Memory size.1)
    (hfresh : ∀ c ∈ a.chain, mem.address + size.1 ≤ c.headerBase ∨ c.limit ≤ mem.address) :
    Chained { a with chain := a.chain ++ [BumpChunk.new mem], latest := some a.chain.length } := by
  refine ⟨?_, nofun, ?_⟩
  · rintro i ⟨rfl⟩
    rw [length_append, length_singleton]
    exact Nat.lt_succ_self _
  · rw [map_append, map_singleton, pairwise_append]
    refine ⟨h.apart, pairwise_singleton _ _, ?_⟩
    intro e he e' he'
    rw [mem_singleton.1 he']
    obtain ⟨c, hc, rfl⟩ := mem_map.1 he
    exact (hfresh c hc).symm

/-- What is left to do if there is no chunk in the chain. -/
lemma createChunk_spec (h : a.Chained) (n : ℕ) (hfresh : a.Fresh malloc) {latest : Option ℕ}
    {chain : List BumpChunk}
    (hextents : chain.map BumpChunk.extent = a.chain.map BumpChunk.extent)
    (hlt : ∀ i, latest = some i → i < chain.length) (hnone : latest = none → chain = [])
    (hsame : ∀ l, a.latest = some l → ∃ l', latest = some l' ∧ l ≤ l' ∧
      ∀ i ≤ l, chain[i]? = a.chain[i]?) {r : Bool × LifoAlloc}
    (hr : r = (match (a.newChunkSize n).bind fun size =>
          (malloc size).map fun mem => BumpChunk.new mem with
        | none => (false, { a with chain := chain, latest := latest })
        | some newChunk =>
          (true, { a with chain := chain ++ [newChunk], latest := some chain.length }))) :
    Advances a r.2 ∧ (r.1 = true → ∃ c, r.2.latestChunk = some c ∧ c.bump = c.bumpBase ∧
      (a.latest.isSome ∧ c.canAlloc n = true ∨ c.bumpBase + n ≤ c.limit)) := by
  have hchained : Chained { a with chain := chain, latest := latest } :=
    ⟨hlt, hnone, by rw [hextents]; exact h.apart⟩
  cases hsize : a.newChunkSize n with
  | none =>
    rw [hsize] at hr
    subst hr
    exact ⟨⟨hchained, hsame⟩, by simp⟩
  | some size =>
    rw [hsize, bind_some] at hr
    cases hmem : malloc size with
    | none =>
      rw [hmem] at hr
      subst hr
      exact ⟨⟨hchained, hsame⟩, by simp⟩
    | some mem =>
      rw [hmem] at hr
      subst hr
      have hfreshChain : ∀ c ∈ chain,
          mem.address + size.1 ≤ c.headerBase ∨ c.limit ≤ mem.address := by
        intro c hc
        have hmem' : c.extent ∈ a.chain.map BumpChunk.extent :=
          hextents ▸ mem_map_of_mem hc
        obtain ⟨c', hc', hextent⟩ := mem_map.1 hmem'
        obtain ⟨hbase, hlimit⟩ := Prod.mk.injEq .. ▸ hextent
        rw [← hbase, ← hlimit]
        exact hfresh size mem hmem c' hc'
      refine ⟨⟨hchained.push mem hfreshChain, ?_⟩, ?_⟩
      · intro l hl
        obtain ⟨l', hl', hle, hsame'⟩ := hsame l hl
        refine ⟨chain.length, rfl, hle.trans (hlt l' hl').le, ?_⟩
        intro i hi
        rw [← hsame' i hi]
        exact List.getElem?_append_left ((hi.trans hle).trans_lt (hlt l' hl'))
      · intro _
        refine ⟨BumpChunk.new mem, ?_, rfl, .inr ?_⟩
        · change (chain ++ [BumpChunk.new mem])[chain.length]? = _
          rw [List.getElem?_append_right (Nat.le_refl _), Nat.sub_self]
          rfl
        · have hroom := newChunkSize_spec hsize
          change mem.address + chunkHeaderSize + n ≤ mem.address + size.1
          omega

/-- The chunk that is returned is empty, and has room as `canAlloc` says, or has room. -/
lemma getOrCreateChunk_spec (h : a.Chained) (n : ℕ) (hfresh : a.Fresh malloc) :
    Advances a (a.getOrCreateChunk n malloc).2 ∧
      ((a.getOrCreateChunk n malloc).1 = true →
        ∃ c, (a.getOrCreateChunk n malloc).2.latestChunk = some c ∧ c.bump = c.bumpBase ∧
          (a.latest.isSome ∧ c.canAlloc n = true ∨ c.bumpBase + n ≤ c.limit)) := by
  rw [getOrCreateChunk]
  cases hlatest : a.latest with
  | none =>
    simp only [Bool.false_eq_true, if_false]
    rw [← hlatest]
    refine createChunk_spec h n hfresh rfl h.latest_lt h.latest_none ?_ rfl
    intro l hl
    exact ⟨l, hl, Nat.le_refl l, fun _ _ => rfl⟩
  | some l =>
    have hl := h.latest_lt l hlatest
    obtain ⟨hmap, hle, hlt, hsame, hfound⟩ :=
      seekChunk_spec (n := n) (show l + (a.chain.length - 1 - l) < a.chain.length by omega)
    simp only
    generalize seekChunk n (a.chain.length - 1 - l) l a.chain = s at hmap hle hlt hsame hfound ⊢
    obtain ⟨found, l', chain⟩ := s
    simp only at hmap hle hlt hsame hfound ⊢
    have hlength : chain.length = a.chain.length := by
      have hcongr := congrArg List.length hmap
      rwa [length_map, length_map] at hcongr
    have hsame' : ∀ k, a.latest = some k → ∃ k', some l' = some k' ∧ k ≤ k' ∧
        ∀ i ≤ k, chain[i]? = a.chain[i]? := by
      intro k hk
      rw [hlatest] at hk
      obtain rfl := Option.some.inj hk
      exact ⟨l', rfl, hle, hsame⟩
    have hlt' : ∀ i, some l' = some i → i < chain.length := by
      rintro i ⟨rfl⟩
      rwa [hlength]
    cases found with
    | true =>
      rw [if_pos rfl]
      refine ⟨⟨⟨hlt', by simp, by rw [hmap]; exact h.apart⟩, hsame'⟩, ?_⟩
      intro _
      obtain ⟨c, hc, hbump, hcan⟩ := hfound rfl
      exact ⟨c, by rw [latestChunk, bind_some]; exact hc, hbump, .inl ⟨rfl, hcan⟩⟩
    | false =>
      rw [if_neg Bool.false_ne_true]
      have hspec := createChunk_spec h n hfresh hmap hlt' (by simp) hsame' rfl
      rw [hlatest] at hspec
      exact hspec

/-- An empty chunk. -/
lemma alignPtr_bumpBase (c : BumpChunk) : alignPtr c.bumpBase = c.bumpBase := by
  refine alignPtr_of_dvd (Nat.dvd_add c.aligned.1 (by decide)) ?_
  exact (c.base_le.trans c.le_limit).trans_lt c.limit_lt

/-- After `getOrCreateChunk`, `tryAlloc` succeeds. -/
lemma tryLatest_isSome (h : a.Chained) (hn : n < 2 ^ 64) (hfits : a.Fits n)
    (hfresh : a.Fresh malloc) (hfound : (a.getOrCreateChunk n malloc).1 = true) :
    (a.getOrCreateChunk n malloc).2.Fits n ∧
      ∃ r, (a.getOrCreateChunk n malloc).2.tryLatest n = some r := by
  obtain ⟨hadvances, hspec⟩ := getOrCreateChunk_spec h n hfresh
  obtain ⟨c, hchunk, hbump, hcases⟩ := hspec hfound
  generalize (a.getOrCreateChunk n malloc).2 = a' at hadvances hchunk ⊢
  have halign : alignPtr c.bump = c.bumpBase := by rw [hbump, alignPtr_bumpBase]
  have hlimit := c.limit_lt
  have hfits' : c.Fits n := by
    rw [BumpChunk.Fits, halign, BumpChunk.bumpBase]
    rcases hcases with ⟨hlatest, -⟩ | hroom
    · -- a request that fits the latest chunk is less than all of the memory but a header
      rcases h.latest_cases with ⟨hnone, -⟩ | ⟨i, d, -, -, -, hd⟩
      · rw [hnone] at hlatest
        cases hlatest
      · have hd' := hfits d hd
        have hbase := d.bumpBase_le.2
        have hle := d.align_bump.1
        rw [BumpChunk.bumpBase] at hbase
        omega
    · rw [BumpChunk.bumpBase] at hroom
      omega
  have hroom : alignPtr c.bump + n ≤ c.limit := by
    rcases hcases with ⟨-, hcan⟩ | hroom
    · exact (BumpChunk.canAlloc_iff hfits' hn).1 hcan
    · rwa [halign]
  refine ⟨?_, ?_⟩
  · intro d hd
    rw [hchunk] at hd
    rw [← Option.some.inj hd]
    exact hfits'
  · rcases hadvances.toChained.latest_cases with ⟨-, -, -, hnone⟩ | ⟨i, d, hlatest, hd, -, hchunk'⟩
    · rw [hchunk] at hnone
      cases hnone
    · rw [hchunk] at hchunk'
      obtain rfl := Option.some.inj hchunk'
      obtain ⟨r, hr⟩ := isSome_iff_exists.1 ((BumpChunk.tryAlloc_isSome_iff hfits' hn).2 hroom)
      rw [tryLatest_eq hlatest hd, hr]
      exact ⟨_, rfl⟩

/-- An allocation fails, or there is a new block. -/
lemma alloc_spec (h : a.Sound blocks marks) (hn : n < 2 ^ 64) (hfits : a.Fits n)
    (hfresh : a.Fresh malloc) (oom : Bool) :
    ∃ r a', a.alloc n malloc oom = some (r, a') ∧ (r = none → a'.Sound blocks marks) ∧
      ∀ p, r = some p → a'.Sound (⟨p, n⟩ :: blocks) marks := by
  rw [alloc]
  cases oom with
  | true => exact ⟨none, a, rfl, fun _ => h, nofun⟩
  | false =>
    rw [if_neg Bool.false_ne_true]
    cases htry : a.tryLatest n with
    | some r =>
      refine ⟨some r.1, r.2, rfl, nofun, ?_⟩
      rintro p ⟨rfl⟩
      exact h.tryLatest hn hfits htry
    | none =>
      have hadvances := (getOrCreateChunk_spec h.toChained n hfresh).1
      have htry' := tryLatest_isSome h.toChained hn hfits hfresh
      generalize a.getOrCreateChunk n malloc = s at hadvances htry' ⊢
      obtain ⟨found, a'⟩ := s
      have hsound := h.advance hadvances
      cases found with
      | false => exact ⟨none, a', rfl, fun _ => hsound, nofun⟩
      | true =>
        obtain ⟨hfits', r, hr⟩ := htry' rfl
        refine ⟨some r.1, r.2, ?_, nofun, ?_⟩
        · simp only
          rw [hr, map_some]
        · rintro p ⟨rfl⟩
          exact hsound.tryLatest hn hfits' hr

/-! ## Marks and releases -/

/-- A mark where the allocator is. -/
lemma Sound.mark (h : a.Sound blocks marks) :
    a.Sound blocks (⟨a.mark, a.latest, blocks⟩ :: marks) := by
  refine ⟨h.toChained, h.aligned, h.disjoint, h.stacked.inPlace, suffix_refl _, ?_, ?_⟩
  · rcases h.latest_cases with ⟨hlatest, -, -, hchunk⟩ | ⟨i, c, hlatest, hc, hposition, hchunk⟩
    · refine .inl ⟨hlatest, ?_⟩
      simp only [LifoAlloc.mark, hchunk]
    · refine .inr ⟨_, i, hlatest, hposition, c, hc, ?_, ?_, .inr ⟨rfl, ?_⟩⟩
      · simp only [LifoAlloc.mark, hchunk]
        exact c.base_le
      · simp only [LifoAlloc.mark, hchunk]
        exact c.le_limit
      · simp only [LifoAlloc.mark, hchunk]
        exact Nat.le_refl _
  · have hposition : LifoMark.position ⟨a.mark, a.latest, blocks⟩ = a.position := by
      rcases h.latest_cases with ⟨hlatest, -, hposition, -⟩ | ⟨i, c, hlatest, -, hposition, hchunk⟩
      · rw [hposition, LifoMark.position, hlatest, map_none]
      · rw [hposition, LifoMark.position, hlatest, map_some]
        simp only [LifoAlloc.mark, hchunk]
    rw [hposition]
    exact h.stacked

lemma findContainer_eq {mark i k l : ℕ} {c : BumpChunk} (hc : chain[i]? = some c)
    (hcontains : c.contains mark = true)
    (hother : ∀ j < i, ∀ d, chain[j]? = some d → d.contains mark = false) (hi : i ≤ l) :
    findContainer mark (some (k + l)) chain k = some (k + i) := by
  induction chain generalizing i k l with
  | nil => cases hc
  | cons d rest ih =>
    rw [findContainer]
    cases i with
    | zero =>
      obtain rfl := Option.some.inj hc
      exact if_pos hcontains
    | succ i =>
      have hd := hother 0 (Nat.succ_pos i) d rfl
      rw [if_neg (by rw [hd]; exact Bool.false_ne_true)]
      obtain ⟨l, rfl⟩ : ∃ m, l = m + 1 := ⟨l - 1, by omega⟩
      have hne : ¬some (k + (l + 1)) = some k := by
        intro heq
        have := Option.some.inj heq
        omega
      rw [if_neg hne, show k + (l + 1) = k + 1 + l by omega, show k + (i + 1) = k + 1 + i by omega]
      refine ih hc ?_ (Nat.le_of_succ_le_succ hi)
      intro j hj e he
      exact hother (j + 1) (Nat.succ_lt_succ hj) e he

/-- A release finds the chunk of the mark, and keeps the blocks from before it. -/
lemma release_spec {m : LifoMark} (h : a.Sound blocks (m :: marks)) :
    ∃ a', a.release m.mark = some a' ∧ a'.Sound m.blocks marks ∧
      (∀ i, m.latest = some i → a'.latest = some i ∧ a'.mark = m.mark) ∧
      (m.latest = none → m.blocks = []) := by
  obtain ⟨-, hsuffix, hmark, hrest⟩ := h.stacked
  have haligned : ∀ b ∈ m.blocks, 8 ∣ b.address := fun b hb => h.aligned b (hsuffix.subset hb)
  have hdisjoint := h.disjoint.sublist hsuffix.sublist
  rcases hmark with ⟨hlatest, hzero⟩ | ⟨pos, i, hlatest, hpos, c, hc, hbase, hlimit, hunder⟩
  · have hnone : m.position = none := by rw [LifoMark.position, hlatest, map_none]
    rw [hnone] at hrest
    have hempty : m.blocks = [] := by
      refine eq_nil_iff_forall_not_mem.2 ?_
      intro b hb
      obtain ⟨p, i, hp, -⟩ := hrest.inPlace b hb
      cases hp
    have hlatest' : ∀ i, m.latest = some i → False := by
      intro i hi
      rw [hlatest] at hi
      cases hi
    rw [release, if_pos hzero]
    cases hchain : a.chain with
    | nil =>
      refine ⟨{ a with chain := [], latest := none }, ?_, ?_, fun i hi => (hlatest' i hi).elim,
        fun _ => hempty⟩
      · rfl
      · refine ⟨⟨nofun, fun _ => rfl, .nil⟩, haligned, hdisjoint, ?_⟩
        rw [hchain] at hrest
        exact hrest
    | cons d rest =>
      refine ⟨{ a with chain := d.resetBump :: rest, latest := some 0 }, rfl, ?_,
        fun i hi => (hlatest' i hi).elim, fun _ => hempty⟩
      have hd : a.chain[0]? = some d := by rw [hchain]; rfl
      have hset : d.resetBump :: rest = a.chain.set 0 d.resetBump := by rw [hchain]; rfl
      rw [hset]
      refine ⟨h.toChained.set hd rfl, haligned, hdisjoint, ?_⟩
      refine (hrest.congr (sameUpTo_set hd (show d.resetBump.extent = d.extent from rfl)) ?_).mono ?_
      · rintro p ⟨⟩
      · rintro p i b ⟨⟩
  · -- no other chunk has the mark, as there is a header before what a chunk contains
    have hcontains : c.contains m.mark = true := decide_eq_true ⟨hbase, hlimit⟩
    have hother : ∀ j < i, ∀ d, a.chain[j]? = some d → d.contains m.mark = false := by
      intro j hj d hd
      rw [BumpChunk.contains, decide_eq_false_iff_not]
      rintro ⟨hdbase, hdlimit⟩
      have hclt := c.bumpBase_le.1
      have hdlt := d.bumpBase_le.1
      simp only at hbase hlimit
      rcases h.apart_getElem hd hc hj.ne with hle | hle
      · simp only [BumpChunk.extent] at hle
        omega
      · simp only [BumpChunk.extent] at hle
        omega
    rcases h.latest_cases with ⟨-, -, hnone, -⟩ | ⟨l, e, hl, he, hposition, -⟩
    · rw [hnone] at hpos
      cases hpos
    rw [hposition] at hpos
    obtain rfl := Option.some.inj hpos
    have hil : i ≤ l := by
      rcases hunder with ⟨hlt, -⟩ | ⟨heq, -⟩
      · exact hlt.le
      · exact heq.le
    have hbump : m.mark ≤ c.bump := by
      rcases hunder with ⟨-, hle⟩ | ⟨rfl, hle⟩
      · exact hle
      · rw [hc] at he
        rw [Option.some.inj he]
        exact hle
    have hne : m.mark ≠ 0 := by
      have hpos := c.pos
      have hlt := c.bumpBase_le.1
      simp only at hbase
      omega
    have hfind := findContainer_eq (k := 0) hc hcontains hother hil
    rw [Nat.zero_add, Nat.zero_add] at hfind
    have hrelease : c.release m.mark = some (c.setBump m.mark ⟨hbase, hlimit⟩) :=
      dif_pos ⟨⟨hbase, hlimit⟩, hbump⟩
    have hself : (a.chain.set i (c.setBump m.mark ⟨hbase, hlimit⟩))[i]? =
        some (c.setBump m.mark ⟨hbase, hlimit⟩) :=
      List.getElem?_set_self (List.getElem?_eq_some_iff.1 hc).1
    refine ⟨{ a with chain := a.chain.set i (c.setBump m.mark ⟨hbase, hlimit⟩), latest := some i },
      ?_, ?_, ?_, ?_⟩
    · rw [release, if_neg hne, hl, hfind]
      simp only [bind_eq_bind, bind_some, hc, hrelease]
    · refine ⟨h.toChained.set hc rfl, haligned, hdisjoint, ?_⟩
      have hposition' : m.position = some (i, m.mark) := by
        rw [LifoMark.position, hlatest, map_some]
      rw [hposition'] at hrest
      rw [position_set hc]
      have hextent : (c.setBump m.mark ⟨hbase, hlimit⟩).extent = c.extent := rfl
      refine hrest.congr (sameUpTo_set hc hextent) ?_
      rintro q ⟨rfl⟩
      exact Nat.le_refl _
    · intro j hj
      rw [hlatest] at hj
      refine ⟨hj, ?_⟩
      simp only [LifoAlloc.mark, latestChunk, bind_some, hself]
      rfl
    · intro hnone
      rw [hlatest] at hnone
      cases hnone

/-- Making sure that there is room leaves the blocks where they are. -/
lemma ensure_spec (h : a.Sound blocks marks) (n : ℕ) (hfresh : a.Fresh malloc) :
    ∃ r, a.ensureUnusedApproximate n malloc = some r ∧ r.2.Sound blocks marks := by
  rw [ensureUnusedApproximate]
  simp only
  split_ifs
  · exact ⟨(true, a), rfl, h⟩
  · have hadvances := (getOrCreateChunk_spec h.toChained n hfresh).1
    obtain ⟨a', hrelease, hsound, -⟩ := release_spec (h.mark.advance hadvances)
    rw [hrelease]
    exact ⟨(_, a'), rfl, hsound⟩

end LifoAlloc

/-! ## Runs -/

open LifoAlloc

lemma LifoRuns.sound {a : LifoAlloc} {blocks : List LifoBlock} {marks : List LifoMark}
    (h : LifoRuns Fits a blocks marks) : a.Sound blocks marks := by
  induction h with
  | new defaultChunkSize =>
    exact ⟨⟨nofun, fun _ => rfl, .nil⟩, nofun, .nil, nofun⟩
  | @alloc a a' blocks marks n p malloc oom _ hn hok hfresh halloc ih =>
    obtain ⟨r, a'', halloc', -, hsome⟩ := alloc_spec ih hn hok hfresh oom
    obtain ⟨rfl, rfl⟩ := Prod.mk.injEq .. ▸ Option.some.inj (halloc.symm.trans halloc')
    exact hsome p rfl
  | @allocFails a a' blocks marks n malloc oom _ hn hok hfresh halloc ih =>
    obtain ⟨r, a'', halloc', hnone, -⟩ := alloc_spec ih hn hok hfresh oom
    obtain ⟨rfl, rfl⟩ := Prod.mk.injEq .. ▸ Option.some.inj (halloc.symm.trans halloc')
    exact hnone rfl
  | @ensure a a' blocks marks n malloc found _ _ hfresh hensure ih =>
    obtain ⟨r, hensure', hsound⟩ := ensure_spec ih n hfresh
    obtain rfl := Option.some.inj (hensure.symm.trans hensure')
    exact hsound
  | mark _ ih => exact ih.mark
  | @release a a' blocks m marks _ hrelease ih =>
    obtain ⟨a'', hrelease', hsound, -⟩ := release_spec ih
    obtain rfl := Option.some.inj (hrelease.symm.trans hrelease')
    exact hsound

/-- A block is 8-aligned and inside a chunk. -/
def LifoAlloc.Holds (a : LifoAlloc) (b : LifoBlock) : Prop :=
  8 ∣ b.address ∧ ∃ c ∈ a.chain, c.bumpBase ≤ b.address ∧ b.address + b.size ≤ c.limit

/-- In every run whose requests fit: the blocks are apart and inside chunks, a release goes back to
the chunk and to the place where its mark was taken, `latest` is a chunk of the chain, and after
`getOrCreateChunk` the allocation succeeds. The two tests of a chunk agree, with the block inside of
it, exactly for the requests that fit. -/
theorem lifoAlloc_exact {a : LifoAlloc} {blocks : List LifoBlock} {marks : List LifoMark}
    (h : LifoRuns Fits a blocks marks) :
    (∀ b ∈ blocks, a.Holds b) ∧ blocks.Pairwise DisjointBlocks ∧
    (∀ m rest, marks = m :: rest → ∃ a', a.release m.mark = some a' ∧ m.blocks <:+ blocks ∧
      (∀ i, m.latest = some i → a'.latest = some i ∧ a'.mark = m.mark) ∧
      (m.latest = none → m.blocks = [])) ∧
    (a.chain ≠ [] → ∃ i < a.chain.length, a.latest = some i) ∧
    (∀ c ∈ a.chain, ∀ n < 2 ^ 64, ((c.canAlloc n = true ↔ (c.tryAlloc n).isSome) ∧
      ∀ p c', c.tryAlloc n = some (p, c') → p + n ≤ c.limit) ↔ c.Fits n) ∧
    ∀ n < 2 ^ 64, a.Fits n → ∀ malloc, a.Fresh malloc → (a.getOrCreateChunk n malloc).1 = true →
      ((a.getOrCreateChunk n malloc).2.tryLatest n).isSome := by
  have hsound := h.sound
  refine ⟨?_, hsound.disjoint, ?_, ?_, ?_, ?_⟩
  · intro b hb
    obtain ⟨p, i, -, c, hc, hbase, hlimit, -⟩ := hsound.stacked.inPlace b hb
    exact ⟨hsound.aligned b hb, c, mem_of_getElem? hc, hbase, hlimit⟩
  · rintro m rest rfl
    obtain ⟨a', hrelease, -, hback, hempty⟩ := release_spec hsound
    exact ⟨a', hrelease, hsound.stacked.2.1, hback, hempty⟩
  · intro hne
    rcases hsound.latest_cases with ⟨-, hnil, -⟩ | ⟨i, c, hlatest, -⟩
    · exact absurd hnil hne
    · exact ⟨i, hsound.latest_lt i hlatest, hlatest⟩
  · exact fun c _ n hn => c.fits_iff hn
  · intro n hn hfits malloc hfresh hfound
    obtain ⟨-, r, hr⟩ := tryLatest_isSome hsound.toChained hn hfits hfresh hfound
    rw [hr]
    rfl

/-- A chunk of memory at 4096. -/
def memoryAt4096 : Malloc := fun size =>
  if h : 4096 + size.1 < 2 ^ 64 then some ⟨4096, by decide, by decide, h⟩ else none

def chunkSize4096 : ChunkSize := ⟨4096, by decide⟩

lemma fresh_new (malloc : Malloc) (size : ChunkSize) : (LifoAlloc.new size).Fresh malloc :=
  fun _ _ _ _ hc => absurd hc not_mem_nil

/-- A request of all but one byte of the memory, after five bytes, gets a block in a chunk of 4096. -/
theorem alloc_wraps : ¬∀ a blocks marks, LifoRuns (fun _ _ => True) a blocks marks →
    ∀ b ∈ blocks, a.Holds b := by
  intro hclaim
  have h₁ : LifoRuns (fun _ _ => True) _ [⟨4128, 5⟩] [] :=
    .alloc (.new chunkSize4096) (by decide) trivial (fresh_new _ _)
      (show (LifoAlloc.new _).alloc _ memoryAt4096 false = _ from rfl)
  have h₂ := h₁.alloc (by decide) trivial (by rintro size mem ⟨⟩)
    (show LifoAlloc.alloc _ (2 ^ 64 - 1) (fun _ => none) false = some (some 4136, _) from rfl)
  obtain ⟨-, c, -, -, hend⟩ := hclaim _ _ _ h₂ _ mem_cons_self
  have hlimit := c.limit_lt
  simp only at hend
  omega

/-- A block after a mark. -/
theorem lifoAlloc_exact_mark : ∃ a blocks marks, LifoRuns Fits a blocks marks ∧
    blocks = [⟨4136, 3⟩, ⟨4128, 5⟩] ∧ (∀ b ∈ blocks, a.Holds b) ∧ blocks.Pairwise DisjointBlocks := by
  have h₁ : LifoRuns Fits _ [⟨4128, 5⟩] [] :=
    .alloc (.new chunkSize4096) (by decide) nofun (fresh_new _ _)
      (show (LifoAlloc.new _).alloc _ memoryAt4096 false = _ from rfl)
  have h₂ := h₁.mark.alloc (by decide) (by rintro _ ⟨rfl⟩; decide) (by rintro size mem ⟨⟩)
    (show LifoAlloc.alloc _ 3 (fun _ => none) false = some (some 4136, _) from rfl)
  exact ⟨_, _, _, h₂, rfl, (lifoAlloc_exact h₂).1, (lifoAlloc_exact h₂).2.1⟩

end SpiderMonkey.Ds
