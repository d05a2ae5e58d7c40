import SpiderMonkey.Ion.ConstantPools

/-! # The pools that a branch crosses -/

namespace SpiderMonkey.Ion.ConstantPools

open Insertions List Option

variable {P : BufferParams} {Inst : Type}

/-- How many pools are before an offset. -/
abbrev poolCount (table : List PoolInfo) (o : ℤ) : ℕ := count PoolInfo.offset table o

/-- The size of the first pools. -/
abbrev poolTotal (table : List PoolInfo) (n : ℕ) : ℤ := total PoolInfo.size table n

abbrev poolPosition (table : List PoolInfo) (o : ℤ) : ℤ :=
  position PoolInfo.offset PoolInfo.size table o

abbrev InOrder (table : List PoolInfo) : Prop := Increasing PoolInfo.offset table

/-- The table with the memory behind it. -/
def tableWith (table : List PoolInfo) (beyond : ℕ → PoolInfo) : ℕ → PoolInfo :=
  fun i => table[i]?.getD (beyond i)

section Scans

variable {table : List PoolInfo} (beyond : ℕ → PoolInfo) {destOffset : ℤ}

lemma scanForward_spec (h : InOrder table) : ∀ (rest : ℕ) {curpool : ℕ} (offset : ℤ),
    curpool + rest = table.length → curpool ≤ poolCount table destOffset →
    scanForward (tableWith table beyond) destOffset rest curpool offset =
      (offset + (poolTotal table (poolCount table destOffset) - poolTotal table curpool),
        List.range' curpool (poolCount table destOffset + 1 - curpool)) := by
  intro rest
  induction rest with
  | zero =>
    intro curpool offset hlength hle
    obtain rfl : curpool = poolCount table destOffset :=
      Nat.le_antisymm hle ((count_le_length _).trans_eq hlength.symm)
    rw [scanForward, sub_self, add_zero, Nat.add_sub_cancel_left]
    rfl
  | succ rest ih =>
    intro curpool offset hlength hle
    have hlt : curpool < table.length := by omega
    have hentry : table[curpool]? = some table[curpool] := List.getElem?_eq_getElem hlt
    have hread : tableWith table beyond curpool = table[curpool] := by
      rw [tableWith, hentry, Option.getD_some]
    rw [scanForward, hread]
    by_cases hcross : table[curpool].offset ≤ destOffset
    · have hnext : curpool + 1 ≤ poolCount table destOffset := (lt_count_iff h hentry).2 hcross
      rw [if_pos hcross, ih _ (by omega) hnext, poolTotal, poolTotal, poolTotal, total_succ hentry]
      refine Prod.ext ?_ ?_
      · show _ = _
        ring
      · rw [Nat.add_sub_add_right, Nat.succ_sub hle, range'_succ]
    · obtain rfl : curpool = poolCount table destOffset :=
        hle.antisymm (Nat.le_of_not_lt fun hlt => hcross ((lt_count_iff h hentry).1 hlt))
      rw [if_neg hcross, sub_self, add_zero, Nat.add_sub_cancel_left]
      rfl

lemma scanBackward_spec (h : InOrder table) : ∀ {curpool : ℕ} (offset : ℤ),
    curpool ≤ table.length → poolCount table destOffset ≤ curpool →
    (scanBackward (tableWith table beyond) destOffset curpool offset).1 =
        offset - (poolTotal table curpool - poolTotal table (poolCount table destOffset)) ∧
      ∀ r ∈ (scanBackward (tableWith table beyond) destOffset curpool offset).2, r < curpool := by
  intro curpool
  induction curpool with
  | zero =>
    intro offset _ hle
    rw [Nat.le_zero.1 hle, sub_self, sub_zero]
    exact ⟨rfl, nofun⟩
  | succ curpool ih =>
    intro offset hlt hle
    have hentry : table[curpool]? = some table[curpool] := List.getElem?_eq_getElem hlt
    have hread : tableWith table beyond curpool = table[curpool] := by
      rw [tableWith, hentry, Option.getD_some]
    rw [scanBackward, hread]
    by_cases hcross : destOffset < table[curpool].offset
    · have hle' : poolCount table destOffset ≤ curpool :=
        Nat.le_of_not_lt fun hlt => hcross.not_ge ((lt_count_iff h hentry).1 hlt)
      obtain ⟨hoffset, hreads⟩ := ih (offset - table[curpool].size) (by omega) hle'
      rw [if_pos hcross]
      refine ⟨?_, ?_⟩
      · rw [hoffset, poolTotal, poolTotal, poolTotal, total_succ hentry]
        ring
      · intro r hr
        rcases mem_cons.1 hr with rfl | hr
        · exact Nat.lt_succ_self _
        · exact (hreads r hr).trans (Nat.lt_succ_self _)
    · have heq : poolCount table destOffset = curpool + 1 :=
        hle.antisymm ((lt_count_iff h hentry).2 (le_of_not_gt hcross))
      rw [if_neg hcross, heq, sub_self, sub_zero]
      refine ⟨rfl, ?_⟩
      intro r hr
      rw [mem_singleton.1 hr]
      exact Nat.lt_succ_self _

/-- There is a pool behind an offset. -/
lemma poolCount_lt_length_iff (h : InOrder table) {o : ℤ} :
    poolCount table o < table.length ↔ ∃ info, table.getLast? = some info ∧ o < info.offset := by
  cases hlast : table.getLast? with
  | none =>
    rw [List.getLast?_eq_none_iff.1 hlast]
    exact iff_of_false (Nat.not_lt_zero _) (by rintro ⟨_, ⟨⟩, _⟩)
  | some info =>
    have hne : table ≠ [] := by
      rintro rfl
      cases hlast
    have hpos := length_pos_of_ne_nil hne
    rw [List.getLast?_eq_getElem?] at hlast
    have hcount : table.length - 1 < poolCount table o ↔ info.offset ≤ o := lt_count_iff h hlast
    have hle : poolCount table o ≤ table.length := count_le_length o
    constructor
    · intro hlt
      refine ⟨info, rfl, lt_of_not_ge fun hge => ?_⟩
      have := hcount.2 hge
      omega
    · rintro ⟨_, ⟨rfl⟩, hlt⟩
      have hnot : ¬table.length - 1 < poolCount table o := fun hin => hlt.not_ge (hcount.1 hin)
      omega

/-- A patched branch leads to where its target goes; the table is left where no pool is behind the
target of a branch forward. -/
lemma patchBranch_spec (asm : Asm Inst) (h : InOrder table) {i i' : Inst} {o : ℤ}
    {reads : List ℕ}
    (hpatch : patchBranch asm (tableWith table beyond) table.length i (poolCount table o) o =
      some (i', reads)) :
    poolPosition table o + asm.getBranchOffset i' = poolPosition table (o + asm.getBranchOffset i) ∧
      ((∀ r ∈ reads, r < table.length) ↔ (0 < asm.getBranchOffset i →
        ∃ info, table.getLast? = some info ∧ o + asm.getBranchOffset i < info.offset)) := by
  rw [patchBranch] at hpatch
  generalize hd : asm.getBranchOffset i = d at hpatch ⊢
  rw [← poolCount_lt_length_iff h, poolPosition, poolPosition, position, position]
  rcases lt_trichotomy d 0 with hneg | rfl | hpos
  · have hle : poolCount table (o + d) ≤ poolCount table o := count_mono (by omega)
    obtain ⟨hoffset, hreads⟩ :=
      scanBackward_spec beyond h d (count_le_length o) hle
    simp only [if_neg hneg.ne, if_neg hneg.not_gt] at hpatch
    obtain ⟨_, hretarget, hresult⟩ := map_eq_some_iff.1 hpatch
    obtain ⟨rfl, rfl⟩ := Prod.mk.inj hresult
    rw [asm.getBranchOffset_retarget hretarget, hoffset]
    refine ⟨by simp only [poolTotal, poolCount]; ring, ?_⟩
    exact iff_of_true (fun r hr => (hreads r hr).trans_le (count_le_length o))
      fun hpos => absurd hpos hneg.not_gt
  · rw [if_pos rfl] at hpatch
    cases hpatch
    rw [hd, add_zero, add_zero]
    exact ⟨rfl, iff_of_true (by simp) fun h => absurd h (lt_irrefl 0)⟩
  · have hle : poolCount table o ≤ poolCount table (o + d) := count_mono (by omega)
    have hscan := scanForward_spec beyond h (table.length - poolCount table o) d
      (Nat.add_sub_of_le (count_le_length o)) hle
    simp only [if_neg hpos.ne', if_pos hpos, hscan] at hpatch
    obtain ⟨_, hretarget, hresult⟩ := map_eq_some_iff.1 hpatch
    obtain ⟨rfl, rfl⟩ := Prod.mk.inj hresult
    rw [asm.getBranchOffset_retarget hretarget]
    refine ⟨by simp only [poolTotal, poolCount]; ring, ?_⟩
    constructor
    · intro hreads _
      exact hreads _ (mem_range'_1.2 ⟨hle, by omega⟩)
    · intro hbound r hr
      have hr' := (mem_range'_1.1 hr).2
      have := hbound hpos
      omega

end Scans

/-! ### The table of a list of slices -/

section Table

/-- The entries for the pools of slices, behind a pool and an offset. -/
def infos : PoolInfo → ℤ → List (BufferSlice P Inst) → List PoolInfo
  | _, _, [] => []
  | prev, off, s :: rest =>
    match s.data with
    | none => infos prev (off + s.size) rest
    | some data =>
      prev.next (off + s.size) data :: infos (prev.next (off + s.size) data) (off + s.size) rest

/-- The bytes of the instructions. -/
def codeSize (slices : List (BufferSlice P Inst)) : ℤ := (slices.map BufferSlice.size).sum

lemma size_nonneg (s : BufferSlice P Inst) : 0 ≤ s.size :=
  Int.mul_nonneg (Int.natCast_nonneg _) (Int.natCast_nonneg _)

lemma codeSize_cons (s : BufferSlice P Inst) (rest : List (BufferSlice P Inst)) :
    codeSize (s :: rest) = s.size + codeSize rest := rfl

lemma codeSize_singleton (s : BufferSlice P Inst) : codeSize [s] = s.size := add_zero _

lemma codeSize_append (first last : List (BufferSlice P Inst)) :
    codeSize (first ++ last) = codeSize first + codeSize last := by
  rw [codeSize, map_append, sum_append]
  rfl

lemma codeSize_nonneg (slices : List (BufferSlice P Inst)) : 0 ≤ codeSize slices := by
  induction slices with
  | nil => exact le_refl _
  | cons s rest ih => exact Int.add_nonneg (size_nonneg s) ih

lemma offset_mem_infos : ∀ {slices : List (BufferSlice P Inst)} {prev : PoolInfo} {off : ℤ},
    ∀ info ∈ infos prev off slices, off ≤ info.offset ∧ info.offset ≤ off + codeSize slices := by
  intro slices
  induction slices with
  | nil => nofun
  | cons s rest ih =>
    intro prev off info hinfo
    have hs := size_nonneg s
    have hrest := codeSize_nonneg rest
    rw [codeSize_cons]
    have hlater : ∀ prev', info ∈ infos prev' (off + s.size) rest →
        off ≤ info.offset ∧ info.offset ≤ off + (s.size + codeSize rest) := by
      intro prev' hmem
      have := ih info hmem
      omega
    rw [infos] at hinfo
    split at hinfo
    · exact hlater _ hinfo
    · rcases mem_cons.1 hinfo with rfl | hinfo
      · rw [PoolInfo.next]
        exact ⟨by simp only; omega, by simp only; omega⟩
      · exact hlater _ hinfo

variable {prev : PoolInfo} {off : ℤ}

/-- The pools of slices are behind the first of them. -/
lemma le_offset_of_mem_infos {s : BufferSlice P Inst} {rest : List (BufferSlice P Inst)}
    {info : PoolInfo} (h : info ∈ infos prev off (s :: rest)) : off + s.size ≤ info.offset := by
  rw [infos] at h
  split at h
  · exact (offset_mem_infos info h).1
  · rcases mem_cons.1 h with rfl | h
    · exact le_refl _
    · exact (offset_mem_infos info h).1

lemma inOrder_infos : ∀ {slices : List (BufferSlice P Inst)} {prev : PoolInfo} {off : ℤ},
    InOrder (infos prev off slices) := by
  intro slices
  induction slices with
  | nil => exact fun {_ _} => List.Pairwise.nil
  | cons s rest ih =>
    intro prev off
    rw [infos]
    split
    · exact ih
    · exact pairwise_cons.2 ⟨fun info hinfo => (offset_mem_infos info hinfo).1, ih⟩

/-- The bytes of the pools up to one. -/
lemma PoolInfo.next_extent (prev : PoolInfo) (perfOffset : ℤ) (pools : Pools P) :
    (prev.next perfOffset pools).finalPos - (prev.next perfOffset pools).offset =
      prev.finalPos - prev.offset + (prev.next perfOffset pools).size := by
  simp only [PoolInfo.next]
  ring

lemma extent_infos : ∀ {slices : List (BufferSlice P Inst)} {prev : PoolInfo} {off : ℤ} {n : ℕ}
    {info : PoolInfo}, (infos prev off slices)[n]? = some info →
    info.finalPos - info.offset =
      prev.finalPos - prev.offset + poolTotal (infos prev off slices) (n + 1) := by
  intro slices
  induction slices with
  | nil => nofun
  | cons s rest ih =>
    intro prev off n info hinfo
    rw [infos] at hinfo ⊢
    split at hinfo
    · exact ih hinfo
    · cases n with
      | zero =>
        cases hinfo
        rw [PoolInfo.next_extent, poolTotal, total, take_succ_cons]
        simp
      | succ n =>
        have := ih hinfo
        rw [this, PoolInfo.next_extent, poolTotal, poolTotal, total, total, take_succ_cons,
          map_cons, sum_cons]
        ring

lemma infos_append : ∀ {first last : List (BufferSlice P Inst)} {prev : PoolInfo} {off : ℤ},
    infos prev off (first ++ last) = infos prev off first ++
      infos ((infos prev off first).getLast?.getD prev) (off + codeSize first) last := by
  intro first
  induction first with
  | nil =>
    intro last prev off
    rw [nil_append, infos, codeSize]
    simp
  | cons s rest ih =>
    intro last prev off
    rw [cons_append, infos, infos, codeSize_cons, ← add_assoc]
    split
    · exact ih
    · rw [ih, cons_append, List.getLast?_cons, Option.getD_some]

lemma infos_of_data_none {slices : List (BufferSlice P Inst)}
    (h : ∀ s ∈ slices, s.data = none) : infos prev off slices = [] := by
  induction slices generalizing prev off with
  | nil => rfl
  | cons s rest ih =>
    obtain ⟨hs, hrest⟩ := forall_mem_cons.1 h
    rw [infos, hs]
    exact ih hrest

end Table

/-! ### The buffers that are built -/

/-- The table is that of the slices. The slice of a perforation and those behind it have no pools
yet, nor has the last slice. -/
structure Built (b : AssemblerBuffer P Inst) : Prop where
  poolInfo_eq : b.poolInfo = infos .nil 0 b.slices
  perforation : ∀ node off, b.perforation = some (node, off) → node + 1 < b.slices.length ∧
    off = codeSize (b.slices.take (node + 1)) ∧ ∀ s ∈ b.slices.drop node, s.data = none
  tail : ∀ s, b.slices.getLast? = some s → s.data = none
  nonempty : ∀ s ∈ b.slices, ∀ data, s.data = some data → data.isEmpty = false

section Built

variable {b : AssemblerBuffer P Inst} {init ts : List (BufferSlice P Inst)}

lemma modify_length_append (init : List (BufferSlice P Inst)) (s : BufferSlice P Inst)
    (rest : List (BufferSlice P Inst)) (f : BufferSlice P Inst → BufferSlice P Inst) :
    (init ++ s :: rest).modify init.length f = init ++ f s :: rest := by
  induction init with
  | nil => rfl
  | cons t init ih => exact congrArg (t :: ·) ih

/-- The last slice is written, or one is added. -/
lemma Built.withTail {tail : BufferSlice P Inst} (h : Built b) (hslices : b.slices = init ++ ts)
    (hlength : ts.length ≤ 1) (hts : ∀ s ∈ ts, s.data = none) (htail : tail.data = none) :
    Built { b with slices := init ++ [tail] } := by
  have hone : ∀ s ∈ [tail], s.data = none := by
    intro s hs
    rw [mem_singleton.1 hs, htail]
  refine ⟨?_, ?_, ?_, ?_⟩
  · rw [h.poolInfo_eq, hslices, infos_append, infos_append, infos_of_data_none hts,
      infos_of_data_none hone]
  · intro node off hperforation
    obtain ⟨hlt, hoff, hnone⟩ := h.perforation node off hperforation
    rw [hslices, length_append] at hlt
    have hnode : node + 1 ≤ init.length := by omega
    rw [hslices, take_append_of_le_length hnode] at hoff
    rw [hslices, drop_append_of_le_length (Nat.le_of_succ_le hnode)] at hnone
    refine ⟨?_, ?_, ?_⟩
    · rw [length_append, length_singleton]
      omega
    · rw [take_append_of_le_length hnode]
      exact hoff
    · rw [drop_append_of_le_length (Nat.le_of_succ_le hnode)]
      intro s hs
      rcases mem_append.1 hs with hs | hs
      · exact hnone s (mem_append_left _ hs)
      · exact hone s hs
  · intro s hs
    rw [List.getLast?_append, List.getLast?_singleton, some_or] at hs
    cases hs
    exact htail
  · intro s hs data hdata
    rcases mem_append.1 hs with hs | hs
    · exact h.nonempty s (hslices ▸ mem_append_left _ hs) data hdata
    · rw [hone s hs] at hdata
      cases hdata

lemma Built.addSlice (h : Built b) : Built { b with slices := b.slices ++ [.new] } :=
  h.withTail (append_nil _).symm (Nat.zero_le 1) nofun rfl

lemma Built.ensureSpace (h : Built b) : Built b.ensureSpace ∧ b.ensureSpace.slices ≠ [] := by
  rw [AssemblerBuffer.ensureSpace]
  cases htail : b.slices.getLast? with
  | none =>
    have hnil := List.getLast?_eq_none_iff.1 htail
    have hadd := h.addSlice
    rw [hnil] at hadd
    exact ⟨hadd, cons_ne_nil _ _⟩
  | some tail =>
    simp only
    split
    · refine ⟨h, ?_⟩
      intro hnil
      rw [hnil] at htail
      cases htail
    · exact ⟨h.addSlice, append_ne_nil_of_right_ne_nil _ (cons_ne_nil _ _)⟩

lemma Built.exists_tail (h : Built b) (hne : b.slices ≠ []) : ∃ init tail,
    b.slices = init ++ [tail] ∧ tail.data = none ∧
      ∀ f, b.slices.modify (b.slices.length - 1) f = init ++ [f tail] := by
  have hsplit := (dropLast_append_getLast hne).symm
  refine ⟨_, _, hsplit, h.tail _ (List.getLast?_eq_some_getLast hne), ?_⟩
  intro f
  have hlength : b.slices.length - 1 = b.slices.dropLast.length := length_dropLast.symm
  rw [hlength]
  conv_lhs => rw [hsplit]
  rw [dropLast_concat]
  exact modify_length_append _ _ [] f

lemma Built.modifyTail (h : Built b) (hne : b.slices ≠ [])
    {f : BufferSlice P Inst → BufferSlice P Inst} (hf : ∀ s, (f s).data = s.data) :
    Built (b.modifyTail f) := by
  obtain ⟨init, tail, hslices, htail, hmodify⟩ := h.exists_tail hne
  rw [AssemblerBuffer.modifyTail, hmodify]
  refine h.withTail hslices (Nat.le_refl 1) ?_ ((hf tail).trans htail)
  intro s hs
  rw [mem_singleton.1 hs, htail]

lemma Built.perforate (h : Built b) {isNatural : Bool} {b' : AssemblerBuffer P Inst}
    (hperforate : b.perforate isNatural = some b') : Built b' := by
  rw [AssemblerBuffer.perforate] at hperforate
  split at hperforate
  · cases hperforate
  · rename_i hne
    cases hperforate
    obtain ⟨init, tail, hslices, htail, hmodify⟩ := h.exists_tail hne
    have hmodified := h.modifyTail hne (f := fun s => { s with isNatural := isNatural }) fun _ => rfl
    rw [AssemblerBuffer.modifyTail, hmodify] at hmodified
    rw [hmodify, AssemblerBuffer.nextOffset, hslices, length_append, length_singleton,
      Nat.add_sub_cancel]
    have hadded := hmodified.addSlice
    refine ⟨hadded.poolInfo_eq, ?_, hadded.tail, hadded.nonempty⟩
    rintro node off ⟨⟩
    refine ⟨?_, ?_, ?_⟩
    · simp
    · have htake : ∀ s, ((init ++ [s]) ++ [(BufferSlice.new : BufferSlice P Inst)]).take
          (init.length + 1) = init ++ [s] := fun s => by
        rw [take_append_of_le_length (by simp), take_of_length_le (by simp)]
      rw [htake, codeSize_append]
      exact codeSize_append init [tail]
    · rw [append_assoc, drop_left]
      intro s hs
      rcases mem_cons.1 hs with rfl | hs
      · exact htail
      · rw [mem_singleton.1 hs]
        rfl

lemma Built.finishPool (h : Built b) {pools : Pools P} {b' : AssemblerBuffer P Inst}
    (hfinish : b.finishPool pools = some b') : Built b' := by
  rw [AssemblerBuffer.finishPool] at hfinish
  split at hfinish
  · cases hfinish
    exact ⟨h.poolInfo_eq, nofun, h.tail, h.nonempty⟩
  · rename_i hsize
    obtain ⟨⟨node, off⟩, hperforation, hb'⟩ := bind_eq_some_iff.1 hfinish
    cases hb'
    obtain ⟨hlt, hoff, hnone⟩ := h.perforation node off hperforation
    have hnode : node < b.slices.length := Nat.lt_of_succ_lt hlt
    generalize hs : b.slices[node] = s
    have hdrop : b.slices.drop node = s :: b.slices.drop (node + 1) := by
      rw [drop_eq_getElem_cons hnode, hs]
    have hsplit : b.slices = b.slices.take node ++ s :: b.slices.drop (node + 1) := by
      rw [← hdrop, take_append_drop]
    have htake : b.slices.take (node + 1) = b.slices.take node ++ [s] := by
      rw [take_add_one, List.getElem?_eq_getElem hnode, hs]
      rfl
    have hlength : (b.slices.take node).length = node := length_take_of_le hnode.le
    rw [hdrop] at hnone
    obtain ⟨hsnone, hrest⟩ := forall_mem_cons.1 hnone
    rw [htake, codeSize_append, codeSize_singleton] at hoff
    have hmodify : b.slices.modify node (fun s => { s with data := some pools }) =
        b.slices.take node ++ { s with data := some pools } :: b.slices.drop (node + 1) := by
      conv_lhs => rw [hsplit]
      have := modify_length_append (b.slices.take node) s (b.slices.drop (node + 1))
        fun s => { s with data := some pools }
      rwa [hlength] at this
    have htable : b.poolInfo = infos .nil 0 (b.slices.take node) := by
      rw [h.poolInfo_eq]
      conv_lhs => rw [hsplit]
      rw [infos_append, infos_of_data_none hnone, append_nil]
    have hdata : b.getPoolData pools = b.lastInfo.next off pools := by
      rw [AssemblerBuffer.getPoolData, hperforation]
    refine ⟨?_, nofun, ?_, ?_⟩
    · simp only [hmodify]
      rw [infos_append, infos]
      simp only
      rw [infos_of_data_none hrest, hdata, AssemblerBuffer.lastInfo, htable, hoff, zero_add]
      rfl
    · simp only [hmodify]
      intro t ht
      have hne : b.slices.drop (node + 1) ≠ [] := by
        rw [Ne, drop_eq_nil_iff]
        omega
      rw [List.getLast?_append, List.getLast?_cons_of_ne_nil hne] at ht
      rw [List.getLast?_eq_some_getLast hne, some_or] at ht
      cases ht
      exact hrest _ (getLast_mem hne)
    · simp only [hmodify]
      intro t ht data ht'
      rcases mem_append.1 ht with ht | ht
      · exact h.nonempty t (mem_of_mem_take ht) data ht'
      · rcases mem_cons.1 ht with rfl | ht
        · cases ht'
          refine Bool.eq_false_iff.2 fun hempty => hsize ?_
          rw [hdata, PoolInfo.next]
          simp only [hempty, if_true, sub_self]
        · rw [hrest t ht] at ht'
          cases ht'

end Built

lemma BufferRuns.built {b : AssemblerBuffer P Inst} (h : BufferRuns b) : Built b := by
  induction h with
  | new => exact ⟨rfl, nofun, nofun, nofun⟩
  | markNextAsBranch _ ih => exact ih.ensureSpace.1.modifyTail ih.ensureSpace.2 fun _ => rfl
  | putBlob _ inst ih => exact ih.ensureSpace.1.modifyTail ih.ensureSpace.2 fun _ => rfl
  | perforate _ hperforate ih => exact ih.perforate hperforate
  | finishPool _ hfinish ih => exact ih.finishPool hfinish

end SpiderMonkey.Ion.ConstantPools
