import SpiderMonkey.Ion.ConstantPoolsSoundness

/-! # Branches across pools

The copy of the code as a whole: every instruction stands behind the pools that were placed before it,
and a branch leads to where its target stands. The table of pools is read beyond its end where a branch
goes to the last pool or further. -/

namespace SpiderMonkey.Ion.ConstantPools

open Insertions List Option

variable {P : BufferParams} {Inst : Type}

/-- The bytes that are written. -/
def CopyEvent.extent : CopyEvent P Inst → Option (ℤ × ℤ)
  | .readInfo _ => none
  | .inst dest _ => some (dest, dest + P.instBaseSize)
  | .poolHeader dest _ _ => some (dest, dest + P.headerSize)
  | .poolData dest bytes => some (dest, dest + bytes.length)
  | .poolFooter dest _ _ => some (dest, dest + P.footerSize)

/-- The writes are one behind the other. -/
def Laid : ℤ → List (CopyEvent P Inst) → ℤ → Prop
  | lo, [], hi => lo ≤ hi
  | lo, e :: rest, hi =>
    match e.extent with
    | none => Laid lo rest hi
    | some (start, stop) => lo ≤ start ∧ Laid stop rest hi

/-- The instructions that are written, with their places. -/
def instsOf (events : List (CopyEvent P Inst)) : List (ℤ × Inst) :=
  events.filterMap fun e => match e with
    | .inst dest i => some (dest, i)
    | _ => none

/-- The entries of the table that are read. -/
def readsOf (events : List (CopyEvent P Inst)) : List ℕ :=
  events.filterMap fun e => match e with
    | .readInfo index => some index
    | _ => none

/-- The places of the instructions, and the end. -/
def landmarks (events : List (CopyEvent P Inst)) (fin : ℤ) : List ℤ :=
  (instsOf events).map Prod.fst ++ [fin]

section Events

variable {lo mid hi : ℤ} {events later : List (CopyEvent P Inst)}

lemma Laid.of_le : ∀ {events : List (CopyEvent P Inst)} {lo lo' : ℤ}, Laid lo' events hi →
    lo ≤ lo' → Laid lo events hi := by
  intro events
  induction events with
  | nil => exact fun {_ _} h hle => hle.trans h
  | cons e rest ih =>
    intro lo lo' h hle
    rw [Laid] at h ⊢
    split <;> rename_i hextent <;> rw [hextent] at h
    · exact ih h hle
    · exact ⟨hle.trans h.1, h.2⟩

lemma Laid.append : ∀ {events : List (CopyEvent P Inst)} {lo : ℤ}, Laid lo events mid →
    Laid mid later hi → Laid lo (events ++ later) hi := by
  intro events
  induction events with
  | nil => exact fun {_} h hlater => hlater.of_le h
  | cons e rest ih =>
    intro lo h hlater
    rw [cons_append, Laid]
    rw [Laid] at h
    split <;> rename_i hextent <;> rw [hextent] at h
    · exact ih h hlater
    · exact ⟨h.1, ih h.2 hlater⟩

lemma Laid.reads {reads : List ℕ} (h : Laid lo events hi) :
    Laid lo (reads.map .readInfo ++ events) hi := by
  induction reads with
  | nil => exact h
  | cons r rest ih => exact ih

@[simp] lemma instsOf_append : instsOf (events ++ later) = instsOf events ++ instsOf later :=
  filterMap_append

@[simp] lemma readsOf_append : readsOf (events ++ later) = readsOf events ++ readsOf later :=
  filterMap_append

@[simp] lemma instsOf_reads (reads : List ℕ) :
    instsOf (reads.map .readInfo : List (CopyEvent P Inst)) = [] := by
  induction reads with
  | nil => rfl
  | cons r rest ih => exact ih

@[simp] lemma readsOf_reads (reads : List ℕ) :
    readsOf (reads.map .readInfo : List (CopyEvent P Inst)) = reads := by
  induction reads with
  | nil => rfl
  | cons r rest ih => exact congrArg (r :: ·) ih

end Events

section Pools

lemma Pool.le_align (p : Pool P) (ptr : ℤ) : ptr ≤ p.align ptr := by
  rw [Pool.align]
  split
  · exact le_refl _
  · have hpos : (0 : ℤ) < 2 ^ p.logAlignment := pow_pos two_pos _
    have := Int.lt_ediv_add_one_mul_self (ptr + (2 ^ p.logAlignment - 1)) hpos
    linarith

/-- The alignment of the buffer is one for every pool. -/
lemma Pool.addPoolSize_add (p : Pool P) {base : ℤ} (h : 2 ^ P.logInstBufferAlign ∣ base)
    (start : ℤ) : p.addPoolSize (base + start) = base + p.addPoolSize start := by
  have hdvd : (2 : ℤ) ^ p.logAlignment ∣ base := (pow_dvd_pow 2 p.logAlignment_le).trans h
  obtain ⟨c, rfl⟩ := hdvd
  have hpos : (2 : ℤ) ^ p.logAlignment ≠ 0 := pow_ne_zero _ two_ne_zero
  rw [Pool.addPoolSize, Pool.addPoolSize, Pool.align, Pool.align]
  split
  · ring
  · rw [add_assoc (_ * c), add_comm (_ * c), Int.add_mul_ediv_left _ _ hpos]
    ring

lemma foldl_addPoolSize_add (pools : List (Pool P)) {base : ℤ}
    (h : 2 ^ P.logInstBufferAlign ∣ base) (start : ℤ) :
    pools.foldl (fun off p => p.addPoolSize off) (base + start) =
      base + pools.foldl (fun off p => p.addPoolSize off) start := by
  induction pools generalizing start with
  | nil => rfl
  | cons p rest ih => rw [foldl_cons, foldl_cons, p.addPoolSize_add h, ih]

lemma PoolInfo.next_finalPos (prev : PoolInfo) (perfOffset : ℤ) {pools : Pools P}
    (h : pools.isEmpty = false) :
    (prev.next perfOffset pools).finalPos = pools.layout.foldl (fun off p => p.addPoolSize off)
      (prev.finalPos + (perfOffset - prev.offset) + P.headerSize) + P.footerSize := by
  rw [PoolInfo.next, h]
  rfl

variable (Inst) in
lemma copyPools_spec (pools : List (Pool P)) (poolDest : ℤ) :
    (copyPools pools poolDest : List (CopyEvent P Inst) × ℤ).2 =
        pools.foldl (fun off p => p.addPoolSize off) poolDest ∧
      instsOf (copyPools pools poolDest : List (CopyEvent P Inst) × ℤ).1 = [] ∧
      readsOf (copyPools pools poolDest : List (CopyEvent P Inst) × ℤ).1 = [] ∧
      Laid poolDest (copyPools pools poolDest : List (CopyEvent P Inst) × ℤ).1
        (copyPools pools poolDest : List (CopyEvent P Inst) × ℤ).2 := by
  induction pools generalizing poolDest with
  | nil => exact ⟨rfl, rfl, rfl, le_refl _⟩
  | cons p rest ih =>
    obtain ⟨hend, hinsts, hreads, hlaid⟩ := ih (p.addPoolSize poolDest)
    refine ⟨hend, hinsts, hreads, p.le_align poolDest, hlaid.of_le ?_⟩
    have hlength := length_take_le p.getPoolSize p.poolData
    rw [Pool.addPoolSize]
    omega

end Pools

/-! ### The instructions -/

section Stream

variable (asm : Asm Inst) (table : List PoolInfo) (beyond : ℕ → PoolInfo) (base : ℤ)

/-- What becomes of an instruction at an offset, with the entries of the table that are read. -/
def patched (entry : Inst × Bool) (o : ℤ) : Option (Inst × List ℕ) :=
  patchMarked asm (tableWith table beyond) table.length entry.2 entry.1 (poolCount table o) o

/-- The instructions of a stream from an offset on, each at its place. -/
def copyStream : List (Inst × Bool) → ℤ → Option (List ((ℤ × Inst) × List ℕ))
  | [], _ => some []
  | entry :: rest, o => do
    let r ← patched asm table beyond entry o
    let later ← copyStream rest (o + P.instBaseSize)
    some (((base + poolPosition table o, r.1), r.2) :: later)

variable {asm table beyond base}

lemma copyStream_append : ∀ {first last : List (Inst × Bool)} {o : ℤ}
    {cs ds : List ((ℤ × Inst) × List ℕ)}, copyStream (P := P) asm table beyond base first o = some cs →
    copyStream (P := P) asm table beyond base last (o + first.length * P.instBaseSize) = some ds →
    copyStream (P := P) asm table beyond base (first ++ last) o = some (cs ++ ds) := by
  intro first
  induction first with
  | nil =>
    rintro last o cs ds ⟨⟩ hlast
    rw [length_nil, Nat.cast_zero, zero_mul, add_zero] at hlast
    exact hlast
  | cons entry rest ih =>
    intro last o cs ds hfirst hlast
    obtain ⟨r, hr, hfirst⟩ := bind_eq_some_iff.1 hfirst
    obtain ⟨later, hlater, hcs⟩ := bind_eq_some_iff.1 hfirst
    cases hcs
    have hoffset : o + ((entry :: rest).length : ℤ) * P.instBaseSize =
        o + P.instBaseSize + rest.length * P.instBaseSize := by
      rw [length_cons, Nat.cast_succ]
      ring
    rw [hoffset] at hlast
    rw [cons_append, copyStream, hr, ih hlater hlast]
    rfl

lemma copyStream_length : ∀ {stream : List (Inst × Bool)} {o : ℤ}
    {cs : List ((ℤ × Inst) × List ℕ)},
    copyStream (P := P) asm table beyond base stream o = some cs → cs.length = stream.length := by
  intro stream
  induction stream with
  | nil =>
    rintro o cs ⟨⟩
    rfl
  | cons entry rest ih =>
    intro o cs h
    obtain ⟨r, hr, h⟩ := bind_eq_some_iff.1 h
    obtain ⟨later, hlater, hcs⟩ := bind_eq_some_iff.1 h
    cases hcs
    exact congrArg Nat.succ (ih hlater)

lemma copyStream_getElem? : ∀ {stream : List (Inst × Bool)} {o : ℤ}
    {cs : List ((ℤ × Inst) × List ℕ)} {k : ℕ} {entry : Inst × Bool},
    copyStream (P := P) asm table beyond base stream o = some cs → stream[k]? = some entry →
    ∃ r, patched asm table beyond entry (o + k * P.instBaseSize) = some r ∧
      cs[k]? = some ((base + poolPosition table (o + k * P.instBaseSize), r.1), r.2) := by
  intro stream
  induction stream with
  | nil => nofun
  | cons first rest ih =>
    intro o cs k entry h hentry
    obtain ⟨r, hr, h⟩ := bind_eq_some_iff.1 h
    obtain ⟨later, hlater, hcs⟩ := bind_eq_some_iff.1 h
    cases hcs
    cases k with
    | zero =>
      cases hentry
      rw [Nat.cast_zero, zero_mul, add_zero]
      exact ⟨r, hr, rfl⟩
    | succ k =>
      have hoffset : o + ((k + 1 : ℕ) : ℤ) * P.instBaseSize =
          o + P.instBaseSize + k * P.instBaseSize := by
        rw [Nat.cast_succ]
        ring
      rw [hoffset]
      exact ih hlater hentry

/-- The instructions of a slice, all of them with the same pools before them. -/
lemma copyInstructions_spec {curIndex : ℕ} {isBranch : ℕ → Bool} :
    ∀ {insts : List Inst} {idx : ℕ} {o dest : ℤ} {events : List (CopyEvent P Inst)},
    (∀ m < insts.length, poolCount table (o + m * P.instBaseSize) = curIndex) →
    dest = base + (o + poolTotal table curIndex) →
    copyInstructions asm (tableWith table beyond) table.length curIndex isBranch insts idx o dest =
      some events →
    ∃ cs, copyStream (P := P) asm table beyond base
        ((insts.zipIdx idx).map fun e => (e.1, isBranch e.2)) o = some cs ∧
      instsOf events = cs.map Prod.fst ∧ readsOf events = cs.flatMap Prod.snd ∧
      Laid dest events (dest + insts.length * P.instBaseSize) := by
  intro insts
  induction insts with
  | nil =>
    rintro idx o dest events - - ⟨⟩
    refine ⟨[], rfl, rfl, rfl, ?_⟩
    rw [length_nil, Nat.cast_zero, zero_mul, add_zero]
    exact le_refl _
  | cons i rest ih =>
    intro idx o dest events hcount hdest h
    have hfirst : poolCount table o = curIndex := by
      have := hcount 0 (Nat.succ_pos _)
      rwa [Nat.cast_zero, zero_mul, add_zero] at this
    rw [copyInstructions] at h
    obtain ⟨⟨i', reads⟩, hpatch, h⟩ := bind_eq_some_iff.1 h
    obtain ⟨later, hlater, hevents⟩ := bind_eq_some_iff.1 h
    cases hevents
    obtain ⟨cs, hcs, hinsts, hreads, hlaid⟩ := ih (fun m hm => by
      have := hcount (m + 1) (Nat.succ_lt_succ hm)
      rwa [Nat.cast_succ, add_mul, one_mul, add_comm (_ * _), ← add_assoc] at this)
      (by rw [hdest]; ring) hlater
    have hpatched : patched asm table beyond (i, isBranch idx) o = some (i', reads) := by
      rw [patched, hfirst]
      exact hpatch
    refine ⟨((base + poolPosition table o, i'), reads) :: cs, ?_, ?_, ?_, ?_⟩
    · rw [zipIdx_cons, map_cons, copyStream, hpatched, hcs]
      rfl
    · have hplace : dest = base + poolPosition table o := by
        rw [hdest, poolPosition, position]
        exact congrArg (fun n => base + (o + poolTotal table n)) hfirst.symm
      rw [instsOf_append, instsOf_reads, nil_append, map_cons, ← hinsts, ← hplace]
      rfl
    · rw [readsOf_append, readsOf_reads, flatMap_cons, ← hreads]
      rfl
    · refine Laid.reads ⟨le_refl _, ?_⟩
      have hfin : dest + ((i :: rest).length : ℤ) * P.instBaseSize =
          dest + P.instBaseSize + rest.length * P.instBaseSize := by
        rw [length_cons, Nat.cast_succ]
        ring
      rw [hfin]
      exact hlaid

end Stream

/-! ### The slices -/

section Slices

variable {asm : Asm Inst} {table : List PoolInfo} {beyond : ℕ → PoolInfo} {base : ℤ}

lemma length_stream (s : BufferSlice P Inst) : s.stream.length = s.instructions.length := by
  rw [BufferSlice.stream, length_map, length_zipIdx]

lemma codeSize_eq (slices : List (BufferSlice P Inst)) :
    codeSize slices = (slices.flatMap BufferSlice.stream).length * P.instBaseSize := by
  induction slices with
  | nil => rw [flatMap_nil, length_nil, Nat.cast_zero, zero_mul]; rfl
  | cons s rest ih =>
    rw [codeSize_cons, flatMap_cons, length_append, Nat.cast_add, length_stream, ih,
      BufferSlice.size]
    ring

/-- The instructions of a slice, of a list of slices whose pools are the last of the table. -/
lemma poolCount_slice {before : List PoolInfo} {prev : PoolInfo} {off : ℤ}
    {s : BufferSlice P Inst} {rest : List (BufferSlice P Inst)}
    (hbefore : ∀ info ∈ before, info.offset ≤ off) {m : ℕ} (hm : m < s.instructions.length) :
    poolCount (before ++ infos prev off (s :: rest)) (off + m * P.instBaseSize) = before.length := by
  have hpos : (0 : ℤ) < P.instBaseSize := Int.natCast_pos.2 P.instBaseSize_pos
  have hnonneg : (0 : ℤ) ≤ m * P.instBaseSize := Int.mul_nonneg (Int.natCast_nonneg _) hpos.le
  have hlt : (m : ℤ) * P.instBaseSize < s.size :=
    mul_lt_mul_of_pos_right (Int.ofNat_lt.2 hm) hpos
  refine count_append ?_ ?_
  · intro info hinfo
    have := hbefore info hinfo
    omega
  · intro info hinfo
    have := le_offset_of_mem_infos hinfo
    omega

lemma copySlices_spec (hbase : 2 ^ P.logInstBufferAlign ∣ base) :
    ∀ {slices : List (BufferSlice P Inst)} {before : List PoolInfo} {prev : PoolInfo} {off dest : ℤ}
      {events : List (CopyEvent P Inst)} {fin : ℤ}, table = before ++ infos prev off slices →
    (∀ info ∈ before, info.offset ≤ off) →
    prev.finalPos - prev.offset = poolTotal table before.length →
    (∀ s ∈ slices, ∀ data, s.data = some data → data.isEmpty = false) →
    dest = base + (off + poolTotal table before.length) →
    copySlices asm (tableWith table beyond) table.length slices before.length off dest =
      some (events, fin) →
    (∃ cs, copyStream (P := P) asm table beyond base (slices.flatMap BufferSlice.stream) off = some cs ∧
      instsOf events = cs.map Prod.fst ∧ readsOf events = cs.flatMap Prod.snd) ∧
      fin = base + poolPosition table (off + codeSize slices) ∧ Laid dest events fin := by
  intro slices
  induction slices with
  | nil =>
    rintro before prev off dest events fin htable hbefore - - hdest ⟨⟩
    refine ⟨⟨[], rfl, rfl, rfl⟩, ?_, le_refl _⟩
    rw [infos, append_nil] at htable
    have hposition : poolPosition (before ++ []) off = off + poolTotal before before.length :=
      position_of_split hbefore (by simp)
    rw [append_nil] at hposition
    rw [hdest, htable]
    exact congrArg (base + ·) ((add_zero off).symm ▸ hposition.symm)
  | cons s rest ih =>
    intro before prev off dest events fin htable hbefore hprev hnonempty hdest h
    have hsize := size_nonneg s
    obtain ⟨hs, hrest⟩ := forall_mem_cons.1 hnonempty
    have hoff : off + codeSize (s :: rest) = off + s.size + codeSize rest := by
      rw [codeSize_cons, add_assoc]
    have hlength : off + (s.stream.length : ℤ) * P.instBaseSize = off + s.size := by
      rw [length_stream]
      rfl
    have hlater : ∀ info ∈ before, info.offset ≤ off + s.size := by
      intro info hinfo
      have := hbefore info hinfo
      omega
    rw [copySlices] at h
    obtain ⟨first, hfirst, h⟩ := bind_eq_some_iff.1 h
    obtain ⟨cs, hcs, hinsts, hreads, hlaid⟩ := copyInstructions_spec
      (fun m hm => by rw [htable]; exact poolCount_slice hbefore hm) hdest hfirst
    cases hdata : s.data with
    | none =>
      simp only [hdata] at h
      obtain ⟨⟨later, fin'⟩, hcopy, hresult⟩ := bind_eq_some_iff.1 h
      cases hresult
      rw [infos, hdata] at htable
      obtain ⟨⟨ds, hds, hinsts', hreads'⟩, hfin, hlaid'⟩ := ih htable hlater hprev hrest
        (by rw [hdest]; ring) hcopy
      refine ⟨⟨cs ++ ds, ?_, ?_, ?_⟩, ?_, hlaid.append hlaid'⟩
      · exact copyStream_append hcs (hlength.symm ▸ hds)
      · rw [instsOf_append, hinsts, hinsts', map_append]
      · rw [readsOf_append, hreads, hreads', flatMap_append]
      · rw [hoff]
        exact hfin
    | some data =>
      simp only [hdata] at h
      obtain ⟨⟨later, fin'⟩, hcopy, hresult⟩ := bind_eq_some_iff.1 h
      cases hresult
      rw [infos, hdata] at htable
      obtain ⟨hend, hnoInsts, hnoReads, hpools⟩ :=
        copyPools_spec Inst data.layout (dest + s.size + P.headerSize)
      simp only at htable
      rw [append_cons] at htable
      have hextent := PoolInfo.next_extent prev (off + s.size) data
      have hfinalPos := PoolInfo.next_finalPos prev (off + s.size) (hs data hdata)
      have hoffset : (prev.next (off + s.size) data).offset = off + s.size := rfl
      generalize prev.next (off + s.size) data = info at htable hextent hfinalPos hoffset
      have hentry : table[before.length]? = some info := by
        rw [htable, append_assoc, List.getElem?_append_right (Nat.le_refl _), Nat.sub_self]
        rfl
      have hbefore' : (before ++ [info]).length = before.length + 1 := length_append
      have htotal : info.finalPos - info.offset = poolTotal table (before ++ [info]).length := by
        rw [hextent, hprev, hbefore']
        exact (total_succ hentry).symm
      have hstart : dest + s.size + P.headerSize =
          base + (prev.finalPos + (off + s.size - prev.offset) + P.headerSize) := by
        rw [hdest, ← hprev]
        ring
      rw [← hbefore'] at hcopy
      obtain ⟨⟨ds, hds, hinsts', hreads'⟩, hfin, hlaid'⟩ := ih htable
        (by
          intro other hother
          rcases mem_append.1 hother with hother | hother
          · exact hlater other hother
          · rw [mem_singleton.1 hother, hoffset])
        htotal hrest
        (by
          rw [hend, hstart, foldl_addPoolSize_add _ hbase, ← htotal, hfinalPos, hoffset]
          ring)
        hcopy
      refine ⟨⟨cs ++ ds, ?_, ?_, ?_⟩, ?_, ?_⟩
      · exact copyStream_append hcs (hlength.symm ▸ hds)
      · simp only [append_assoc, instsOf_append, hinsts, map_append]
        refine congrArg (cs.map Prod.fst ++ ·) ?_
        exact (congrArg (· ++ instsOf later) hnoInsts).trans hinsts'
      · simp only [append_assoc, readsOf_append, hreads, flatMap_append]
        refine congrArg (cs.flatMap Prod.snd ++ ·) ?_
        exact (congrArg (· ++ readsOf later) hnoReads).trans hreads'
      · rw [hoff]
        exact hfin
      · rw [append_assoc]
        exact hlaid.append ⟨le_refl _, hpools.append ⟨le_refl _, hlaid'⟩⟩

end Slices

/-! ### The buffer -/

section Buffer

variable {asm : Asm Inst} {b : AssemblerBuffer P Inst} {beyond : ℕ → PoolInfo} {dest : ℕ}
  {events : List (CopyEvent P Inst)} {fin : ℤ}

lemma dvd_alignedStart (P : BufferParams) (dest : ℕ) :
    2 ^ P.logInstBufferAlign ∣ alignedStart P dest := Int.dvd_mul_left _ _

lemma poolSizeBefore_eq (h : Built b) (o : ℤ) :
    b.poolSizeBefore o = poolTotal b.poolInfo (poolCount b.poolInfo o) := by
  have hinOrder : InOrder b.poolInfo := h.poolInfo_eq ▸ inOrder_infos
  have hcount : b.poolsBefore o = poolCount b.poolInfo o := by
    obtain ⟨first, last, hsplit, hfirst, hlast⟩ := exists_split hinOrder o
    rw [poolCount, AssemblerBuffer.poolsBefore, hsplit, count_append hfirst hlast]
    rw [takeWhile_append_of_pos fun info hinfo => decide_eq_true (hfirst info hinfo)]
    cases last with
    | nil => rw [takeWhile_nil, append_nil]
    | cons info last =>
      have hnot : ¬info.offset ≤ o := (hlast info mem_cons_self).not_ge
      rw [takeWhile_cons_of_neg (by simpa using hnot), append_nil]
  rw [AssemblerBuffer.poolSizeBefore, hcount]
  cases hn : poolCount b.poolInfo o with
  | zero => rfl
  | succ n =>
    have hlt : n < b.poolInfo.length := by
      have : poolCount b.poolInfo o ≤ b.poolInfo.length := count_le_length o
      omega
    obtain ⟨info, hentry⟩ : ∃ info, b.poolInfo[n]? = some info :=
      ⟨_, List.getElem?_eq_getElem hlt⟩
    have hextent := extent_infos (h.poolInfo_eq ▸ hentry)
    rw [← h.poolInfo_eq] at hextent
    simp only
    rw [hentry, getD_some, hextent]
    exact zero_add _

lemma executableCopy_spec (h : Built b)
    (hcopy : b.executableCopy asm beyond dest = some (events, fin)) :
    (∃ cs, copyStream (P := P) asm b.poolInfo beyond (alignedStart P dest) b.stream 0 = some cs ∧
      instsOf events = cs.map Prod.fst ∧ readsOf events = cs.flatMap Prod.snd) ∧
      fin = alignedStart P dest + poolPosition b.poolInfo (b.stream.length * P.instBaseSize) ∧
      Laid (alignedStart P dest) events fin := by
  have hspec := copySlices_spec (dvd_alignedStart P dest)
    (show b.poolInfo = [] ++ infos .nil 0 b.slices from h.poolInfo_eq) nofun rfl h.nonempty
    (add_zero (alignedStart P dest)).symm hcopy
  rw [zero_add, codeSize_eq] at hspec
  exact hspec

/-- Every instruction, and the end, stands behind the pools before it. -/
lemma landmarks_getElem? (h : Built b)
    (hcopy : b.executableCopy asm beyond dest = some (events, fin)) {k : ℕ}
    (hk : k ≤ b.stream.length) : (landmarks events fin)[k]? =
      some (alignedStart P dest + poolPosition b.poolInfo (k * P.instBaseSize)) := by
  obtain ⟨⟨cs, hcs, hinsts, -⟩, hfin, -⟩ := executableCopy_spec h hcopy
  have hlength : ((instsOf events).map Prod.fst).length = b.stream.length := by
    rw [hinsts, length_map, length_map, copyStream_length hcs]
  rcases Nat.lt_or_ge k b.stream.length with hlt | hge
  · obtain ⟨r, -, hget⟩ := copyStream_getElem? hcs (List.getElem?_eq_getElem hlt)
    rw [landmarks, List.getElem?_append_left (hlength.symm ▸ hlt), hinsts, List.getElem?_map,
      List.getElem?_map, hget, zero_add]
    rfl
  · obtain rfl := Nat.le_antisymm hk hge
    rw [landmarks, List.getElem?_append_right hlength.le, hlength, Nat.sub_self, hfin]
    rfl

end Buffer

/-- A marked branch leads in the code to the instruction that it was meant for, or to the end. -/
def BranchesLead (asm : Asm Inst) (b : AssemblerBuffer P Inst) (events : List (CopyEvent P Inst))
    (fin : ℤ) : Prop :=
  ∀ (k : ℕ) i (t : ℕ), b.stream[k]? = some (i, true) → t ≤ b.stream.length →
    (t * P.instBaseSize : ℤ) = k * P.instBaseSize + asm.getBranchOffset i →
    ∃ pos i' target, (instsOf events)[k]? = some (pos, i') ∧
      (landmarks events fin)[t]? = some target ∧ pos + asm.getBranchOffset i' = target

/-- The other instructions are copied. -/
def OthersCopied (b : AssemblerBuffer P Inst) (events : List (CopyEvent P Inst)) : Prop :=
  ∀ (k : ℕ) i, b.stream[k]? = some (i, false) → ∃ pos, (instsOf events)[k]? = some (pos, i)

/-- `poolSizeBefore` is by how much an instruction, or the end, has moved. -/
def PoolSizesExact (b : AssemblerBuffer P Inst) (start : ℤ) (events : List (CopyEvent P Inst))
    (fin : ℤ) : Prop :=
  ∀ k ≤ b.stream.length, ∃ pos, (landmarks events fin)[k]? = some pos ∧
    pos = start + k * P.instBaseSize + b.poolSizeBefore (k * P.instBaseSize)

/-- Every branch forward has a pool behind its target. -/
def PoolBehindTargets (asm : Asm Inst) (b : AssemblerBuffer P Inst) : Prop :=
  ∀ (k : ℕ) i, b.stream[k]? = some (i, true) → 0 < asm.getBranchOffset i →
    ∃ info, b.poolInfo.getLast? = some info ∧
      k * P.instBaseSize + asm.getBranchOffset i < info.offset

/-- The code is laid out as it was meant, and the table of pools is not read beyond its end if and
only if there is a pool behind the target of every branch forward. -/
theorem patchBranch_exact {asm : Asm Inst} {b : AssemblerBuffer P Inst} {beyond : ℕ → PoolInfo}
    {dest : ℕ} {events : List (CopyEvent P Inst)} {fin : ℤ} (h : BufferRuns b)
    (hcopy : b.executableCopy asm beyond dest = some (events, fin)) :
    (BranchesLead asm b events fin ∧ OthersCopied b events ∧ Laid (alignedStart P dest) events fin ∧
        PoolSizesExact b (alignedStart P dest) events fin ∧
        ∀ r ∈ readsOf events, r < b.poolInfo.length) ↔
      PoolBehindTargets asm b := by
  have hbuilt := h.built
  have hinOrder : InOrder b.poolInfo := hbuilt.poolInfo_eq ▸ inOrder_infos
  obtain ⟨⟨cs, hcs, hinsts, hreads⟩, -, hlaid⟩ := executableCopy_spec hbuilt hcopy
  -- what becomes of each marked instruction
  have hmarked : ∀ (k : ℕ) i, b.stream[k]? = some (i, true) → ∃ r : Inst × List ℕ,
      cs[k]? = some ((alignedStart P dest + poolPosition b.poolInfo (k * P.instBaseSize), r.1), r.2) ∧
      poolPosition b.poolInfo (k * P.instBaseSize) + asm.getBranchOffset r.1 =
        poolPosition b.poolInfo (k * P.instBaseSize + asm.getBranchOffset i) ∧
      ((∀ index ∈ r.2, index < b.poolInfo.length) ↔ (0 < asm.getBranchOffset i →
        ∃ info, b.poolInfo.getLast? = some info ∧
          k * P.instBaseSize + asm.getBranchOffset i < info.offset)) := by
    intro k i hk
    obtain ⟨r, hpatched, hget⟩ := copyStream_getElem? hcs hk
    rw [zero_add] at hpatched hget
    exact ⟨r, hget, patchBranch_spec beyond asm hinOrder hpatched⟩
  constructor
  · rintro ⟨-, -, -, -, hbound⟩ k i hk
    obtain ⟨r, hget, -, hiff⟩ := hmarked k i hk
    refine hiff.1 fun index hindex => hbound index ?_
    rw [hreads]
    exact mem_flatMap.2 ⟨_, mem_of_getElem? hget, hindex⟩
  · intro hbehind
    refine ⟨?_, ?_, hlaid, ?_, ?_⟩
    · intro k i t hk ht htarget
      obtain ⟨r, hget, hlead, -⟩ := hmarked k i hk
      refine ⟨alignedStart P dest + poolPosition b.poolInfo (k * P.instBaseSize), r.1, _, ?_,
        landmarks_getElem? hbuilt hcopy ht, ?_⟩
      · rw [hinsts, List.getElem?_map, hget]
        rfl
      · rw [htarget, ← hlead, add_assoc]
    · intro k i hk
      obtain ⟨r, hpatched, hget⟩ := copyStream_getElem? hcs hk
      cases hpatched
      refine ⟨alignedStart P dest + poolPosition b.poolInfo (0 + k * P.instBaseSize), ?_⟩
      rw [hinsts, List.getElem?_map, hget]
      rfl
    · intro k hk
      refine ⟨_, landmarks_getElem? hbuilt hcopy hk, ?_⟩
      rw [poolSizeBefore_eq hbuilt, add_assoc]
      rfl
    · intro index hindex
      rw [hreads] at hindex
      obtain ⟨c, hc, hindex⟩ := mem_flatMap.1 hindex
      obtain ⟨k, hlt, hget⟩ := mem_iff_getElem.1 hc
      have hlt' : k < b.stream.length := (copyStream_length hcs) ▸ hlt
      have hentry := List.getElem?_eq_getElem hlt'
      have hgetc : cs[k]? = some c := by rw [List.getElem?_eq_getElem hlt, hget]
      generalize b.stream[k] = entry at hentry
      obtain ⟨i, marked⟩ := entry
      cases marked with
      | false =>
        obtain ⟨r, hpatched, hget'⟩ := copyStream_getElem? hcs hentry
        cases hpatched
        rw [hgetc] at hget'
        cases hget'
        cases hindex
      | true =>
        obtain ⟨r, hget', -, hiff⟩ := hmarked k i hentry
        rw [hgetc] at hget'
        cases hget'
        exact hiff.2 (hbehind k i hentry) index hindex

/-! ### A branch over a pool -/

/-- A branch over the next instruction. -/
def branchOverNext : Instruction := ⟨0xe#4, 0xa#4, 0#24⟩

def nop : Instruction := ⟨0xe#4, 0x1#4, 0xa00000#24⟩

def oneWord : Pools armBuffer :=
  [(⟨4, 1, [1, 2, 3, 4], 2, by decide⟩, ⟨4, 0, [], 2, by decide⟩)]

/-- The table of one pool is read beyond its end for a branch over that pool. -/
theorem patchBranch_reads_beyond : ¬∀ b : AssemblerBuffer armBuffer Instruction, BufferRuns b →
    ∀ beyond dest events fin, b.executableCopy armAsm beyond dest = some (events, fin) →
      BranchesLead armAsm b events fin ∧ OthersCopied b events ∧
        Laid (alignedStart armBuffer dest) events fin ∧
        PoolSizesExact b (alignedStart armBuffer dest) events fin ∧
        ∀ r ∈ readsOf events, r < b.poolInfo.length := by
  intro hclaim
  have h₁ := BufferRuns.new.markNextAsBranch.putBlob branchOverNext (P := armBuffer)
  have h₂ := h₁.perforate (show AssemblerBuffer.perforate _ true = some _ from rfl)
  have h₃ := h₂.finishPool (show AssemblerBuffer.finishPool _ oneWord = some _ from rfl)
  have h₄ := (h₃.putBlob nop).putBlob nop
  obtain ⟨-, -, -, -, hreads⟩ := hclaim _ h₄ (fun _ => .nil) 0 _ _ rfl
  exact absurd (hreads 1 (by decide)) (by decide)

/-- A branch over a pool, and another pool behind its target. -/
theorem patchBranch_exact_between : ∃ b : AssemblerBuffer armBuffer Instruction, ∃ events fin,
    b.executableCopy armAsm (fun _ => .nil) 0 = some (events, fin) ∧
      BranchesLead armAsm b events fin ∧ ∀ r ∈ readsOf events, r < b.poolInfo.length := by
  have h₁ := BufferRuns.new.markNextAsBranch.putBlob branchOverNext (P := armBuffer)
  have h₂ := h₁.perforate (show AssemblerBuffer.perforate _ true = some _ from rfl)
  have h₃ := h₂.finishPool (show AssemblerBuffer.finishPool _ oneWord = some _ from rfl)
  have h₄ := ((h₃.putBlob nop).putBlob nop).perforate
    (show AssemblerBuffer.perforate _ true = some _ from rfl)
  have h₅ := h₄.finishPool (show AssemblerBuffer.finishPool _ oneWord = some _ from rfl)
  obtain ⟨hlead, -, -, -, hreads⟩ :=
    (patchBranch_exact h₅
      (show AssemblerBuffer.executableCopy _ armAsm (fun _ => .nil) 0 = some _ from rfl)).2 (by
      rintro (_ | _ | _ | k) i hk hpos
      · exact ⟨_, rfl, by cases hk; decide⟩
      all_goals cases hk)
  exact ⟨_, _, _, rfl, hlead, hreads⟩

end SpiderMonkey.Ion.ConstantPools
