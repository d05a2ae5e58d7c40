import SpiderMonkey.Ion.SafepointTable

/-! # What the safepoint table gives back

The reader opened at an entry gives back the safepoint that was written there: its registers, each
slot once, and its torn values in their order.
-/

namespace SpiderMonkey.Ion

open Lib List

/-! ## Bitmaps -/

/-- The bits of some words. -/
def hasBit (words : List (BitVec 32)) (n : Nat) : Bool :=
  (words[n / 32]?.getD 0#32).getLsbD (n % 32)

namespace BitSet

lemma hasBit_clear (set : BitSet) (n : Nat) : hasBit set.clear.words n = false := by
  rw [hasBit, clear, List.getElem?_map]
  cases set.words[n / 32]? with
  | none => simp
  | some w => simp

lemma hasBit_insert {set set' : BitSet} {value : BitVec 32}
    (h : set.insert value = some set') (n : Nat) :
    hasBit set'.words n = true ↔ hasBit set.words n = true ∨ value.toNat = n := by
  unfold insert at h
  split_ifs at h with hmax
  cases h
  have hword : value.toNat / 32 < set.words.length := by
    rw [set.length_words, rawLengthForBits]
    omega
  have hbit : n % 32 < 32 := Nat.mod_lt _ (by omega)
  simp only [hasBit, List.getElem?_modify, Option.map_eq_map]
  by_cases heq : value.toNat / 32 = n / 32
  · rw [heq] at hword
    simp only [heq, if_true, List.getElem?_eq_getElem hword, Option.map_some, Option.getD_some,
      BitVec.getLsbD_or, BitVec.getLsbD_shiftLeft, BitVec.getLsbD_one, hbit, decide_true,
      Bool.true_and, Bool.or_eq_true, Bool.and_eq_true, Bool.not_eq_true', decide_eq_false_iff_not,
      decide_eq_true_iff]
    apply or_congr_right
    omega
  · simp only [heq, if_false, Option.map_id_fun', id_eq]
    constructor
    · exact .inl
    · rintro (h | rfl)
      · exact h
      · exact absurd rfl heq

lemma max_insert {set set' : BitSet} {value : BitVec 32} (h : set.insert value = some set') :
    set'.max = set.max := by
  unfold insert at h
  split_ifs at h
  cases h
  rfl

/-- The slots that are put in the bitmap. -/
lemma insert_slots (set : BitSet) {slots : List (BitVec 32)}
    (hslots : ∀ slot ∈ slots, (slot - 1#32).toNat ≤ set.max) :
    ∃ set', slots.foldlM (fun set slot => set.insert (slot - 1#32)) set = some set' ∧
      set'.max = set.max ∧ ∀ n, hasBit set'.words n = true ↔
        hasBit set.words n = true ∨ ∃ slot ∈ slots, (slot - 1#32).toNat = n := by
  induction slots generalizing set with
  | nil => exact ⟨set, rfl, rfl, by simp⟩
  | cons slot slots ih =>
    obtain ⟨set1, hset1⟩ : ∃ set1, set.insert (slot - 1#32) = some set1 :=
      ⟨_, if_pos (hslots slot mem_cons_self)⟩
    have hmax := max_insert hset1
    obtain ⟨set', hset', hmax', hbits⟩ := ih set1 fun s hs => by
      rw [hmax]
      exact hslots s (mem_cons_of_mem _ hs)
    refine ⟨set', by rw [foldlM_cons, hset1]; exact hset', hmax'.trans hmax, fun n => ?_⟩
    rw [hbits, hasBit_insert hset1]
    simp only [mem_cons, exists_eq_or_imp, or_assoc]

end BitSet

/-- The bits of a chunk, as they are found: the highest first. -/
lemma clear_getLsbD (c : BitVec 32) (k i : Nat) :
    (c &&& ~~~(1#32 <<< k)).getLsbD i = (c.getLsbD i && decide (i ≠ k)) := by
  rw [BitVec.getLsbD_and, BitVec.getLsbD_not, BitVec.getLsbD_shiftLeft, BitVec.getLsbD_one]
  by_cases hi : i < 32
  · have heq : i < k ∨ i = k ∨ k < i := Nat.lt_trichotomy i k
    rcases heq with h | h | h
    · simp [hi, h, Nat.ne_of_lt h]
    · simp [h]
    · have hne : i - k ≠ 0 := by omega
      have hne' : i ≠ k := by omega
      simp [hi, hne, hne']
  · rw [BitVec.getLsbD_of_ge c i (by omega)]
    simp

lemma getLsbD_floorLog2 {c : BitVec 32} (hc : c ≠ 0#32) :
    c.getLsbD (SafepointReader.floorLog2 c) = true := by
  have hne : c.toNat ≠ 0 := fun h => hc (BitVec.eq_of_toNat_eq h)
  exact Nat.testBit_log2 hne

lemma clear_lt {c : BitVec 32} (hc : c ≠ 0#32) :
    (c &&& ~~~(1#32 <<< SafepointReader.floorLog2 c)).toNat < c.toNat := by
  have hle : (c &&& ~~~(1#32 <<< SafepointReader.floorLog2 c)).toNat ≤ c.toNat := by
    rw [BitVec.toNat_and]
    exact Nat.and_le_left
  have hne : (c &&& ~~~(1#32 <<< SafepointReader.floorLog2 c)).toNat ≠ c.toNat := by
    intro heq
    have hbit := clear_getLsbD c (SafepointReader.floorLog2 c) (SafepointReader.floorLog2 c)
    rw [BitVec.eq_of_toNat_eq heq, getLsbD_floorLog2 hc] at hbit
    simp at hbit
  omega

def chunkBits (c : BitVec 32) : List Nat :=
  if c = 0#32 then []
  else
    SafepointReader.floorLog2 c ::
      chunkBits (c &&& ~~~(1#32 <<< SafepointReader.floorLog2 c))
termination_by c.toNat
decreasing_by exact clear_lt ‹_›

lemma mem_chunkBits (c : BitVec 32) (i : Nat) : i ∈ chunkBits c ↔ c.getLsbD i = true := by
  fun_induction chunkBits c with
  | case1 => simp
  | case2 c hc ih =>
    rw [mem_cons, ih, clear_getLsbD, Bool.and_eq_true, decide_eq_true_iff]
    constructor
    · rintro (rfl | ⟨h, _⟩)
      · exact getLsbD_floorLog2 hc
      · exact h
    · intro h
      by_cases heq : i = SafepointReader.floorLog2 c
      · exact .inl heq
      · exact .inr ⟨h, heq⟩

lemma nodup_chunkBits (c : BitVec 32) : (chunkBits c).Nodup := by
  fun_induction chunkBits c with
  | case1 => exact nodup_nil
  | case2 c hc ih =>
    refine nodup_cons.mpr ⟨?_, ih⟩
    rw [mem_chunkBits, clear_getLsbD]
    simp

/-- The bits of chunks from some number on. -/
def bitmapFrom : Nat → List (BitVec 32) → List Nat
  | _, [] => []
  | k, c :: words => (chunkBits c).map (32 * k + ·) ++ bitmapFrom (k + 1) words

lemma mem_bitmapFrom (k : Nat) (words : List (BitVec 32)) (n : Nat) :
    n ∈ bitmapFrom k words ↔ 32 * k ≤ n ∧ hasBit words (n - 32 * k) = true := by
  induction words generalizing k with
  | nil => simp [bitmapFrom, hasBit]
  | cons c words ih =>
    rw [bitmapFrom, mem_append, mem_map, ih]
    constructor
    · rintro (⟨i, hi, rfl⟩ | ⟨hle, hbit⟩)
      · rw [mem_chunkBits] at hi
        have hlt : i < 32 := BitVec.lt_of_getLsbD hi
        refine ⟨by omega, ?_⟩
        rw [Nat.add_sub_cancel_left, hasBit, Nat.div_eq_of_lt hlt, Nat.mod_eq_of_lt hlt]
        exact hi
      · have hdiv : (n - 32 * k) / 32 = (n - 32 * (k + 1)) / 32 + 1 := by omega
        have hmod : (n - 32 * k) % 32 = (n - 32 * (k + 1)) % 32 := by omega
        refine ⟨by omega, ?_⟩
        rw [hasBit, hdiv, hmod, List.getElem?_cons_succ]
        exact hbit
    · rintro ⟨hle, hbit⟩
      rcases Nat.lt_or_ge (n - 32 * k) 32 with hlt | hge
      · refine .inl ⟨n - 32 * k, ?_, by omega⟩
        rw [mem_chunkBits]
        rw [hasBit, Nat.div_eq_of_lt hlt, Nat.mod_eq_of_lt hlt] at hbit
        exact hbit
      · have hdiv : (n - 32 * k) / 32 = (n - 32 * (k + 1)) / 32 + 1 := by omega
        have hmod : (n - 32 * k) % 32 = (n - 32 * (k + 1)) % 32 := by omega
        refine .inr ⟨by omega, ?_⟩
        rw [hasBit, hdiv, hmod, List.getElem?_cons_succ] at hbit
        exact hbit

lemma nodup_bitmapFrom (k : Nat) (words : List (BitVec 32)) : (bitmapFrom k words).Nodup := by
  induction words generalizing k with
  | nil => exact nodup_nil
  | cons c words ih =>
    rw [bitmapFrom, nodup_append]
    refine ⟨List.Pairwise.map _ (fun i j hne h => hne (Nat.add_left_cancel h)) (nodup_chunkBits c),
      ih (k + 1), ?_⟩
    rintro n hn m hm rfl
    obtain ⟨i, hi, rfl⟩ := mem_map.mp hn
    have hlt : i < 32 := BitVec.lt_of_getLsbD ((mem_chunkBits c i).mp hi)
    have hge := ((mem_bitmapFrom (k + 1) words _).mp hm).1
    omega

/-! ## Reading a bitmap -/

namespace CompactBuffer

/-- The bytes of an unsigned integer. -/
def unsignedBytes (value : BitVec 32) : List Byte := writeUnsigned [] value

lemma writeUnsigned_eq (buffer : CompactBuffer) (value : BitVec 32) :
    writeUnsigned buffer value = buffer ++ unsignedBytes value :=
  (transmits_unsigned value).append buffer

lemma reads_unsignedBytes (value : BitVec 32) :
    Reads readUnsigned (unsignedBytes value) value := (transmits_unsigned value).reads

lemma foldl_writeUnsigned (buffer : CompactBuffer) (words : List (BitVec 32)) :
    words.foldl writeUnsigned buffer = buffer ++ words.flatMap unsignedBytes := by
  induction words generalizing buffer with
  | nil => rw [foldl_nil, flatMap_nil, append_nil]
  | cons w words ih =>
    rw [foldl_cons, writeUnsigned_eq, ih, flatMap_cons, append_assoc]

end CompactBuffer

open CompactBuffer

/-- The slot of a bit. -/
def slotOf (n : Nat) : BitVec 32 := BitVec.ofNat 32 (n + 1)

lemma slotOf_sub (n : Nat) : slotOf n - 1#32 = BitVec.ofNat 32 n := by
  rw [slotOf, BitVec.ofNat_add]
  exact BitVec.add_sub_cancel _ _

lemma slotOf_inj {n m : Nat} (hn : n < 2 ^ 32) (hm : m < 2 ^ 32) (h : slotOf n = slotOf m) :
    n = m := by
  have hsub : BitVec.ofNat 32 n = BitVec.ofNat 32 m := by
    rw [← slotOf_sub, h, slotOf_sub]
  have hnat := congrArg BitVec.toNat hsub
  rwa [BitVec.toNat_ofNat, BitVec.toNat_ofNat, Nat.mod_eq_of_lt hn, Nat.mod_eq_of_lt hm] at hnat

lemma slotOf_toNat (slot : BitVec 32) : slotOf (slot - 1#32).toNat = slot := by
  have h : slotOf (slot - 1#32).toNat - 1#32 = slot - 1#32 := by
    rw [slotOf_sub, BitVec.ofNat_toNat, BitVec.setWidth_eq]
  have hadd := congrArg (· + 1#32) h
  simpa [BitVec.sub_add_cancel] using hadd

namespace SafepointReader

/-- A reader of slots, with what it does when there are no more. -/
def getSlotThen (finish : SafepointReader → Option SafepointReader) (r : SafepointReader) :
    Option (Option (BitVec 32) × SafepointReader) := do
  let (slot, r) ← r.getSlotFromBitmap
  match slot with
  | some slot => some (some slot, r)
  | none => do
    let r ← finish r
    some (none, r)

lemma getSlotThen_congr {finish : SafepointReader → Option SafepointReader}
    {r r1 : SafepointReader} (h : r.getSlotFromBitmap = r1.getSlotFromBitmap) :
    getSlotThen finish r = getSlotThen finish r1 := by
  rw [getSlotThen, h, getSlotThen]

/-- The slots of the current chunk. -/
lemma enumerates_chunk (finish : SafepointReader → Option SafepointReader)
    {r r' : SafepointReader} {l : List (BitVec 32)}
    (hl : Enumerates (getSlotThen finish) { r with currentSlotChunk := 0#32 } l r') :
    Enumerates (getSlotThen finish) r
      ((chunkBits r.currentSlotChunk).map (fun i => slotOf (32 * r.currentSlotChunkNumber + i)) ++
        l) r' := by
  induction hn : r.currentSlotChunk.toNat using Nat.strongRecOn generalizing r with
  | ind n ih =>
    rw [chunkBits]
    by_cases hc : r.currentSlotChunk = 0#32
    · rw [if_pos hc]
      rw [← hc] at hl
      exact hl
    · rw [if_neg hc, map_cons, cons_append]
      have hcall : getSlotThen finish r =
          some (some (slotOf (32 * r.currentSlotChunkNumber + floorLog2 r.currentSlotChunk)),
            { r with currentSlotChunk :=
                r.currentSlotChunk &&& ~~~(1#32 <<< floorLog2 r.currentSlotChunk) }) := by
        rw [getSlotThen, getSlotFromBitmap, if_neg hc, slotOf, Nat.mul_comm 32]
        rfl
      refine .more hcall ?_
      rw [← hn] at ih
      exact ih _ (clear_lt hc) hl rfl

/-- All the slots of a bitmap. -/
lemma enumerates_bitmap {finish : SafepointReader → Option SafepointReader}
    {words : List (BitVec 32)} {rest : List Byte} {r r' : SafepointReader}
    (hstream : r.stream = words.flatMap unsignedBytes ++ rest)
    (hnumber : r.currentSlotChunkNumber + 1 + words.length =
      rawLengthForBits r.frameSlots.toNat)
    (hfinish : finish { r with
        stream := rest, currentSlotChunk := 0#32,
        currentSlotChunkNumber := rawLengthForBits r.frameSlots.toNat } = some r') :
    Enumerates (getSlotThen finish) r
      ((bitmapFrom r.currentSlotChunkNumber (r.currentSlotChunk :: words)).map slotOf) r' := by
  induction words generalizing r with
  | nil =>
    rw [flatMap_nil, nil_append] at hstream
    rw [length_nil, Nat.add_zero] at hnumber
    have hlast := enumerates_chunk finish (r := r) (l := []) (.done (by
      rw [getSlotThen, getSlotFromBitmap, if_pos rfl]
      simp only
      rw [if_pos hnumber]
      subst hstream
      simp only [Option.bind_eq_bind, Option.bind_some]
      rw [hnumber, hfinish]
      rfl))
    simpa [bitmapFrom, Function.comp_def] using hlast
  | cons c words ih =>
    have hnext := ih (r := { r with
        currentSlotChunkNumber := r.currentSlotChunkNumber + 1, currentSlotChunk := c,
        stream := words.flatMap unsignedBytes ++ rest }) rfl
      (by rw [← hnumber, length_cons]; simp only; omega) hfinish
    have hcall : ({ r with currentSlotChunk := 0#32 } : SafepointReader).getSlotFromBitmap =
        ({ r with
          currentSlotChunkNumber := r.currentSlotChunkNumber + 1, currentSlotChunk := c,
          stream := words.flatMap unsignedBytes ++ rest } : SafepointReader).getSlotFromBitmap := by
      have hread : readUnsigned r.stream = some (c, words.flatMap unsignedBytes ++ rest) := by
        rw [hstream, flatMap_cons, append_assoc]
        exact reads_unsignedBytes c _
      rw [length_cons] at hnumber
      rw [getSlotFromBitmap, if_pos rfl]
      simp only
      rw [if_neg (by omega)]
      split
      · rename_i hnone
        rw [hread] at hnone
        cases hnone
      · rename_i chunk stream hsome
        rw [hread] at hsome
        cases hsome
        rfl
    have hall := enumerates_chunk finish (hnext.congr (getSlotThen_congr hcall))
    rw [bitmapFrom, map_append, map_map]
    exact hall

end SafepointReader

/-! ## Torn values -/

section

variable {b : Build}

/-- The four fields that are read of a header. -/
def headerFields (header : BitVec 16) : List (BitVec 16) :=
  [(header >>> typeKindShift) &&& partKindMask, (header >>> payloadKindShift) &&& partKindMask,
    (header >>> typeInfoShift) &&& partInfoMask, (header >>> payloadInfoShift) &&& partInfoMask]

lemma headerFields_or (x y : BitVec 16) :
    headerFields (x ||| y) = List.zipWith (· ||| ·) (headerFields x) (headerFields y) := by
  simp only [headerFields, BitVec.ushiftRight_or_distrib, BitVec.and_or_distrib_right]
  rfl

lemma headerFields_kind : ∀ kind : Fin 3,
    headerFields (BitVec.ofNat 16 kind.val <<< typeKindShift) = [BitVec.ofNat 16 kind.val, 0, 0, 0] ∧
      headerFields (BitVec.ofNat 16 kind.val <<< payloadKindShift) =
        [0, BitVec.ofNat 16 kind.val, 0, 0] := by
  decide

lemma headerFields_info : ∀ info : Fin 32,
    headerFields ((BitVec.ofNat 32 info.val <<< typeInfoShift).setWidth 16) =
        [0, 0, BitVec.ofNat 16 info.val, 0] ∧
      headerFields ((BitVec.ofNat 32 info.val <<< payloadInfoShift).setWidth 16) =
        [0, 0, 0, BitVec.ofNat 16 info.val] := by
  decide

/-- The fields of a header. -/
lemma header_fields (typeKind payloadKind : Fin 3) (typeInfo payloadInfo : Fin 32) :
    let header : BitVec 16 := 0#16 ||| (BitVec.ofNat 16 typeKind.val <<< typeKindShift) |||
      (BitVec.ofNat 16 payloadKind.val <<< payloadKindShift) |||
      (BitVec.ofNat 32 typeInfo.val <<< typeInfoShift).setWidth 16 |||
      (BitVec.ofNat 32 payloadInfo.val <<< payloadInfoShift).setWidth 16
    (header >>> typeKindShift) &&& partKindMask = BitVec.ofNat 16 typeKind.val ∧
      (header >>> payloadKindShift) &&& partKindMask = BitVec.ofNat 16 payloadKind.val ∧
      (header >>> typeInfoShift) &&& partInfoMask = BitVec.ofNat 16 typeInfo.val ∧
      (header >>> payloadInfoShift) &&& partInfoMask = BitVec.ofNat 16 payloadInfo.val := by
  intro header
  have hfields : headerFields header = [BitVec.ofNat 16 typeKind.val,
      BitVec.ofNat 16 payloadKind.val, BitVec.ofNat 16 typeInfo.val,
      BitVec.ofNat 16 payloadInfo.val] := by
    rw [headerFields_or, headerFields_or, headerFields_or, BitVec.zero_or,
      (headerFields_kind typeKind).1, (headerFields_kind payloadKind).2,
      (headerFields_info typeInfo).1, (headerFields_info payloadInfo).2]
    simp
  simpa only [headerFields, List.cons.injEq, and_true] using hfields

/-- What the header says of a part. -/
def partInfo (part : NunboxPart b) : BitVec 32 :=
  if (canEncodeInfoInHeader part).1 then (canEncodeInfoInHeader part).2 else maxInfoValue

lemma registersTotal_le (b : Build) : b.registersTotal ≤ 16 := by
  unfold Build.registersTotal
  cases b.arch <;> decide

lemma partInfo_lt (part : NunboxPart b) : (partInfo part).toNat < 32 := by
  unfold partInfo
  split_ifs with hfits
  · cases part with
    | register reg =>
      have hreg := reg.isLt
      have htotal := registersTotal_le b
      show (BitVec.ofNat 32 reg.val).toNat < 32
      rw [BitVec.toNat_ofNat]
      omega
    | stackSlot slot =>
      simp only [canEncodeInfoInHeader, decide_eq_true_eq, BitVec.lt_def] at hfits
      show slot.toNat < 32
      simp only [BitVec.toNat_ofNat] at hfits
      omega
    | argument index =>
      simp only [canEncodeInfoInHeader, decide_eq_true_eq, BitVec.lt_def] at hfits
      show index.toNat < 32
      simp only [BitVec.toNat_ofNat] at hfits
      omega
  · decide

lemma partKind_lt (part : NunboxPart b) : (allocationToPartKind part).toNat < 3 := by
  cases part with
  | register => exact (by decide : partReg.toNat < 3)
  | stackSlot => exact (by decide : partStack.toNat < 3)
  | argument => exact (by decide : partArg.toNat < 3)

lemma nunboxHeader_fields (type payload : NunboxPart b) :
    (nunboxHeader type payload >>> typeKindShift) &&& partKindMask = allocationToPartKind type ∧
      (nunboxHeader type payload >>> payloadKindShift) &&& partKindMask =
        allocationToPartKind payload ∧
      (nunboxHeader type payload >>> typeInfoShift) &&& partInfoMask =
        (partInfo type).setWidth 16 ∧
      (nunboxHeader type payload >>> payloadInfoShift) &&& partInfoMask =
        (partInfo payload).setWidth 16 := by
  have hfields := header_fields ⟨_, partKind_lt type⟩ ⟨_, partKind_lt payload⟩
    ⟨_, partInfo_lt type⟩ ⟨_, partInfo_lt payload⟩
  simp only [BitVec.ofNat_toNat, BitVec.setWidth_eq] at hfields
  exact hfields

/-- A part in memory: its number is in the header or extra. -/
lemma transmits_memory {part : NunboxPart b} {value : BitVec 32}
    (hcan : canEncodeInfoInHeader part = (decide (value < maxInfoValue), value))
    {k : BitVec 32 → Reader Byte (NunboxPart b)} (hk : Reads (k value) [] part) :
    Transmits (writeExtra · part) (do
      let info ←
        (if partInfo part = maxInfoValue then readUnsigned else pure (partInfo part))
      k info) part := by
  have hextra : ∀ buffer, writeExtra buffer part =
      if value < maxInfoValue then buffer else buffer.writeUnsigned value := by
    intro buffer
    rw [writeExtra, hcan]
    by_cases hfits : value < maxInfoValue
    · simp [hfits]
    · simp [hfits]
  have hinfo : partInfo part = if value < maxInfoValue then value else maxInfoValue := by
    rw [partInfo, hcan]
    simp only [decide_eq_true_eq]
  by_cases hfits : value < maxInfoValue
  · rw [if_pos hfits] at hinfo
    have hne : value ≠ maxInfoValue := by
      rintro rfl
      exact absurd hfits (by decide)
    refine ⟨[], fun buffer => ?_, ?_⟩
    · simp only [hextra, if_pos hfits, append_nil]
    · rw [hinfo, if_neg hne]
      exact (Reads.pure value).bind_nil hk
  · rw [if_neg hfits] at hinfo
    refine ⟨unsignedBytes value, fun buffer => ?_, ?_⟩
    · simp only [hextra, if_neg hfits, writeUnsigned_eq]
    · rw [hinfo, if_pos rfl]
      exact (reads_unsignedBytes value).bind_done hk

/-- A part is read from its kind, its info and what is extra. -/
lemma transmits_part (part : NunboxPart b) :
    Transmits (writeExtra · part)
      (SafepointReader.partFromStream b (allocationToPartKind part) ((partInfo part).setWidth 16))
      part := by
  have hinfo : ((partInfo part).setWidth 16).setWidth 32 = partInfo part := by
    apply BitVec.eq_of_toNat_eq
    have hlt := partInfo_lt part
    rw [BitVec.toNat_setWidth, BitVec.toNat_setWidth]
    omega
  cases part with
  | register reg =>
    have hreg := reg.isLt
    have htotal := registersTotal_le b
    have hval : ((partInfo (.register reg)).setWidth 16).toNat = reg.val := by
      show ((BitVec.ofNat 32 reg.val).setWidth 16).toNat = reg.val
      rw [BitVec.toNat_setWidth, BitVec.toNat_ofNat]
      omega
    refine ⟨[], fun buffer => (append_nil buffer).symm, ?_⟩
    unfold SafepointReader.partFromStream
    rw [allocationToPartKind, if_pos rfl]
    apply Reads.ofOption
    rw [dif_pos (by rw [hval]; exact hreg)]
    simp only [hval]
  | stackSlot slot =>
    unfold SafepointReader.partFromStream
    rw [allocationToPartKind, if_neg (by decide), hinfo]
    refine transmits_memory rfl ?_
    rw [if_pos rfl]
    exact Reads.pure _
  | argument index =>
    unfold SafepointReader.partFromStream
    rw [allocationToPartKind, if_neg (by decide), hinfo]
    refine transmits_memory rfl ?_
    rw [if_neg (by decide), if_pos rfl]
    exact Reads.pure _

lemma transmits_nunboxEntry (entry : NunboxPart b × NunboxPart b) :
    Transmits (writeNunboxEntry · entry) (SafepointReader.readNunboxEntry b) entry := by
  obtain ⟨type, payload⟩ := entry
  obtain ⟨htypeKind, hpayloadKind, htypeInfo, hpayloadInfo⟩ := nunboxHeader_fields type payload
  have hpayload : Transmits (writeExtra · payload) (do
      let payload ← SafepointReader.partFromStream b (allocationToPartKind payload)
        ((partInfo payload).setWidth 16)
      pure (type, payload)) (type, payload) :=
    (transmits_part payload).map fun payload => (type, payload)
  have hparts : Transmits (fun stream => writeExtra (writeExtra stream type) payload) (do
      let type ← SafepointReader.partFromStream b (allocationToPartKind type)
        ((partInfo type).setWidth 16)
      let payload ← SafepointReader.partFromStream b (allocationToPartKind payload)
        ((partInfo payload).setWidth 16)
      pure (type, payload)) (type, payload) :=
    (transmits_part type).bind hpayload fun _ => rfl
  unfold SafepointReader.readNunboxEntry
  refine Transmits.bind (transmits_fixedUint16 (nunboxHeader type payload))
    (?_ : Transmits (fun stream => writeExtra (writeExtra stream type) payload) _ (type, payload))
    fun _ => rfl
  simp only
  rw [htypeKind, hpayloadKind, htypeInfo, hpayloadInfo]
  exact hparts

/-- The bytes of an entry. -/
def entryBytes (entry : NunboxPart b × NunboxPart b) : List Byte := writeNunboxEntry [] entry

lemma foldl_writeNunboxEntry (buffer : CompactBuffer)
    (entries : List (NunboxPart b × NunboxPart b)) :
    entries.foldl writeNunboxEntry buffer = buffer ++ entries.flatMap entryBytes := by
  induction entries generalizing buffer with
  | nil => rw [foldl_nil, flatMap_nil, append_nil]
  | cons e entries ih =>
    have happend : writeNunboxEntry buffer e = buffer ++ entryBytes e :=
      (transmits_nunboxEntry e).append buffer
    rw [foldl_cons, happend, ih, flatMap_cons, append_assoc]

lemma enumerates_nunboxParts {entries : List (NunboxPart b × NunboxPart b)} {rest : List Byte}
    {r : SafepointReader} (hlength : entries.length < 2 ^ 32)
    (hremaining : r.nunboxSlotsRemaining = some (BitVec.ofNat 32 entries.length))
    (hstream : r.stream = entries.flatMap entryBytes ++ rest) :
    ∃ r', Enumerates (SafepointReader.getNunboxSlot b) r entries r' := by
  induction entries generalizing r with
  | nil =>
    refine ⟨{ r with nunboxSlotsRemaining := some (0#32 - 1#32) }, .done ?_⟩
    rw [SafepointReader.getNunboxSlot, hremaining]
    rfl
  | cons e entries ih =>
    rw [length_cons] at hlength hremaining
    have hne : BitVec.ofNat 32 (entries.length + 1) ≠ 0#32 := by
      intro h
      have hnat := congrArg BitVec.toNat h
      rw [BitVec.toNat_ofNat, Nat.mod_eq_of_lt hlength] at hnat
      exact absurd hnat (Nat.succ_ne_zero _)
    have hpred : BitVec.ofNat 32 (entries.length + 1) - 1#32 = BitVec.ofNat 32 entries.length :=
      slotOf_sub entries.length
    have hread : SafepointReader.readNunboxEntry b r.stream =
        some (e, entries.flatMap entryBytes ++ rest) := by
      rw [hstream, flatMap_cons, append_assoc]
      exact (transmits_nunboxEntry e).reads _
    obtain ⟨r', hr'⟩ := ih (r := { r with
        nunboxSlotsRemaining := some (BitVec.ofNat 32 entries.length),
        stream := entries.flatMap entryBytes ++ rest }) (by omega) rfl rfl
    refine ⟨r', .more ?_ hr'⟩
    rw [SafepointReader.getNunboxSlot, hremaining]
    simp only [Option.bind_eq_bind, Option.bind_some, if_neg hne, hread, hpred]

/-! ## Entries -/

lemma writeRegisterMask_eq (buffer : CompactBuffer) (bits : BitVec 32) :
    writeRegisterMask b buffer bits = some (buffer ++ unsignedBytes bits) := by
  have hsize : b.packedRegisterMaskSize ≠ 8 := by
    unfold Build.packedRegisterMaskSize
    cases b.arch <;> decide
  rw [writeRegisterMask, if_neg hsize, writeUnsigned_eq]

/-- The bitmap that is written has the slots. -/
structure HoldsSlots (slotCount : BitVec 32) (set : BitSet) (slots : List (BitVec 32)) : Prop where
  max : set.max = slotCount.toNat
  bits : ∀ n, hasBit set.words n = true ↔ ∃ slot ∈ slots, (slot - 1#32).toNat = n

variable {slotCount : BitVec 32} {slots : List (BitVec 32)}

lemma writeSlots_spec {w : SafepointWriter} (hmax : w.frameSlots.max = slotCount.toNat)
    (hslots : ∀ slot ∈ slots, (slot - 1#32).toNat ≤ slotCount.toNat) :
    ∃ set, w.writeSlots slots = some ⟨w.stream ++ set.words.flatMap unsignedBytes, set⟩ ∧
      HoldsSlots slotCount set slots := by
  have hclear : w.frameSlots.clear.max = slotCount.toNat := hmax
  obtain ⟨set, hset, hmax', hbits⟩ := BitSet.insert_slots w.frameSlots.clear (by
    rw [hclear]
    exact hslots)
  refine ⟨set, ?_, hmax'.trans hclear, fun n => ?_⟩
  · rw [SafepointWriter.writeSlots, mapSlotsToBitset, hset]
    simp only [Option.bind_eq_bind, Option.bind_some, foldl_writeUnsigned]
  · rw [hbits, BitSet.hasBit_clear]
    simp

lemma HoldsSlots.enumerates {set : BitSet} (h : HoldsSlots slotCount set slots) :
    ∃ c words, set.words = c :: words ∧
      words.length + 1 = rawLengthForBits slotCount.toNat ∧
      ((bitmapFrom 0 (c :: words)).map slotOf).Nodup ∧
      ∀ slot, slot ∈ (bitmapFrom 0 (c :: words)).map slotOf ↔ slot ∈ slots := by
  have hlength := set.length_words
  rw [h.max] at hlength
  have hmem : ∀ n, n ∈ bitmapFrom 0 set.words ↔ ∃ slot ∈ slots, (slot - 1#32).toNat = n := by
    intro n
    rw [mem_bitmapFrom, ← h.bits]
    simp
  cases hwords : set.words with
  | nil =>
    rw [hwords, length_nil, rawLengthForBits] at hlength
    omega
  | cons c words =>
    rw [hwords] at hlength hmem
    refine ⟨c, words, rfl, hlength, ?_, fun slot => ?_⟩
    · refine pairwise_map.mpr ((nodup_bitmapFrom 0 _).imp_of_mem ?_)
      intro n m hn hm hne heq
      obtain ⟨s, _, rfl⟩ := (hmem n).mp hn
      obtain ⟨s', _, rfl⟩ := (hmem m).mp hm
      exact hne (slotOf_inj (s - 1#32).isLt (s' - 1#32).isLt heq)
    · rw [mem_map]
      constructor
      · rintro ⟨n, hn, rfl⟩
        obtain ⟨s, hs, rfl⟩ := (hmem n).mp hn
        rwa [slotOf_toNat]
      · intro hslot
        exact ⟨_, (hmem _).mpr ⟨slot, hslot, rfl⟩, slotOf_toNat slot⟩

/-- The reader opened on the stream gives back the safepoint, each slot once, and then says that
there are no more. -/
def Returns (slotCount : BitVec 32) (stream : List Byte) (safepoint : LSafepoint b) : Prop :=
  ∃ r r1 r2 gcSlots valueSlots, SafepointReader.new slotCount stream = some r ∧
    r.osiCallPointOffset = safepoint.osiCallPointOffset ∧ r.allSpills = safepoint.liveRegs ∧
    r.gcSpills = safepoint.gcRegs ∧
    Enumerates (SafepointReader.getGcSlot b) r gcSlots r1 ∧ gcSlots.Nodup ∧
    (∀ slot, slot ∈ gcSlots ↔ slot ∈ safepoint.gcSlots) ∧
    Enumerates (SafepointReader.getValueSlot b) r1 valueSlots r2 ∧ valueSlots.Nodup ∧
    (∀ slot, slot ∈ valueSlots ↔ slot ∈ safepoint.valueSlots) ∧
    (b.boxing = .nunbox32 →
      ∃ r3, Enumerates (SafepointReader.getNunboxSlot b) r2 safepoint.nunboxParts r3)

/-- The slots of the safepoint are slots of the frame. -/
def SlotsOf (slotCount : BitVec 32) (safepoint : LSafepoint b) : Prop :=
  (∀ slot ∈ safepoint.gcSlots, (slot - 1#32).toNat ≤ slotCount.toNat) ∧
    ∀ slot ∈ safepoint.valueSlots, (slot - 1#32).toNat ≤ slotCount.toNat

/-- The bytes before the first bitmap. -/
def startBytes (safepoint : LSafepoint b) : List Byte :=
  unsignedBytes safepoint.osiCallPointOffset ++ (unsignedBytes safepoint.liveRegs ++
    if safepoint.liveRegs ≠ 0#32 then unsignedBytes safepoint.gcRegs else [])

/-- The reader before the rest of the first bitmap. -/
def startReader (slotCount : BitVec 32) (safepoint : LSafepoint b) (c : BitVec 32)
    (rest : List Byte) : SafepointReader where
  stream := rest
  frameSlots := slotCount
  currentSlotChunk := c
  currentSlotChunkNumber := 0
  osiCallPointOffset := safepoint.osiCallPointOffset
  gcSpills := safepoint.gcRegs
  allSpills := safepoint.liveRegs
  nunboxSlotsRemaining := none

lemma reads_gcSpills (safepoint : LSafepoint b) :
    Reads (if safepoint.liveRegs = 0#32 then pure safepoint.liveRegs else readUnsigned)
      (if safepoint.liveRegs ≠ 0#32 then unsignedBytes safepoint.gcRegs else [])
      safepoint.gcRegs := by
  by_cases hempty : safepoint.liveRegs = 0#32
  · have hgc := safepoint.gcRegs_subset
    rw [hempty, BitVec.not_zero, BitVec.and_allOnes] at hgc
    rw [if_pos hempty, if_neg (not_not_intro hempty), hgc, hempty]
    exact Reads.pure _
  · rw [if_neg hempty, if_pos hempty]
    exact reads_unsignedBytes _

lemma new_spec (slotCount : BitVec 32) (safepoint : LSafepoint b) (c : BitVec 32)
    (rest : List Byte) :
    SafepointReader.new slotCount (startBytes safepoint ++ (unsignedBytes c ++ rest)) =
      some (startReader slotCount safepoint c rest) := by
  have hchunk := (reads_unsignedBytes c).map (startReader slotCount safepoint)
  have hread : Reads (SafepointReader.readStart slotCount)
      (unsignedBytes safepoint.osiCallPointOffset ++ (unsignedBytes safepoint.liveRegs ++
        ((if safepoint.liveRegs ≠ 0#32 then unsignedBytes safepoint.gcRegs else []) ++
          unsignedBytes c))) (startReader slotCount safepoint c) :=
    (reads_unsignedBytes _).bind ((reads_unsignedBytes _).bind
      ((reads_gcSpills safepoint).bind hchunk))
  have hstart := hread rest
  rw [SafepointReader.new, startBytes]
  simp only [append_assoc] at hstart ⊢
  rw [hstart]
  rfl

/-- The slots of a bitmap, and what comes after. -/
lemma HoldsSlots.getSlotThen {set : BitSet} (h : HoldsSlots slotCount set slots)
    (finish : SafepointReader → Option SafepointReader) (rest : List Byte) :
    ∃ c words out, set.words = c :: words ∧ out.Nodup ∧ (∀ slot, slot ∈ out ↔ slot ∈ slots) ∧
      ∀ r r' : SafepointReader, r.frameSlots = slotCount → r.currentSlotChunkNumber = 0 →
        r.currentSlotChunk = c → r.stream = words.flatMap unsignedBytes ++ rest →
        finish { r with
          stream := rest, currentSlotChunk := 0#32,
          currentSlotChunkNumber := rawLengthForBits slotCount.toNat } = some r' →
        Enumerates (SafepointReader.getSlotThen finish) r out r' := by
  obtain ⟨c, words, hwords, hlength, hnodup, hmem⟩ := h.enumerates
  refine ⟨c, words, _, hwords, hnodup, hmem, ?_⟩
  intro r r' hslots hnumber hchunk hstream hfinish
  rw [← hslots] at hlength hfinish
  rw [← hchunk, ← hnumber]
  exact SafepointReader.enumerates_bitmap hstream (by rw [hnumber]; omega) hfinish

variable {safepoint : LSafepoint b}

lemma returns_punbox (hboxing : b.boxing = .punbox64) {gcSet : BitSet}
    (hgc : HoldsSlots slotCount gcSet safepoint.gcSlots) (rest : List Byte) :
    Returns slotCount (startBytes safepoint ++ gcSet.words.flatMap unsignedBytes ++ rest)
      safepoint := by
  obtain ⟨c, words, out, hwords, hnodup, hmem, henumerates⟩ :=
    hgc.getSlotThen (SafepointReader.advanceFromGcSlots b) rest
  have hnew := new_spec slotCount safepoint c (words.flatMap unsignedBytes ++ rest)
  rw [← append_assoc (unsignedBytes c), ← flatMap_cons, ← hwords,
    ← append_assoc] at hnew
  let r1 := startReader slotCount safepoint 0#32 rest
  have hgcSlots := henumerates (startReader slotCount safepoint c
    (words.flatMap unsignedBytes ++ rest)) r1 rfl rfl rfl rfl (by
      rw [SafepointReader.advanceFromGcSlots, hboxing]
      rfl)
  have hvalueSlots : Enumerates (SafepointReader.getValueSlot b) r1 [] r1 :=
    .done (by rw [SafepointReader.getValueSlot, hboxing])
  have hvalues : ∀ slot, slot ∈ ([] : List (BitVec 32)) ↔ slot ∈ safepoint.valueSlots := by
    rw [safepoint.valueSlots_punbox hboxing]
    exact fun _ => Iff.rfl
  refine ⟨_, r1, r1, out, [], hnew, rfl, rfl, rfl, hgcSlots, hnodup, hmem, hvalueSlots,
    nodup_nil, hvalues, fun h => ?_⟩
  rw [hboxing] at h
  cases h

/-- The bytes of the torn values. -/
def partsBytes (safepoint : LSafepoint b) : List Byte :=
  unsignedBytes (BitVec.ofNat 32 safepoint.nunboxParts.length) ++
    safepoint.nunboxParts.flatMap entryBytes

lemma returns_nunbox (hboxing : b.boxing = .nunbox32) {gcSet valueSet : BitSet}
    (hgc : HoldsSlots slotCount gcSet safepoint.gcSlots)
    (hvalue : HoldsSlots slotCount valueSet safepoint.valueSlots) (rest : List Byte) :
    Returns slotCount (startBytes safepoint ++ (gcSet.words.flatMap unsignedBytes ++
      (valueSet.words.flatMap unsignedBytes ++ partsBytes safepoint)) ++ rest) safepoint := by
  obtain ⟨c', words', out', hwords', hnodup', hmem', henumerates'⟩ :=
    hvalue.getSlotThen (SafepointReader.advanceFromValueSlots b) (partsBytes safepoint ++ rest)
  obtain ⟨c, words, out, hwords, hnodup, hmem, henumerates⟩ :=
    hgc.getSlotThen (SafepointReader.advanceFromGcSlots b)
      (unsignedBytes c' ++ (words'.flatMap unsignedBytes ++ (partsBytes safepoint ++ rest)))
  have hnew := new_spec slotCount safepoint c (words.flatMap unsignedBytes ++
    (unsignedBytes c' ++ (words'.flatMap unsignedBytes ++ (partsBytes safepoint ++ rest))))
  let entries := safepoint.nunboxParts.flatMap entryBytes ++ rest
  let r1 := startReader slotCount safepoint c'
    (words'.flatMap unsignedBytes ++ (partsBytes safepoint ++ rest))
  let r2 : SafepointReader := { startReader slotCount safepoint 0#32 entries with
    currentSlotChunkNumber := rawLengthForBits slotCount.toNat
    nunboxSlotsRemaining := some (BitVec.ofNat 32 safepoint.nunboxParts.length) }
  have hgcSlots := henumerates (startReader slotCount safepoint c _) r1 rfl rfl rfl rfl (by
    rw [SafepointReader.advanceFromGcSlots, hboxing]
    simp only [reads_unsignedBytes c' _, Option.bind_eq_bind, Option.bind_some]
    rfl)
  have hcount : readUnsigned (partsBytes safepoint ++ rest) =
      some (BitVec.ofNat 32 safepoint.nunboxParts.length, entries) := by
    rw [partsBytes, append_assoc]
    exact reads_unsignedBytes _ _
  have hvalueSlots : Enumerates (SafepointReader.getValueSlot b) r1 out' r2 := by
    have hall := henumerates' r1 r2 rfl rfl rfl rfl (by
      rw [SafepointReader.advanceFromValueSlots, hboxing]
      simp only [hcount, Option.bind_eq_bind, Option.bind_some]
      rfl)
    have hsame : SafepointReader.getValueSlot b =
        SafepointReader.getSlotThen (SafepointReader.advanceFromValueSlots b) := by
      funext r
      rw [SafepointReader.getValueSlot, hboxing]
      rfl
    rw [hsame]
    exact hall
  have hstream : startBytes safepoint ++ (gcSet.words.flatMap unsignedBytes ++
      (valueSet.words.flatMap unsignedBytes ++ partsBytes safepoint)) ++ rest =
        startBytes safepoint ++ (unsignedBytes c ++ (words.flatMap unsignedBytes ++
          (unsignedBytes c' ++ (words'.flatMap unsignedBytes ++
            (partsBytes safepoint ++ rest))))) := by
    rw [hwords, hwords', flatMap_cons, flatMap_cons]
    simp only [append_assoc]
  rw [hstream]
  exact ⟨_, r1, r2, out, out', hnew, rfl, rfl, rfl, hgcSlots, hnodup, hmem, hvalueSlots, hnodup',
    hmem', fun _ => enumerates_nunboxParts safepoint.length_nunboxParts rfl rfl⟩

lemma encodeSafepoint_spec {w : SafepointWriter} (hmax : w.frameSlots.max = slotCount.toNat)
    (hslots : SlotsOf slotCount safepoint) :
    ∃ w' bytes, w.encodeSafepoint safepoint = some (w', w.stream.length) ∧
      w'.stream = w.stream ++ bytes ∧ w'.frameSlots.max = slotCount.toNat ∧
      ∀ rest, Returns slotCount (bytes ++ rest) safepoint := by
  -- the registers
  have hregs : (w.writeOsiCallPointOffset safepoint.osiCallPointOffset).writeGcRegs b
      safepoint.gcRegs safepoint.liveRegs =
        some { w with stream := w.stream ++ startBytes safepoint } := by
    simp only [SafepointWriter.writeGcRegs, SafepointWriter.writeOsiCallPointOffset,
      writeUnsigned_eq, writeRegisterMask_eq, Option.bind_eq_bind, Option.bind_some,
      safepoint.gcRegs_subset, if_true, startBytes]
    by_cases hempty : safepoint.liveRegs = 0#32
    · simp [hempty]
    · simp [hempty, append_assoc]
  obtain ⟨gcSet, hgcWrite, hgc⟩ := writeSlots_spec
    (w := { w with stream := w.stream ++ startBytes safepoint }) hmax hslots.1
  cases hboxing : b.boxing with
  | punbox64 =>
    refine ⟨⟨w.stream ++ startBytes safepoint ++ gcSet.words.flatMap unsignedBytes, gcSet⟩,
      startBytes safepoint ++ gcSet.words.flatMap unsignedBytes, ?_, ?_, hgc.max,
      fun rest => returns_punbox hboxing hgc rest⟩
    · rw [SafepointWriter.encodeSafepoint, hregs]
      simp only [Option.bind_eq_bind, Option.bind_some, SafepointWriter.writeGcSlots, hgcWrite,
        hboxing]
      rfl
    · rw [append_assoc]
  | nunbox32 =>
    obtain ⟨valueSet, hvalueWrite, hvalue⟩ := writeSlots_spec
      (w := ⟨w.stream ++ startBytes safepoint ++ gcSet.words.flatMap unsignedBytes, gcSet⟩) hgc.max
      hslots.2
    refine ⟨⟨w.stream ++ startBytes safepoint ++ gcSet.words.flatMap unsignedBytes ++
        valueSet.words.flatMap unsignedBytes ++ partsBytes safepoint, valueSet⟩,
      startBytes safepoint ++ (gcSet.words.flatMap unsignedBytes ++
        (valueSet.words.flatMap unsignedBytes ++ partsBytes safepoint)), ?_, ?_, hvalue.max,
      fun rest => returns_nunbox hboxing hgc hvalue rest⟩
    · rw [SafepointWriter.encodeSafepoint, hregs]
      simp only [Option.bind_eq_bind, Option.bind_some, SafepointWriter.writeGcSlots, hgcWrite,
        hboxing, SafepointWriter.writeValueSlots, hvalueWrite, SafepointWriter.writeNunboxParts,
        writeUnsigned_eq, foldl_writeNunboxEntry, partsBytes]
      simp only [append_assoc]
      rfl
    · simp only [append_assoc]

lemma encodeSafepoints_spec {w : SafepointWriter} (hmax : w.frameSlots.max = slotCount.toNat)
    {safepoints : List (LSafepoint b)}
    (hslots : ∀ safepoint ∈ safepoints, SlotsOf slotCount safepoint) :
    ∃ w' bytes offsets, w.encodeSafepoints safepoints = some (w', offsets) ∧
      w'.stream = w.stream ++ bytes ∧ offsets.length = safepoints.length ∧
      ∀ (i : Nat) (safepoint : LSafepoint b) (offset : Nat), safepoints[i]? = some safepoint →
        offsets[i]? = some offset → Returns slotCount (w'.stream.drop offset) safepoint := by
  induction safepoints generalizing w with
  | nil => exact ⟨w, [], [], rfl, (append_nil _).symm, rfl, by simp⟩
  | cons safepoint safepoints ih =>
    obtain ⟨w1, bytes, hencode, hstream, hmax1, hreturns⟩ :=
      encodeSafepoint_spec hmax (hslots safepoint mem_cons_self)
    obtain ⟨w2, bytes', offsets, hrest, hstream', hlength, hall⟩ :=
      ih hmax1 fun s hs => hslots s (mem_cons_of_mem _ hs)
    refine ⟨w2, bytes ++ bytes', w.stream.length :: offsets, ?_, ?_, ?_, ?_⟩
    · rw [SafepointWriter.encodeSafepoints, hencode]
      simp only [Option.bind_eq_bind, Option.bind_some, hrest]
    · rw [hstream', hstream, append_assoc]
    · rw [length_cons, length_cons, hlength]
    · intro i s offset hi hoffset
      cases i with
      | succ i => exact hall i s offset hi hoffset
      | zero =>
        cases hi
        cases hoffset
        rw [hstream', hstream, append_assoc, drop_left]
        exact hreturns bytes'

/-- A reader opened at the offset of an entry of the table returns the safepoint that was written
there. -/
theorem encodeSafepoints_returns (b : Build) (slotCount : BitVec 32)
    (safepoints : List (LSafepoint b))
    (hslots : ∀ safepoint ∈ safepoints, SlotsOf slotCount safepoint) :
    ∃ w offsets,
      (SafepointWriter.init slotCount).encodeSafepoints safepoints = some (w, offsets) ∧
        offsets.length = safepoints.length ∧
        ∀ (i : Nat) (safepoint : LSafepoint b) (offset : Nat), safepoints[i]? = some safepoint →
          offsets[i]? = some offset → Returns slotCount (w.stream.drop offset) safepoint := by
  obtain ⟨w, _, offsets, hencode, _, hlength, hall⟩ :=
    encodeSafepoints_spec (w := SafepointWriter.init slotCount) rfl hslots
  exact ⟨w, offsets, hencode, hlength, hall⟩

/-- A safepoint with a slot of each kind and a torn value whose type does not fit in its header. -/
def sampleSafepoint : LSafepoint ⟨.x86, false⟩ where
  osiCallPointOffset := 300#32
  gcRegs := 1#32
  liveRegs := 3#32
  gcRegs_subset := by decide
  gcSlots := [1#32, 40#32]
  valueSlots := [33#32]
  nunboxParts := [(.stackSlot 31#32, .register ⟨2, by decide⟩), (.argument 4#32, .stackSlot 8#32)]
  length_nunboxParts := by decide
  valueSlots_punbox := by decide
  nunboxParts_punbox := by decide

theorem encodeSafepoints_returns_sample : ∃ w offsets,
    (SafepointWriter.init 64#32).encodeSafepoints [sampleSafepoint, sampleSafepoint] =
        some (w, offsets) ∧
      offsets.length = 2 ∧
      ∀ (i : Nat) (safepoint : LSafepoint ⟨.x86, false⟩) (offset : Nat),
        [sampleSafepoint, sampleSafepoint][i]? = some safepoint → offsets[i]? = some offset →
          Returns 64#32 (w.stream.drop offset) safepoint := by
  have hslots : SlotsOf 64#32 sampleSafepoint := by
    constructor
    · intro slot hslot
      simp only [sampleSafepoint, mem_cons, not_mem_nil, or_false] at hslot
      rcases hslot with rfl | rfl <;> simp
    · intro slot hslot
      simp only [sampleSafepoint, mem_cons, not_mem_nil, or_false] at hslot
      subst hslot
      simp
  refine encodeSafepoints_returns _ 64#32 [sampleSafepoint, sampleSafepoint] ?_
  simp only [forall_mem_cons, not_mem_nil, false_implies, implies_true, and_true]
  exact ⟨hslots, hslots⟩

end

end SpiderMonkey.Ion
