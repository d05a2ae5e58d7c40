import SpiderMonkey.Vm.Script

/-! # Scripts survive encoding, but for `const`

Everything an encoded script has comes back, and the decoder takes exactly the bytes the
encoder made. The bit of a variable in the bitmap of names is read as "declared as `const`",
but is never set, so that a constant comes back as a variable.
-/

namespace SpiderMonkey

open Lib Xdr List

/-! ## The bitmap -/

lemma and_bit_ne_zero {w : Nat} (x : BitVec w) (k : Nat) (hk : k < w) :
    decide (x &&& (1#w <<< k) ≠ 0#w) = x.getLsbD k := by
  have htwo : 1#w <<< k = BitVec.twoPow w k := by
    rw [BitVec.twoPow]
  rw [htwo, BitVec.and_twoPow]
  cases hx : x.getLsbD k with
  | false => simp
  | true =>
    have hne : BitVec.twoPow w k ≠ 0#w := by
      intro h
      have hbit := congrArg (fun y => BitVec.getLsbD y k) h
      simp [hk] at hbit
    simp [hne]

lemma bitmapBit_eq (bitmap : List (BitVec 32)) (i : Nat) :
    bitmapBit bitmap i = (bitmap.getD (i / 32) 0#32).getLsbD (i % 32) :=
  and_bit_ne_zero _ _ (Nat.mod_lt i (by decide))

lemma bitmapBit_setBitmapBit (bitmap : List (BitVec 32)) (i j : Nat)
    (hi : i / 32 < bitmap.length) :
    bitmapBit (setBitmapBit bitmap i) j = (decide (j = i) || bitmapBit bitmap j) := by
  rw [bitmapBit_eq, bitmapBit_eq, setBitmapBit, getD_eq_getElem?_getD, List.getElem?_modify,
    getD_eq_getElem?_getD]
  rcases Decidable.em (i / 32 = j / 32) with hword | hword
  · have hj : j / 32 < bitmap.length := hword ▸ hi
    have hbit : (1#32 <<< (i % 32)).getLsbD (j % 32) = decide (j = i) := by
      have hmod : j % 32 < 32 := Nat.mod_lt j (by decide)
      have hone : 1#32 <<< (i % 32) = BitVec.twoPow 32 (i % 32) := rfl
      rw [hone, BitVec.getLsbD_twoPow, Bool.eq_iff_iff]
      simp only [Bool.and_eq_true, decide_eq_true_eq]
      omega
    simp only [if_pos hword, List.getElem?_eq_getElem hj, Option.map_eq_map, Option.map_some,
      Option.getD_some, BitVec.getLsbD_or, hbit]
    exact Bool.or_comm _ _
  · have hne : j ≠ i := by
      rintro rfl
      exact hword rfl
    simp [hword, hne]

variable {A : Type}

/-- The bits that are set while the encoder goes over the names, from index `k` on. -/
lemma foldl_setBitmapBit (nargs : Nat) (names : List (Binding A)) (k : Nat)
    (bitmap : List (BitVec 32)) (hroom : k + names.length ≤ 32 * bitmap.length) (j : Nat) :
    bitmapBit ((names.zipIdx k).foldl (fun bitmap p =>
      if p.2 < nargs ∧ p.1.maybeName.isSome then setBitmapBit bitmap p.2 else bitmap) bitmap) j =
        true ↔
      bitmapBit bitmap j = true ∨
        ∃ i x, names[i]? = some x ∧ j = k + i ∧ j < nargs ∧ x.maybeName.isSome := by
  induction names generalizing k bitmap with
  | nil => simp
  | cons name names ih =>
    rw [length_cons] at hroom
    have hword : k / 32 < bitmap.length := by omega
    have hshift : (∃ i x, (name :: names)[i]? = some x ∧ j = k + i ∧ j < nargs ∧
        x.maybeName.isSome) ↔ (j = k ∧ j < nargs ∧ name.maybeName.isSome) ∨
          ∃ i x, names[i]? = some x ∧ j = k + 1 + i ∧ j < nargs ∧ x.maybeName.isSome := by
      constructor
      · rintro ⟨i, x, hx, hj, hlt, hsome⟩
        cases i with
        | zero =>
          cases hx
          exact Or.inl ⟨hj, hlt, hsome⟩
        | succ i => exact Or.inr ⟨i, x, hx, by omega, hlt, hsome⟩
      · rintro (⟨hj, hlt, hsome⟩ | ⟨i, x, hx, hj, hlt, hsome⟩)
        · exact ⟨0, name, rfl, hj, hlt, hsome⟩
        · exact ⟨i + 1, x, hx, by omega, hlt, hsome⟩
    rw [zipIdx_cons, foldl_cons, hshift, ← or_assoc]
    rcases Decidable.em (k < nargs ∧ name.maybeName.isSome) with hset | hunset
    · have hlength : (setBitmapBit bitmap k).length = bitmap.length := by simp [setBitmapBit]
      have hroom' : k + 1 + names.length ≤ 32 * (setBitmapBit bitmap k).length := by
        rw [hlength]
        omega
      rw [if_pos hset, ih (k + 1) _ hroom', bitmapBit_setBitmapBit bitmap k j hword]
      simp only [Bool.or_eq_true, decide_eq_true_eq]
      refine or_congr_left ?_
      constructor
      · rintro (rfl | hbit)
        · exact Or.inr ⟨rfl, hset⟩
        · exact Or.inl hbit
      · rintro (hbit | ⟨rfl, _⟩)
        · exact Or.inr hbit
        · exact Or.inl rfl
    · rw [if_neg hunset, ih (k + 1) _ (by omega)]
      refine or_congr_left ?_
      constructor
      · exact Or.inl
      · rintro (hbit | ⟨rfl, hset⟩)
        · exact hbit
        · exact absurd hset hunset

lemma bitmapBit_replicate (n j : Nat) : bitmapBit (List.replicate n 0#32) j = false := by
  rw [bitmapBit_eq, getD_eq_getElem?_getD, List.getElem?_replicate]
  split <;> simp

/-- A bit of the encoder's bitmap is set exactly for a formal that has a name. -/
lemma bitmapBit_makeBitmap (nargs : Nat) (names : List (Binding A)) {j : Nat} {x : Binding A}
    (hx : names[j]? = some x) :
    bitmapBit (makeBitmap nargs names) j = decide (j < nargs ∧ x.maybeName.isSome) := by
  have hroom : 0 + names.length ≤ 32 * (List.replicate (bitmapLength names.length) 0#32).length := by
    rw [length_replicate, bitmapLength]
    omega
  rw [Bool.eq_iff_iff, decide_eq_true_eq, makeBitmap, foldl_setBitmapBit nargs names 0 _ hroom,
    bitmapBit_replicate]
  constructor
  · rintro (hbit | ⟨i, y, hy, hj, hlt, hsome⟩)
    · cases hbit
    · rw [Nat.zero_add] at hj
      subst hj
      rw [hx] at hy
      cases hy
      exact ⟨hlt, hsome⟩
  · rintro ⟨hlt, hsome⟩
    exact Or.inr ⟨j, x, hx, (Nat.zero_add j).symm, hlt, hsome⟩

lemma length_makeBitmap (nargs : Nat) (names : List (Binding A)) :
    (makeBitmap nargs names).length = bitmapLength names.length := by
  have hfold : ∀ (l : List (Binding A × Nat)) (bitmap : List (BitVec 32)),
      (l.foldl (fun bitmap p => if p.2 < nargs ∧ p.1.maybeName.isSome then
        setBitmapBit bitmap p.2 else bitmap) bitmap).length = bitmap.length := by
    intro l
    induction l with
    | nil =>
      intro bitmap
      rfl
    | cons p l ih =>
      intro bitmap
      rw [foldl_cons, ih]
      split
      · simp [setBitmapBit]
      · rfl
  rw [makeBitmap, hfold, length_replicate]

/-! ## Bindings -/

/-- Bindings as `add` builds them, with the list of what was added. -/
inductive Bindings.Built : Bindings A → List (Binding A) → Prop where
  | empty : Built Bindings.empty []
  | add {b b' l name kind} : Built b l → b.add name kind = some b' → Built b' (l ++ [⟨name, kind⟩])

/-- What `add` makes of a formal. -/
lemma Bindings.add_argument {b b' : Bindings A} {name : Option A}
    (h : b.add name .argument = some b') :
    b.nargs + b.nvars ≠ bindingCountLimit ∧ b.nvars = 0 ∧ b' = {
      nargs := b.nargs + 1
      nvars := b.nvars
      shapes := ⟨name.elim (.int b.nargs) .atom, callObjectReservedSlots + b.nargs, true,
        b.nargs⟩ :: b.shapes } := by
  simp only [Bindings.add, guard] at h
  split at h
  · rename_i hlimit
    split at h
    · rename_i hnvars
      refine ⟨hlimit, hnvars, ?_⟩
      cases name <;> simpa using h.symm
    · simp at h
  · simp at h

/-- What `add` makes of a variable or constant. -/
lemma Bindings.add_variable {b b' : Bindings A} {name : Option A} {kind : BindingKind}
    (hkind : kind ≠ .argument) (h : b.add name kind = some b') :
    b.nargs + b.nvars ≠ bindingCountLimit ∧ ∃ a, name = some a ∧ b' = {
      nargs := b.nargs
      nvars := b.nvars + 1
      shapes := ⟨.atom a, callObjectReservedSlots + (b.nargs + b.nvars),
        decide (kind ≠ .constant), b.nvars⟩ :: b.shapes } := by
  simp only [Bindings.add, guard] at h
  split at h
  · rename_i hlimit
    refine ⟨hlimit, ?_⟩
    cases kind with
    | argument => exact absurd rfl hkind
    | var | constant =>
      cases name with
      | none => simp at h
      | some a => exact ⟨a, rfl, by simpa using h.symm⟩
  · simp at h

lemma Bindings.add_argument_isSome {b : Bindings A} (name : Option A)
    (hlimit : b.nargs + b.nvars ≠ bindingCountLimit) (hnvars : b.nvars = 0) :
    ∃ b', b.add name .argument = some b' := by
  rw [hnvars, Nat.add_zero] at hlimit
  simp [Bindings.add, guard, hlimit, hnvars]

lemma Bindings.add_variable_isSome {b : Bindings A} (kind : BindingKind) (a : A)
    (hkind : kind ≠ .argument) (hlimit : b.nargs + b.nvars ≠ bindingCountLimit) :
    ∃ b', b.add (some a) kind = some b' := by
  cases kind with
  | argument => exact absurd rfl hkind
  | var | constant => simp [Bindings.add, guard, hlimit]

/-- Bindings that hold `l`: the formals first, each at its own slot. -/
structure Bindings.Holds (b : Bindings A) (l : List (Binding A)) : Prop where
  ordered : b.getOrderedBindings = l
  length : l.length = b.nargs + b.nvars
  limit : b.nargs + b.nvars ≤ bindingCountLimit
  slots : b.nvars = 0 → ∀ shape ∈ b.shapes, shape.slot - callObjectReservedSlots < b.nargs
  kinds : ∀ i x, l[i]? = some x → (i < b.nargs ↔ x.kind = .argument)
  named : ∀ x ∈ l, x.kind ≠ .argument → x.maybeName.isSome

lemma Bindings.Holds.add {b b' : Bindings A} {l : List (Binding A)} {name : Option A}
    {kind : BindingKind} (h : b.Holds l) (hadd : b.add name kind = some b') :
    b'.Holds (l ++ [⟨name, kind⟩]) := by
  have hordered : b.shapes.map b.settle = l.reverse := by
    rw [← h.ordered, getOrderedBindings, reverse_reverse]
  have hkinds : ∀ i x, (l ++ [⟨name, kind⟩])[i]? = some x →
      l[i]? = some x ∨ (i = b.nargs + b.nvars ∧ x = ⟨name, kind⟩) := by
    intro i x hx
    rcases Nat.lt_or_ge i l.length with hlt | hge
    · rw [List.getElem?_append_left hlt] at hx
      exact Or.inl hx
    · rw [List.getElem?_append_right hge] at hx
      rcases List.getElem?_eq_some_iff.mp hx with ⟨hlt, hx⟩
      rw [length_singleton] at hlt
      have hi : i = b.nargs + b.nvars := by
        rw [← h.length]
        omega
      simp only [getElem_singleton] at hx
      exact Or.inr ⟨hi, hx.symm⟩
  have hlength : (l ++ [(⟨name, kind⟩ : Binding A)]).length = b.nargs + b.nvars + 1 := by
    rw [length_append, h.length, length_singleton]
  rcases Decidable.em (kind = .argument) with rfl | hkind
  · -- a formal: there are no variables yet, so that every shape is of a formal
    rcases add_argument hadd with ⟨hlimit, hnvars, rfl⟩
    have hsettle : ∀ shape ∈ b.shapes,
        Bindings.settle ⟨b.nargs + 1, b.nvars, []⟩ shape = b.settle shape := by
      intro shape hshape
      have hslot := h.slots hnvars shape hshape
      simp only [settle, if_pos hslot, if_pos (Nat.lt_succ_of_lt hslot)]
    have hmap : b.shapes.map (Bindings.settle ⟨b.nargs + 1, b.nvars, []⟩) = l.reverse := by
      rw [← hordered]
      exact map_congr_left hsettle
    constructor
    · show ((_ :: b.shapes).map (Bindings.settle ⟨b.nargs + 1, b.nvars, []⟩)).reverse = _
      rw [map_cons, hmap, reverse_cons, reverse_reverse]
      cases name <;> simp [settle]
    · rw [hlength]
      show b.nargs + b.nvars + 1 = b.nargs + 1 + b.nvars
      omega
    · show b.nargs + 1 + b.nvars ≤ bindingCountLimit
      have hle := h.limit
      omega
    · intro _ shape hshape
      show shape.slot - callObjectReservedSlots < b.nargs + 1
      rcases mem_cons.mp hshape with rfl | hshape
      · simp
      · exact Nat.lt_succ_of_lt (h.slots hnvars shape hshape)
    · intro i x hx
      show i < b.nargs + 1 ↔ _
      rcases hkinds i x hx with hx | ⟨rfl, rfl⟩
      · have hi : i < l.length := (List.getElem?_eq_some_iff.mp hx).1
        rw [h.length] at hi
        have hold := h.kinds i x hx
        constructor
        · intro _
          exact hold.mp (by omega)
        · intro hx
          exact Nat.lt_succ_of_lt (hold.mpr hx)
      · simp [hnvars]
    · intro x hx hne
      rcases mem_append.mp hx with hx | hx
      · exact h.named x hx hne
      · rw [mem_singleton.mp hx] at hne
        exact absurd rfl hne
  · rcases add_variable hkind hadd with ⟨hlimit, a, rfl, rfl⟩
    have hsettle : Bindings.settle ⟨b.nargs, b.nvars + 1, []⟩ = b.settle := rfl
    constructor
    · show ((_ :: b.shapes).map b.settle).reverse = _
      rw [map_cons, hordered, reverse_cons, reverse_reverse]
      have hslot : ¬ callObjectReservedSlots + (b.nargs + b.nvars) - callObjectReservedSlots <
          b.nargs := by
        omega
      cases kind with
      | argument => exact absurd rfl hkind
      | var | constant => simp only [settle, if_neg hslot]; rfl
    · rw [hlength]
      rfl
    · show b.nargs + (b.nvars + 1) ≤ bindingCountLimit
      have hle := h.limit
      omega
    · intro hzero
      exact absurd hzero (Nat.succ_ne_zero _)
    · intro i x hx
      show i < b.nargs ↔ _
      rcases hkinds i x hx with hx | ⟨rfl, rfl⟩
      · exact h.kinds i x hx
      · simp [hkind]
    · intro x hx hne
      rcases mem_append.mp hx with hx | hx
      · exact h.named x hx hne
      · rw [mem_singleton.mp hx]
        rfl

lemma Bindings.Built.holds {b : Bindings A} {l : List (Binding A)} (h : b.Built l) :
    b.Holds l := by
  induction h with
  | empty =>
    constructor
    · rfl
    · rfl
    · exact Nat.zero_le _
    · intro _ shape hshape
      cases hshape
    · intro i x hx
      cases hx
    · intro x hx
      cases hx
  | add _ hadd ih => exact ih.add hadd

/-! ## Names -/

/-- A binding as it comes back. -/
def Binding.decoded (x : Binding A) : Binding A :=
  { x with kind := if x.kind = .constant then .var else x.kind }

lemma Binding.decoded_eq_iff (x : Binding A) : x.decoded = x ↔ x.kind ≠ .constant := by
  rcases x with ⟨name, kind⟩
  cases kind <;> simp [Binding.decoded]

/-- The names from index `i` on. The decoder has built bindings for those before it. -/
lemma reads_names (atom : Codec Byte A) {nargs : Nat} {bitmap : List (BitVec 32)}
    {all : List (Binding A)}
    (hbits : ∀ j x, all[j]? = some x → bitmapBit bitmap j = decide (j < nargs ∧ x.maybeName.isSome))
    (hkinds : ∀ j x, all[j]? = some x → (j < nargs ↔ x.kind = .argument))
    (hnamed : ∀ x ∈ all, x.kind ≠ .argument → x.maybeName.isSome)
    (hlimit : all.length ≤ bindingCountLimit) (names done : List (Binding A))
    (hall : all = done ++ names) (b : Bindings A) (hb : b.Built (done.map Binding.decoded)) :
    ∃ bytes b', encodeNames atom nargs bitmap done.length names = some bytes ∧
      Reads (decodeNames atom nargs bitmap done.length names.length b) bytes b' ∧
      b'.Built (all.map Binding.decoded) := by
  induction names generalizing done b with
  | nil =>
    rw [append_nil] at hall
    exact ⟨[], b, rfl, Reads.pure b, hall ▸ hb⟩
  | cons x names ih =>
    have hx : all[done.length]? = some x := by simp [hall]
    have hmem : x ∈ all := by simp [hall]
    have hlt : done.length < all.length := by simp [hall]
    have hcount : b.nargs + b.nvars = done.length := by
      rw [← hb.holds.length, length_map]
    have hroom : b.nargs + b.nvars ≠ bindingCountLimit := by
      rw [hcount]
      omega
    have hnext : ∀ b', b.add x.maybeName x.decoded.kind = some b' →
        ∃ bytes b'', encodeNames atom nargs bitmap (done.length + 1) names = some bytes ∧
          Reads (decodeNames atom nargs bitmap (done.length + 1) names.length b') bytes b'' ∧
          b''.Built (all.map Binding.decoded) := by
      intro b' hadd
      have hb' : b'.Built ((done ++ [x]).map Binding.decoded) := by
        rw [map_append]
        exact hb.add hadd
      have hrest := ih (done ++ [x]) (by rw [hall, append_assoc]; rfl) b' hb'
      rwa [length_append, length_singleton] at hrest
    rcases Decidable.em (x.kind = .argument) with hkind | hkind
    · -- a formal: the names so far are formals, so that there is no variable
      have hformal : done.length < nargs := (hkinds _ x hx).mpr hkind
      have hdecoded : x.decoded.kind = .argument := by simp [Binding.decoded, hkind]
      have hnvars : b.nvars = 0 := by
        by_contra hne
        have hmem' : b.nargs < done.length := by omega
        have hy : all[b.nargs]? = some done[b.nargs] := by
          rw [hall, List.getElem?_append_left hmem', List.getElem?_eq_getElem hmem']
        have hargument := (hkinds _ _ hy).mp (Nat.lt_trans hmem' hformal)
        have hown : (done.map Binding.decoded)[b.nargs]? = some done[b.nargs].decoded := by
          rw [List.getElem?_map, List.getElem?_eq_getElem hmem']
          rfl
        have hself := (hb.holds.kinds _ _ hown).mpr (by simp [Binding.decoded, hargument])
        exact Nat.lt_irrefl _ hself
      rcases Bindings.add_argument_isSome x.maybeName hroom hnvars with ⟨b', hadd⟩
      rcases hnext b' (hdecoded.symm ▸ hadd) with ⟨bytes, b'', hencode, hdecode, hbuilt⟩
      have hbit := hbits _ x hx
      cases hname : x.maybeName with
      | none =>
        have hunset : done.length < nargs ∧ ¬ bitmapBit bitmap done.length = true := by
          rw [hbit, hname]
          simpa using hformal
        refine ⟨bytes, b'', ?_, ?_, hbuilt⟩
        · rw [encodeNames, if_pos hunset]
          exact hencode
        · show Reads (decodeNames atom nargs bitmap done.length (names.length + 1) b) bytes b''
          rw [decodeNames, if_pos hunset]
          rw [hname] at hadd
          exact (Reads.ofOption hadd).bind_nil hdecode
      | some a =>
        have hset : ¬ (done.length < nargs ∧ ¬ bitmapBit bitmap done.length = true) := by
          rw [hbit, hname]
          simp [hformal]
        refine ⟨atom.encode a ++ bytes, b'', ?_, ?_, hbuilt⟩
        · rw [encodeNames, if_neg hset, hname, hencode]
          rfl
        · show Reads (decodeNames atom nargs bitmap done.length (names.length + 1) b) _ b''
          rw [decodeNames, if_neg hset]
          refine (atom.reads a).bind ?_
          simp only [if_pos hformal]
          rw [hname] at hadd
          exact (Reads.ofOption hadd).bind_nil hdecode
    · -- a variable or constant: its bit is never set
      have hvar : ¬ done.length < nargs := fun h => hkind ((hkinds _ x hx).mp h)
      have hdecoded : x.decoded.kind = .var := by
        rcases x with ⟨name, kind⟩
        cases kind with
        | argument => exact absurd rfl hkind
        | var | constant => rfl
      rcases Option.isSome_iff_exists.mp (hnamed x hmem hkind) with ⟨a, hname⟩
      rcases Bindings.add_variable_isSome .var a (by decide) hroom with ⟨b', hadd⟩
      have hadd' : b.add x.maybeName x.decoded.kind = some b' := by
        rw [hname, hdecoded]
        exact hadd
      rcases hnext b' hadd' with ⟨bytes, b'', hencode, hdecode, hbuilt⟩
      have hset : ¬ (done.length < nargs ∧ ¬ bitmapBit bitmap done.length = true) :=
        fun h => hvar h.1
      have hbit : ¬ bitmapBit bitmap done.length = true := by
        rw [hbits _ x hx]
        simp [hvar]
      refine ⟨atom.encode a ++ bytes, b'', ?_, ?_, hbuilt⟩
      · rw [encodeNames, if_neg hset, hname, hencode]
        rfl
      · show Reads (decodeNames atom nargs bitmap done.length (names.length + 1) b) _ b''
        rw [decodeNames, if_neg hset]
        refine (atom.reads a).bind ?_
        simp only [if_neg hvar, if_neg hbit]
        exact (Reads.ofOption hadd).bind_nil hdecode

lemma reads_bindings (atom : Codec Byte A) {b : Bindings A} {l : List (Binding A)}
    (hb : b.Built l) : ∃ bytes b', encodeBindings atom b = some bytes ∧
      Reads (decodeBindings atom) bytes b' ∧ b'.Built (l.map Binding.decoded) := by
  have holds := hb.holds
  have hlimit : b.nargs + b.nvars ≤ 65535 := holds.limit
  have hnargs : (BitVec.ofNat 16 b.nargs).toNat = b.nargs := by
    rw [BitVec.toNat_ofNat]
    exact Nat.mod_eq_of_lt (by omega)
  have hnvars : (BitVec.ofNat 16 b.nvars).toNat = b.nvars := by
    rw [BitVec.toNat_ofNat]
    exact Nat.mod_eq_of_lt (by omega)
  rcases packHalves (BitVec.ofNat 16 b.nargs) (BitVec.ofNat 16 b.nvars) with ⟨hhigh, hlow⟩
  rcases Nat.eq_zero_or_pos (b.nargs + b.nvars) with hzero | hpos
  · have hl : l = [] := eq_nil_of_length_eq_zero (holds.length.trans hzero)
    have hnone : ¬ b.nargs + b.nvars > 0 := by omega
    refine ⟨encodeUint32 ((BitVec.ofNat 16 b.nargs).setWidth 32 <<< 16 |||
      (BitVec.ofNat 16 b.nvars).setWidth 32), Bindings.empty, ?_, ?_, hl ▸ Bindings.Built.empty⟩
    · simp only [encodeBindings, hnargs, hnvars, if_neg hnone]
    · refine (reads_uint32 _).bind_done ?_
      simp only [hhigh, hlow, hnargs, hnvars, if_neg hnone]
      exact Reads.pure _
  · have hlength : (makeBitmap b.nargs l).length = bitmapLength (b.nargs + b.nvars) := by
      rw [length_makeBitmap, holds.length]
    rcases reads_names atom (fun j x hx => bitmapBit_makeBitmap b.nargs l hx) holds.kinds
      holds.named (holds.length ▸ holds.limit) l [] rfl Bindings.empty Bindings.Built.empty with
      ⟨bytes, b', hencode, hdecode, hbuilt⟩
    rw [length_nil] at hencode hdecode
    refine ⟨encodeUint32 ((BitVec.ofNat 16 b.nargs).setWidth 32 <<< 16 |||
      (BitVec.ofNat 16 b.nvars).setWidth 32) ++
        ((makeBitmap b.nargs l).flatMap encodeUint32 ++ bytes), b', ?_, ?_, hbuilt⟩
    · simp only [encodeBindings, hnargs, hnvars, if_pos hpos, holds.ordered, hencode]
      rfl
    · refine (reads_uint32 _).bind ?_
      simp only [hhigh, hlow, hnargs, hnvars, if_pos hpos]
      have hbitmap := Reads.times (l := makeBitmap b.nargs l) fun word _ => reads_uint32 word
      rw [hlength] at hbitmap
      rw [holds.length] at hdecode
      exact hbitmap.bind hdecode

/-! ## The parts of a script -/

lemma reads_scriptConst (atom : Codec Byte A) (x : ScriptConst A) :
    Reads (decodeScriptConst atom) (encodeScriptConst atom x) x := by
  cases x with
  | int32 i => exact (reads_uint32 0).bind ((reads_uint32 i).map ScriptConst.int32)
  | double bits => exact (reads_uint32 1).bind ((reads_uint64 bits).map ScriptConst.double)
  | atom a => exact (reads_uint32 2).bind ((atom.reads a).map ScriptConst.atom)
  | «true» => exact (reads_uint32 3).bind_done (Reads.pure _)
  | «false» => exact (reads_uint32 4).bind_done (Reads.pure _)
  | null => exact (reads_uint32 5).bind_done (Reads.pure _)
  | undefined => exact (reads_uint32 6).bind_done (Reads.pure _)

lemma reads_tryNote (tn : TryNote) : Reads decodeTryNote (encodeTryNote tn) tn := by
  have hkind : tn.kind.setWidth 32 = (tn.kind.setWidth 16).setWidth 32 := by
    ext i hi
    simp only [BitVec.getElem_setWidth, BitVec.getLsbD_setWidth]
    rcases Nat.lt_or_ge i 16 with hlt | hge
    · simp [hlt]
    · have hge' : 8 ≤ i := by omega
      simp [BitVec.getLsbD_of_ge _ _ hge']
  rcases packHalves (tn.kind.setWidth 16) tn.stackDepth with ⟨hhigh, hlow⟩
  have hshift : (((tn.kind.setWidth 16).setWidth 32 <<< 16 ||| tn.stackDepth.setWidth 32) >>>
      16).setWidth 8 = tn.kind := by
    have hnarrow : ∀ word : BitVec 32, (word.setWidth 16).setWidth 8 = word.setWidth 8 :=
      fun word => BitVec.setWidth_setWidth_of_le word (by decide)
    rw [← hnarrow, hhigh, BitVec.setWidth_setWidth_of_le tn.kind (by decide), BitVec.setWidth_eq]
  rw [encodeTryNote, hkind]
  refine (reads_uint32 _).bind ((reads_uint32 _).bind ((reads_uint32 _).bind_done ?_))
  rw [hshift, hlow]
  exact Reads.pure _

lemma reads_scopeIndex {i : Nat} (hi : i < 2 ^ 32) (enclosing : Option Nat)
    (h : ∀ index ∈ enclosing, index < i) :
    Reads (decodeScopeIndex i) (encodeScopeIndex enclosing) enclosing := by
  cases enclosing with
  | none =>
    refine (reads_uint32 _).bind_done ?_
    rw [if_pos rfl]
    exact Reads.pure none
  | some index =>
    have hindex : index < i := h index rfl
    have htoNat : (BitVec.ofNat 32 index).toNat = index := by
      rw [BitVec.toNat_ofNat]
      exact Nat.mod_eq_of_lt (by omega)
    -- the index is not the mark for "none", being below another one
    have hne : BitVec.ofNat 32 index ≠ -1#32 := by
      intro heq
      have hval := congrArg BitVec.toNat heq
      rw [htoNat] at hval
      have hmark : (-1#32).toNat = 2 ^ 32 - 1 := rfl
      omega
    refine (reads_uint32 _).bind_done ?_
    rw [if_neg hne, htoNat]
    have hguard : (guard (index < i) : Option Unit) = some () := if_pos hindex
    exact (Reads.ofOption hguard).bind_nil (Reads.pure _)

section Objects

variable {F B R S : Type} (c : ScriptCodecs A F B R S)

/-- The index of the object that encloses an object. -/
def ScriptObject.enclosing : ScriptObject F B → Option Nat
  | .function enclosing _ => enclosing
  | .block enclosing _ => enclosing

lemma reads_object {i : Nat} (hi : i < 2 ^ 32) (object : ScriptObject F B)
    (h : ∀ index ∈ object.enclosing, index < i) :
    Reads (decodeObject c i) (encodeObject c object) object := by
  cases object with
  | function enclosing f =>
    refine (reads_uint32 0#32).bind ?_
    rw [if_pos rfl]
    exact (reads_scopeIndex hi enclosing h).bind ((c.function.reads f).bind_done (Reads.pure _))
  | block enclosing b =>
    have hguard : (guard (1#32 = 1#32) : Option Unit) = some () := if_pos rfl
    refine (reads_uint32 1#32).bind ?_
    rw [if_neg (by decide)]
    refine (Reads.ofOption hguard).bind_nil ?_
    exact (reads_scopeIndex hi enclosing h).bind ((c.block.reads b).bind_done (Reads.pure _))

lemma reads_objects (objects : List (ScriptObject F B)) (i : Nat)
    (hi : i + objects.length ≤ 2 ^ 32)
    (h : ∀ j object, objects[j]? = some object → ∀ index ∈ object.enclosing, index < i + j) :
    Reads (decodeObjects c i objects.length) (objects.flatMap (encodeObject c)) objects := by
  induction objects generalizing i with
  | nil => exact Reads.pure []
  | cons object objects ih =>
    rw [length_cons] at hi
    have hhead := reads_object c (by omega) object (h 0 object rfl)
    have htail := ih (i + 1) (by omega) fun j object' hobject index hindex => by
      have hlt := h (j + 1) object' hobject index hindex
      omega
    rw [flatMap_cons]
    exact hhead.bind (htail.bind_done (Reads.pure _))

end Objects

/-! ## Flags -/

lemma ScriptBit.mem_all (bit : ScriptBit) : bit ∈ all := by
  cases bit <;> decide

lemma ScriptBit.index_inj {bit bit' : ScriptBit} (h : bit.index = bit'.index) : bit = bit' :=
  (idxOf_inj (mem_all bit)).mp h

lemma ScriptBit.index_lt (bit : ScriptBit) : bit.index < 32 :=
  Nat.lt_trans (idxOf_lt_length_of_mem (mem_all bit)) (by decide)

/-- The bits that are set once `bits` have been gone over. -/
lemma ScriptBit.getLsbD_foldl (flag : ScriptBit → Bool) (bits : List ScriptBit)
    (word : BitVec 32) (bit : ScriptBit) :
    (bits.foldl (fun word b => if flag b then word ||| (1#32 <<< b.index) else word) word).getLsbD
      bit.index = (word.getLsbD bit.index || (decide (bit ∈ bits) && flag bit)) := by
  induction bits generalizing word with
  | nil => simp
  | cons b bits ih =>
    rw [foldl_cons, ih]
    have htwo : 1#32 <<< b.index = BitVec.twoPow 32 b.index := rfl
    have hown : (1#32 <<< b.index).getLsbD bit.index = decide (bit = b) := by
      rw [htwo, BitVec.getLsbD_twoPow, Bool.eq_iff_iff]
      simp only [Bool.and_eq_true, decide_eq_true_eq]
      constructor
      · rintro ⟨_, heq⟩
        exact (index_inj heq).symm
      · rintro rfl
        exact ⟨bit.index_lt, rfl⟩
    rcases Decidable.em (bit = b) with rfl | hne
    · cases flag bit
      · simp
      · simp [hown]
    · cases flag b
      · simp [hne]
      · simp [hne, hown]

lemma ScriptBit.isSet_pack (flag : ScriptBit → Bool) (bit : ScriptBit) :
    isSet (pack flag) bit = flag bit := by
  have hset : isSet (pack flag) bit = (pack flag).getLsbD bit.index :=
    and_bit_ne_zero _ _ bit.index_lt
  rw [hset, pack, getLsbD_foldl]
  simp [mem_all]

/-! ## Scripts -/

section XDRScript

/-- The enclosing script of the decoder is what the encoder's came back as. -/
def EnclosingScript.Same {S : Type} :
    Option (EnclosingScript S) → Option (EnclosingScript S) → Prop
  | none, none => True
  | some e, some e' => e'.filename = e.filename ∧ e'.scriptSource.data = e.scriptSource.data
  | _, _ => False

variable {F B R S : Type} [DecidableEq S] (c : ScriptCodecs A F B R S)
  {enclosing enclosing' : Option (EnclosingScript S)}
  (henclosing : EnclosingScript.Same enclosing enclosing') (s : Script A F B R S)

/-- What holds of every script: its bindings come from `add`, its lists have the size of their
length fields, an object is enclosed by an earlier one, and only a script with a binding for
`arguments` is known to need the object. -/
structure Script.WellFormed : Prop where
  bindings : ∃ l, s.bindings.Built l
  code : s.code.length < 2 ^ 32
  notes : s.notes.length < 2 ^ 32
  atoms : s.atoms.length < 2 ^ 32
  objects : s.objects.length < 2 ^ 32
  regexps : s.regexps.length < 2 ^ 32
  trynotes : s.trynotes.length < 2 ^ 32
  consts : s.consts.length < 2 ^ 32
  closedArgs : s.closedArgs.length < 2 ^ 16
  closedVars : s.closedVars.length < 2 ^ 16
  enclosed : ∀ i (object : ScriptObject F B), s.objects[i]? = some object →
    ∀ index ∈ object.enclosing, index < i
  arguments : s.knownToNeedArgsObj → s.argsHasVarBinding

/-- The same script, as far as its encoding goes: whether `arguments` has been analyzed counts
only in what is known of it, and a source is known by its data. -/
structure Script.Same (s s' : Script A F B R S) : Prop where
  bindings : s'.bindings.getOrderedBindings = s.bindings.getOrderedBindings
  knownToNeedArgsObj : s'.knownToNeedArgsObj = s.knownToNeedArgsObj
  sourceData : s'.scriptSource.data = s.scriptSource.data
  others : s' = { s with
    bindings := s'.bindings, needsArgsAnalysis := s'.needsArgsAnalysis
    needsArgsObj := s'.needsArgsObj, scriptSource := s'.scriptSource }

lemma reads_header (length prologLength version natoms nsrcnotes ntrynotes nobjects nregexps
    nconsts nClosedArgs nClosedVars nTypeSets scriptBits : BitVec 32)
    (hclosed : nClosedArgs.toNat < 2 ^ 16 ∧ nClosedVars.toNat < 2 ^ 16) :
    Reads decodeScriptHeader (encodeUint32 length ++ (encodeUint32 prologLength ++
      (encodeUint32 version ++ (encodeUint32 natoms ++ (encodeUint32 nsrcnotes ++
        (encodeUint32 ntrynotes ++ (encodeUint32 nobjects ++ (encodeUint32 nregexps ++
          (encodeUint32 nconsts ++ (encodeUint32 nClosedArgs ++ (encodeUint32 nClosedVars ++
            (encodeUint32 nTypeSets ++ encodeUint32 scriptBits))))))))))))
      ⟨length.toNat, prologLength, version, natoms.toNat, nsrcnotes.toNat, ntrynotes.toNat,
        nobjects.toNat, nregexps.toNat, nconsts.toNat, nClosedArgs.toNat, nClosedVars.toNat,
        nTypeSets, scriptBits⟩ := by
  have hguard : (guard (nClosedArgs.toNat < 2 ^ 16 ∧ nClosedVars.toNat < 2 ^ 16) : Option Unit) =
      some () := if_pos hclosed
  refine (reads_uint32 length).bind ((reads_uint32 prologLength).bind
    ((reads_uint32 version).bind ((reads_uint32 natoms).bind ((reads_uint32 nsrcnotes).bind
      ((reads_uint32 ntrynotes).bind ((reads_uint32 nobjects).bind ((reads_uint32 nregexps).bind
        ((reads_uint32 nconsts).bind ((reads_uint32 nClosedArgs).bind
          ((reads_uint32 nClosedVars).bind ((reads_uint32 nTypeSets).bind
            ((reads_uint32 scriptBits).bind_done ?_))))))))))))
  exact (Reads.ofOption hguard).bind_nil (Reads.pure _)

include henclosing in
lemma reads_filename :
    Reads (decodeFilename enclosing' (ScriptBit.pack (s.flag enclosing)))
      (encodeFilename (s.flag enclosing) s.filename) s.filename := by
  have hown : s.flag enclosing .ownFilename =
      (s.filename.isSome && !(enclosing.any fun e => e.filename = s.filename)) := rfl
  have hparent : s.flag enclosing .parentFilename =
      (s.filename.isSome && enclosing.any fun e => e.filename = s.filename) := rfl
  rw [decodeFilename, ScriptBit.isSet_pack, ScriptBit.isSet_pack]
  cases hfilename : s.filename with
  | none =>
    rw [hfilename, Option.isSome_none, Bool.false_and] at hown hparent
    rw [hown, hparent]
    exact Reads.pure none
  | some filename =>
    rw [hfilename, Option.isSome_some, Bool.true_and] at hown hparent
    rw [encodeFilename, hown, hparent]
    cases hany : enclosing.any fun e => decide (e.filename = some filename) with
    | false => exact (reads_cString filename).map some
    | true =>
      cases enclosing with
      | none => cases hany
      | some e =>
        have heq : e.filename = some filename := by simpa using hany
        cases enclosing' with
        | none => cases henclosing
        | some e' =>
          rw [← heq, ← henclosing.1]
          exact (Reads.ofOption rfl).bind_nil (Reads.pure _)

include henclosing in
lemma reads_scriptSource (newSource : Nat) : ∃ source,
    Reads (decodeScriptSource c enclosing' newSource (ScriptBit.pack (s.flag enclosing)))
      (encodeSourceData c (s.flag enclosing) s.scriptSource.data) source ∧
        source.data = s.scriptSource.data := by
  have hown : s.flag enclosing .ownSource =
      !(enclosing.any fun e => e.scriptSource = s.scriptSource) := rfl
  have hdata : s.flag enclosing .hasSourceData =
      (s.flag enclosing .ownSource && s.scriptSource.data.isSome) := rfl
  rw [decodeScriptSource, ScriptBit.isSet_pack, ScriptBit.isSet_pack]
  cases hany : enclosing.any fun e => decide (e.scriptSource = s.scriptSource) with
  | false =>
    rw [hany, Bool.not_false] at hown
    rw [hown, Bool.true_and] at hdata
    rw [hown, hdata]
    cases hsome : s.scriptSource.data with
    | none => exact ⟨_, Reads.pure _, rfl⟩
    | some data =>
      rw [hsome] at hdata
      rw [encodeSourceData, hdata]
      refine ⟨⟨newSource, some data⟩, ?_, rfl⟩
      show Reads (c.sourceData.decode >>= fun data => pure (ScriptSource.mk newSource (some data)))
        (c.sourceData.encode data) _
      exact (c.sourceData.reads data).bind_done (Reads.pure _)
  | true =>
    rw [hany, Bool.not_true] at hown
    rw [hown, Bool.false_and] at hdata
    rw [hown]
    cases enclosing with
    | none => cases hany
    | some e =>
      have hsource : e.scriptSource = s.scriptSource := by simpa using hany
      have hnone : encodeSourceData c (s.flag (some e)) s.scriptSource.data = [] := by
        cases s.scriptSource.data with
        | none => rfl
        | some data => rw [encodeSourceData, hdata]; rfl
      rw [hnone, ← hsource]
      cases enclosing' with
      | none => cases henclosing
      | some e' =>
        exact ⟨e'.scriptSource, (Reads.ofOption rfl).bind_nil (Reads.pure _), henclosing.2⟩

omit [DecidableEq S] in
/-- What the flags make of a script that has no binding for `arguments` yet. -/
lemma setArgumentsFlags_pack (flag : ScriptBit → Bool) (s₀ : Script A F B R S)
    (hhas : s₀.argsHasVarBinding = false) (hneeds : s₀.needsArgsObj = false)
    (h : flag .needsArgsObj → flag .argumentsHasVarBinding) :
    ∃ s', s₀.setArgumentsFlags (ScriptBit.pack flag) = some s' ∧
      s'.knownToNeedArgsObj = flag .needsArgsObj ∧
      s' = { s₀ with
        argsHasVarBinding := flag .argumentsHasVarBinding
        needsArgsAnalysis := s'.needsArgsAnalysis, needsArgsObj := s'.needsArgsObj } := by
  simp only [Script.setArgumentsFlags, ScriptBit.isSet_pack]
  cases hbinding : flag .argumentsHasVarBinding with
  | false =>
    have hknown : flag .needsArgsObj = false := by
      cases hflag : flag .needsArgsObj with
      | false => rfl
      | true => exact absurd (h hflag) (by simp [hbinding])
    rw [hknown]
    refine ⟨s₀, rfl, ?_, ?_⟩
    · simp [Script.knownToNeedArgsObj, hneeds]
    · rw [← hhas]
  | true =>
    cases flag .needsArgsObj with
    | false => exact ⟨_, rfl, rfl, rfl⟩
    | true => exact ⟨_, rfl, rfl, rfl⟩

lemma toNat_count {n : Nat} (h : n < 2 ^ 32) : (BitVec.ofNat 32 n).toNat = n := by
  rw [BitVec.toNat_ofNat]
  exact Nat.mod_eq_of_lt h

include henclosing in
/-- The decoder takes what the encoder made, and gives back everything but the constants. -/
lemma reads_script (hs : s.WellFormed) (newSource : Nat) : ∃ bytes s',
    encodeScript c enclosing s = some bytes ∧ Reads (decodeScript c enclosing' newSource) bytes s' ∧
      s'.bindings.getOrderedBindings = s.bindings.getOrderedBindings.map Binding.decoded ∧
      s'.knownToNeedArgsObj = s.knownToNeedArgsObj ∧
      s'.scriptSource.data = s.scriptSource.data ∧
      s' = { s with
        bindings := s'.bindings, needsArgsAnalysis := s'.needsArgsAnalysis
        needsArgsObj := s'.needsArgsObj, scriptSource := s'.scriptSource } := by
  rcases hs.bindings with ⟨l, hl⟩
  rcases reads_bindings c.atom hl with ⟨bindingBytes, bindings, hencode, hbindings, hbuilt⟩
  rcases reads_scriptSource c henclosing s newSource with ⟨source, hsource, hdata⟩
  have hclosedArgs := toNat_count (Nat.lt_trans hs.closedArgs (by decide))
  have hclosedVars := toNat_count (Nat.lt_trans hs.closedVars (by decide))
  have hheader := reads_header (BitVec.ofNat 32 s.code.length) s.mainOffset
    ((s.nfixed.setWidth 32 <<< 16) ||| s.version.setWidth 32) (BitVec.ofNat 32 s.atoms.length)
    (BitVec.ofNat 32 s.notes.length) (BitVec.ofNat 32 s.trynotes.length)
    (BitVec.ofNat 32 s.objects.length) (BitVec.ofNat 32 s.regexps.length)
    (BitVec.ofNat 32 s.consts.length) (BitVec.ofNat 32 s.closedArgs.length)
    (BitVec.ofNat 32 s.closedVars.length) (s.nTypeSets.setWidth 32)
    (ScriptBit.pack (s.flag enclosing))
    ⟨hclosedArgs.symm ▸ hs.closedArgs, hclosedVars.symm ▸ hs.closedVars⟩
  rw [toNat_count hs.code, toNat_count hs.atoms, toNat_count hs.notes, toNat_count hs.trynotes,
    toNat_count hs.objects, toNat_count hs.regexps, toNat_count hs.consts, hclosedArgs,
    hclosedVars] at hheader
  have hatoms := Reads.times (l := s.atoms) fun a _ => c.atom.reads a
  have hobjects := reads_objects c s.objects 0 (by rw [Nat.zero_add]; exact Nat.le_of_lt hs.objects)
    fun i object hobject index hindex => by
      rw [Nat.zero_add]
      exact hs.enclosed i object hobject index hindex
  have hregexps := Reads.times (l := s.regexps) fun r _ => c.regexp.reads r
  have hargs := Reads.times (l := s.closedArgs) fun n _ => reads_uint32 n
  have hvars := Reads.times (l := s.closedVars) fun n _ => reads_uint32 n
  have htrynotes := Reads.times (l := s.trynotes.reverse) fun tn _ => reads_tryNote tn
  rw [length_reverse] at htrynotes
  have hconsts := Reads.times (l := s.consts) fun x _ => reads_scriptConst c.atom x
  rcases packHalves s.nfixed s.version with ⟨hnfixed, hversion⟩
  rcases packHalves s.staticLevel s.nslots with ⟨hstaticLevel, hnslots⟩
  have hnTypeSets : (s.nTypeSets.setWidth 32).setWidth 16 = s.nTypeSets := by
    rw [BitVec.setWidth_setWidth_of_le _ (by decide), BitVec.setWidth_eq]
  rcases setArgumentsFlags_pack (s.flag enclosing)
    { s with
      bindings := bindings, argsHasVarBinding := false, needsArgsAnalysis := false
      needsArgsObj := false, scriptSource := source } rfl rfl hs.arguments with
    ⟨s', hset, hknown, hs'⟩
  refine ⟨bindingBytes ++ (encodeScriptHeader enclosing s ++ encodeScriptBody c enclosing s), s',
    ?_, ?_, ?_, hknown, ?_, ?_⟩
  · rw [encodeScript, hencode]
    rfl
  · refine hbindings.bind (hheader.bind ((reads_bytes s.code).bind ((reads_bytes s.notes).bind
      ((reads_uint32 s.lineno).bind ((reads_uint32 _).bind ((reads_filename henclosing s).bind
        (hsource.bind ((reads_uint32 s.sourceStart).bind ((reads_uint32 s.sourceEnd).bind
          (hatoms.bind (hobjects.bind (hregexps.bind (hargs.bind (hvars.bind (htrynotes.bind
            (hconsts.bind_done ?_))))))))))))))))
    simp only [ScriptBit.isSet_pack, hnfixed, hversion, hstaticLevel, hnslots, hnTypeSets,
      reverse_reverse]
    exact Reads.ofOption hset
  · rw [hs']
    exact hbuilt.holds.ordered.trans (congrArg _ hl.holds.ordered.symm)
  · rw [hs']
    exact hdata
  · rw [hs']
    rfl

include henclosing in
/-- A script that comes back as it was has no constants. -/
lemma Script.Same.kind_ne (hs : s.WellFormed) {newSource : Nat} {bytes : List Byte}
    {s' : Script A F B R S} (hencode : encodeScript c enclosing s = some bytes)
    (hdecode : Reads (decodeScript c enclosing' newSource) bytes s') (hsame : s.Same s') :
    ∀ x ∈ s.bindings.getOrderedBindings, x.kind ≠ .constant := by
  intro x hx
  rcases reads_script c henclosing s hs newSource with ⟨bytes', s'', hencode', hdecode', hordered, _⟩
  have hbytes : bytes' = bytes := Option.some.inj (hencode'.symm.trans hencode)
  subst hbytes
  have hscript : s'' = s' := hdecode'.unique hdecode
  subst hscript
  have hmap : s.bindings.getOrderedBindings.map Binding.decoded =
      s.bindings.getOrderedBindings.map id := by
    rw [← hordered, hsame.bindings, map_id]
  exact x.decoded_eq_iff.mp (map_inj_left.mp hmap x hx)

include henclosing in
/-- A script comes back as it was exactly if none of its bindings is a constant. -/
theorem decodeScript_encodeScript_iff (hs : s.WellFormed) (newSource : Nat) :
    (∃ bytes s', encodeScript c enclosing s = some bytes ∧
      Reads (decodeScript c enclosing' newSource) bytes s' ∧ s.Same s') ↔
    ∀ x ∈ s.bindings.getOrderedBindings, x.kind ≠ .constant := by
  constructor
  · rintro ⟨bytes, s', hencode, hdecode, hsame⟩
    exact hsame.kind_ne c henclosing s hs hencode hdecode
  · intro h
    rcases reads_script c henclosing s hs newSource with
      ⟨bytes, s', hencode, hdecode, hordered, hknown, hdata, hothers⟩
    refine ⟨bytes, s', hencode, hdecode, ?_, hknown, hdata, hothers⟩
    rw [hordered]
    calc s.bindings.getOrderedBindings.map Binding.decoded
      _ = s.bindings.getOrderedBindings.map id :=
          map_congr_left fun x hx => x.decoded_eq_iff.mpr (h x hx)
      _ = s.bindings.getOrderedBindings := map_id _

end XDRScript

/-! ### A script with a constant -/

lemma sameEnclosing_none : EnclosingScript.Same (none : Option (EnclosingScript Unit)) none :=
  trivial

def unitCodec : Codec Byte Unit := ⟨fun _ => [], pure (), fun _ => Reads.pure ()⟩

def numberCodecs : ScriptCodecs (BitVec 32) Unit Unit Unit Unit :=
  ⟨⟨encodeUint32, decodeUint32, reads_uint32⟩, unitCodec, unitCodec, unitCodec, unitCodec⟩

/-- A script with the given bindings, one byte of code and a try note. -/
def bareScript (bindings : Bindings (BitVec 32)) :
    Script (BitVec 32) Unit Unit Unit Unit where
  bindings := bindings
  code := [0#8]
  mainOffset := 0
  version := 185
  nfixed := 1
  nslots := 2
  staticLevel := 0
  lineno := 1
  sourceStart := 0
  sourceEnd := 12
  nTypeSets := 0
  notes := [0#8]
  atoms := []
  objects := []
  regexps := []
  closedArgs := []
  closedVars := []
  trynotes := [⟨0, 1, 0, 1⟩]
  consts := [.double 0]
  noScriptRval := false
  savedCallerFun := false
  strictModeCode := true
  explicitUseStrict := true
  bindingsAccessedDynamically := false
  funHasExtensibleScope := false
  isGenerator := false
  isGeneratorExp := false
  argsHasVarBinding := false
  needsArgsAnalysis := false
  needsArgsObj := false
  filename := none
  scriptSource := ⟨0, none⟩

lemma bareScript_wellFormed {b : Bindings (BitVec 32)} {l : List (Binding (BitVec 32))}
    (h : b.Built l) : (bareScript b).WellFormed where
  bindings := ⟨l, h⟩
  code := by simp [bareScript]
  notes := by simp [bareScript]
  atoms := by simp [bareScript]
  objects := by simp [bareScript]
  regexps := by simp [bareScript]
  trynotes := by simp [bareScript]
  consts := by simp [bareScript]
  closedArgs := by simp [bareScript]
  closedVars := by simp [bareScript]
  enclosed := fun i object hobject => by cases hobject
  arguments := fun h => h

/-- A destructuring formal, a formal and a variable. -/
def threeBindings : Bindings (BitVec 32) :=
  ⟨2, 1, [⟨.atom 8, 4, true, 0⟩, ⟨.atom 7, 3, true, 1⟩, ⟨.int 0, 2, true, 0⟩]⟩

theorem decodeScript_encodeScript_threeBindings : ∃ bytes s',
    encodeScript numberCodecs none (bareScript threeBindings) = some bytes ∧
      Reads (decodeScript numberCodecs none 1) bytes s' ∧ (bareScript threeBindings).Same s' := by
  have hbuilt : threeBindings.Built [⟨none, .argument⟩, ⟨some 7, .argument⟩, ⟨some 8, .var⟩] :=
    ((Bindings.Built.empty.add rfl).add rfl).add rfl
  exact (decodeScript_encodeScript_iff numberCodecs sameEnclosing_none _
    (bareScript_wellFormed hbuilt) 1).mpr (by decide)

/-- `const x`, for a name `x`. -/
def oneConstant : Bindings (BitVec 32) := ⟨0, 1, [⟨.atom 7, 2, false, 0⟩]⟩

theorem decodeScript_encodeScript_constant : (bareScript oneConstant).WellFormed ∧
    ¬ ∃ bytes s', encodeScript numberCodecs none (bareScript oneConstant) = some bytes ∧
      Reads (decodeScript numberCodecs none 1) bytes s' ∧ (bareScript oneConstant).Same s' := by
  have hbuilt : oneConstant.Built [⟨some 7, .constant⟩] := Bindings.Built.empty.add rfl
  have hs := bareScript_wellFormed hbuilt
  refine ⟨hs, ?_⟩
  rintro ⟨bytes, s', hencode, hdecode, hsame⟩
  exact hsame.kind_ne numberCodecs sameEnclosing_none _ hs hencode hdecode ⟨some 7, .constant⟩ (by decide) rfl

end SpiderMonkey
