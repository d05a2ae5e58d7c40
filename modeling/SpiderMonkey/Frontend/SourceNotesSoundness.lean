import SpiderMonkey.Frontend.SourceNotes

/-! # Source notes: what is read back

The notes are laid out one after the other, each with the width that its operands have come to have.
An operand keeps three bytes once it has them, so the later notes move only away from it.
-/

namespace SpiderMonkey.Frontend

open Lib SrcNoteType EmitSection List

/-! ## Single bytes -/

lemma ofCode?_code (t : SrcNoteType) : ofCode? t.code = some t := by
  cases t <;> rfl

lemma snMakeNote_spec (t : SrcNoteType) (ht : t ≠ srcXDelta) {d : Nat} (hd : d < snDeltaLimit) :
    snType? (snMakeNote t d) = some t ∧ snDelta (snMakeNote t d) = d ∧
      (t ≠ srcNull → snMakeNote t d ≠ snTerminator) := by
  have hall : ∀ t : SrcNoteType, t ≠ srcXDelta → ∀ d : Fin 8,
      snIsXDelta (snMakeNote t d) = false ∧ (snMakeNote t d).toNat >>> 3 = t.code ∧
        (snMakeNote t d).toNat &&& 7 = d ∧ (t ≠ srcNull → snMakeNote t d ≠ snTerminator) := by
    intro t
    cases t <;> decide
  obtain ⟨hx, htype, hdelta, hnot⟩ := hall t ht ⟨d, hd⟩
  refine ⟨?_, ?_, hnot⟩
  · rw [snType?, hx, if_neg Bool.false_ne_true]
    exact (congrArg ofCode? htype).trans (ofCode?_code t)
  · rw [snDelta, hx, if_neg Bool.false_ne_true]
    exact hdelta

lemma snMakeXDelta_spec {d : Nat} (hd : d ≤ snXDeltaMask) :
    snType? (snMakeXDelta d) = some srcXDelta ∧ snDelta (snMakeXDelta d) = d ∧
      snMakeXDelta d ≠ snTerminator := by
  have hall : ∀ d : Fin 64, snIsXDelta (snMakeXDelta d) = true ∧
      (snMakeXDelta d).toNat &&& 63 = d ∧ snMakeXDelta d ≠ snTerminator := by
    decide
  obtain ⟨hx, hdelta, hnot⟩ := hall ⟨d, Nat.lt_succ_of_le hd⟩
  refine ⟨?_, ?_, hnot⟩
  · rw [snType?, hx, if_pos rfl]
  · rw [snDelta, hx, if_pos rfl]
    exact hdelta

lemma smallByte_spec {v : Nat} (hv : v ≤ sn3ByteOffsetMask) :
    has3ByteFlag (BitVec.ofNat 8 v) = false ∧ (BitVec.ofNat 8 v).toNat = v := by
  have hall : ∀ v : Fin 128, has3ByteFlag (BitVec.ofNat 8 v) = false ∧
      (BitVec.ofNat 8 v.val).toNat = v := by
    decide
  exact hall ⟨v, Nat.lt_succ_of_le hv⟩

lemma flaggedByte_spec {x : Nat} (hx : x < 128) :
    has3ByteFlag (BitVec.ofNat 8 (sn3ByteOffsetFlag ||| x)) = true ∧
      (BitVec.ofNat 8 (sn3ByteOffsetFlag ||| x)).toNat &&& sn3ByteOffsetMask = x := by
  have hall : ∀ x : Fin 128, has3ByteFlag (BitVec.ofNat 8 (sn3ByteOffsetFlag ||| x)) = true ∧
      (BitVec.ofNat 8 (sn3ByteOffsetFlag ||| x.val)).toNat &&& sn3ByteOffsetMask = x := by
    decide
  exact hall ⟨x, hx⟩

/-- Three bytes put together. -/
lemma threeBytes (v : Nat) (a b c : Nat) (ha : a = v >>> 16) (hb : b = (v >>> 8) % 256)
    (hc : c = v % 256) : (a <<< 16) ||| (b <<< 8) ||| c = v := by
  have hlow : a <<< 16 ||| b <<< 8 = (v >>> 8) <<< 8 := by
    rw [← Nat.shiftLeft_add_eq_or_of_lt (by rw [Nat.shiftLeft_eq]; omega)]
    simp only [Nat.shiftLeft_eq, Nat.shiftRight_eq_div_pow] at *
    omega
  rw [hlow, ← Nat.shiftLeft_add_eq_or_of_lt (by omega), Nat.shiftLeft_eq, Nat.shiftRight_eq_div_pow]
  omega

/-! ## The layout -/

/-- An operand: its value, and whether it has three bytes. -/
abbrev Operand : Type := Nat × Bool

def operandBytes : Operand → List Byte
  | (v, false) => [BitVec.ofNat 8 v]
  | (v, true) =>
    [BitVec.ofNat 8 (sn3ByteOffsetFlag ||| (v >>> 16)), BitVec.ofNat 8 (v >>> 8), BitVec.ofNat 8 v]

/-- The value fits. -/
def OperandFits (o : Operand) : Prop := o.1 ≤ snMaxOffset ∧ (o.2 = false → o.1 ≤ sn3ByteOffsetMask)

/-- The first byte of an operand tells how many there are. -/
lemma operandBytes_cases {o : Operand} (h : OperandFits o) :
    (∃ b, operandBytes o = [b] ∧ has3ByteFlag b = false ∧ b.toNat = o.1 ∧ o.2 = false) ∨
      ∃ b b1 b2, operandBytes o = [b, b1, b2] ∧ has3ByteFlag b = true ∧ o.2 = true ∧
        ((b.toNat &&& sn3ByteOffsetMask) <<< 16) ||| (b1.toNat <<< 8) ||| b2.toNat = o.1 := by
  obtain ⟨v, wide⟩ := o
  obtain ⟨hmax, hsmall⟩ := h
  cases wide with
  | false =>
    obtain ⟨hflag, hval⟩ := smallByte_spec (hsmall rfl)
    exact .inl ⟨_, rfl, hflag, hval, rfl⟩
  | true =>
    have hhigh : v >>> 16 < 128 := by
      rw [Nat.shiftRight_eq_div_pow]
      simp only [snMaxOffset, Nat.shiftLeft_eq] at hmax
      omega
    obtain ⟨hflag, hval⟩ := flaggedByte_spec hhigh
    exact .inr ⟨_, _, _, rfl, hflag, rfl, threeBytes v _ _ _ hval (BitVec.toNat_ofNat _ _)
      (BitVec.toNat_ofNat _ _)⟩

/-- All operands, one after the other. -/
def operandsBytes (os : List Operand) : List Byte := os.flatMap operandBytes

lemma operandsBytes_cons (o : Operand) (os : List Operand) :
    operandsBytes (o :: os) = operandBytes o ++ operandsBytes os := rfl

lemma lengthLoop_operands {os : List Operand} (h : ∀ o ∈ os, OperandFits o) (rest : List Byte) :
    lengthLoop os.length (operandsBytes os ++ rest) = some (operandsBytes os).length := by
  induction os with
  | nil => rfl
  | cons o os ih =>
    have hrest := ih fun o ho => h o (mem_cons_of_mem _ ho)
    rw [operandsBytes_cons, length_cons]
    rcases operandBytes_cases (h o mem_cons_self) with
      ⟨b, hb, hflag, _⟩ | ⟨b, b1, b2, hb, hflag, _⟩
    · rw [hb, append_assoc, singleton_append, lengthLoop, hflag, if_neg Bool.false_ne_true,
        hrest]
      rfl
    · rw [hb, append_assoc, cons_append, lengthLoop, hflag, if_pos rfl]
      change (lengthLoop os.length (operandsBytes os ++ rest)).map (· + 3) = _
      rw [hrest]
      rfl

lemma offsetLoop_operands {os : List Operand} {o : Operand} (h : ∀ o ∈ os, OperandFits o)
    (ho : OperandFits o) (rest : List Byte) :
    offsetLoop os.length (operandsBytes os ++ (operandBytes o ++ rest)) = some o.1 := by
  induction os with
  | nil =>
    rcases operandBytes_cases ho with ⟨b, hb, hflag, hval, _⟩ | ⟨b, b1, b2, hb, hflag, _, hval⟩
    · rw [length_nil, operandsBytes, flatMap_nil, nil_append, offsetLoop, hb]
      simp only [singleton_append, readOffset, hflag, Bool.false_eq_true, if_false, hval]
    · rw [length_nil, operandsBytes, flatMap_nil, nil_append, offsetLoop, hb,
        cons_append, cons_append, singleton_append, readOffset, hflag, if_pos rfl]
      exact congrArg some hval
  | cons o1 os ih =>
    have hrest := ih fun o ho => h o (mem_cons_of_mem _ ho)
    rw [operandsBytes_cons, length_cons]
    rcases operandBytes_cases (h o1 mem_cons_self) with
      ⟨b, hb, hflag, _⟩ | ⟨b, b1, b2, hb, hflag, _⟩
    · rw [hb, append_assoc, singleton_append, offsetLoop, hflag, if_neg Bool.false_ne_true,
        hrest]
    · rw [hb, append_assoc, cons_append, offsetLoop, hflag, if_pos rfl]
      exact hrest

lemma mapM_range_eq_some {β : Type} {f : Nat → Option β} (l : List β)
    (h : ∀ i (hi : i < l.length), f i = some l[i]) : (List.range l.length).mapM f = some l := by
  induction l using List.reverseRecOn with
  | nil => rfl
  | append_singleton l b ih =>
    have hlast := h l.length (by rw [length_append, length_singleton]; omega)
    rw [getElem_concat_length rfl] at hlast
    have hinit := ih fun i hi => by
      have hi' := h i (by rw [length_append]; omega)
      rwa [getElem_append_left hi] at hi'
    rw [length_append, length_singleton, range_succ, mapM_append, hinit]
    simp only [mapM_cons, mapM_nil, hlast, Option.bind_eq_bind, Option.bind_some,
      Option.pure_def]

lemma mapM_getSrcNoteOffset {os : List Operand} (h : ∀ o ∈ os, OperandFits o) (sn : Byte)
    (rest : List Byte) :
    (List.range os.length).mapM (getSrcNoteOffset (sn :: (operandsBytes os ++ rest))) =
      some (os.map Prod.fst) := by
  have hread : ∀ which (hw : which < os.length),
      getSrcNoteOffset (sn :: (operandsBytes os ++ rest)) which = some os[which].1 := by
    intro which hw
    have hsplit : os = os.take which ++ os[which] :: os.drop (which + 1) := by
      rw [← drop_eq_getElem_cons hw, take_append_drop]
    have hlength : (os.take which).length = which := length_take_of_le (Nat.le_of_lt hw)
    have hbytes : operandsBytes os ++ rest = operandsBytes (os.take which) ++
        (operandBytes os[which] ++ (operandsBytes (os.drop (which + 1)) ++ rest)) := by
      conv_lhs => rw [hsplit]
      simp only [operandsBytes, flatMap_append, flatMap_cons, append_assoc]
    have htake : ∀ o ∈ os.take which, OperandFits o := fun o ho => h o (mem_of_mem_take ho)
    have hloop := offsetLoop_operands htake (h _ (getElem_mem hw))
      (operandsBytes (os.drop (which + 1)) ++ rest)
    rw [hlength, ← hbytes] at hloop
    exact hloop
  have hlength : os.length = (os.map Prod.fst).length := (length_map _).symm
  rw [hlength]
  refine mapM_range_eq_some _ fun i hi => ?_
  rw [length_map] at hi
  rw [hread i hi, getElem_map]

/-- The extended notes for a delta. -/
def xdeltaBytes (delta : Nat) : List Byte :=
  if snDeltaLimit ≤ delta then
    snMakeXDelta (min delta snXDeltaMask) :: xdeltaBytes (delta - min delta snXDeltaMask)
  else []
termination_by delta
decreasing_by
  simp only [snDeltaLimit, snDeltaBits, snXDeltaMask, snXDeltaBits] at *
  omega

/-- What is left of the delta for the note itself. -/
def restDelta (delta : Nat) : Nat :=
  if snDeltaLimit ≤ delta then restDelta (delta - min delta snXDeltaMask) else delta
termination_by delta
decreasing_by
  simp only [snDeltaLimit, snDeltaBits, snXDeltaMask, snXDeltaBits] at *
  omega

lemma restDelta_lt (delta : Nat) : restDelta delta < snDeltaLimit := by
  fun_induction restDelta delta with
  | case1 delta _ ih => exact ih
  | case2 delta h => exact Nat.lt_of_not_le h

lemma restDelta_le (delta : Nat) : restDelta delta ≤ delta := by
  fun_induction restDelta delta with
  | case1 delta _ ih => exact Nat.le_trans ih (Nat.sub_le _ _)
  | case2 delta _ => exact Nat.le_refl _

/-- A note, with the widths of its operands. -/
structure LaidNote where
  type : SrcNoteType
  offset : Nat
  operands : List Operand

def LaidNote.toNote (g : LaidNote) : SrcNote := ⟨g.type, g.offset, g.operands.map Prod.fst⟩

/-- The bytes before a note of its own, where the last note is at `prev`. -/
def LaidNote.before (prev : Nat) (g : LaidNote) : List Byte := xdeltaBytes (g.offset - prev)

/-- Its first byte. -/
def LaidNote.head (prev : Nat) (g : LaidNote) : Byte :=
  snMakeNote g.type (restDelta (g.offset - prev))

def LaidNote.bytes (prev : Nat) (g : LaidNote) : List Byte :=
  g.before prev ++ g.head prev :: operandsBytes g.operands

def layBytes : Nat → List LaidNote → List Byte
  | _, [] => []
  | prev, g :: gs => g.bytes prev ++ layBytes g.offset gs

/-- What may be laid out. -/
structure LaidNote.Fits (prev : Nat) (g : LaidNote) : Prop where
  ordered : prev ≤ g.offset
  not_null : g.type ≠ srcNull
  not_xdelta : g.type ≠ srcXDelta
  arity : g.operands.length = g.type.arity
  operands : ∀ o ∈ g.operands, OperandFits o

def LaidOut : Nat → List LaidNote → Prop
  | _, [] => True
  | prev, g :: gs => g.Fits prev ∧ LaidOut g.offset gs

/-- Where the last note is. -/
def lastOffset : Nat → List LaidNote → Nat
  | prev, [] => prev
  | _, g :: gs => lastOffset g.offset gs

lemma layBytes_append (prev : Nat) (gs gs' : List LaidNote) :
    layBytes prev (gs ++ gs') = layBytes prev gs ++ layBytes (lastOffset prev gs) gs' := by
  induction gs generalizing prev with
  | nil => rfl
  | cons g gs ih => rw [cons_append, layBytes, layBytes, ih, append_assoc]; rfl

lemma laidOut_append (prev : Nat) (gs gs' : List LaidNote) :
    LaidOut prev (gs ++ gs') ↔ LaidOut prev gs ∧ LaidOut (lastOffset prev gs) gs' := by
  induction gs generalizing prev with
  | nil => exact ⟨fun h => ⟨trivial, h⟩, And.right⟩
  | cons g gs ih => rw [cons_append, LaidOut, LaidOut, ih, and_assoc]; rfl

lemma lastOffset_append (prev : Nat) (gs gs' : List LaidNote) :
    lastOffset prev (gs ++ gs') = lastOffset (lastOffset prev gs) gs' := by
  induction gs generalizing prev with
  | nil => rfl
  | cons g gs ih => exact ih g.offset

/-! ## The walk -/

lemma walk_xdelta {d : Nat} (hd : d ≤ snXDeltaMask) (fuel offset : Nat) (rest : List Byte) :
    walk (fuel + 1) offset (snMakeXDelta d :: rest) = walk fuel (offset + d) rest := by
  obtain ⟨htype, hdelta, hnot⟩ := snMakeXDelta_spec hd
  have hlength : snLength (snMakeXDelta d :: rest) = some 1 := by
    rw [snLength, htype]
    rfl
  rw [walk, if_neg hnot, htype, hlength, hdelta]
  simp only [Option.bind_eq_bind, Option.bind_some, arity, range_zero, mapM_nil,
    Option.pure_def, drop_succ_cons, drop_zero, if_true]
  cases walk fuel (offset + d) rest <;> rfl

lemma walk_xdeltaBytes (fuel offset delta : Nat) (rest : List Byte) :
    walk ((xdeltaBytes delta).length + fuel) offset (xdeltaBytes delta ++ rest) =
      walk fuel (offset + (delta - restDelta delta)) rest := by
  fun_induction restDelta delta generalizing offset with
  | case1 delta h ih =>
    rw [xdeltaBytes, if_pos h, length_cons, cons_append, Nat.add_right_comm,
      walk_xdelta (Nat.min_le_right _ _), ih]
    have hle := restDelta_le (delta - min delta snXDeltaMask)
    congr 1
    omega
  | case2 delta h =>
    rw [xdeltaBytes, if_neg h, Nat.sub_self, length_nil, Nat.zero_add]
    rfl

lemma walk_note {prev : Nat} {g : LaidNote} (hg : g.Fits prev) (fuel : Nat) (rest : List Byte) :
    walk ((g.before prev).length + (fuel + 1)) prev (g.bytes prev ++ rest) =
      (walk fuel g.offset rest).map fun p => (g.toNote :: p.1, p.2) := by
  obtain ⟨htype, hdelta, hnot⟩ :=
    snMakeNote_spec g.type hg.not_xdelta (restDelta_lt (g.offset - prev))
  have hsum : prev + (g.offset - prev - restDelta (g.offset - prev)) +
      restDelta (g.offset - prev) = g.offset := by
    have hle := restDelta_le (g.offset - prev)
    have hordered := hg.ordered
    omega
  have hlength : snLength (g.head prev :: (operandsBytes g.operands ++ rest)) =
      some ((operandsBytes g.operands).length + 1) := by
    rw [snLength, LaidNote.head, htype]
    change (lengthLoop g.type.arity (operandsBytes g.operands ++ rest)).map (· + 1) = _
    rw [← hg.arity, lengthLoop_operands hg.operands]
    rfl
  have hread := mapM_getSrcNoteOffset hg.operands (g.head prev) rest
  rw [hg.arity] at hread
  rw [LaidNote.bytes, append_assoc, LaidNote.before, walk_xdeltaBytes, cons_append, walk,
    if_neg (show g.head prev ≠ snTerminator from hnot hg.not_null), hlength]
  have htype' : snType? (g.head prev) = some g.type := htype
  have hdelta' : snDelta (g.head prev) = restDelta (g.offset - prev) := hdelta
  rw [htype', hdelta', hsum]
  simp only [Option.bind_eq_bind, Option.bind_some, hread, drop_succ_cons, drop_left]
  cases walk fuel g.offset rest with
  | none => rfl
  | some p =>
    simp only [Option.bind_some, if_neg hg.not_xdelta]
    rfl

/-- The walk comes to all notes, and ends at the terminator after them. -/
lemma walk_layBytes {prev : Nat} {gs : List LaidNote} (h : LaidOut prev gs) {fuel : Nat}
    (hfuel : (layBytes prev gs).length < fuel) :
    walk fuel prev (layBytes prev gs ++ [snTerminator]) =
      some (gs.map LaidNote.toNote, [snTerminator]) := by
  induction gs generalizing prev fuel with
  | nil =>
    obtain ⟨fuel, rfl⟩ := Nat.exists_eq_succ_of_ne_zero (Nat.ne_of_gt hfuel)
    rfl
  | cons g gs ih =>
    rw [layBytes, length_append, LaidNote.bytes, length_append, length_cons] at hfuel
    obtain ⟨fuel', rfl⟩ : ∃ fuel', fuel = (g.before prev).length + (fuel' + 1) :=
      ⟨fuel - (g.before prev).length - 1, by omega⟩
    rw [layBytes, append_assoc, walk_note h.1, ih h.2 (by omega)]
    rfl

end SpiderMonkey.Frontend
