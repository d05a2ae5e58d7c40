import SpiderMonkey.Frontend.SourceNotesSoundness

/-! # Source notes: runs

Notes are added at the end, and operands of any of them are set. Who holds the index of a note has to
move it when bytes are inserted before the note.
-/

namespace SpiderMonkey.Frontend

open Lib SrcNoteType EmitSection List Option

/-! ## The operations -/

inductive NoteOp where
  /-- `NewSrcNote`, at an offset in the bytecode. -/
  | newSrcNote (type : SrcNoteType) (offset : Nat)
  /-- `SetSrcNoteOffset` on an operand of a note, by the number of the note. -/
  | setSrcNoteOffset (note which value : Nat)

/-- What has been emitted: the bytes, the indices of the notes as they are now, and the notes with the
operands that they have been given. -/
structure Emitted where
  section_ : EmitSection
  indices : List Nat
  notes : List SrcNote

def Emitted.new : Emitted := ⟨EmitSection.new, [], []⟩

/-- The indices of the notes behind an index at which bytes have been inserted. -/
def adjustIndices (index grown : Nat) (indices : List Nat) : List Nat :=
  indices.map fun i => if index < i then i + grown else i

def Emitted.step (e : Emitted) : NoteOp → Option Emitted
  | .newSrcNote type offset =>
    let (index, s) := e.section_.newSrcNote offset type
    some ⟨s, e.indices ++ [index], e.notes ++ [⟨type, offset, List.replicate type.arity 0⟩]⟩
  | .setSrcNoteOffset note which value => do
    let index ← e.indices[note]?
    let (ok, s) ← e.section_.setSrcNoteOffset index which value
    if ok then
      some ⟨s, adjustIndices index (s.noteCount - e.section_.noteCount) e.indices,
        e.notes.modify note fun n => { n with operands := n.operands.set which value }⟩
    else some e

/-- What the emitter answers for: bytecode grows, and the operand is one that there is. -/
def NoteAllowed (e : Emitted) : NoteOp → Prop
  | .newSrcNote type offset =>
    (∀ n ∈ e.notes, n.offset ≤ offset) ∧ type ≠ srcNull ∧ type ≠ srcXDelta
  | .setSrcNoteOffset note which value =>
    (∃ n, e.notes[note]? = some n ∧ which < n.type.arity) ∧ value ≤ snMaxOffset

/-- The walk yields the notes, and it ends at the terminator behind them. -/
def Emitted.WalkAgrees (e : Emitted) : Prop :=
  walk (e.section_.noteCount + 1) 0 (e.section_.notes ++ [snTerminator]) =
    some (e.notes, [snTerminator])

def NotesBehave : Emitted → List NoteOp → Prop
  | e, [] => e.WalkAgrees
  | e, op :: ops => e.WalkAgrees ∧
      (NoteAllowed e op → ∃ e', e.step op = some e' ∧ NotesBehave e' ops)

/-! ## One note more -/

lemma xdeltaLoop_spec (s : EmitSection) (delta : Nat) :
    (xdeltaLoop s delta).1.notes = s.notes ++ xdeltaBytes delta ∧
      (xdeltaLoop s delta).1.lastNoteOffset = s.lastNoteOffset ∧
      (xdeltaLoop s delta).2 = restDelta delta := by
  fun_induction xdeltaLoop s delta with
  | case1 s delta h xdelta ih =>
    obtain ⟨hnotes, hlast, hrest⟩ := ih
    rw [xdeltaBytes, if_pos h, restDelta, if_pos h]
    refine ⟨hnotes.trans ?_, hlast, hrest⟩
    rw [allocSrcNote, append_assoc]
    rfl
  | case2 s delta h =>
    rw [xdeltaBytes, if_neg h, restDelta, if_neg h, append_nil]
    exact ⟨rfl, rfl, rfl⟩

lemma newSrcNoteByte_spec (s : EmitSection) (offset : Nat) (type : SrcNoteType) :
    (s.newSrcNoteByte offset type).2.notes = s.notes ++ xdeltaBytes (offset - s.lastNoteOffset) ++
        [snMakeNote type (restDelta (offset - s.lastNoteOffset))] ∧
      (s.newSrcNoteByte offset type).2.lastNoteOffset = offset ∧
      (s.newSrcNoteByte offset type).1 =
        s.notes.length + (xdeltaBytes (offset - s.lastNoteOffset)).length := by
  obtain ⟨hnotes, hlast, hrest⟩ :=
    xdeltaLoop_spec { s with lastNoteOffset := offset } (offset - s.lastNoteOffset)
  simp only [newSrcNoteByte, allocSrcNote, noteCount, hnotes, hlast, hrest, length_append]
  exact ⟨trivial, trivial, trivial⟩

lemma xdeltaBytes_small {delta : Nat} (h : delta < snDeltaLimit) : xdeltaBytes delta = [] := by
  rw [xdeltaBytes, if_neg (Nat.not_le_of_lt h)]

/-- An operand is a zero byte to begin with. -/
lemma newSrcNoteByte_null {s : EmitSection} {offset : Nat} (h : s.lastNoteOffset = offset) :
    (s.newSrcNoteByte offset srcNull).2.notes = s.notes ++ [0#8] ∧
      (s.newSrcNoteByte offset srcNull).2.lastNoteOffset = offset := by
  obtain ⟨hnotes, hlast, _⟩ := newSrcNoteByte_spec s offset srcNull
  rw [h, Nat.sub_self, xdeltaBytes_small (by decide), append_nil, restDelta,
    if_neg (by decide)] at hnotes
  exact ⟨hnotes, hlast⟩

lemma nullNotes_spec (n offset : Nat) {s : EmitSection} (h : s.lastNoteOffset = offset) :
    (Nat.iterate (fun s => (newSrcNoteByte s offset srcNull).2) n s).notes =
        s.notes ++ operandsBytes (List.replicate n (0, false)) ∧
      (Nat.iterate (fun s => (newSrcNoteByte s offset srcNull).2) n s).lastNoteOffset = offset := by
  induction n generalizing s with
  | zero => exact ⟨(append_nil _).symm, h⟩
  | succ n ih =>
    obtain ⟨hnotes, hlast⟩ := newSrcNoteByte_null h
    obtain ⟨hnotes', hlast'⟩ := ih hlast
    refine ⟨hnotes'.trans ?_, hlast'⟩
    rw [hnotes, append_assoc]
    rfl

/-- A note as it is emitted. -/
def LaidNote.fresh (type : SrcNoteType) (offset : Nat) : LaidNote :=
  ⟨type, offset, List.replicate type.arity (0, false)⟩

lemma newSrcNote_spec (s : EmitSection) (offset : Nat) (type : SrcNoteType) :
    (s.newSrcNote offset type).2.notes =
        s.notes ++ (LaidNote.fresh type offset).bytes s.lastNoteOffset ∧
      (s.newSrcNote offset type).2.lastNoteOffset = offset ∧
      (s.newSrcNote offset type).1 =
        s.notes.length + ((LaidNote.fresh type offset).before s.lastNoteOffset).length := by
  obtain ⟨hnotes, hlast, hindex⟩ := newSrcNoteByte_spec s offset type
  obtain ⟨hnotes', hlast'⟩ := nullNotes_spec type.arity offset hlast
  refine ⟨hnotes'.trans ?_, hlast', hindex⟩
  rw [hnotes, LaidNote.bytes, append_assoc, append_assoc]
  rfl

/-! ## An operand -/

lemma skipOffsets_operands {os : List Operand} (h : ∀ o ∈ os, OperandFits o) (pre rest : List Byte) :
    skipOffsets (pre ++ (operandsBytes os ++ rest)) os.length pre.length =
      some (pre.length + (operandsBytes os).length) := by
  induction os generalizing pre with
  | nil => rfl
  | cons o os ih =>
    have hfits := fun o ho => h o (mem_cons_of_mem _ ho)
    rw [operandsBytes_cons, length_cons, length_append]
    rcases operandBytes_cases (h o mem_cons_self) with
      ⟨b, hb, hflag, _⟩ | ⟨b, b1, b2, hb, hflag, _⟩
    · have hrest := ih hfits (pre ++ [b])
      rw [append_assoc, length_append] at hrest
      rw [hb, append_assoc, skipOffsets, List.getElem?_append_right (Nat.le_refl _), Nat.sub_self]
      simp only [singleton_append, List.getElem?_cons_zero, bind_eq_bind, bind_some,
        hflag, Bool.false_eq_true, if_false]
      rw [← Nat.add_assoc]
      exact hrest
    · have hrest := ih hfits (pre ++ [b, b1, b2])
      rw [append_assoc, length_append] at hrest
      rw [hb, append_assoc, skipOffsets, List.getElem?_append_right (Nat.le_refl _), Nat.sub_self]
      simp only [cons_append, List.getElem?_cons_zero, bind_eq_bind, bind_some,
        hflag, if_true]
      rw [← Nat.add_assoc]
      exact hrest

/-- An operand with a new value: it is not made narrower. -/
def Operand.assign (o : Operand) (value : Nat) : Operand :=
  (value, o.2 || decide (sn3ByteOffsetMask < value))

lemma operandFits_assign {o : Operand} {value : Nat} (hvalue : value ≤ snMaxOffset) :
    OperandFits (o.assign value) := by
  refine ⟨hvalue, fun hwide => ?_⟩
  rw [Operand.assign, Bool.or_eq_false_iff, decide_eq_false_iff_not] at hwide
  exact Nat.le_of_not_lt hwide.2

lemma set_three (pre rest : List Byte) (b b1 b2 c c1 c2 : Byte) :
    (((pre ++ b :: b1 :: b2 :: rest).set pre.length c).set (pre.length + 1) c1).set (pre.length + 2) c2 =
      pre ++ c :: c1 :: c2 :: rest := by
  induction pre with
  | nil => rfl
  | cons p pre ih =>
    simp only [cons_append, length_cons, set_cons_succ, Nat.add_right_comm _ 1 _]
    exact congrArg _ ih

lemma setSrcNoteOffset_spec {s : EmitSection} {pre post : List Byte} {head : Byte}
    {os : List Operand} {o : Operand} (hfits : ∀ o ∈ os, OperandFits o) (ho : OperandFits o)
    (hnotes : s.notes = pre ++ head :: (operandsBytes os ++ (operandBytes o ++ post))) {value : Nat}
    (hvalue : value ≤ snMaxOffset) :
    ∃ s', s.setSrcNoteOffset pre.length os.length value = some (true, s') ∧
      s'.lastNoteOffset = s.lastNoteOffset ∧
      s'.notes = pre ++ head :: (operandsBytes os ++ (operandBytes (o.assign value) ++ post)) := by
  have hsplit : ∀ bytes, pre ++ head :: (operandsBytes os ++ (bytes ++ post)) =
      (pre ++ head :: operandsBytes os) ++ (bytes ++ post) := fun bytes => by
    rw [append_assoc, cons_append]
  have hskip := skipOffsets_operands hfits (pre ++ [head]) (operandBytes o ++ post)
  rw [length_append, length_singleton, append_assoc, singleton_append, ← hnotes]
    at hskip
  have hlength : (pre ++ head :: operandsBytes os).length =
      pre.length + 1 + (operandsBytes os).length := by
    rw [length_append, length_cons]
    omega
  rw [hsplit] at hnotes ⊢
  rw [setSrcNoteOffset, if_neg (Nat.not_lt_of_le hvalue), hskip, ← hlength]
  generalize pre ++ head :: operandsBytes os = front at *
  rcases operandBytes_cases ho with ⟨b, hb, hflag, _, hwide⟩ | ⟨b, b1, b2, hb, hflag, hwide, _⟩
  · have hget : s.notes[front.length]? = some b := by
      rw [hnotes, hb, List.getElem?_append_right (Nat.le_refl _), Nat.sub_self]
      rfl
    simp only [bind_eq_bind, bind_some, hget, hflag, Bool.or_false, Bool.not_false,
      if_true]
    by_cases hlarge : sn3ByteOffsetMask < value
    · rw [if_pos (decide_eq_true hlarge)]
      refine ⟨_, rfl, ?_, ?_⟩
      · rw [widen]
        split_ifs <;> rfl
      · have hwidened : (s.widen front.length).notes = front ++ b :: 0#8 :: 0#8 :: post := by
          have hkeep : (if s.noteLimit ≤ s.noteCount + 1 then s.growSrcNotes else s).notes = s.notes := by
            split_ifs <;> rfl
          rw [widen]
          have hfront : front.length + 1 = (front ++ [b]).length := by
            rw [length_append, length_singleton]
          simp only [hkeep, hnotes, hb]
          rw [← append_assoc front, hfront, take_left, drop_left, append_assoc,
            append_assoc]
          rfl
        simp only [hwidened, set_three]
        rw [Operand.assign, decide_eq_true hlarge, Bool.or_true]
        rfl
    · rw [if_neg (by rw [decide_eq_true_eq]; exact hlarge)]
      refine ⟨_, rfl, rfl, ?_⟩
      rw [Operand.assign, decide_eq_false hlarge, hwide]
      simp only [hnotes, hb, set_append_right _ _ (Nat.le_refl _), Nat.sub_self]
      rfl
  · have hget : s.notes[front.length]? = some b := by
      rw [hnotes, hb, List.getElem?_append_right (Nat.le_refl _), Nat.sub_self]
      rfl
    simp only [bind_eq_bind, bind_some, hget, hflag, Bool.or_true, Bool.not_true,
      if_true, Bool.false_eq_true, if_false]
    refine ⟨_, rfl, rfl, ?_⟩
    rw [Operand.assign, hwide, Bool.true_or]
    simp only [hnotes, hb]
    exact set_three front post b b1 b2 _ _ _

lemma length_assign_le (o : Operand) (value : Nat) :
    (operandBytes o).length ≤ (operandBytes (o.assign value)).length := by
  obtain ⟨v, wide⟩ := o
  cases wide with
  | false =>
    rw [Operand.assign, Bool.false_or]
    cases decide (sn3ByteOffsetMask < value) <;> simp [operandBytes]
  | true => exact Nat.le_refl 3

/-! ## The indices -/

/-- Where the notes begin, from a place on. -/
def positions : Nat → Nat → List LaidNote → List Nat
  | _, _, [] => []
  | base, prev, g :: gs =>
    (base + (g.before prev).length) :: positions (base + (g.bytes prev).length) g.offset gs

lemma length_positions (base prev : Nat) (gs : List LaidNote) :
    (positions base prev gs).length = gs.length := by
  induction gs generalizing base prev with
  | nil => rfl
  | cons g gs ih => rw [positions, length_cons, length_cons, ih]

lemma positions_append (base prev : Nat) (gs gs' : List LaidNote) :
    positions base prev (gs ++ gs') = positions base prev gs ++
      positions (base + (layBytes prev gs).length) (lastOffset prev gs) gs' := by
  induction gs generalizing base prev with
  | nil => rfl
  | cons g gs ih =>
    rw [cons_append, positions, positions, ih, layBytes, length_append, Nat.add_assoc]
    rfl

lemma positions_shift (base grown prev : Nat) (gs : List LaidNote) :
    positions (base + grown) prev gs = (positions base prev gs).map (· + grown) := by
  induction gs generalizing base prev with
  | nil => rfl
  | cons g gs ih =>
    rw [positions, positions, map_cons, ← ih, Nat.add_right_comm, Nat.add_right_comm base grown]

lemma le_of_mem_positions {base prev : Nat} {gs : List LaidNote} {i : Nat}
    (h : i ∈ positions base prev gs) : base ≤ i ∧ i < base + (layBytes prev gs).length := by
  induction gs generalizing base prev with
  | nil => cases h
  | cons g gs ih =>
    rw [layBytes, length_append]
    rcases mem_cons.mp h with rfl | h
    · rw [LaidNote.bytes, length_append, length_cons]
      omega
    · have hrest := ih h
      omega

/-- The indices behind a note whose bytes have become more. -/
lemma adjustIndices_positions {prev : Nat} (gs gs' : List LaidNote) (g g' : LaidNote)
    (hoffset : g'.offset = g.offset) {grown : Nat}
    (hlength : (g'.bytes (lastOffset prev gs)).length =
      (g.bytes (lastOffset prev gs)).length + grown) :
    adjustIndices ((layBytes prev gs).length + (g.before (lastOffset prev gs)).length) grown
        (positions 0 prev (gs ++ g :: gs')) = positions 0 prev (gs ++ g' :: gs') := by
  have hbefore : g'.before (lastOffset prev gs) = g.before (lastOffset prev gs) := by
    rw [LaidNote.before, LaidNote.before, hoffset]
  rw [positions_append, positions_append, Nat.zero_add, positions, positions, hbefore, hoffset, hlength,
    ← Nat.add_assoc, positions_shift _ grown g.offset gs', adjustIndices, map_append, map_cons,
    if_neg (Nat.lt_irrefl _)]
  congr 1
  · refine (map_congr_left fun i hi => ?_).trans (map_id _)
    have hlt := (le_of_mem_positions hi).2
    exact if_neg (by omega)
  · congr 1
    refine map_congr_left fun i hi => if_pos ?_
    have hle := (le_of_mem_positions hi).1
    rw [LaidNote.bytes, length_append, length_cons] at hle
    omega

/-! ## The invariant -/

/-- The notes that have been laid out. -/
structure Emitted.Lays (e : Emitted) (gs : List LaidNote) : Prop where
  laid : LaidOut 0 gs
  bytes : e.section_.notes = layBytes 0 gs
  last : e.section_.lastNoteOffset = lastOffset 0 gs
  indices : e.indices = positions 0 0 gs
  notes : e.notes = gs.map LaidNote.toNote

lemma modify_length {α : Type} (l l' : List α) (a : α) (f : α → α) :
    (l ++ a :: l').modify l.length f = l ++ f a :: l' := by
  induction l with
  | nil => rfl
  | cons b l ih => exact congrArg (b :: ·) ih

lemma set_length {α : Type} (l l' : List α) (a a' : α) :
    (l ++ a :: l').set l.length a' = l ++ a' :: l' := by
  rw [set_append_right _ _ (Nat.le_refl _), Nat.sub_self, set_cons_zero]

namespace Emitted.Lays

variable {e : Emitted} {gs : List LaidNote}

lemma walkAgrees (h : e.Lays gs) : e.WalkAgrees := by
  rw [WalkAgrees, noteCount, h.bytes, h.notes]
  exact walk_layBytes h.laid (Nat.lt_succ_self _)

lemma lastOffset_le {prev offset : Nat} (hprev : prev ≤ offset)
    (hall : ∀ n ∈ gs.map LaidNote.toNote, n.offset ≤ offset) : lastOffset prev gs ≤ offset := by
  induction gs generalizing prev with
  | nil => exact hprev
  | cons g gs ih =>
    exact ih (hall g.toNote mem_cons_self) fun n hn => hall n (mem_cons_of_mem _ hn)

lemma newSrcNote (h : e.Lays gs) {type : SrcNoteType} {offset : Nat}
    (hallowed : NoteAllowed e (.newSrcNote type offset)) :
    ∃ e', e.step (.newSrcNote type offset) = some e' ∧
      e'.Lays (gs ++ [LaidNote.fresh type offset]) := by
  obtain ⟨hordered, hnull, hxdelta⟩ := hallowed
  obtain ⟨hnotes, hlast, hindex⟩ := newSrcNote_spec e.section_ offset type
  rw [h.last] at hnotes hindex
  rw [h.notes] at hordered
  refine ⟨_, rfl, ?_, ?_, ?_, ?_, ?_⟩
  · rw [laidOut_append]
    refine ⟨h.laid, ⟨lastOffset_le (Nat.zero_le _) hordered, hnull, hxdelta, length_replicate,
      fun o ho => ?_⟩, trivial⟩
    rw [eq_of_mem_replicate ho]
    exact ⟨Nat.zero_le _, fun _ => Nat.zero_le _⟩
  · change (e.section_.newSrcNote offset type).2.notes = _
    rw [hnotes, h.bytes, layBytes_append, layBytes, layBytes, append_nil]
  · rw [lastOffset_append]
    exact hlast
  · change e.indices ++ [(e.section_.newSrcNote offset type).1] = _
    rw [hindex, h.indices, positions_append, h.bytes, Nat.zero_add]
    rfl
  · change e.notes ++ [_] = _
    rw [h.notes, map_append, map_singleton, LaidNote.toNote, LaidNote.fresh,
      map_replicate]

lemma setSrcNoteOffset (h : e.Lays gs) {note which value : Nat}
    (hallowed : NoteAllowed e (.setSrcNoteOffset note which value)) :
    ∃ e' gs', e.step (.setSrcNoteOffset note which value) = some e' ∧ e'.Lays gs' := by
  obtain ⟨⟨n, hn, hwhich⟩, hvalue⟩ := hallowed
  -- the note, and those before and after it
  rw [h.notes, List.getElem?_map, map_eq_some_iff] at hn
  obtain ⟨g, hg, rfl⟩ := hn
  obtain ⟨hnote, rfl⟩ := List.getElem?_eq_some_iff.mp hg
  obtain ⟨front, g, back, rfl, rfl, hgnote⟩ : ∃ front g back, gs = front ++ g :: back ∧
      front.length = note ∧ g = gs[note] :=
    ⟨gs.take note, gs[note], gs.drop (note + 1), by
      rw [← drop_eq_getElem_cons hnote, take_append_drop],
      length_take_of_le (Nat.le_of_lt hnote), rfl⟩
  rw [← hgnote] at hwhich
  obtain ⟨hfront, hfits, hback⟩ := (laidOut_append _ _ _).mp h.laid
  -- the operand, and those before and after it
  obtain ⟨os, o, os', hos, hlength⟩ : ∃ os o os', g.operands = os ++ o :: os' ∧ os.length = which := by
    have hlt : which < g.operands.length := by
      rw [hfits.arity]
      exact hwhich
    exact ⟨g.operands.take which, g.operands[which], g.operands.drop (which + 1), by
      rw [← drop_eq_getElem_cons hlt, take_append_drop],
      length_take_of_le (Nat.le_of_lt hlt)⟩
  subst hlength
  let g' : LaidNote := { g with operands := os ++ o.assign value :: os' }
  have hfits_o : OperandFits o := hfits.operands o (by rw [hos]; exact mem_append_right _ mem_cons_self)
  have hfits_os : ∀ o ∈ os, OperandFits o := fun o ho =>
    hfits.operands o (by rw [hos]; exact mem_append_left _ ho)
  have hlayout : ∀ (k : LaidNote) (o1 : Operand), k.operands = os ++ o1 :: os' →
      k.offset = g.offset → k.type = g.type →
      layBytes 0 (front ++ k :: back) = (layBytes 0 front ++ g.before (lastOffset 0 front)) ++
        g.head (lastOffset 0 front) :: (operandsBytes os ++
          (operandBytes o1 ++ (operandsBytes os' ++ layBytes g.offset back))) := by
    intro k o1 hk hoffset htype
    rw [layBytes_append, layBytes, LaidNote.bytes, hk, LaidNote.before, LaidNote.before, LaidNote.head,
      LaidNote.head, hoffset, htype]
    simp only [operandsBytes, flatMap_append, flatMap_cons, append_assoc,
      cons_append]
  have hbytes := h.bytes.trans (hlayout g o hos rfl rfl)
  obtain ⟨s', hset, hlast', hnotes'⟩ := setSrcNoteOffset_spec hfits_os hfits_o hbytes hvalue
  have hbytes' := hnotes'.trans (hlayout g' (o.assign value) rfl rfl rfl).symm
  have hindex : e.indices[front.length]? =
      some (layBytes 0 front ++ g.before (lastOffset 0 front)).length := by
    rw [h.indices, positions_append, List.getElem?_append_right (Nat.le_of_eq (length_positions _ _ _)),
      length_positions, Nat.sub_self, Nat.zero_add, positions, length_append]
    rfl
  have hgrown : (g'.bytes (lastOffset 0 front)).length = (g.bytes (lastOffset 0 front)).length +
      (s'.noteCount - e.section_.noteCount) := by
    have hle := length_assign_le o value
    rw [noteCount, noteCount, hnotes', hbytes]
    simp only [LaidNote.bytes, LaidNote.before, hos, g', operandsBytes, flatMap_append,
      flatMap_cons, length_append, length_cons]
    omega
  refine ⟨⟨s', adjustIndices (layBytes 0 front ++ g.before (lastOffset 0 front)).length
    (s'.noteCount - e.section_.noteCount) e.indices,
    e.notes.modify front.length fun n => { n with operands := n.operands.set os.length value }⟩,
    front ++ g' :: back, ?_, ?_⟩
  · rw [Emitted.step]
    simp only [hindex, bind_eq_bind, bind_some, hset, if_true]
  refine ⟨?_, hbytes', ?_, ?_, ?_⟩
  · refine (laidOut_append _ _ _).mpr ⟨hfront, ⟨hfits.ordered, hfits.not_null, hfits.not_xdelta, ?_,
      fun o1 ho1 => ?_⟩, hback⟩
    · rw [← hfits.arity, hos, length_append, length_append, length_cons,
        length_cons]
    · rcases mem_append.mp ho1 with ho1 | ho1
      · exact hfits_os o1 ho1
      · rcases mem_cons.mp ho1 with rfl | ho1
        · exact operandFits_assign hvalue
        · exact hfits.operands o1
            (by rw [hos]; exact mem_append_right _ (mem_cons_of_mem _ ho1))
  · refine hlast'.trans (h.last.trans ?_)
    rw [lastOffset_append, lastOffset_append]
    rfl
  · change adjustIndices _ _ e.indices = _
    rw [h.indices, length_append]
    exact adjustIndices_positions front back g g' rfl hgrown
  · change e.notes.modify front.length _ = _
    rw [h.notes, map_append, map_append, map_cons, map_cons]
    have hfront : front.length = (front.map LaidNote.toNote).length := (length_map _).symm
    conv_lhs => rw [hfront]
    rw [modify_length]
    congr 2
    simp only [LaidNote.toNote, hos, g', map_append, map_cons]
    have hlength : os.length = (os.map Prod.fst).length := (length_map _).symm
    rw [hlength, set_length]
    rfl

lemma behaves (ops : List NoteOp) (h : e.Lays gs) : NotesBehave e ops := by
  induction ops generalizing e gs with
  | nil => exact h.walkAgrees
  | cons op ops ih =>
    refine ⟨h.walkAgrees, fun hallowed => ?_⟩
    cases op with
    | newSrcNote type offset =>
      obtain ⟨e', hstep, hlays⟩ := h.newSrcNote hallowed
      exact ⟨e', hstep, ih hlays⟩
    | setSrcNoteOffset note which value =>
      obtain ⟨e', gs', hstep, hlays⟩ := h.setSrcNoteOffset hallowed
      exact ⟨e', hstep, ih hlays⟩

end Emitted.Lays

end SpiderMonkey.Frontend
