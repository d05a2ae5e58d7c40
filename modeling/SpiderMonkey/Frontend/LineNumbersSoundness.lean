import SpiderMonkey.Frontend.LineNumbers
import SpiderMonkey.Frontend.FinalNotesSoundness

/-! # Lines and positions

Both searches are searches of the stretches of a line: `PCToLineNumber` finds the last that begins at
or before a bytecode, `js_LineNumberToPC` stops at one of those before a note. -/

namespace SpiderMonkey.Frontend

open Lib SrcNoteType EmitSection List Option UInt32

/-! ### The notes -/

/-- Notes in the order of their offsets, from an offset on. -/
lemma walkAll_offsets {fuel offset : Nat} {bytes last : List Byte} {items : List SrcNote}
    (h : walkAll fuel offset bytes = some (items, last)) :
    items.Pairwise (fun m n => m.offset ≤ n.offset) ∧ ∀ n ∈ items, offset ≤ n.offset := by
  induction fuel generalizing offset bytes items with
  | zero => cases h
  | succ fuel ih =>
    cases bytes with
    | nil => cases h
    | cons sn rest =>
      rw [walkAll] at h
      split at h
      · cases h
        exact ⟨.nil, nofun⟩
      · simp only [bind_eq_bind, bind_eq_some_iff] at h
        obtain ⟨type, -, length, -, operands, -, ⟨notes, last'⟩, hwalk, hresult⟩ := h
        cases hresult
        obtain ⟨hordered, hfrom⟩ := ih hwalk
        refine ⟨pairwise_cons.2 ⟨hfrom, hordered⟩, ?_⟩
        intro n hn
        rcases mem_cons.1 hn with rfl | hn
        · exact Nat.le_add_right _ _
        · exact (Nat.le_add_right _ _).trans (hfrom n hn)

/-- The walk leaves the extended deltas out. -/
lemma exists_walkAll {fuel offset : Nat} {bytes last : List Byte} {notes : List SrcNote}
    (h : walk fuel offset bytes = some (notes, last)) :
    ∃ items, walkAll fuel offset bytes = some (items, last) ∧
      notes = items.filter fun n => n.type ≠ srcXDelta := by
  induction fuel generalizing offset bytes notes with
  | zero => cases h
  | succ fuel ih =>
    cases bytes with
    | nil => cases h
    | cons sn rest =>
      rw [walk] at h
      rw [walkAll]
      split at h
      · cases h
        rename_i hsn
        rw [if_pos hsn]
        exact ⟨[], rfl, rfl⟩
      · rename_i hsn
        simp only [bind_eq_bind, bind_eq_some_iff] at h
        obtain ⟨type, htype, length, hlength, operands, hoperands, ⟨notes', last'⟩, hwalk, hresult⟩ := h
        obtain ⟨items, hall, rfl⟩ := ih (hwalk.trans (by split at hresult <;> cases hresult <;> rfl))
        rw [if_neg hsn]
        simp only [htype, hlength, hoperands, hall, bind_eq_bind, bind_some]
        refine ⟨_, rfl, ?_⟩
        split at hresult <;> rename_i hxdelta <;> cases hresult <;> simp [hxdelta]

lemma noteLine_eq {lineno : UInt32} {type : SrcNoteType} {sn : List Byte} {operands : List Nat}
    (h : (List.range type.arity).mapM (getSrcNoteOffset sn) = some operands) (offset : Nat) :
    noteLine lineno type sn = some ((⟨type, offset, operands⟩ : SrcNote).line lineno) := by
  cases type
  case srcSetLine =>
    have h : [0].mapM (getSrcNoteOffset sn) = some operands := h
    rw [mapM_cons, mapM_nil] at h
    obtain ⟨value, hvalue, h⟩ := bind_eq_some_iff.1 h
    cases h
    show (getSrcNoteOffset sn 0).map UInt32.ofNat = _
    rw [hvalue]
    rfl
  all_goals rfl

lemma lineAt_of_lt {pc : Nat} {notes : List SrcNote} (h : ∀ n ∈ notes, pc < n.offset)
    (lineno : UInt32) : lineAt pc notes lineno = lineno := by
  induction notes with
  | nil => rfl
  | cons n rest ih =>
    obtain ⟨hn, hrest⟩ := forall_mem_cons.1 h
    rw [lineAt, foldl_cons, if_neg hn.not_ge]
    exact ih hrest

lemma pcToLineLoop_eq {pc fuel offset : Nat} {lineno : UInt32} {bytes last : List Byte}
    {items : List SrcNote} (h : walkAll fuel offset bytes = some (items, last)) :
    pcToLineLoop pc fuel offset lineno bytes = some (lineAt pc items lineno) := by
  induction fuel generalizing offset lineno bytes items with
  | zero => cases h
  | succ fuel ih =>
    cases bytes with
    | nil => cases h
    | cons sn rest =>
      have hoffsets := (walkAll_offsets h)
      rw [walkAll] at h
      rw [pcToLineLoop]
      split at h
      · cases h
        rename_i hsn
        rw [if_pos hsn]
        rfl
      · rename_i hsn
        simp only [bind_eq_bind, bind_eq_some_iff] at h
        obtain ⟨type, htype, length, hlength, operands, hoperands, ⟨notes, last'⟩, hwalk, hresult⟩ := h
        cases hresult
        rw [if_neg hsn, htype]
        simp only [bind_eq_bind, bind_some]
        by_cases hpast : pc < offset + snDelta sn
        · rw [if_pos hpast, lineAt_of_lt]
          intro n hn
          rcases mem_cons.1 hn with rfl | hn
          · exact hpast
          · exact hpast.trans_le ((pairwise_cons.1 hoffsets.1).1 n hn)
        · rw [if_neg hpast, noteLine_eq hoperands (offset + snDelta sn), hlength]
          simp only [bind_some]
          rw [ih hwalk, lineAt, lineAt, foldl_cons, if_pos (Nat.le_of_not_lt hpast)]

/-- Where the search for a line stops, over the stretches. -/
def searchStretches (target : UInt32) (mainOffset : Nat) :
    List (Nat × UInt32) → Option Nat → UInt32 → Nat → Nat
  | [], best, _, last => best.getD last
  | (offset, lineno) :: rest, best, bestdiff, last =>
    if lineno = target ∧ mainOffset ≤ offset then offset
    else
      let nearer : Bool := target ≤ lineno ∧ lineno - target < bestdiff
      searchStretches target mainOffset rest (if nearer then some offset else best)
        (if nearer then lineno - target else bestdiff) last

lemma lastStart_cons (offset : Nat) (n : SrcNote) (rest : List SrcNote) :
    lastStart offset (n :: rest) = lastStart n.offset rest := by
  rw [lastStart, lastStart, List.getLast?_cons, map_some, getD_some]
  cases rest.getLast? <;> rfl

lemma lineToPcLoop_eq {target : UInt32} {mainOffset fuel offset : Nat} {lineno : UInt32}
    {best : Option Nat} {bestdiff : UInt32} {bytes last : List Byte} {items : List SrcNote}
    (h : walkAll fuel offset bytes = some (items, last)) :
    lineToPcLoop target mainOffset fuel offset lineno best bestdiff bytes =
      some (searchStretches target mainOffset (stretches offset lineno items) best bestdiff
        (lastStart offset items)) := by
  induction fuel generalizing offset lineno best bestdiff bytes items with
  | zero => cases h
  | succ fuel ih =>
    cases bytes with
    | nil => cases h
    | cons sn rest =>
      rw [walkAll] at h
      rw [lineToPcLoop]
      split at h
      · cases h
        rename_i hsn
        rw [if_pos hsn]
        rfl
      · rename_i hsn
        simp only [bind_eq_bind, bind_eq_some_iff] at h
        obtain ⟨type, htype, length, hlength, operands, hoperands, ⟨notes, last'⟩, hwalk, hresult⟩ := h
        cases hresult
        rw [if_neg hsn, stretches, searchStretches]
        by_cases hexact : lineno = target ∧ mainOffset ≤ offset
        · rw [if_pos hexact, if_pos hexact]
        · rw [if_neg hexact, if_neg hexact, lastStart_cons]
          simp only [htype, noteLine_eq hoperands (offset + snDelta sn), hlength, bind_eq_bind,
            bind_some]
          exact ih hwalk

/-! ### The search for a line -/

section Search

variable {target : UInt32} {mainOffset : Nat}

/-- How far a line is from the target. -/
def distance (target : UInt32) (best : Option (Nat × UInt32)) : UInt32 :=
  best.elim snLineLimit fun c => c.2 - target

lemma mem_of_nearestStretch {cs : List (Nat × UInt32)} {c : Nat × UInt32}
    (h : nearestStretch target cs = some c) : c ∈ cs ∧ target ≤ c.2 ∧ c.2 - target < snLineLimit := by
  have hmem := argmin_mem h
  rw [mem_filter, decide_eq_true_eq] at hmem
  exact hmem

/-- One stretch more is the nearest if it is nearer than those before it. -/
lemma nearestStretch_concat (cs : List (Nat × UInt32)) (c : Nat × UInt32) :
    nearestStretch target (cs ++ [c]) =
      if target ≤ c.2 ∧ c.2 - target < distance target (nearestStretch target cs) then some c
      else nearestStretch target cs := by
  have hmem : ∀ {d}, nearestStretch target cs = some d → d.2 - target < snLineLimit :=
    fun hd => (mem_of_nearestStretch hd).2.2
  rw [nearestStretch, filter_append]
  by_cases hc : target ≤ c.2 ∧ c.2 - target < snLineLimit
  · rw [filter_cons, if_pos (decide_eq_true hc), filter_nil, argmin_concat]
    change (Option.casesOn (nearestStretch target cs) (some c) fun d =>
      if (c.2 - target).toNat < (d.2 - target).toNat then some c else some d : Option _) = _
    cases nearestStretch target cs with
    | none => exact (if_pos hc).symm
    | some d =>
      by_cases hlt : c.2 - target < d.2 - target
      · exact (if_pos (lt_iff_toNat_lt.1 hlt)).trans (if_pos ⟨hc.1, hlt⟩).symm
      · exact (if_neg fun h => hlt (lt_iff_toNat_lt.2 h)).trans
          (if_neg fun h => hlt h.2).symm
  · rw [filter_cons, decide_eq_false hc, if_neg Bool.false_ne_true, filter_nil,
      append_nil, if_neg]
    · rfl
    · rintro ⟨hle, hlt⟩
      refine hc ⟨hle, ?_⟩
      cases hd : nearestStretch target cs with
      | none =>
        rw [hd] at hlt
        exact hlt
      | some d =>
        rw [hd] at hlt
        exact UInt32.lt_trans hlt (hmem hd)

lemma searchStretches_eq (last : Nat) (cs seen : List (Nat × UInt32)) :
    searchStretches target mainOffset cs ((nearestStretch target seen).map Prod.fst)
        (distance target (nearestStretch target seen)) last =
      (((exactStretch target mainOffset cs).or (nearestStretch target (seen ++ cs))).map
        Prod.fst).getD last := by
  induction cs generalizing seen with
  | nil =>
    rw [searchStretches, append_nil]
    rfl
  | cons c rest ih =>
    rw [searchStretches]
    by_cases hexact : c.2 = target ∧ mainOffset ≤ c.1
    · rw [if_pos hexact, exactStretch, List.find?_cons, decide_eq_true hexact]
      rfl
    · have hsplit : seen ++ c :: rest = (seen ++ [c]) ++ rest := by
        rw [append_assoc]
        rfl
      rw [if_neg hexact, exactStretch, List.find?_cons, decide_eq_false hexact, hsplit]
      refine Eq.trans ?_ (ih (seen ++ [c]))
      rw [nearestStretch_concat]
      simp only [decide_eq_true_eq]
      split <;> rfl

end Search

/-! ### Lines and stretches -/

section Stretches

variable {notes : List SrcNote}

lemma lineAt_cons (pc : Nat) (n : SrcNote) (rest : List SrcNote) (lineno : UInt32) :
    lineAt pc (n :: rest) lineno =
      lineAt pc rest (if n.offset ≤ pc then n.line lineno else lineno) := rfl

/-- A line is that of a stretch before a note, or of the last. -/
lemma mem_stretches_of_lineAt {target : UInt32} {pc : Nat} :
    ∀ {notes : List SrcNote} (offset : Nat) {lineno : UInt32},
    notes.Pairwise (fun m n => m.offset ≤ n.offset) → lineAt pc notes lineno = target →
    (∃ c ∈ stretches offset lineno notes, c.2 = target) ∨
      ∀ end_, (∀ n ∈ notes, n.offset ≤ end_) → lineAt end_ notes lineno = target := by
  intro notes
  induction notes with
  | nil => exact fun _ {_} _ h => .inr fun _ _ => h
  | cons n rest ih =>
    intro offset lineno hordered h
    obtain ⟨hn, hrest⟩ := pairwise_cons.1 hordered
    rw [lineAt_cons] at h
    split at h
    · rcases ih n.offset hrest h with ⟨c, hc, hline⟩ | hlast
      · exact .inl ⟨c, mem_cons_of_mem _ hc, hline⟩
      · refine .inr fun end_ hend => ?_
        obtain ⟨hend, hrest'⟩ := forall_mem_cons.1 hend
        rw [lineAt_cons, if_pos hend]
        exact hlast end_ hrest'
    · rename_i hpast
      rw [lineAt_of_lt fun m hm => (Nat.lt_of_not_le hpast).trans_le (hn m hm)] at h
      exact .inl ⟨_, mem_cons_self, h⟩

lemma offset_le_lastStart : ∀ {notes : List SrcNote} {offset : Nat},
    notes.Pairwise (fun m n => m.offset ≤ n.offset) → ∀ n ∈ notes, n.offset ≤ lastStart offset notes := by
  intro notes
  induction notes with
  | nil => nofun
  | cons m rest ih =>
    intro offset hordered n hn
    obtain ⟨hm, hrest⟩ := pairwise_cons.1 hordered
    rw [lastStart_cons]
    rcases mem_cons.1 hn with rfl | hn
    · cases hlast : rest.getLast? with
      | none => rw [lastStart, hlast]; exact Nat.le_refl _
      | some k =>
        rw [lastStart, hlast]
        exact hm k (mem_of_getLast? hlast)
    · exact ih hrest n hn

end Stretches

namespace NotedScript

variable (s : NotedScript) {target : UInt32}

lemma pcToLineNumber_eq (pc : Nat) : pcToLineNumber s.lineno s.notes pc = some (s.lineOf pc) :=
  pcToLineLoop_eq s.walks

lemma lineNumberToPc_eq (target : UInt32) :
    lineNumberToPc s.lineno s.notes s.mainOffset target =
      some (((s.stretchFor target).map Prod.fst).getD (lastStart 0 s.items)) := by
  rw [lineNumberToPc, lineToPcLoop_eq s.walks]
  exact congrArg some (searchStretches_eq _ (stretches 0 s.lineno s.items) [])

/-- If no stretch before a note is taken for a line that there is, the last has it. -/
lemma lineOf_lastStart {pc : Nat} (hpc : s.lineOf pc = target) (hnone : s.stretchFor target = none) :
    s.lineOf (lastStart 0 s.items) = target := by
  have hordered := (walkAll_offsets s.walks).1
  obtain ⟨-, hnearest⟩ := or_eq_none_iff.1 hnone
  rcases mem_stretches_of_lineAt 0 hordered hpc with ⟨c, hc, hline⟩ | hlast
  · have hnil := argmin_eq_none.1 hnearest
    have hmem : c ∈ ([] : List (Nat × UInt32)) := by
      rw [← hnil, mem_filter]
      refine ⟨hc, decide_eq_true ?_⟩
      rw [hline, UInt32.sub_self]
      exact ⟨UInt32.le_refl _, by decide⟩
    cases hmem
  · exact hlast _ (offset_le_lastStart hordered)

end NotedScript

/-! ### The lines of what is emitted -/

section Emitting

variable {notes more : List SrcNote} {firstLine line line' lineno : UInt32} {e e' : Emitted}
  {offset : Nat}

lemma lineAt_append (pc : Nat) : lineAt pc (notes ++ more) lineno =
    lineAt pc more (lineAt pc notes lineno) := foldl_append

lemma lineAt_of_le {pc pc' : Nat} (h : ∀ n ∈ notes, n.offset ≤ pc) (hle : pc ≤ pc') :
    lineAt pc' notes lineno = lineAt pc notes lineno := by
  induction notes generalizing lineno with
  | nil => rfl
  | cons n rest ih =>
    obtain ⟨hn, hrest⟩ := forall_mem_cons.1 h
    rw [lineAt_cons, lineAt_cons, if_pos hn, if_pos (hn.trans hle)]
    exact ih hrest

lemma lineAt_modify {f : SrcNote → SrcNote} (pc : Nat) : ∀ {notes : List SrcNote} {i : Nat}
    {lineno : UInt32}, (∀ n, notes[i]? = some n → (f n).offset = n.offset ∧ (f n).line = n.line) →
    lineAt pc (notes.modify i f) lineno = lineAt pc notes lineno := by
  intro notes
  induction notes with
  | nil =>
    intro i lineno _
    rw [modify_nil]
  | cons n rest ih =>
    intro i lineno h
    cases i with
    | zero =>
      obtain ⟨hoffset, hline⟩ := h n rfl
      show lineAt pc (f n :: rest) lineno = _
      rw [lineAt_cons, lineAt_cons, hoffset, hline]
    | succ i =>
      show lineAt pc (n :: rest.modify i f) lineno = _
      rw [lineAt_cons, lineAt_cons]
      exact ih h

lemma line_setOperands (n : SrcNote) (h : n.type ≠ srcSetLine) (operands : List Nat) :
    ({ n with operands := operands } : SrcNote).line = n.line := by
  funext lineno
  obtain ⟨type, noteOffset, old⟩ := n
  cases type
  case srcSetLine => exact absurd rfl h
  all_goals rfl

lemma notes_newSrcNote {type : SrcNoteType} (hstep : e.step (.newSrcNote type offset) = some e') :
    e'.notes = e.notes ++ [⟨type, offset, List.replicate type.arity 0⟩] := by
  cases hstep
  rfl

lemma notes_setSrcNoteOffset {note which value : Nat} (hvalue : value ≤ snMaxOffset)
    (hstep : e.step (.setSrcNoteOffset note which value) = some e') :
    e'.notes = e.notes.modify note fun n => { n with operands := n.operands.set which value } := by
  simp only [Emitted.step, bind_eq_bind, bind_eq_some_iff] at hstep
  obtain ⟨index, -, ⟨ok, s⟩, hset, hif⟩ := hstep
  rw [EmitSection.setSrcNoteOffset, if_neg hvalue.not_gt] at hset
  simp only [bind_eq_bind, bind_eq_some_iff] at hset
  obtain ⟨sn, -, b, -, hwritten⟩ := hset
  have hok : ok = true := by
    split at hwritten <;> cases hwritten <;> rfl
  rw [if_pos hok] at hif
  cases hif
  rfl

lemma notes_newSrcNote2 {value : Nat} (hstep : newSrcNote2 e offset srcSetLine value = some e') :
    e'.notes = e.notes ++ [⟨srcSetLine, offset, [value]⟩] := by
  simp only [newSrcNote2, bind_eq_bind, bind_eq_some_iff] at hstep
  obtain ⟨e₁, hnew, hrest⟩ := hstep
  split at hrest
  · cases hrest
  · rename_i hvalue
    rw [notes_setSrcNoteOffset (Nat.le_of_not_lt hvalue) hrest, notes_newSrcNote hnew,
      modify_length]
    rfl

lemma notes_newLines {n : Nat} (hstep : newLines offset n e = some e') :
    e'.notes = e.notes ++ List.replicate n ⟨srcNewline, offset, []⟩ := by
  induction n generalizing e with
  | zero =>
    cases hstep
    exact (append_nil _).symm
  | succ n ih =>
    rw [newLines] at hstep
    obtain ⟨e₁, hnew, hrest⟩ := bind_eq_some_iff.1 hstep
    rw [ih hrest, notes_newSrcNote hnew, append_assoc, replicate_succ]
    rfl

lemma lineAt_newLines (n : Nat) :
    lineAt offset (List.replicate n ⟨srcNewline, offset, []⟩) lineno = lineno + UInt32.ofNat n := by
  induction n generalizing lineno with
  | zero => exact (add_zero lineno).symm
  | succ n ih =>
    rw [replicate_succ, lineAt_cons, if_pos (Nat.le_refl offset), ih]
    show lineno + 1 + UInt32.ofNat n = lineno + UInt32.ofNat (n + 1)
    rw [UInt32.ofNat_add, add_assoc, add_comm (UInt32.ofNat n)]
    rfl

/-- A line update adds notes at the offset, and behind them the line is the new one. -/
lemma notes_updateLine (hstep : updateLineNumberNotes e line offset line' = some e') :
    ∃ added, e'.notes = e.notes ++ added ∧ (∀ n ∈ added, n.offset = offset) ∧
      lineAt offset added line = line' := by
  rw [updateLineNumberNotes] at hstep
  by_cases hsame : line' - line = 0
  · rw [if_pos hsame] at hstep
    cases hstep
    refine ⟨[], (append_nil _).symm, by simp, ?_⟩
    have hcancel := sub_add_cancel line' line
    rw [hsame, zero_add] at hcancel
    exact hcancel
  · rw [if_neg hsame] at hstep
    by_cases hfar : 2 + (if 127 < line' then 2 else 0) ≤ line' - line
    · rw [if_pos hfar] at hstep
      refine ⟨_, notes_newSrcNote2 hstep, ?_, ?_⟩
      · intro n hn
        rw [mem_singleton.1 hn]
      · rw [lineAt_cons, if_pos (Nat.le_refl offset)]
        exact UInt32.ofNat_toNat
    · rw [if_neg hfar] at hstep
      refine ⟨_, notes_newLines hstep, ?_, ?_⟩
      · intro n hn
        rw [eq_of_mem_replicate hn]
      · rw [lineAt_newLines, UInt32.ofNat_toNat, add_comm]
        exact sub_add_cancel line' line

/-- The notes of a section say the lines of its bytecodes, and behind them the current line. -/
structure LinesSound (firstLine : UInt32) (e : Emitted) (line : UInt32) (offset : Nat)
    (code : List (Nat × UInt32)) : Prop where
  built : ∀ main, SectionBuilt main firstLine e line offset
  before : ∀ n ∈ e.notes, n.offset ≤ offset
  line : lineAt offset e.notes firstLine = line
  code : ∀ c ∈ code, c.1 < offset ∧ lineAt c.1 e.notes firstLine = c.2

/-- Notes at the end do not change the lines of the bytecodes before them. -/
lemma LinesSound.addNotes {code : List (Nat × UInt32)} {added : List SrcNote}
    (h : LinesSound firstLine e line offset code)
    (hbuilt : ∀ main, SectionBuilt main firstLine e' line' offset)
    (hnotes : e'.notes = e.notes ++ added) (hadded : ∀ n ∈ added, n.offset = offset)
    (hline : lineAt offset added line = line') : LinesSound firstLine e' line' offset code := by
  refine ⟨hbuilt, ?_, ?_, ?_⟩
  · rw [hnotes]
    intro n hn
    rcases mem_append.1 hn with hn | hn
    · exact h.before n hn
    · exact (hadded n hn).le
  · rw [hnotes, lineAt_append, h.line, hline]
  · intro c hc
    obtain ⟨hlt, hcode⟩ := h.code c hc
    refine ⟨hlt, ?_⟩
    rw [hnotes, lineAt_append, lineAt_of_lt fun n hn => (hadded n hn).symm ▸ hlt, hcode]

lemma LineRuns.sound {code : List (Nat × UInt32)} (h : LineRuns firstLine e line offset code) :
    LinesSound firstLine e line offset code := by
  induction h with
  | start => exact ⟨fun _ => .start, nofun, rfl, nofun⟩
  | @emit e line offset code n _ hn ih =>
    refine ⟨fun main => .emit n (ih.built main), ?_, ?_, ?_⟩
    · exact fun m hm => (ih.before m hm).trans (Nat.le_add_right _ _)
    · rw [lineAt_of_le ih.before (Nat.le_add_right _ _), ih.line]
    · intro c hc
      rcases mem_append.1 hc with hc | hc
      · obtain ⟨hlt, hcode⟩ := ih.code c hc
        exact ⟨hlt.trans_le (Nat.le_add_right _ _), hcode⟩
      · rw [mem_singleton.1 hc]
        exact ⟨Nat.lt_add_of_pos_right hn, ih.line⟩
  | updateLine line' _ hstep ih =>
    obtain ⟨added, hnotes, hadded, hline⟩ := notes_updateLine hstep
    exact ih.addNotes (fun main => .updateLine line' (ih.built main) hstep) hnotes hadded hline
  | @newSrcNote e e' line offset code type _ hnull hxdelta hsetLine hnewline hstep ih =>
    refine ih.addNotes (fun main => .newSrcNote (ih.built main) hnull hxdelta hstep)
      (notes_newSrcNote hstep) ?_ ?_
    · intro n hn
      rw [mem_singleton.1 hn]
    · rw [lineAt_cons, if_pos (Nat.le_refl offset)]
      cases type
      case srcSetLine => exact absurd rfl hsetLine
      case srcNewline => exact absurd rfl hnewline
      all_goals rfl
  | @setSrcNoteOffset e e' line offset code note which value _ hallowed hsetLine hstep ih =>
    have hnotes := notes_setSrcNoteOffset hallowed.2 hstep
    have hlines : ∀ pc lineno, lineAt pc e'.notes lineno = lineAt pc e.notes lineno := by
      intro pc lineno
      rw [hnotes]
      exact lineAt_modify pc fun n hn => ⟨rfl, line_setOperands n (hsetLine n hn) _⟩
    refine ⟨fun main => .setSrcNoteOffset (ih.built main) hallowed hstep, ?_, ?_, ?_⟩
    · intro n hn
      obtain ⟨m, hm, hoffset⟩ := (step_setSrcNoteOffset_notes hstep).2 n hn
      exact hoffset ▸ ih.before m hm
    · rw [hlines, ih.line]
    · intro c hc
      rw [hlines]
      exact ih.code c hc

end Emitting

/-! ### The final notes -/

lemma lineAt_filter (pc : Nat) (notes : List SrcNote) (lineno : UInt32) :
    lineAt pc (notes.filter fun n => n.type ≠ srcXDelta) lineno = lineAt pc notes lineno := by
  induction notes generalizing lineno with
  | nil => rfl
  | cons n rest ih =>
    by_cases hxdelta : n.type = srcXDelta
    · rw [filter_cons, decide_eq_false (not_not.2 hxdelta), if_neg Bool.false_ne_true, ih,
        lineAt_cons, SrcNote.line, hxdelta, ite_self]
    · rw [filter_cons, decide_eq_true hxdelta, if_pos rfl, lineAt_cons, lineAt_cons, ih]

lemma pcToLineNumber_of_walk {written last : List Byte} {notes : List SrcNote}
    {firstLine : UInt32} (h : walk written.length 0 written = some (notes, last)) (pc : Nat) :
    pcToLineNumber firstLine written pc = some (lineAt pc notes firstLine) := by
  obtain ⟨items, hitems, rfl⟩ := exists_walkAll h
  rw [pcToLineNumber, pcToLineLoop_eq hitems, lineAt_filter]

lemma lineAt_shift (pc k : Nat) (notes : List SrcNote) (lineno : UInt32) :
    lineAt (k + pc) (notes.map fun n => { n with offset := n.offset + k }) lineno =
      lineAt pc notes lineno := by
  induction notes generalizing lineno with
  | nil => rfl
  | cons n rest ih =>
    rw [map_cons, lineAt_cons, lineAt_cons, ih]
    have hle : n.offset + k ≤ k + pc ↔ n.offset ≤ pc := by omega
    exact congrArg (lineAt pc rest) (if_congr hle rfl rfl)

section Final

variable {firstLine line line' : UInt32} {prolog main : Emitted} {prologOffset mainOffset : Nat}
  {prologCode mainCode : List (Nat × UInt32)}

/-- Every bytecode of the prolog and of the main code has the line that was current when it was
emitted. -/
lemma finalNotes_lines (hprolog : LineRuns firstLine prolog line prologOffset prologCode)
    (hmain : LineRuns firstLine main line' mainOffset mainCode)
    (hfirst : firstLine.toNat ≤ snMaxOffset) :
    ∃ written, finishTakingSrcNotes prolog.section_ main.section_ line firstLine prologOffset =
        some written ∧
      (∀ c ∈ prologCode, pcToLineNumber firstLine written c.1 = some c.2) ∧
      ∀ c ∈ mainCode, pcToLineNumber firstLine written (prologOffset + c.1) = some c.2 := by
  have hp := hprolog.sound
  have hm := hmain.sound
  obtain ⟨written, hfinish, -, -, hwalk⟩ := finalNotes_spec (hp.built false) (hm.built true) hfirst
  have hlater : ∀ n ∈ main.notes.map (fun n => { n with offset := n.offset + prologOffset }),
      prologOffset ≤ n.offset := by
    intro n hn
    obtain ⟨m, -, rfl⟩ := mem_map.1 hn
    exact Nat.le_add_left _ _
  refine ⟨written, hfinish, ?_, ?_⟩
  · intro c hc
    obtain ⟨hlt, hcode⟩ := hp.code c hc
    rw [pcToLineNumber_of_walk hwalk, lineAt_append, lineAt_append, hcode, lineAt_of_lt,
      lineAt_of_lt]
    · split
      · intro n hn
        rw [mem_singleton.1 hn]
        exact hlt
      · nofun
    · exact fun n hn => hlt.trans_le (hlater n hn)
  · intro c hc
    obtain ⟨-, hcode⟩ := hm.code c hc
    have hline : ∀ pc, prologOffset ≤ pc → lineAt pc
        (if line ≠ firstLine then [⟨srcSetLine, prologOffset, [firstLine.toNat]⟩] else []) line =
          firstLine := by
      intro pc hpc
      split
      · rw [lineAt_cons, if_pos hpc]
        exact UInt32.ofNat_toNat
      · rename_i hsame
        exact not_not.1 hsame
    rw [pcToLineNumber_of_walk hwalk, lineAt_append, lineAt_append,
      lineAt_of_le hp.before (Nat.le_add_right _ _), hp.line, hline _ (Nat.le_add_right _ _),
      lineAt_shift, hcode]

end Final

/-- From line 1 to 10 at 5, and back to 3 at 10. -/
def backScript : NotedScript where
  lineno := 1
  notes := [snMakeNote srcSetLine 5, 10#8, snMakeNote srcSetLine 5, 3#8, snTerminator]
  mainOffset := 0
  length := 20
  items := [⟨srcSetLine, 5, [10]⟩, ⟨srcSetLine, 10, [3]⟩]
  walks := by decide

end SpiderMonkey.Frontend
