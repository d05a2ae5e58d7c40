import SpiderMonkey.Frontend.FinalNotes

/-! # The final source notes fit and keep their places -/

namespace SpiderMonkey.Frontend

open Lib SrcNoteType EmitSection List Option

/-! ## What the emitter has built -/

/-- What holds of a section: its notes are laid out, none behind the next bytecode, and without
notes the prolog's current line is the first line. -/
structure Built (main : Bool) (firstLine : UInt32) (e : Emitted) (line : UInt32) (offset : Nat)
    (gs : List LaidNote) : Prop where
  lays : e.Lays gs
  before : ∀ n ∈ e.notes, n.offset ≤ offset
  line : main = false → gs = [] → line = firstLine

section Emitting

variable {main : Bool} {firstLine line : UInt32} {e e' : Emitted} {offset : Nat}
  {gs : List LaidNote}

lemma step_newSrcNote (h : e.Lays gs) (hbefore : ∀ n ∈ e.notes, n.offset ≤ offset)
    {type : SrcNoteType} (hnull : type ≠ srcNull) (hxdelta : type ≠ srcXDelta)
    (hstep : e.step (.newSrcNote type offset) = some e') :
    e'.Lays (gs ++ [LaidNote.fresh type offset]) ∧ ∀ n ∈ e'.notes, n.offset ≤ offset := by
  obtain ⟨e1, hstep1, hlays⟩ := h.newSrcNote ⟨hbefore, hnull, hxdelta⟩
  obtain rfl := some.inj (hstep.symm.trans hstep1)
  refine ⟨hlays, ?_⟩
  rw [hlays.notes, map_append, ← h.notes]
  intro n hn
  rcases mem_append.mp hn with hn | hn
  · exact hbefore n hn
  · obtain rfl := mem_singleton.mp hn
    exact Nat.le_refl offset

/-- Setting an operand adds no note and moves none. -/
lemma step_setSrcNoteOffset_notes {note which value : Nat}
    (hstep : e.step (.setSrcNoteOffset note which value) = some e') :
    e'.notes.length = e.notes.length ∧
      ∀ n ∈ e'.notes, ∃ m ∈ e.notes, n.offset = m.offset := by
  simp only [Emitted.step, bind_eq_bind, bind_eq_some_iff] at hstep
  obtain ⟨index, -, ⟨ok, s⟩, -, hif⟩ := hstep
  cases ok with
  | false =>
    obtain rfl := some.inj hif
    exact ⟨rfl, fun n hn => ⟨n, hn, rfl⟩⟩
  | true =>
    obtain rfl := some.inj hif
    refine ⟨length_modify _ _ _, fun n hn => ?_⟩
    obtain ⟨i, hi⟩ := mem_iff_getElem?.mp hn
    rw [List.getElem?_modify] at hi
    obtain ⟨m, hm, heq⟩ := map_eq_some_iff.mp hi
    refine ⟨m, mem_iff_getElem?.mpr ⟨i, hm⟩, ?_⟩
    rw [← heq]
    split_ifs <;> rfl

lemma step_setSrcNoteOffset (h : e.Lays gs) (hbefore : ∀ n ∈ e.notes, n.offset ≤ offset)
    {note which value : Nat} (hallowed : NoteAllowed e (.setSrcNoteOffset note which value))
    (hstep : e.step (.setSrcNoteOffset note which value) = some e') :
    (∃ gs', e'.Lays gs' ∧ gs' ≠ []) ∧ ∀ n ∈ e'.notes, n.offset ≤ offset := by
  obtain ⟨e1, gs', hstep1, hlays⟩ := h.setSrcNoteOffset hallowed
  obtain rfl := some.inj (hstep.symm.trans hstep1)
  obtain ⟨hlength, hoffsets⟩ := step_setSrcNoteOffset_notes hstep
  refine ⟨⟨gs', hlays, ?_⟩, fun n hn => ?_⟩
  · rintro rfl
    obtain ⟨⟨n, hn, -⟩, -⟩ := hallowed
    rw [hlays.notes] at hlength
    have hnil : e.notes = [] := length_eq_zero_iff.mp hlength.symm
    rw [hnil, List.getElem?_nil] at hn
    cases hn
  · obtain ⟨m, hm, heq⟩ := hoffsets n hn
    rw [heq]
    exact hbefore m hm

lemma newSrcNote2_lays (h : e.Lays gs) (hbefore : ∀ n ∈ e.notes, n.offset ≤ offset)
    {type : SrcNoteType} (hnull : type ≠ srcNull) (hxdelta : type ≠ srcXDelta)
    (harity : 0 < type.arity) {value : Nat} (hstep : newSrcNote2 e offset type value = some e') :
    (∃ gs', e'.Lays gs' ∧ gs' ≠ []) ∧ ∀ n ∈ e'.notes, n.offset ≤ offset := by
  simp only [newSrcNote2, bind_eq_bind, bind_eq_some_iff] at hstep
  obtain ⟨e1, hstep1, hrest⟩ := hstep
  obtain ⟨hlays, hbefore1⟩ := step_newSrcNote h hbefore hnull hxdelta hstep1
  by_cases hlarge : snMaxOffset < value
  · rw [if_pos hlarge] at hrest
    cases hrest
  · rw [if_neg hlarge] at hrest
    refine step_setSrcNoteOffset hlays hbefore1 ⟨⟨(LaidNote.fresh type offset).toNote, ?_, harity⟩,
      Nat.le_of_not_lt hlarge⟩ hrest
    rw [hlays.notes, h.notes, map_append, List.getElem?_append_right (Nat.le_refl _),
      Nat.sub_self]
    rfl

lemma newLines_lays (n : Nat) (h : e.Lays gs) (hbefore : ∀ n ∈ e.notes, n.offset ≤ offset)
    (hstep : newLines offset n e = some e') :
    (∃ gs', e'.Lays gs' ∧ (n ≠ 0 → gs' ≠ [])) ∧ ∀ n ∈ e'.notes, n.offset ≤ offset := by
  induction n generalizing e gs with
  | zero =>
    obtain rfl := some.inj hstep
    exact ⟨⟨gs, h, fun hzero => absurd rfl hzero⟩, hbefore⟩
  | succ n ih =>
    simp only [newLines, bind_eq_bind, bind_eq_some_iff] at hstep
    obtain ⟨e1, hstep1, hrest⟩ := hstep
    obtain ⟨hlays, hbefore1⟩ := step_newSrcNote h hbefore (by decide) (by decide) hstep1
    obtain ⟨⟨gs', hlays', hne⟩, hbefore'⟩ := ih hlays hbefore1 hrest
    refine ⟨⟨gs', hlays', fun _ => ?_⟩, hbefore'⟩
    cases n with
    | zero =>
      rintro rfl
      obtain rfl := some.inj hrest
      have hnotes := hlays.notes.symm.trans hlays'.notes
      simp at hnotes
    | succ n => exact hne (Nat.succ_ne_zero n)

/-- Another line leaves a note. -/
lemma updateLineNumberNotes_lays (h : e.Lays gs) (hbefore : ∀ n ∈ e.notes, n.offset ≤ offset)
    {line' : UInt32} (hstep : updateLineNumberNotes e line offset line' = some e') :
    (∃ gs', e'.Lays gs' ∧ (gs' = [] → gs = [] ∧ line' = line)) ∧
      ∀ n ∈ e'.notes, n.offset ≤ offset := by
  unfold updateLineNumberNotes at hstep
  by_cases hsame : line' - line = 0
  · rw [if_pos hsame] at hstep
    obtain rfl := some.inj hstep
    have hline : line' = line := by
      have := congrArg (· + line) hsame
      simpa using this
    exact ⟨⟨gs, h, fun hgs => ⟨hgs, hline⟩⟩, hbefore⟩
  · rw [if_neg hsame] at hstep
    have hpos : (line' - line).toNat ≠ 0 := fun hzero =>
      hsame (UInt32.toNat_inj.mp (hzero.trans UInt32.toNat_zero.symm))
    by_cases hset : 2 + (if 127 < line' then 2 else 0) ≤ line' - line
    · rw [if_pos hset] at hstep
      obtain ⟨⟨gs', hlays, hne⟩, hbefore'⟩ :=
        newSrcNote2_lays h hbefore (by decide) (by decide) (by decide) hstep
      exact ⟨⟨gs', hlays, fun hgs => absurd hgs hne⟩, hbefore'⟩
    · rw [if_neg hset] at hstep
      obtain ⟨⟨gs', hlays, hne⟩, hbefore'⟩ := newLines_lays _ h hbefore hstep
      exact ⟨⟨gs', hlays, fun hgs => absurd hgs (hne hpos)⟩, hbefore'⟩

lemma SectionBuilt.built (h : SectionBuilt main firstLine e line offset) :
    ∃ gs, Built main firstLine e line offset gs := by
  induction h with
  | start => exact ⟨[], ⟨trivial, rfl, rfl, rfl, rfl⟩, nofun, fun _ _ => rfl⟩
  | emit n _ ih =>
    obtain ⟨gs, h⟩ := ih
    exact ⟨gs, h.lays, fun m hm => Nat.le_add_right_of_le (h.before m hm), h.line⟩
  | newSrcNote _ hnull hxdelta hstep ih =>
    obtain ⟨gs, h⟩ := ih
    obtain ⟨hlays, hbefore⟩ := step_newSrcNote h.lays h.before hnull hxdelta hstep
    exact ⟨_, hlays, hbefore, fun _ hnil => by simp at hnil⟩
  | setSrcNoteOffset _ hallowed hstep ih =>
    obtain ⟨gs, h⟩ := ih
    obtain ⟨⟨gs', hlays, hne⟩, hbefore⟩ := step_setSrcNoteOffset h.lays h.before hallowed hstep
    exact ⟨gs', hlays, hbefore, fun _ hnil => absurd hnil hne⟩
  | updateLine line' _ hstep ih =>
    obtain ⟨gs, h⟩ := ih
    obtain ⟨⟨gs', hlays, hline⟩, hbefore⟩ := updateLineNumberNotes_lays h.lays h.before hstep
    refine ⟨gs', hlays, hbefore, fun hmain hnil => ?_⟩
    obtain ⟨hgs, heq⟩ := hline hnil
    rw [heq, h.line hmain hgs]
  | assignLine line' _ hmain ih =>
    obtain ⟨gs, h⟩ := ih
    exact ⟨gs, h.lays, h.before, fun hmain' => absurd (hmain.symm.trans hmain') (by decide)⟩

end Emitting

/-! ## The walk over part of the notes -/

/-- The notes that the walk comes to, extended deltas included. -/
def walkSteps : Nat → List LaidNote → Nat
  | _, [] => 0
  | prev, g :: gs => (g.before prev).length + 1 + walkSteps g.offset gs

lemma walkSteps_le (prev : Nat) (gs : List LaidNote) :
    walkSteps prev gs ≤ (layBytes prev gs).length := by
  induction gs generalizing prev with
  | nil => exact Nat.le_refl 0
  | cons g gs ih =>
    have hrest := ih g.offset
    rw [walkSteps, layBytes, LaidNote.bytes, length_append, length_append,
      length_cons]
    omega

lemma walk_layBytes_append {prev : Nat} {gs : List LaidNote} (h : LaidOut prev gs) (fuel : Nat)
    (rest : List Byte) :
    walk (walkSteps prev gs + fuel) prev (layBytes prev gs ++ rest) =
      (walk fuel (lastOffset prev gs) rest).map fun p => (gs.map LaidNote.toNote ++ p.1, p.2) := by
  induction gs generalizing prev with
  | nil =>
    rw [walkSteps, Nat.zero_add, layBytes, nil_append, lastOffset]
    cases walk fuel prev rest <;> rfl
  | cons g gs ih =>
    have hfuel : walkSteps prev (g :: gs) + fuel =
        (g.before prev).length + (walkSteps g.offset gs + fuel + 1) := by
      rw [walkSteps]
      omega
    rw [hfuel, layBytes, append_assoc, walk_note h.1, ih h.2, lastOffset]
    cases walk fuel (lastOffset g.offset gs) rest <;> rfl

/-- Notes may be moved as a whole. -/
def LaidNote.shift (k : Nat) (g : LaidNote) : LaidNote := { g with offset := g.offset + k }

lemma walk_shift {prev : Nat} {gs : List LaidNote} (h : LaidOut prev gs) (k fuel : Nat)
    (hfuel : (layBytes prev gs).length < fuel) :
    walk fuel (prev + k) (layBytes prev gs ++ [snTerminator]) =
      some (gs.map fun g => (g.shift k).toNote, [snTerminator]) := by
  have hlay : ∀ prev (gs : List LaidNote), layBytes (prev + k) (gs.map (LaidNote.shift k)) =
      layBytes prev gs := by
    intro prev gs
    induction gs generalizing prev with
    | nil => rfl
    | cons g gs ih =>
      have hdelta : (g.shift k).offset - (prev + k) = g.offset - prev := by
        rw [LaidNote.shift]
        exact Nat.add_sub_add_right _ _ _
      have hbytes : (g.shift k).bytes (prev + k) = g.bytes prev := by
        rw [LaidNote.bytes, LaidNote.bytes, LaidNote.before, LaidNote.before, LaidNote.head,
          LaidNote.head, hdelta]
        rfl
      rw [map_cons, layBytes, layBytes, hbytes, ← ih]
      rfl
  have hlaid : ∀ prev (gs : List LaidNote), LaidOut prev gs →
      LaidOut (prev + k) (gs.map (LaidNote.shift k)) := by
    intro prev gs
    induction gs generalizing prev with
    | nil => exact id
    | cons g gs ih =>
      rintro ⟨hg, hgs⟩
      exact ⟨⟨Nat.add_le_add_right hg.ordered k, hg.not_null, hg.not_xdelta, hg.arity,
        hg.operands⟩, ih _ hgs⟩
  have hwalk : walk fuel (prev + k) _ = _ := walk_layBytes (hlaid prev gs h) (by rwa [hlay])
  rw [hlay, List.map_map] at hwalk
  exact hwalk

/-! ## More delta -/

/-- The first byte of a note, or of the extended deltas before it: what it is with any delta below
its limit. -/
inductive Head : (b : Byte) → (limit base : Nat) → (withDelta : Nat → Byte) → Prop
  | xdelta {x} (hx : x < snXDeltaLimit) : Head (snMakeXDelta x) snXDeltaLimit x snMakeXDelta
  | note {type d} (hnull : type ≠ srcNull) (hxdelta : type ≠ srcXDelta) (hd : d < snDeltaLimit) :
      Head (snMakeNote type d) snDeltaLimit d (snMakeNote type)

section Head

variable {b : Byte} {limit base : Nat} {withDelta : Nat → Byte}

lemma snIsXDelta_xdelta {x : Nat} (hx : x < snXDeltaLimit) :
    snIsXDelta (snMakeXDelta x) = true := by
  have hall : ∀ x < 64, snIsXDelta (snMakeXDelta x) = true := by decide
  exact hall x hx

lemma snIsXDelta_note {type : SrcNoteType} {d : Nat} (hxdelta : type ≠ srcXDelta)
    (hd : d < snDeltaLimit) : snIsXDelta (snMakeNote type d) = false := by
  obtain ⟨htype, -, -⟩ := snMakeNote_spec type hxdelta hd
  by_contra hx
  rw [snType?, if_pos (Bool.not_eq_false _ ▸ hx)] at htype
  exact hxdelta (some.inj htype).symm

/-- What the byte says with a delta. -/
structure HeadSays (limit : Nat) (withDelta : Nat → Byte) (isXDelta : Bool)
    (type : SrcNoteType) : Prop where
  bound : limit = if isXDelta then snXDeltaLimit else snDeltaLimit
  xdelta : ∀ d < limit, snIsXDelta (withDelta d) = isXDelta
  type : ∀ d < limit, snType? (withDelta d) = some type
  delta : ∀ d < limit, snDelta (withDelta d) = d
  not_terminator : ∀ d < limit, withDelta d ≠ snTerminator
  set : ∀ d < limit, ∀ d', snSetDelta (withDelta d) d' = some (withDelta d')

lemma Head.says (h : Head b limit base withDelta) :
    b = withDelta base ∧ base < limit ∧
      ∃ isXDelta type, HeadSays limit withDelta isXDelta type := by
  cases h with
  | xdelta hx =>
    refine ⟨rfl, hx, true, srcXDelta, rfl, fun d hd => snIsXDelta_xdelta hd, fun d hd => ?_,
      fun d hd => ?_, fun d hd => ?_, fun d hd d' => ?_⟩
    · exact (snMakeXDelta_spec (Nat.le_of_lt_succ hd)).1
    · exact (snMakeXDelta_spec (Nat.le_of_lt_succ hd)).2.1
    · exact (snMakeXDelta_spec (Nat.le_of_lt_succ hd)).2.2
    · rw [snSetDelta, if_pos (snIsXDelta_xdelta hd)]
  | @note type d hnull hxdelta hd =>
    refine ⟨rfl, hd, false, type, rfl, fun d hd => snIsXDelta_note hxdelta hd, fun d hd => ?_,
      fun d hd => ?_, fun d hd => ?_, fun d hd d' => ?_⟩
    · exact (snMakeNote_spec type hxdelta hd).1
    · exact (snMakeNote_spec type hxdelta hd).2.1
    · exact (snMakeNote_spec type hxdelta hd).2.2 hnull
    · rw [snSetDelta, snIsXDelta_note hxdelta hd, (snMakeNote_spec type hxdelta hd).1]
      rfl

lemma Head.spare (h : Head b limit base withDelta) : spareDelta b = limit - 1 - base := by
  obtain ⟨rfl, hbase, isXDelta, type, hnotes⟩ := h.says
  have hdelta := hnotes.delta base hbase
  have hlimit := hnotes.bound
  rw [snDelta, hnotes.xdelta base hbase] at hdelta
  rw [spareDelta, hnotes.xdelta base hbase]
  cases isXDelta with
  | true =>
    simp only [if_true] at hdelta hlimit ⊢
    rw [hdelta, hlimit]
    rfl
  | false =>
    simp only [Bool.false_eq_true, if_false] at hdelta hlimit ⊢
    rw [hdelta, hlimit]
    rfl

lemma Head.limit_le (h : Head b limit base withDelta) : limit ≤ snXDeltaLimit := by
  cases h <;> decide

/-- A smaller delta from a place further on comes to the same. -/
lemma walk_congr {sn sn' : Byte} (h : sn ≠ snTerminator) (h' : sn' ≠ snTerminator)
    (htype : snType? sn = snType? sn') {offset offset' : Nat}
    (hdelta : offset + snDelta sn = offset' + snDelta sn') (fuel : Nat) (rest : List Byte) :
    walk fuel offset (sn :: rest) = walk fuel offset' (sn' :: rest) := by
  cases fuel with
  | zero => rfl
  | succ fuel =>
    have hlength : snLength (sn :: rest) = snLength (sn' :: rest) := by
      rw [snLength, snLength, htype]
    have hread : getSrcNoteOffset (sn :: rest) = getSrcNoteOffset (sn' :: rest) := rfl
    rw [walk, walk, if_neg h, if_neg h', hdelta, htype, hlength, hread]
    cases hlen : snLength (sn' :: rest) with
    | none => rfl
    | some length =>
      -- the note itself is always passed over
      obtain ⟨n, rfl⟩ : ∃ n, length = n + 1 := by
        simp only [snLength, bind_eq_bind, bind_eq_some_iff,
          map_eq_some_iff] at hlen
        obtain ⟨-, -, n, -, rfl⟩ := hlen
        exact ⟨n, rfl⟩
      rfl

lemma addToSrcNoteDelta_fill (h : Head b limit base withDelta) {s : EmitSection}
    {rest : List Byte} (hs : s.notes = b :: rest) (delta : Nat) (hroom : base + delta < limit) :
    ∃ s', s.addToSrcNoteDelta 0 delta = some s' ∧ s'.notes = withDelta (base + delta) :: rest := by
  have hlimit := h.limit_le
  obtain ⟨rfl, hbase, isXDelta, type, hnotes⟩ := h.says
  have hsmall : ¬ snXDeltaLimit ≤ delta := by omega
  refine ⟨{ s with notes := withDelta (base + delta) :: rest }, ?_, rfl⟩
  rw [EmitSection.addToSrcNoteDelta, if_neg hsmall, hs]
  simp only [List.getElem?_cons_zero, bind_eq_bind, bind_some,
    hnotes.xdelta base hbase, hnotes.delta base hbase, ← hnotes.bound, if_pos hroom,
    hnotes.set base hbase, set_cons_zero]
  rfl

lemma addToSrcNoteDelta_prepend (h : Head b limit base withDelta) {s : EmitSection}
    {rest : List Byte} (hs : s.notes = b :: rest) (delta : Nat) (hfull : limit ≤ base + delta)
    (hsmall : delta < snXDeltaLimit) :
    ∃ s', s.addToSrcNoteDelta 0 delta = some s' ∧ s'.notes = snMakeXDelta delta :: s.notes := by
  obtain ⟨rfl, hbase, isXDelta, type, hnotes⟩ := h.says
  rw [EmitSection.addToSrcNoteDelta, if_neg (Nat.not_le.mpr hsmall), hs]
  simp only [List.getElem?_cons_zero, bind_eq_bind, bind_some,
    hnotes.xdelta base hbase, hnotes.delta base hbase, ← hnotes.bound,
    if_neg (Nat.not_lt.mpr hfull)]
  refine ⟨_, rfl, ?_⟩
  split_ifs <;> simp [growSrcNotes, hs]

/-- Once the first byte has no room, extended deltas come before it. -/
lemma deltaLoop_full (fuel offset : Nat) (h : Head b limit base withDelta)
    (hfull : base + 1 = limit) {s : EmitSection} {rest : List Byte} (hs : s.notes = b :: rest)
    (hpos : 0 < offset) (hfuel : offset < fuel) :
    ∃ s' xs, deltaLoop fuel s offset (min offset snXDeltaMask) = some s' ∧
      s'.notes = xs ++ s.notes ∧ xs.length = (offset + 62) / 63 ∧
      ∀ fuel p rest, walk (xs.length + fuel) p (xs ++ rest) = walk fuel (p + offset) rest := by
  induction fuel generalizing s b limit base withDelta rest offset with
  | zero => omega
  | succ fuel ih =>
    have hmask : snXDeltaMask = 63 := rfl
    obtain ⟨s1, hadd, hs1⟩ := addToSrcNoteDelta_prepend h hs
      (min offset snXDeltaMask) (by omega) (by change _ < 64; omega)
    rw [deltaLoop]
    simp only [hadd, bind_eq_bind, bind_some]
    by_cases hlast : offset - min offset snXDeltaMask = 0
    · rw [if_pos hlast]
      refine ⟨s1, [snMakeXDelta (min offset snXDeltaMask)], rfl, hs1, ?_, fun fuel p rest => ?_⟩
      · rw [length_singleton]
        omega
      · rw [length_singleton, Nat.add_comm 1, singleton_append,
          walk_xdelta (Nat.min_le_right _ _)]
        congr 2
        omega
    · rw [if_neg hlast]
      have hmin : min offset snXDeltaMask = snXDeltaMask := by omega
      rw [hmin] at hs1 ⊢
      obtain ⟨s', xs, hloop, hs', hlen, hwalk⟩ := ih (offset - snXDeltaMask)
        (.xdelta (x := snXDeltaMask) (by decide)) (by decide) hs1 (by omega) (by omega)
      refine ⟨s', xs ++ [snMakeXDelta snXDeltaMask], hloop, ?_, ?_, fun fuel p rest => ?_⟩
      · rw [hs', hs1, append_assoc]
        rfl
      · rw [length_append, hlen, length_singleton]
        omega
      · rw [length_append, length_singleton, Nat.add_assoc, Nat.add_comm 1,
          append_assoc, hwalk, singleton_append, walk_xdelta (Nat.le_refl _)]
        congr 1
        omega

/-- The first main note takes what it has room for, extended deltas the rest. -/
lemma deltaLoop_spec {offset : Nat} (h : Head b limit base withDelta) {s : EmitSection}
    {rest : List Byte} (hs : s.notes = b :: rest) (hpos : 0 < offset) :
    ∃ s', deltaLoop (offset + 2) s offset (min offset (spareDelta b)) = some s' ∧
      s'.notes.length = s.notes.length + (offset - spareDelta b + 62) / 63 ∧
      ∀ fuel p rest', walk ((offset - spareDelta b + 62) / 63 + fuel) p (s'.notes ++ rest') =
        walk fuel (p + offset) (s.notes ++ rest') := by
  have hspare := h.spare
  obtain ⟨hb, hbase, isXDelta, type, hnotes⟩ := h.says
  obtain ⟨s1, hadd, hs1⟩ := addToSrcNoteDelta_fill h hs
    (min offset (spareDelta b)) (by omega)
  have hwalk1 : ∀ fuel p rest', walk fuel p (s1.notes ++ rest') =
      walk fuel (p + min offset (spareDelta b)) (s.notes ++ rest') := by
    intro fuel p rest'
    rw [hs1, hs.trans (congrArg (· :: rest) hb), cons_append, cons_append]
    apply walk_congr (hnotes.not_terminator _ (by omega)) (hnotes.not_terminator _ hbase)
    · rw [hnotes.type _ (by omega), hnotes.type _ hbase]
    · rw [hnotes.delta _ (by omega), hnotes.delta _ hbase]
      omega
  rw [deltaLoop]
  simp only [hadd, bind_eq_bind, bind_some]
  by_cases hlast : offset - min offset (spareDelta b) = 0
  · rw [if_pos hlast]
    refine ⟨s1, rfl, ?_, fun fuel p rest' => ?_⟩
    · rw [hs1, hs, length_cons, length_cons]
      omega
    · have hzero : (offset - spareDelta b + 62) / 63 = 0 := by omega
      have hmin : min offset (spareDelta b) = offset := by omega
      rw [hzero, Nat.zero_add, hwalk1, hmin]
  · rw [if_neg hlast]
    have hmin : min offset (spareDelta b) = spareDelta b := by omega
    rw [hmin] at hs1 hwalk1 hlast ⊢
    have hhead : Head (withDelta (base + spareDelta b)) limit (base + spareDelta b) withDelta := by
      cases h with
      | xdelta hx => exact .xdelta (by omega)
      | note hnull hxdelta hd => exact .note hnull hxdelta (by omega)
    obtain ⟨s', xs, hloop, hs', hlen, hwalk⟩ := deltaLoop_full (offset + 1)
      (offset - spareDelta b) hhead (by omega) hs1 (by omega) (by omega)
    refine ⟨s', hloop, ?_, fun fuel p rest' => ?_⟩
    · rw [hs', length_append, hlen, hs1, hs, length_cons, length_cons]
      omega
    · rw [← hlen, hs', append_assoc, hwalk, hwalk1]
      congr 1
      omega

end Head

/-- The first byte of notes that are laid out. -/
lemma head_layBytes {prev : Nat} {gs : List LaidNote} (h : LaidOut prev gs) (hne : gs ≠ []) :
    ∃ b rest limit base withDelta, layBytes prev gs = b :: rest ∧ Head b limit base withDelta := by
  cases gs with
  | nil => exact absurd rfl hne
  | cons g gs =>
    rw [layBytes, LaidNote.bytes, LaidNote.before]
    by_cases hlong : snDeltaLimit ≤ g.offset - prev
    · rw [xdeltaBytes, if_pos hlong]
      exact ⟨_, _, _, _, _, rfl, .xdelta (Nat.lt_succ_of_le (Nat.min_le_right _ _))⟩
    · rw [xdeltaBytes, if_neg hlong]
      exact ⟨_, _, _, _, _, rfl, .note h.1.not_null h.1.not_xdelta (restDelta_lt _)⟩

lemma length_xdeltaBytes (delta : Nat) : (xdeltaBytes delta).length = (delta + 55) / 63 := by
  fun_induction xdeltaBytes delta with
  | case1 delta h ih =>
    have hmask : snXDeltaMask = 63 := rfl
    have hlimit : snDeltaLimit = 8 := rfl
    rw [length_cons, ih]
    omega
  | case2 delta h =>
    have hlimit : snDeltaLimit = 8 := rfl
    rw [length_nil]
    omega

/-! ## The two cases -/

section Final

variable {firstLine line line' : UInt32} {prolog main : Emitted} {prologOffset mainOffset : Nat}
  {gs gs' : List LaidNote}

lemma Built.lastOffset_le {m : Bool} (h : Built m firstLine prolog line prologOffset gs) :
    lastOffset 0 gs ≤ prologOffset :=
  Emitted.Lays.lastOffset_le (Nat.zero_le _) (h.lays.notes ▸ h.before)

lemma noteCount_eq_zero_iff {e : Emitted} (h : e.Lays gs) :
    e.section_.noteCount = 0 ↔ gs = [] := by
  rw [noteCount, h.bytes]
  cases gs with
  | nil => exact ⟨fun _ => rfl, fun _ => rfl⟩
  | cons g gs =>
    rw [layBytes, LaidNote.bytes, length_append, length_append, length_cons]
    exact ⟨fun hzero => by omega, fun hnil => by cases hnil⟩

/-- The first line, as it is set at the end of the prolog. -/
def LaidNote.setLine (prologOffset : Nat) (firstLine : UInt32) : LaidNote :=
  ⟨srcSetLine, prologOffset, [Operand.assign (0, false) firstLine.toNat]⟩

lemma operandsBytes_singleton (o : Operand) : operandsBytes [o] = operandBytes o := by
  rw [operandsBytes_cons]
  exact append_nil _

/-- The note for the first line is laid out behind the prolog's notes. -/
lemma setLine_spec (prologOffset : Nat) {e : Emitted} (h : e.Lays gs)
    (hfirst : firstLine.toNat ≤ snMaxOffset) :
    ∃ s, (e.section_.newSrcNote prologOffset srcSetLine).2.setSrcNoteOffset
          (e.section_.newSrcNote prologOffset srcSetLine).1 0 firstLine.toNat = some (true, s) ∧
      s.notes = layBytes 0 (gs ++ [LaidNote.setLine prologOffset firstLine]) := by
  obtain ⟨hnotes, -, hindex⟩ := newSrcNote_spec e.section_ prologOffset srcSetLine
  have hsplit : (e.section_.newSrcNote prologOffset srcSetLine).2.notes =
      (e.section_.notes ++ (LaidNote.fresh srcSetLine prologOffset).before
        e.section_.lastNoteOffset) ++ (LaidNote.fresh srcSetLine prologOffset).head
          e.section_.lastNoteOffset :: (operandsBytes [] ++ (operandBytes (0, false) ++ [])) := by
    rw [hnotes, LaidNote.bytes, append_assoc]
    rfl
  have hnone : ∀ o ∈ ([] : List Operand), OperandFits o := by simp
  have hzero : OperandFits (0, false) := ⟨Nat.zero_le _, fun _ => Nat.zero_le _⟩
  obtain ⟨s, hset, -, hs⟩ := setSrcNoteOffset_spec hnone hzero hsplit hfirst
  refine ⟨s, ?_, ?_⟩
  · rw [hindex, ← length_append]
    exact hset
  · rw [hs, h.bytes, h.last, layBytes_append, layBytes, layBytes, LaidNote.bytes,
      append_nil, append_nil, append_assoc]
    rw [LaidNote.setLine, operandsBytes_singleton]
    rfl

lemma length_setLine (prev : Nat) :
    (layBytes prev [LaidNote.setLine prologOffset firstLine]).length =
      (prologOffset - prev + 55) / 63 + 2 +
        if sn3ByteOffsetMask < firstLine.toNat then 2 else 0 := by
  rw [layBytes, layBytes, append_nil, LaidNote.bytes, LaidNote.before, length_append,
    length_xdeltaBytes, length_cons, LaidNote.setLine, operandsBytes_singleton,
    Operand.assign, Bool.false_or]
  by_cases hwide : sn3ByteOffsetMask < firstLine.toNat
  · rw [if_pos hwide, decide_eq_true hwide]
    simp [operandBytes]
  · rw [if_neg hwide, decide_eq_false hwide]
    simp [operandBytes]

/-- What becomes of the main notes where no line is set: they are as many bytes longer as extended
deltas are needed, and the walk comes to them from the last note of the prolog. -/
lemma adjustMain_spec (hp : Built false firstLine prolog line prologOffset gs)
    (hm : main.Lays gs') :
    ∃ main', adjustMain prolog.section_ main.section_ prologOffset = some main' ∧
      (gs' = [] ∧ main' = main.section_ ∨
        ∃ b rest, main.section_.notes = b :: rest ∧
          main'.notes.length = main.section_.notes.length +
            (prologOffset - lastOffset 0 gs - spareDelta b + 62) / 63) ∧
      ∀ fuel, main'.notes.length < fuel →
        walk fuel (lastOffset 0 gs) (main'.notes ++ [snTerminator]) =
          some (gs'.map fun g => (g.shift prologOffset).toNote, [snTerminator]) := by
  have hlast := hp.lastOffset_le
  rw [adjustMain, hp.lays.last, if_neg (by omega)]
  by_cases hnil : gs' = []
  · subst hnil
    have hcount : main.section_.noteCount = 0 := (noteCount_eq_zero_iff hm).mpr rfl
    rw [if_neg fun h => h.2 hcount]
    refine ⟨_, rfl, .inl ⟨rfl, rfl⟩, fun fuel hfuel => ?_⟩
    obtain ⟨fuel, rfl⟩ := Nat.exists_eq_succ_of_ne_zero (Nat.ne_of_gt (Nat.zero_lt_of_lt hfuel))
    rw [hm.bytes]
    rfl
  obtain ⟨b, rest, limit, base, withDelta, hb, hhead⟩ := head_layBytes hm.laid hnil
  have hcount : main.section_.noteCount ≠ 0 := fun h => hnil ((noteCount_eq_zero_iff hm).mp h)
  have hnotes : main.section_.notes = b :: rest := hm.bytes.trans hb
  by_cases hpos : 0 < prologOffset - lastOffset 0 gs
  · obtain ⟨main', hloop, hlen, hwalk⟩ := deltaLoop_spec hhead hnotes hpos
    refine ⟨main', ?_, .inr ⟨b, rest, hnotes, hlen⟩, fun fuel hfuel => ?_⟩
    · simp only [if_pos (And.intro hpos hcount), hnotes, List.getElem?_cons_zero,
        bind_eq_bind, bind_some, hloop]
    · have hshift := walk_shift hm.laid prologOffset
        (fuel - (prologOffset - lastOffset 0 gs - spareDelta b + 62) / 63)
        (by rw [← hm.bytes]; omega)
      have hfuel' : fuel = (prologOffset - lastOffset 0 gs - spareDelta b + 62) / 63 +
          (fuel - (prologOffset - lastOffset 0 gs - spareDelta b + 62) / 63) := by omega
      rw [hfuel', hwalk, Nat.add_sub_cancel' hlast, hm.bytes, ← hshift, Nat.zero_add]
  · rw [if_neg fun h => hpos h.1]
    refine ⟨_, rfl, .inr ⟨b, rest, hnotes, by omega⟩, fun fuel hfuel => ?_⟩
    have hsame : lastOffset 0 gs = 0 + prologOffset := by omega
    rw [hsame, hm.bytes]
    exact walk_shift hm.laid prologOffset fuel (by rwa [← hm.bytes])

/-- The final notes, by whether the first line has to be set. -/
lemma finalNotes_spec (hprolog : SectionBuilt false firstLine prolog line prologOffset)
    (hmain : SectionBuilt true firstLine main line' mainOffset)
    (hfirst : firstLine.toNat ≤ snMaxOffset) :
    ∃ written,
      finishTakingSrcNotes prolog.section_ main.section_ line firstLine prologOffset =
        some written ∧
      (written.length : Int) ≤
        countFinalSourceNotes prolog.section_ main.section_ line firstLine prologOffset ∧
      (main.notes ≠ [] ∨ line ≠ firstLine → (written.length : Int) =
        countFinalSourceNotes prolog.section_ main.section_ line firstLine prologOffset) ∧
      walk written.length 0 written = some (prolog.notes ++
        (if line ≠ firstLine then [⟨srcSetLine, prologOffset, [firstLine.toNat]⟩] else []) ++
        main.notes.map (fun n => { n with offset := n.offset + prologOffset }),
        [snTerminator]) := by
  obtain ⟨gs, hp⟩ := hprolog.built
  obtain ⟨gs', hm⟩ := hmain.built
  have hlast := hp.lastOffset_le
  have hshift : main.notes.map (fun n => { n with offset := n.offset + prologOffset }) =
      gs'.map fun g => (g.shift prologOffset).toNote := by
    rw [hm.lays.notes, List.map_map]
    rfl
  have hmask : (snDeltaMask : Int) = 7 := rfl
  have hxmask : (snXDeltaMask : Int) = 63 := rfl
  have hsteps := walkSteps_le 0 gs
  rw [← hp.lays.bytes] at hsteps
  have hmainCount : main.section_.noteCount = main.section_.notes.length := rfl
  have hprologCount : prolog.section_.noteCount = prolog.section_.notes.length := rfl
  rw [finishTakingSrcNotes, countFinalSourceNotes, hp.lays.last, hshift]
  by_cases hline : line = firstLine
  · -- the deltas of the main notes begin behind the prolog
    obtain ⟨main', hadjust, hlen, hwalk⟩ := adjustMain_spec hp hm.lays
    rw [if_neg fun h => h.2 hline, if_neg fun h => h.2 hline, if_neg (not_not_intro hline), hadjust]
    have hlength : (prolog.section_.notes ++ main'.notes ++ [snTerminator]).length =
        prolog.section_.notes.length + main'.notes.length + 1 := by
      rw [length_append, length_append, length_singleton]
    refine ⟨prolog.section_.notes ++ main'.notes ++ [snTerminator], rfl, ?_, ?_, ?_⟩
    · rw [hlength, hmainCount, hprologCount]
      rcases hlen with ⟨rfl, rfl⟩ | ⟨b, rest, hb, hlen⟩
      · have hnil : main.section_.notes = [] := hm.lays.bytes
        simp only [hnil, howMany, hxmask]
        split_ifs <;> omega
      · simp only [hlen, hb, howMany, hxmask]
        split_ifs <;> omega
    · rintro hnotes
      rw [hlength, hmainCount, hprologCount]
      rcases hlen with ⟨rfl, -⟩ | ⟨b, rest, hb, hlen⟩
      · exact absurd hm.lays.notes (hnotes.resolve_right (not_not_intro hline))
      · simp only [hlen, hb, howMany, hxmask]
        split_ifs <;> omega
    · have hfuel : (prolog.section_.notes ++ main'.notes ++ [snTerminator]).length =
          walkSteps 0 gs + (prolog.section_.notes.length - walkSteps 0 gs +
            main'.notes.length + 1) := by omega
      rw [hfuel, hp.lays.bytes, append_assoc, walk_layBytes_append hp.lays.laid,
        hwalk _ (by omega), hp.lays.notes, append_nil]
      rfl
  · have hcount : prolog.section_.noteCount ≠ 0 := fun hzero =>
      hline (hp.line rfl ((noteCount_eq_zero_iff hp.lays).mp hzero))
    obtain ⟨s, hset, hs⟩ := setLine_spec prologOffset hp.lays hfirst
    rw [if_pos ⟨hcount, hline⟩, if_pos ⟨hcount, hline⟩, if_pos hline]
    simp only [bind_eq_bind, hset, bind_some, if_true]
    have hnotes : s.notes.length = prolog.section_.notes.length +
        ((prologOffset - lastOffset 0 gs + 55) / 63 + 2 +
          if sn3ByteOffsetMask < firstLine.toNat then 2 else 0) := by
      rw [hs, layBytes_append, length_append, length_setLine, hp.lays.bytes]
    have hlength : (s.notes ++ main.section_.notes ++ [snTerminator]).length =
        s.notes.length + main.section_.notes.length + 1 := by
      rw [length_append, length_append, length_singleton]
    have heq : ((s.notes ++ main.section_.notes ++ [snTerminator]).length : Int) =
        (if (snDeltaMask : Int) < (prologOffset : Int) - (lastOffset 0 gs : Nat) then
            (prolog.section_.noteCount : Int) + main.section_.noteCount + 1 +
              howMany ((prologOffset : Int) - (lastOffset 0 gs : Nat) - snDeltaMask) snXDeltaMask
          else (prolog.section_.noteCount : Int) + main.section_.noteCount + 1) +
        (2 + if sn3ByteOffsetMask < firstLine.toNat then 2 else 0) := by
      rw [hlength, hnotes, howMany, hmask, hxmask]
      split_ifs <;> omega
    refine ⟨_, rfl, Int.le_of_eq heq, fun _ => heq, ?_⟩
    have hsteps' := walkSteps_le 0 (gs ++ [LaidNote.setLine prologOffset firstLine])
    rw [← hs] at hsteps'
    have hfuel : (s.notes ++ main.section_.notes ++ [snTerminator]).length =
        walkSteps 0 (gs ++ [LaidNote.setLine prologOffset firstLine]) +
          (s.notes.length - walkSteps 0 (gs ++ [LaidNote.setLine prologOffset firstLine]) +
            main.section_.notes.length + 1) := by omega
    have hlaid : LaidOut 0 (gs ++ [LaidNote.setLine prologOffset firstLine]) :=
      (laidOut_append _ _ _).mpr ⟨hp.lays.laid, ⟨hlast, show srcSetLine ≠ srcNull by decide,
        show srcSetLine ≠ srcXDelta by decide, rfl, fun o ho => by
        rw [mem_singleton.mp ho]
        exact operandFits_assign hfirst⟩, trivial⟩
    have hend : lastOffset 0 (gs ++ [LaidNote.setLine prologOffset firstLine]) =
        0 + prologOffset := by
      rw [lastOffset_append, Nat.zero_add]
      rfl
    rw [hfuel, hs, append_assoc, walk_layBytes_append hlaid, hend, hm.lays.bytes,
      walk_shift hm.lays.laid prologOffset _ (by rw [← hm.lays.bytes]; omega), hp.lays.notes,
      map_append]
    rfl

/-! ## All of it -/

/-- Whatever the emitter has built, the final notes take no more bytes than were counted, and just
as many if there are main notes or the line changes; the walk over them yields the notes of the
prolog, the first line at its end if another is current there, and the main notes, each at its
offset behind the prolog. -/
theorem finalNotes_exact (hprolog : SectionBuilt false firstLine prolog line prologOffset)
    (hmain : SectionBuilt true firstLine main line' mainOffset)
    (hfirst : firstLine.toNat ≤ snMaxOffset) :
    ∃ written,
      finishTakingSrcNotes prolog.section_ main.section_ line firstLine prologOffset =
        some written ∧
      (written.length : Int) ≤
        countFinalSourceNotes prolog.section_ main.section_ line firstLine prologOffset ∧
      (main.notes ≠ [] ∨ line ≠ firstLine → (written.length : Int) =
        countFinalSourceNotes prolog.section_ main.section_ line firstLine prologOffset) ∧
      walk written.length 0 written = some (prolog.notes ++
        (if line ≠ firstLine then [⟨srcSetLine, prologOffset, [firstLine.toNat]⟩] else []) ++
        main.notes.map (fun n => { n with offset := n.offset + prologOffset }),
        [snTerminator]) :=
  finalNotes_spec hprolog hmain hfirst

end Final

/-- A section with a note for the next line before its first bytecode. -/
def oneLineOn : Emitted :=
  ⟨⟨[snMakeNote srcNewline 0], srcNoteChunkLength, 0⟩, [0], [⟨srcNewline, 0, []⟩]⟩

lemma oneLineOn_built (main : Bool) : SectionBuilt main 1 oneLineOn 2 (0 + 9) := by
  refine .emit 9 (.updateLine 2 .start ?_)
  simp [updateLineNumberNotes, newLines, Emitted.step, newSrcNote, newSrcNoteByte, xdeltaLoop,
    Emitted.new, EmitSection.new, allocSrcNote, noteCount, arity, oneLineOn]

/-- A prolog of nine bytecodes, and main notes of the same kind. -/
theorem finalNotes_exact_line :
    ∃ written,
      finishTakingSrcNotes oneLineOn.section_ oneLineOn.section_ 2 1 (0 + 9) = some written ∧
      (written.length : Int) ≤
        countFinalSourceNotes oneLineOn.section_ oneLineOn.section_ 2 1 (0 + 9) ∧
      (oneLineOn.notes ≠ [] ∨ (2 : UInt32) ≠ 1 → (written.length : Int) =
        countFinalSourceNotes oneLineOn.section_ oneLineOn.section_ 2 1 (0 + 9)) ∧
      walk written.length 0 written = some (oneLineOn.notes ++
        (if (2 : UInt32) ≠ 1 then [⟨srcSetLine, 0 + 9, [(1 : UInt32).toNat]⟩] else []) ++
        oneLineOn.notes.map (fun n => { n with offset := n.offset + (0 + 9) }), [snTerminator]) :=
  finalNotes_exact (oneLineOn_built false) (oneLineOn_built true) (by decide)

end SpiderMonkey.Frontend
