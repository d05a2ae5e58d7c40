import SpiderMonkey.Ion.Snapshots

/-! # Snapshots are read as they were written

Each entry point of the writer appends bytes that the reader takes for the slot it was
called with; a frame and a snapshot follow by induction over their slots and frames.
-/

namespace SpiderMonkey.Ion

open Lib CompactBuffer List

variable {b : Build}

/-! ## Well-formed sequences of calls -/

/-- The types whose payload may be in a general register. -/
def JSValueType.hasGeneralPayload : JSValueType → Bool
  | .int32 => true
  | .string => true
  | .object => true
  | .boolean => true
  | _ => false

/-- A typed slot has a type with a payload, and a boxed one is boxed as the build boxes. -/
def SlotCall.WellFormed : SlotCall b → Prop
  | .typedReg type _ => type.hasGeneralPayload
  | .typedStack type _ => type.hasGeneralPayload ∨ type = .double
  | .regReg _ _ | .regStack _ _ | .stackReg _ _ | .stackStack _ _ => b.boxing = .nunbox32
  | .valueReg _ | .valueStack _ => b.boxing = .punbox64
  | _ => True

/-- The slot a call describes. -/
def SlotCall.slot : SlotCall b → Slot b
  | .doubleReg reg => .doubleReg reg
  | .typedReg type reg => .typedReg type (Location.fromRegister reg)
  | .typedStack type stackIndex => .typedStack type (Location.fromStackSlot stackIndex)
  | .regReg type payload =>
    .untypedNunbox (Location.fromRegister type) (Location.fromRegister payload)
  | .regStack type payload =>
    .untypedNunbox (Location.fromRegister type) (Location.fromStackSlot payload)
  | .stackReg type payload =>
    .untypedNunbox (Location.fromStackSlot type) (Location.fromRegister payload)
  | .stackStack type payload =>
    .untypedNunbox (Location.fromStackSlot type) (Location.fromStackSlot payload)
  | .valueReg value => .untypedPunbox (Location.fromRegister value)
  | .valueStack slot => .untypedPunbox (Location.fromStackSlot slot)
  | .undefined => .undefined
  | .null => .null
  | .int32 value => .int32 value
  | .constantPool index => .constant index

/-- The calls for one frame. -/
structure FrameCalls (b : Build) where
  start : FrameStart b
  track : TrackedFrame
  slots : List (SlotCall b)

namespace FrameCalls

/-- `startFrame`, in a `DEBUG` build `trackFrame`, the slots, and `endFrame`. -/
def calls (f : FrameCalls b) : List (SnapshotCall b) :=
  .startFrame f.start :: (if b.debug then [.trackFrame f.track] else []) ++
    f.slots.map .addSlot ++ [.endFrame]

/-- As many slots as `startFrame` announces, within the bounds it asserts. -/
structure WellFormed (f : FrameCalls b) : Prop where
  nargs : f.start.formalArgs < snapshotMaxNargs
  stack : f.start.exprStack < snapshotMaxStack
  count : f.slots.length = f.start.formalArgs + f.start.nfixed.toNat + f.start.exprStack
  slots : ∀ c ∈ f.slots, c.WellFormed

/-- The header of the frame: the script and the tracked opcodes are there in a `DEBUG` build. -/
def header (f : FrameCalls b) : FrameHeader :=
  { script := if b.debug then f.start.script.toList else []
    pcOffset := f.start.pcOffset
    slotCount := f.slots.length
    track := if b.debug then some f.track else none }

end FrameCalls

/-- The calls for one snapshot. -/
structure SnapshotCalls (b : Build) where
  kind : BailoutKind
  resumeAfter : Bool
  frames : List (FrameCalls b)

namespace SnapshotCalls

def calls (s : SnapshotCalls b) : List (SnapshotCall b) :=
  .startSnapshot (BitVec.ofNat 32 s.frames.length) s.kind s.resumeAfter ::
    s.frames.flatMap FrameCalls.calls ++ [.endSnapshot]

/-- As many frames as `startSnapshot` announces, within the bounds it asserts. -/
structure WellFormed (s : SnapshotCalls b) : Prop where
  nonempty : s.frames ≠ []
  count : s.frames.length < 2 ^ bailoutFramecountBits
  frames : ∀ f ∈ s.frames, f.WellFormed

def header (s : SnapshotCalls b) : SnapshotHeader :=
  { frameCount := s.frames.length, bailoutKind := s.kind, resumeAfter := s.resumeAfter }

end SnapshotCalls

/-! ## Descriptions -/

namespace Location

end Location

/-! ## Slots -/

/-- The byte of `writeSlotHeader`. -/
def slotHeaderByte (type : JSValueType) (regCode : Nat) : Byte :=
  (type.code ||| (BitVec.ofNat 32 regCode <<< 3)).setWidth 8

/-- The three bits of the type and the five bits of the code do not overlap. -/
lemma slotHeaderByte_fields (type : JSValueType) (regCode : Fin 32) :
    JSValueType.ofByte (slotHeaderByte type regCode) = type ∧
      (slotHeaderByte type regCode >>> 3).toNat = regCode := by
  cases type <;> revert regCode <;> decide +kernel

/-- The reader takes for a call's slot the bytes that the call appends. -/
def SlotCall.Agrees (c : SlotCall b) : Prop :=
  ∃ bytes, Reads (readSlot b) bytes c.slot ∧ ∀ w : SnapshotWriter, w.slotsWritten < w.nslots →
    w.addSlot c = some { w with
      writer := w.writer ++ bytes
      slotsWritten := w.slotsWritten + 1 }

/-- A call that writes a header and, with `write`, what goes behind it. -/
lemma SlotCall.agrees_of_header {c : SlotCall b} (type : JSValueType) (regCode : Nat)
    (write : CompactBuffer → CompactBuffer) (hcode : regCode ≤ maxRegFieldValue)
    (hcall : ∀ w : SnapshotWriter, w.addSlot c =
      (w.writeSlotHeader type regCode).map fun w => { w with writer := write w.writer })
    (ht : Transmits write (readSlotBody b type regCode) c.slot) : c.Agrees := by
  rcases ht with ⟨bytes, hwrite, hread⟩
  have hlt : regCode < 32 := Nat.lt_succ_of_le hcode
  rcases slotHeaderByte_fields type ⟨regCode, hlt⟩ with ⟨htype, hreg⟩
  refine ⟨slotHeaderByte type regCode :: bytes, ?_, ?_⟩
  · refine (Reads.next (slotHeaderByte type regCode)).bind ?_
    rw [htype, hreg]
    exact hread
  · intro w hroom
    rw [hcall, SnapshotWriter.writeSlotHeader]
    simp only [guard, hcode, Nat.succ_le_of_lt hroom, if_true, Option.pure_def, Option.bind_eq_bind,
      Option.bind_some, Option.map_some, hwrite, writeByte, slotHeaderByte, append_assoc,
      singleton_append]

lemma transmits_stackSlot (v : BitVec 32) :
    Transmits (writeSigned · v) (readStackSlot b) (Location.fromStackSlot v) :=
  (transmits_signed v).map Location.fromStackSlot

lemma fromCode_self (reg : Register b) : Register.fromCode b reg = some reg := by
  simp [Register.fromCode]

lemma floatFromCode_self (reg : FloatRegister b) : FloatRegister.fromCode b reg = some reg := by
  simp [FloatRegister.fromCode]

lemma register_lt (reg : Register b) : (reg : Nat) < 16 := by
  have h := reg.isLt
  revert h
  rcases b with ⟨arch, debug⟩
  cases arch <;> simp only [Build.registersTotal] <;> omega

/-- A register's code fits in its byte. -/
lemma transmits_register (reg : Register b) :
    Transmits (writeByte · (BitVec.ofNat 8 reg)) (readRegister b) (Location.fromRegister reg) := by
  have hlt := register_lt reg
  have hcode : (BitVec.ofNat 8 reg).toNat = reg := by
    rw [BitVec.toNat_ofNat]
    omega
  refine ⟨[BitVec.ofNat 8 reg], fun buffer => rfl, (Reads.next _).bind_done ?_⟩
  rw [hcode]
  exact (Reads.ofOption (fromCode_self reg)).bind_nil (Reads.pure _)

/-! One lemma for each entry point. -/

lemma agrees_doubleReg (reg : FloatRegister b) : (SlotCall.doubleReg reg).Agrees := by
  have hlt : (reg : Nat) < b.floatRegistersInvalid ∧ (reg : Nat) ≤ maxRegFieldValue := by
    have h := reg.isLt
    revert h
    rcases b with ⟨arch, debug⟩
    cases arch <;> simp only [Build.floatRegistersTotal, Build.floatRegistersInvalid,
      maxRegFieldValue] <;> omega
  refine SlotCall.agrees_of_header .double reg (fun buffer => buffer) hlt.2 ?_ ?_
  · intro w
    show w.writeSlotHeader .double reg = _
    simp
  · show Transmits _ (if (reg : Nat) ≠ b.floatRegistersInvalid then _ else _) _
    rw [if_pos (Nat.ne_of_lt hlt.1)]
    exact Transmits.bind_ofOption (floatFromCode_self reg) (Transmits.pure _)

lemma registersInvalid_le (b : Build) : b.registersInvalid ≤ maxRegFieldValue := by
  rcases b with ⟨arch, debug⟩
  cases arch <;> simp [Build.registersInvalid, maxRegFieldValue]

lemma floatRegistersInvalid_le (b : Build) : b.floatRegistersInvalid ≤ maxRegFieldValue := by
  rcases b with ⟨arch, debug⟩
  cases arch <;> simp [Build.floatRegistersInvalid, maxRegFieldValue]

/-- No register has the code that stands for none. -/
lemma register_ne_invalid (reg : Register b) : (reg : Nat) ≠ b.registersInvalid := by
  have h := reg.isLt
  revert h
  rcases b with ⟨arch, debug⟩
  cases arch <;> simp only [Build.registersTotal, Build.registersInvalid] <;> omega

lemma register_le (reg : Register b) : (reg : Nat) ≤ maxRegFieldValue := by
  have h := register_lt reg
  simp only [maxRegFieldValue]
  omega

/-- The four types with a payload in a general register are read by the same branch. -/
lemma readSlotBody_typed {type : JSValueType} (htype : type.hasGeneralPayload) (code : Nat) :
    readSlotBody b type code = readTypedSlot b type code := by
  cases type with
  | int32 => rfl
  | string => rfl
  | object => rfl
  | boolean => rfl
  | double | undefined | magic | null => cases htype

lemma agrees_typedReg {type : JSValueType} (htype : type.hasGeneralPayload) (reg : Register b) :
    (SlotCall.typedReg type reg).Agrees := by
  refine SlotCall.agrees_of_header type reg (fun buffer => buffer) (register_le reg) ?_ ?_
  · intro w
    have hne : type ≠ .double := by
      rintro rfl
      cases htype
    simp [SnapshotWriter.addSlot, hne, guard]
  · rw [readSlotBody_typed htype, readTypedSlot, if_pos (register_ne_invalid reg)]
    exact Transmits.bind_ofOption (fromCode_self reg) (Transmits.pure _)

lemma agrees_typedStack {type : JSValueType}
    (htype : type.hasGeneralPayload ∨ type = .double) (stackIndex : BitVec 32) :
    (SlotCall.typedStack (b := b) type stackIndex).Agrees := by
  rcases htype with htype | rfl
  · have hne : type ≠ .double := by
      rintro rfl
      cases htype
    refine SlotCall.agrees_of_header type b.registersInvalid (writeSigned · stackIndex)
      (registersInvalid_le b) ?_ ?_
    · intro w
      simp only [SnapshotWriter.addSlot, SnapshotWriter.addStackSlot, if_neg hne]
      cases w.writeSlotHeader type b.registersInvalid <;> rfl
    · rw [readSlotBody_typed htype, readTypedSlot, if_neg (not_not.2 rfl)]
      exact (transmits_stackSlot stackIndex).map (Slot.typedStack type)
  · refine SlotCall.agrees_of_header .double b.floatRegistersInvalid (writeSigned · stackIndex)
      (floatRegistersInvalid_le b) ?_ ?_
    · intro w
      simp only [SnapshotWriter.addSlot, SnapshotWriter.addStackSlot, if_true]
      cases w.writeSlotHeader .double b.floatRegistersInvalid <;> rfl
    · show Transmits _ (if b.floatRegistersInvalid ≠ b.floatRegistersInvalid then _ else _) _
      rw [if_neg (not_not.2 rfl)]
      exact (transmits_stackSlot stackIndex).map (Slot.typedStack .double)

/-- A boxed value of a `JS_NUNBOX32` build. -/
lemma readSlotBody_nunbox (hb : b.boxing = .nunbox32) {code : Nat} (hcode : code ≤ nunbox32RegReg) :
    readSlotBody b .magic code = readNunbox32 b code := by
  have hne : code ≠ escRegFieldConst := by
    simp only [nunbox32RegReg, escRegFieldConst] at hcode ⊢
    omega
  simp only [readSlotBody, if_neg hne, hb]

lemma agrees_boxed {c : SlotCall b} (code : Nat) (hb : b.boxing = .nunbox32)
    (hcode : code ≤ nunbox32RegReg) {write write' : CompactBuffer → CompactBuffer}
    {readType readPayload : Reader Byte (Location b)} {type payload : Location b}
    (hslot : c.slot = .untypedNunbox type payload)
    (htype : Transmits write readType type) (hpayload : Transmits write' readPayload payload)
    (hcall : ∀ w : SnapshotWriter, w.addSlot c = (w.writeSlotHeader .magic code).map fun w =>
      { w with writer := write' (write w.writer) })
    (hread : readNunbox32 b code = (do
      let type ← readType
      let payload ← readPayload
      pure (.untypedNunbox type payload))) : c.Agrees := by
  have hmax : code ≤ maxRegFieldValue := by
    simp only [nunbox32RegReg, maxRegFieldValue] at hcode ⊢
    omega
  refine SlotCall.agrees_of_header .magic code (fun buffer => write' (write buffer)) hmax hcall ?_
  rw [readSlotBody_nunbox hb hcode, hread, hslot]
  exact htype.bind (hpayload.map (Slot.untypedNunbox type)) fun _ => rfl

lemma agrees_value_reg (hb : b.boxing = .punbox64) (value : Register b) :
    (SlotCall.valueReg value).Agrees := by
  have hlt := register_lt value
  have hne : (value : Nat) ≠ escRegFieldConst := by
    simp only [escRegFieldConst]
    omega
  refine SlotCall.agrees_of_header .magic value (fun buffer => buffer) (register_le value) ?_ ?_
  · intro w
    show w.writeSlotHeader .magic value = _
    simp
  · simp only [readSlotBody, if_neg hne, hb, readPunbox64, if_pos (register_ne_invalid value)]
    exact Transmits.bind_ofOption (fromCode_self value) (Transmits.pure _)

lemma agrees_value_stack (hb : b.boxing = .punbox64) (valueStackSlot : BitVec 32) :
    (SlotCall.valueStack (b := b) valueStackSlot).Agrees := by
  have hne : b.registersInvalid ≠ escRegFieldConst := by
    rcases b with ⟨arch, debug⟩
    cases arch <;> simp [Build.registersInvalid, escRegFieldConst]
  refine SlotCall.agrees_of_header .magic b.registersInvalid (writeSigned · valueStackSlot)
    (registersInvalid_le b) ?_ ?_
  · intro w
    simp only [SnapshotWriter.addSlot]
    cases w.writeSlotHeader .magic b.registersInvalid <;> rfl
  · simp only [readSlotBody, if_neg hne, hb, readPunbox64, ne_eq, not_true_eq_false, if_false]
    exact (transmits_stackSlot valueStackSlot).map Slot.untypedPunbox

/-- A small constant is in the header; 30 and 31 are the two escape codes. -/
lemma agrees_int32 (value : BitVec 32) : (SlotCall.int32 (b := b) value).Agrees := by
  rcases Decidable.em (¬ value.slt 0#32 ∧ value.toNat < minRegFieldEsc) with hsmall | hlarge
  · have hlt := hsmall.2
    simp only [minRegFieldEsc] at hlt
    have hmax : value.toNat ≤ maxRegFieldValue := by
      simp only [maxRegFieldValue]
      omega
    refine SlotCall.agrees_of_header .null value.toNat (fun buffer => buffer) hmax ?_ ?_
    · intro w
      show w.addInt32Slot value = _
      rw [SnapshotWriter.addInt32Slot, if_pos hsmall]
      simp
    · have hconst : value.toNat ≠ escRegFieldConst := by
        simp only [escRegFieldConst]
        omega
      have hindex : value.toNat ≠ escRegFieldIndex := by
        simp only [escRegFieldIndex]
        omega
      simp only [readSlotBody, if_neg hconst, if_neg hindex, BitVec.ofNat_toNat,
        BitVec.setWidth_eq]
      exact Transmits.pure _
  · refine SlotCall.agrees_of_header .null escRegFieldIndex (writeSigned · value) (by decide) ?_ ?_
    · intro w
      show w.addInt32Slot value = _
      rw [SnapshotWriter.addInt32Slot, if_neg hlarge]
      cases w.writeSlotHeader .null escRegFieldIndex <;> rfl
    · exact (transmits_signed value).map Slot.int32

lemma agrees_constantPool (index : BitVec 32) :
    (SlotCall.constantPool (b := b) index).Agrees := by
  rcases Nat.lt_or_ge index.toNat minRegFieldEsc with hsmall | hlarge
  · have hlt := hsmall
    simp only [minRegFieldEsc] at hlt
    have hmax : index.toNat ≤ maxRegFieldValue := by
      simp only [maxRegFieldValue]
      omega
    refine SlotCall.agrees_of_header .undefined index.toNat (fun buffer => buffer) hmax ?_ ?_
    · intro w
      show w.addConstantPoolSlot index = _
      rw [SnapshotWriter.addConstantPoolSlot, if_pos hsmall]
      simp
    · have hconst : index.toNat ≠ escRegFieldConst := by
        simp only [escRegFieldConst]
        omega
      have hindex : index.toNat ≠ escRegFieldIndex := by
        simp only [escRegFieldIndex]
        omega
      simp only [readSlotBody, if_neg hconst, if_neg hindex, BitVec.ofNat_toNat,
        BitVec.setWidth_eq]
      exact Transmits.pure _
  · refine SlotCall.agrees_of_header .undefined escRegFieldIndex (writeUnsigned · index)
      (by decide) ?_ ?_
    · intro w
      show w.addConstantPoolSlot index = _
      rw [SnapshotWriter.addConstantPoolSlot, if_neg (Nat.not_lt.2 hlarge)]
      cases w.writeSlotHeader .undefined escRegFieldIndex <;> rfl
    · exact (transmits_unsigned index).map Slot.constant

/-- Every entry point for slots agrees with the reader. -/
lemma SlotCall.agrees (c : SlotCall b) (hc : c.WellFormed) : c.Agrees := by
  cases c with
  | doubleReg reg => exact agrees_doubleReg reg
  | typedReg type reg => exact agrees_typedReg hc reg
  | typedStack type stackIndex => exact agrees_typedStack hc stackIndex
  | regReg type payload =>
    refine agrees_boxed nunbox32RegReg hc (by decide) rfl (transmits_register type)
      (transmits_register payload) ?_ rfl
    intro w
    simp only [SnapshotWriter.addSlot]
    cases w.writeSlotHeader .magic nunbox32RegReg <;> rfl
  | regStack type payload =>
    refine agrees_boxed nunbox32RegStack hc (by decide) rfl (transmits_register type)
      (transmits_stackSlot payload) ?_ rfl
    intro w
    simp only [SnapshotWriter.addSlot]
    cases w.writeSlotHeader .magic nunbox32RegStack <;> rfl
  | stackReg type payload =>
    refine agrees_boxed nunbox32StackReg hc (by decide) rfl (transmits_stackSlot type)
      (transmits_register payload) ?_ rfl
    intro w
    simp only [SnapshotWriter.addSlot]
    cases w.writeSlotHeader .magic nunbox32StackReg <;> rfl
  | stackStack type payload =>
    refine agrees_boxed nunbox32StackStack hc (by decide) rfl (transmits_stackSlot type)
      (transmits_stackSlot payload) ?_ rfl
    intro w
    simp only [SnapshotWriter.addSlot]
    cases w.writeSlotHeader .magic nunbox32StackStack <;> rfl
  | valueReg value => exact agrees_value_reg hc value
  | valueStack slot => exact agrees_value_stack hc slot
  | undefined =>
    refine agrees_of_header .undefined escRegFieldConst (fun buffer => buffer) (by decide) ?_
      (Transmits.pure _)
    intro w
    simp [SnapshotWriter.addSlot]
  | null =>
    refine agrees_of_header .null escRegFieldConst (fun buffer => buffer) (by decide) ?_
      (Transmits.pure _)
    intro w
    simp [SnapshotWriter.addSlot]
  | int32 value => exact agrees_int32 value
  | constantPool index => exact agrees_constantPool index

/-! ## Frames -/

open SnapshotWriter

lemma run_append (w : SnapshotWriter) (l l' : List (SnapshotCall b)) :
    w.run (l ++ l') = (w.run l).bind fun w => w.run l' := by
  simp [run, foldlM_append]

lemma run_cons (w : SnapshotWriter) (c : SnapshotCall b) (l : List (SnapshotCall b)) :
    w.run (c :: l) = (w.call c).bind fun w => w.run l := by
  simp [run]

@[simp] lemma run_nil (w : SnapshotWriter) : w.run ([] : List (SnapshotCall b)) = some w := rfl

/-- The slots of a frame, in a writer and a reader with room for them. -/
lemma slots_agree (cs : List (SlotCall b)) (hcs : ∀ c ∈ cs, c.WellFormed) : ∃ bytes,
    (∀ w : SnapshotWriter, w.slotsWritten + cs.length ≤ w.nslots →
      w.run (cs.map .addSlot) = some { w with
        writer := w.writer ++ bytes
        slotsWritten := w.slotsWritten + cs.length }) ∧
    ∀ (r : SnapshotReader) (rest : List Byte), r.reader = bytes ++ rest →
      r.slotsRead + cs.length ≤ r.frame.slotCount →
      r.readSlots b cs.length = some (cs.map SlotCall.slot, { r with
        reader := rest
        slotsRead := r.slotsRead + cs.length }) := by
  induction cs with
  | nil =>
    refine ⟨[], ?_, ?_⟩
    · intro w _
      simp
    · intro r rest hr _
      rw [nil_append] at hr
      subst hr
      rfl
  | cons c cs ih =>
    rcases c.agrees (hcs c mem_cons_self) with ⟨bytes, hread, hwrite⟩
    rcases ih (fun c' hc' => hcs c' (mem_cons_of_mem c hc')) with ⟨bytes', hwrites, hreads⟩
    refine ⟨bytes ++ bytes', ?_, ?_⟩
    · intro w hroom
      rw [length_cons] at hroom
      have hone : w.slotsWritten < w.nslots := by omega
      have hothers : w.slotsWritten + 1 + cs.length ≤ w.nslots := by omega
      rw [map_cons, run_cons]
      show (w.addSlot c).bind _ = _
      rw [hwrite w hone, Option.bind_some, hwrites _ hothers, append_assoc, length_cons, Nat.add_right_comm, Nat.add_assoc]
    · intro r rest hr hroom
      rw [length_cons] at hroom
      have hmore : r.moreSlots = true := decide_eq_true (by omega)
      have hothers : r.slotsRead + 1 + cs.length ≤ r.frame.slotCount := by omega
      have hone : r.readSlot b = some (c.slot, { r with
          reader := bytes' ++ rest
          slotsRead := r.slotsRead + 1 }) := by
        have hrun : (readSlot b).run r.reader = some (c.slot, bytes' ++ rest) := by
          rw [hr, append_assoc]
          exact hread (bytes' ++ rest)
        simp only [SnapshotReader.readSlot, guard, hmore, if_true, Option.pure_def,
          Option.bind_eq_bind, Option.bind_some, hrun]
      rw [length_cons, SnapshotReader.readSlots, hone]
      simp only [Option.bind_eq_bind, Option.bind_some, Option.pure_def]
      rw [hreads _ rest rfl hothers, Option.bind_some, map_cons, Nat.add_right_comm, Nat.add_assoc]

lemma transmits_trackedFrame (track : TrackedFrame) :
    Transmits (CompactBuffer.writeTrackedFrame · track) readTrackedFrame track := by
  rcases transmits_unsigned track.pcOpcode with ⟨pcOpcode, hwrite1, hread1⟩
  rcases transmits_unsigned track.mirOpcode with ⟨mirOpcode, hwrite2, hread2⟩
  rcases transmits_unsigned track.mirId with ⟨mirId, hwrite3, hread3⟩
  rcases transmits_unsigned track.lirOpcode with ⟨lirOpcode, hwrite4, hread4⟩
  rcases transmits_unsigned track.lirId with ⟨lirId, hwrite5, hread5⟩
  refine ⟨pcOpcode ++ (mirOpcode ++ (mirId ++ (lirOpcode ++ lirId))), ?_, ?_⟩
  · intro buffer
    simp only [CompactBuffer.writeTrackedFrame, hwrite1, hwrite2, hwrite3, hwrite4, hwrite5,
      append_assoc]
  · refine hread1.bind (hread2.bind (hread3.bind (hread4.bind ?_)))
    exact hread5.bind_done (Reads.pure track)

/-- A list that is coded in some builds only. -/
lemma transmits_times_ite {α : Type} {write : CompactBuffer → CompactBuffer}
    {read : Reader Byte α} (c : Bool) (l : List α) (h : Transmits write (read.times l.length) l) :
    Transmits (fun buffer => if c then write buffer else buffer)
      (read.times (if c then l.length else 0)) (if c then l else []) := by
  cases c with
  | false => exact Transmits.pure []
  | true => exact h

/-- The header of a frame: what `startFrame` and `trackFrame` append. -/
lemma transmits_frameHeader (f : FrameCalls b) (hf : f.WellFormed) :
    Transmits (fun buffer =>
      let buffer := if b.debug then f.start.script.toList.foldl CompactBuffer.writeByte buffer
        else buffer
      let buffer := CompactBuffer.writeUnsigned (CompactBuffer.writeUnsigned buffer
        f.start.pcOffset) (BitVec.ofNat 32 f.slots.length)
      if b.debug then CompactBuffer.writeTrackedFrame buffer f.track else buffer)
      (readFrameHeader b) f.header := by
  have hscript : Transmits
      (fun buffer => if b.debug then f.start.script.toList.foldl CompactBuffer.writeByte buffer
        else buffer)
      (readByte.times (if b.debug then b.pointerSize else 0))
      (if b.debug then f.start.script.toList else []) := by
    have hbytes : Transmits
        (fun buffer => f.start.script.toList.foldl CompactBuffer.writeByte buffer)
        (readByte.times f.start.script.toList.length) f.start.script.toList :=
      Transmits.times fun byte _ => Transmits.next byte
    have h := transmits_times_ite b.debug f.start.script.toList hbytes
    rwa [Vector.length_toList] at h
  have htrack : Transmits
      (fun buffer => if b.debug then CompactBuffer.writeTrackedFrame buffer f.track else buffer)
      (readTrackedFrame.times (if b.debug then 1 else 0)) (if b.debug then [f.track] else []) :=
    transmits_times_ite b.debug [f.track] ((transmits_trackedFrame f.track).map ([·]))
  have hcount : (BitVec.ofNat 32 f.slots.length).toNat = f.slots.length := by
    have hnfixed := f.start.nfixed.isLt
    have hnargs := hf.nargs
    have hstack := hf.stack
    simp only [snapshotMaxNargs, snapshotMaxStack] at hnargs hstack
    rw [BitVec.toNat_ofNat, hf.count]
    omega
  rcases hscript with ⟨script, hwrite1, hread1⟩
  rcases transmits_unsigned f.start.pcOffset with ⟨pcOffset, hwrite2, hread2⟩
  rcases transmits_unsigned (BitVec.ofNat 32 f.slots.length) with ⟨nslots, hwrite3, hread3⟩
  rcases htrack with ⟨track, hwrite4, hread4⟩
  refine ⟨script ++ (pcOffset ++ (nslots ++ track)), ?_, ?_⟩
  · intro buffer
    simp only [hwrite1, hwrite2, hwrite3, hwrite4, append_assoc]
  · refine hread1.bind (hread2.bind (hread3.bind (hread4.bind_done ?_)))
    have hheader : f.header = { f.header with
        slotCount := (BitVec.ofNat 32 f.slots.length).toNat
        track := (if b.debug then [f.track] else []).head? } := by
      rw [hcount, FrameCalls.header]
      cases b.debug <;> rfl
    rw [hheader]
    exact Reads.pure _

/-- A frame, from `startFrame` to `endFrame`, and the reader that comes to its header. -/
lemma frame_agrees (f : FrameCalls b) (hf : f.WellFormed) : ∃ bytes,
    (∀ w : SnapshotWriter, w.run f.calls = some { w with
      writer := w.writer ++ bytes
      nslots := 0
      slotsWritten := 0
      framesWritten := w.framesWritten + 1 }) ∧
    ∀ (r : SnapshotReader) (rest : List Byte), r.moreFrames → r.slotsRead = r.frame.slotCount →
      r.reader = bytes ++ rest →
      ∃ r' last, r.nextFrame b = some r' ∧ r'.header = r.header ∧ r'.frame = f.header ∧
        r'.framesRead = r.framesRead + 1 ∧
        r'.readSlots b r'.frame.slotCount = some (f.slots.map SlotCall.slot, last) ∧
        last.header = r.header ∧ last.framesRead = r.framesRead + 1 ∧
        last.slotsRead = last.frame.slotCount ∧ last.reader = rest := by
  rcases transmits_frameHeader f hf with ⟨header, hwriteHeader, hreadHeader⟩
  rcases slots_agree f.slots hf.slots with ⟨slots, hwriteSlots, hreadSlots⟩
  refine ⟨header ++ slots, ?_, ?_⟩
  · intro w
    have hstart : w.run (.startFrame f.start :: (if b.debug then [.trackFrame f.track] else [])) =
        some { w with
          writer := w.writer ++ header
          nslots := f.slots.length
          slotsWritten := 0 } := by
      rw [← hwriteHeader w.writer, run_cons]
      show (w.startFrame f.start).bind _ = _
      rw [hf.count]
      simp only [startFrame, guard, hf.nargs, hf.stack, if_true, Option.pure_def,
        Option.bind_eq_bind, Option.bind_some]
      cases b.debug <;> rfl
    have hroom : 0 + f.slots.length ≤ f.slots.length := by omega
    rw [FrameCalls.calls, run_append, run_append, hstart, Option.bind_some, hwriteSlots _ hroom,
      Option.bind_some, run_cons]
    simp only [call, endFrame, guard, Nat.zero_add, if_true, Option.pure_def, Option.bind_eq_bind,
      Option.bind_some, run_nil, append_assoc]
  · intro r rest hmore hdone hr
    have hrun : (readFrameHeader b).run r.reader = some (f.header, slots ++ rest) := by
      rw [hr, append_assoc]
      exact hreadHeader (slots ++ rest)
    refine ⟨{ r with
      reader := slots ++ rest
      frame := f.header
      framesRead := r.framesRead + 1
      slotsRead := 0 }, { r with
      reader := rest
      frame := f.header
      framesRead := r.framesRead + 1
      slotsRead := f.slots.length }, ?_, rfl, rfl, rfl, ?_, rfl, rfl, rfl, rfl⟩
    · simp only [SnapshotReader.nextFrame, guard, hmore, hdone, if_true, Option.pure_def,
        Option.bind_eq_bind, Option.bind_some, hrun]
    · have hroom : 0 + f.slots.length ≤ f.slots.length := by omega
      show SnapshotReader.readSlots b f.slots.length _ = _
      rw [hreadSlots _ rest rfl hroom]
      simp only [Nat.zero_add]

/-- The frames as they are to be read: only in the last one may `resumeAfter()` hold. -/
def frameList (resumeAfter : Bool) : List (FrameCalls b) → List (SnapshotReader.Frame b)
  | [] => []
  | [f] => [⟨f.header, f.slots.map SlotCall.slot, resumeAfter⟩]
  | f :: g :: fs => ⟨f.header, f.slots.map SlotCall.slot, false⟩ :: frameList resumeAfter (g :: fs)

/-- All frames of a snapshot, and the reader that comes to the header of the first. -/
lemma frames_agree (fs : List (FrameCalls b)) (hfs : ∀ f ∈ fs, f.WellFormed) (hne : fs ≠ []) :
    ∃ bytes, (∀ w : SnapshotWriter, w.run (fs.flatMap FrameCalls.calls) = some { w with
      writer := w.writer ++ bytes
      nslots := 0
      slotsWritten := 0
      framesWritten := w.framesWritten + fs.length }) ∧
    ∀ (r : SnapshotReader) (rest : List Byte),
      r.framesRead + fs.length = r.header.frameCount → r.slotsRead = r.frame.slotCount →
      r.reader = bytes ++ rest →
      ∃ r' last, r.nextFrame b = some r' ∧ r'.header = r.header ∧
        r'.readFrames b (fs.length - 1) = some (frameList r.header.resumeAfter fs, last) ∧
        last.header = r.header ∧ last.reader = rest := by
  induction fs with
  | nil => exact absurd rfl hne
  | cons f fs ih =>
    rcases frame_agrees f (hfs f mem_cons_self) with ⟨bytes, hwrite, hread⟩
    cases fs with
    | nil =>
      -- the last frame: no frames are left, so `resumeAfter()` is what the header says
      refine ⟨bytes, ?_, ?_⟩
      · intro w
        rw [flatMap_cons, flatMap_nil, append_nil, hwrite]
        rfl
      · intro r rest hcount hdone hr
        have hcount : r.framesRead + 1 = r.header.frameCount := hcount
        have hmore : r.moreFrames = true := decide_eq_true (by omega)
        rcases hread r rest hmore hdone hr with
          ⟨r', last, hnext, hheader, hframe, hread', hslots, hlast, hlastRead, hfull, hrest⟩
        have hend : r'.moreFrames = false := by
          rw [SnapshotReader.moreFrames, decide_eq_false_iff_not, hread', hheader]
          omega
        have hresume : r'.resumeAfter = r.header.resumeAfter := by
          rw [SnapshotReader.resumeAfter, hend, hheader]
          rfl
        have hguard : last.moreSlots = false ∧ last.moreFrames = false := by
          simp only [SnapshotReader.moreSlots, SnapshotReader.moreFrames, decide_eq_false_iff_not,
            hfull, hlast, hlastRead]
          omega
        refine ⟨r', last, hnext, hheader, ?_, hlast, hrest⟩
        show r'.readFrames b 0 = _
        rw [SnapshotReader.readFrames, hslots]
        simp only [Option.bind_eq_bind, Option.bind_some, guard, if_pos hguard, Option.pure_def,
          frameList, hframe, hresume]
    | cons g fs =>
      rcases ih (fun f' hf' => hfs f' (mem_cons_of_mem f hf')) (cons_ne_nil g fs) with
        ⟨bytes', hwrites, hreads⟩
      refine ⟨bytes ++ bytes', ?_, ?_⟩
      · intro w
        rw [flatMap_cons, run_append, hwrite, Option.bind_some, hwrites]
        rw [append_assoc, length_cons (a := f), Nat.add_right_comm, Nat.add_assoc]
      · intro r rest hcount hdone hr
        rw [length_cons] at hcount
        have hmore : r.moreFrames = true := decide_eq_true (by omega)
        rw [append_assoc] at hr
        rcases hread r (bytes' ++ rest) hmore hdone hr with
          ⟨r', done, hnext, hheader, hframe, hread', hslots, hdoneHeader, hdoneRead, hfull, hrest⟩
        have hresume : r'.resumeAfter = false := by
          have hmore' : r'.moreFrames = true := by
            rw [SnapshotReader.moreFrames, decide_eq_true_eq, hread', hheader, ← hcount,
              length_cons]
            omega
          rw [SnapshotReader.resumeAfter, hmore']
          rfl
        have hguard : done.moreSlots = false ∧ done.moreFrames = true := by
          simp only [SnapshotReader.moreSlots, SnapshotReader.moreFrames, decide_eq_false_iff_not,
            decide_eq_true_eq, hfull, hdoneHeader, hdoneRead, ← hcount, length_cons]
          omega
        have hcount' : done.framesRead + (g :: fs).length = done.header.frameCount := by
          rw [hdoneRead, hdoneHeader, ← hcount]
          omega
        rcases hreads done rest hcount' hfull hrest with
          ⟨next, last, hnext', _, hframes, hlast, hend⟩
        refine ⟨r', last, hnext, hheader, ?_, hlast.trans hdoneHeader, hend⟩
        have hframes : next.readFrames b fs.length =
            some (frameList r.header.resumeAfter (g :: fs), last) := by
          rw [← hdoneHeader]
          exact hframes
        show r'.readFrames b (fs.length + 1) = _
        rw [SnapshotReader.readFrames, hslots]
        simp only [Option.bind_eq_bind, Option.bind_some, guard, if_pos hguard, Option.pure_def,
          hnext', hframes, frameList, hframe, hresume]

/-! ## Snapshots -/

/-- The fields of the header do not overlap. -/
lemma headerBits (low count : BitVec 32) (hlow : low.toNat < 16) (hcount : count.toNat < 2 ^ 28) :
    (low ||| (count <<< 4)) >>> 4 = count ∧ (low ||| (count <<< 4)) &&& 15#32 = low := by
  have hsum : (low ||| (count <<< 4)).toNat = 16 * count.toNat + low.toNat := by
    have hshift : (count <<< 4).toNat = count.toNat <<< 4 := by
      rw [BitVec.toNat_shiftLeft, Nat.shiftLeft_eq]
      omega
    rw [BitVec.toNat_or, hshift, Nat.or_comm, ← Nat.shiftLeft_add_eq_or_of_lt hlow,
      Nat.shiftLeft_eq]
    omega
  constructor
  · apply BitVec.eq_of_toNat_eq
    rw [BitVec.toNat_ushiftRight, hsum, Nat.shiftRight_eq_div_pow]
    omega
  · apply BitVec.eq_of_toNat_eq
    have hmask : (15#32).toNat = 2 ^ 4 - 1 := rfl
    rw [BitVec.toNat_and, hmask, Nat.and_two_pow_sub_one_eq_mod, hsum]
    omega

/-- What is below the frame count: the kind and the flag. -/
def headerLow (kind : BailoutKind) (resumeAfter : Bool) : BitVec 32 :=
  kind.code ||| (if resumeAfter then 8#32 else 0#32)

lemma headerLow_fields (kind : BailoutKind) (resumeAfter : Bool) :
    (headerLow kind resumeAfter).toNat < 16 ∧
      BailoutKind.ofCode (headerLow kind resumeAfter &&& bailoutKindMask) = some kind ∧
      (headerLow kind resumeAfter &&& 8#32 ≠ 0#32 ↔ resumeAfter = true) := by
  cases kind <;> cases resumeAfter <;> decide

/-- The header of a snapshot: what `startSnapshot` appends. -/
lemma startSnapshot_agrees (s : SnapshotCalls b) (hs : s.WellFormed) : ∃ bytes,
    Reads readSnapshotHeader bytes s.header ∧ ∀ w : SnapshotWriter,
      w.startSnapshot (BitVec.ofNat 32 s.frames.length) s.kind s.resumeAfter = some { w with
        nframes := s.frames.length
        framesWritten := 0
        lastStart := w.writer.length
        writer := w.writer ++ bytes } := by
  have hbound : s.frames.length < 2 ^ 28 := hs.count
  have hcount : (BitVec.ofNat 32 s.frames.length).toNat = s.frames.length := by
    rw [BitVec.toNat_ofNat]
    omega
  have hpos : 0 < s.frames.length := length_pos_iff.2 hs.nonempty
  rcases headerLow_fields s.kind s.resumeAfter with ⟨hlow, hkind, hresume⟩
  rcases headerBits (headerLow s.kind s.resumeAfter) (BitVec.ofNat 32 s.frames.length) hlow
    (by rw [hcount]; exact hbound) with ⟨hhigh, hmask⟩
  -- the order in which the writer puts the bits together does not matter
  have hbits : (if s.resumeAfter then (s.kind.code <<< bailoutKindShift) |||
      (BitVec.ofNat 32 s.frames.length <<< bailoutFramecountShift) |||
        (1#32 <<< bailoutResumeShift)
      else (s.kind.code <<< bailoutKindShift) |||
        (BitVec.ofNat 32 s.frames.length <<< bailoutFramecountShift)) =
      headerLow s.kind s.resumeAfter ||| (BitVec.ofNat 32 s.frames.length <<< 4) := by
    cases h : s.resumeAfter
    · simp [headerLow, bailoutKindShift, bailoutFramecountShift, bailoutKindBits, bailoutResumeBits]
    · rw [headerLow, BitVec.or_assoc, BitVec.or_comm _ (1#32 <<< bailoutResumeShift),
        ← BitVec.or_assoc]
      simp [bailoutKindShift, bailoutFramecountShift, bailoutKindBits, bailoutResumeBits,
        bailoutResumeShift]
  rcases transmits_unsigned
    (headerLow s.kind s.resumeAfter ||| (BitVec.ofNat 32 s.frames.length <<< 4)) with
    ⟨bytes, hwrite, hread⟩
  refine ⟨bytes, ?_, ?_⟩
  · refine hread.bind_done ?_
    set bits := headerLow s.kind s.resumeAfter ||| (BitVec.ofNat 32 s.frames.length <<< 4)
    have hkindBits : (bits >>> bailoutKindShift) &&& bailoutKindMask =
        headerLow s.kind s.resumeAfter &&& bailoutKindMask := by
      have hsub : 15#32 &&& bailoutKindMask = bailoutKindMask := by decide
      rw [← hmask, BitVec.and_assoc, hsub, bailoutKindShift, BitVec.ushiftRight_zero]
    have hresumeBit : bits &&& (1#32 <<< bailoutResumeShift) =
        headerLow s.kind s.resumeAfter &&& 8#32 := by
      have hsub : 15#32 &&& 8#32 = 1#32 <<< bailoutResumeShift := by decide
      rw [← hmask, BitVec.and_assoc, hsub]
    have hheader : s.header = {
        frameCount := (bits >>> bailoutFramecountShift).toNat
        bailoutKind := s.kind
        resumeAfter := bits &&& (1#32 <<< bailoutResumeShift) ≠ 0#32 } := by
      have hhigh : bits >>> bailoutFramecountShift = BitVec.ofNat 32 s.frames.length := hhigh
      rw [hhigh, hcount, hresumeBit, SnapshotCalls.header]
      congr 1
      rw [Bool.eq_iff_iff, decide_eq_true_eq, hresume]
    have hsome : (guard ((bits >>> bailoutFramecountShift).toNat > 0) : Option Unit) = some () := by
      have hhigh : bits >>> bailoutFramecountShift = BitVec.ofNat 32 s.frames.length := hhigh
      rw [hhigh, hcount, guard, if_pos hpos]
      rfl
    rw [hheader]
    refine (Reads.ofOption hsome).bind_nil ((Reads.ofOption ?_).bind_nil (Reads.pure _))
    rw [hkindBits]
    exact hkind
  · intro w
    have hguard : BitVec.ofNat 32 s.frames.length > 0#32 := by
      rw [gt_iff_lt, BitVec.lt_def, hcount]
      exact hpos
    have hkindBound : s.kind.code.toNat < 2 ^ bailoutKindBits := by
      cases s.kind <;> decide
    simp only [SnapshotWriter.startSnapshot, guard, hguard, hcount, hs.count, hkindBound, hbits,
      hwrite, if_true, Option.pure_def, Option.bind_eq_bind, Option.bind_some]

/-- What a whole snapshot appends before `endSnapshot`, and how it is read. -/
lemma snapshot_agrees (s : SnapshotCalls b) (hs : s.WellFormed) : ∃ bytes,
    (∀ w : SnapshotWriter, w.run s.calls = (endSnapshot b { w with
      writer := w.writer ++ bytes
      nslots := 0
      slotsWritten := 0
      nframes := s.frames.length
      framesWritten := s.frames.length
      lastStart := w.writer.length })) ∧
    ∀ rest, ∃ r, SnapshotReader.readAll b (bytes ++ rest) =
      some (frameList s.resumeAfter s.frames, r) ∧ r.header = s.header ∧ r.reader = rest := by
  rcases startSnapshot_agrees s hs with ⟨header, hreadHeader, hwriteHeader⟩
  rcases frames_agree s.frames hs.frames hs.nonempty with ⟨frames, hwriteFrames, hreadFrames⟩
  refine ⟨header ++ frames, ?_, ?_⟩
  · intro w
    rw [SnapshotCalls.calls, run_append, run_cons]
    show ((w.startSnapshot _ _ _).bind _).bind _ = _
    rw [hwriteHeader, Option.bind_some, hwriteFrames, Option.bind_some, run_cons]
    simp only [call, append_assoc, Nat.zero_add]
    cases endSnapshot b _ <;> rfl
  · intro rest
    rcases hreadFrames {
        reader := frames ++ rest
        header := s.header
        frame := { script := [], pcOffset := 0#32, slotCount := 0, track := none }
        framesRead := 0
        slotsRead := 0 } rest (Nat.zero_add _) rfl rfl with
      ⟨first, last, hnext, hfirst, hframes, hlast, hrest⟩
    refine ⟨last, ?_, hlast, hrest⟩
    have hrun : readSnapshotHeader.run (header ++ frames ++ rest) =
        some (s.header, frames ++ rest) := by
      rw [append_assoc]
      exact hreadHeader (frames ++ rest)
    rw [SnapshotReader.readAll, SnapshotReader.new, hrun]
    simp only [Option.bind_eq_bind, Option.bind_some, hnext, hfirst]
    exact hframes

/-- What `endSnapshot` places behind a snapshot. -/
def snapshotSentinel (b : Build) : List Byte := if b.debug then writeSigned [] (-1#32) else []

/-- A snapshot of one frame on x64: a value on the stack, a large constant, an object. -/
def valueSnapshot : SnapshotCalls ⟨.x64, false⟩ where
  kind := .boundsCheck
  resumeAfter := true
  frames := [{
    start := ⟨⟨#[0, 0, 0, 0, 0, 0, 0, 0], rfl⟩, 1, 1#16, 1, 300#32⟩
    track := ⟨0, 0, 0, 0, 0⟩
    slots := [.valueStack (-8#32), .int32 (-100#32), .typedReg .object ⟨2, by decide⟩] }]

lemma valueSnapshot_wellFormed : valueSnapshot.WellFormed where
  nonempty := cons_ne_nil _ _
  count := by decide
  frames := by
    intro f hf
    rw [mem_singleton.1 hf]
    refine ⟨by decide, by decide, rfl, ?_⟩
    intro c hc
    simp only [mem_cons, not_mem_nil, or_false] at hc
    rcases hc with rfl | rfl | rfl
    · rfl
    · trivial
    · rfl

/-- A snapshot of one frame with one slot, in a `DEBUG` build for x86. -/
def debugSnapshot : SnapshotCalls ⟨.x86, true⟩ where
  kind := .normal
  resumeAfter := false
  frames := [{
    start := ⟨⟨#[0, 0, 0, 0], rfl⟩, 1, 0#16, 0, 0#32⟩
    track := ⟨0, 0, 0, 0, 0⟩
    slots := [.undefined] }]

lemma debugSnapshot_wellFormed : debugSnapshot.WellFormed where
  nonempty := cons_ne_nil _ _
  count := by decide
  frames := by
    intro f hf
    rw [mem_singleton.1 hf]
    refine ⟨by decide, by decide, rfl, ?_⟩
    intro c hc
    rw [mem_singleton.1 hc]
    trivial

end SpiderMonkey.Ion
