import SpiderMonkey.Ion.CompactBuffer

/-! # What is written to a compact buffer

Any calls of a `CompactBufferWriter`, and the calls of a `CompactBufferReader` for what they wrote.
The negation of an `int32` is undefined where it overflows. The reader asserts that it shifts by less
than 32, and fails where this is not so; the other shifts are by constants.
-/

namespace SpiderMonkey.Ion

open Lib

/-- `-v`, which overflows for `INT32_MIN`. -/
def negate (v : BitVec 32) : Option (BitVec 32) := if v = BitVec.intMin 32 then none else some (-v)

/-- A call of the writer. -/
inductive BufferCall where
  | byte (byte : Byte)
  | unsigned (value : BitVec 32)
  | signed (v : BitVec 32)
  | fixedUint32 (value : BitVec 32)
  | fixedUint16 (value : BitVec 16)
deriving DecidableEq

/-- What is read by which call of the reader. -/
inductive BufferKind where
  | byte
  | unsigned
  | signed
  | fixedUint32
  | fixedUint16
deriving DecidableEq

def BufferCall.kind : BufferCall → BufferKind
  | byte _ => .byte
  | unsigned _ => .unsigned
  | signed _ => .signed
  | fixedUint32 _ => .fixedUint32
  | fixedUint16 _ => .fixedUint16

namespace CompactBuffer

/-- `writeFixedUint32`, low byte first. -/
def writeFixedUint32 (buffer : CompactBuffer) (value : BitVec 32) : CompactBuffer :=
  let buffer := buffer.writeByte ((value &&& 0xFF#32).setWidth 8)
  let buffer := buffer.writeByte (((value >>> 8) &&& 0xFF#32).setWidth 8)
  let buffer := buffer.writeByte (((value >>> 16) &&& 0xFF#32).setWidth 8)
  buffer.writeByte (((value >>> 24) &&& 0xFF#32).setWidth 8)

/-- `readFixedUint32`. -/
def readFixedUint32 : Reader Byte (BitVec 32) := do
  let b0 ← readByte
  let b1 ← readByte
  let b2 ← readByte
  let b3 ← readByte
  pure (b0.setWidth 32 ||| (b1.setWidth 32 <<< 8) ||| (b2.setWidth 32 <<< 16) |||
    (b3.setWidth 32 <<< 24))

/-- `writeSigned`, if its negation does not overflow. -/
def writeSignedDefined (buffer : CompactBuffer) (v : BitVec 32) : Option CompactBuffer :=
  if v.slt 0#32 then (negate v).map fun _ => buffer.writeSigned v else some (buffer.writeSigned v)

/-- `readSigned`, if its negation does not overflow. -/
def readSignedDefined : Reader Byte (BitVec 32) := do
  let b ← readByte
  let result ← readMagnitude b
  if b &&& 1#8 ≠ 0#8 then Reader.ofOption (negate result) else pure result

def write (buffer : CompactBuffer) : BufferCall → Option CompactBuffer
  | .byte byte => some (buffer.writeByte byte)
  | .unsigned value => some (buffer.writeUnsigned value)
  | .signed v => buffer.writeSignedDefined v
  | .fixedUint32 value => some (buffer.writeFixedUint32 value)
  | .fixedUint16 value => some (buffer.writeFixedUint16 value)

def read : BufferKind → Reader Byte BufferCall
  | .byte => .byte <$> readByte
  | .unsigned => .unsigned <$> readUnsigned
  | .signed => .signed <$> readSignedDefined
  | .fixedUint32 => .fixedUint32 <$> readFixedUint32
  | .fixedUint16 => .fixedUint16 <$> readFixedUint16

def writeAll (buffer : CompactBuffer) : List BufferCall → Option CompactBuffer
  | [] => some buffer
  | call :: calls => do
    let buffer ← buffer.write call
    buffer.writeAll calls

def readAll : List BufferKind → Reader Byte (List BufferCall)
  | [] => pure []
  | kind :: kinds => do
    let call ← read kind
    let calls ← readAll kinds
    pure (call :: calls)

/-- Nothing overflows, and the reader returns what was written, from these bytes and no others. -/
def RoundTrips (calls : List BufferCall) : Prop :=
  ∃ bytes, writeAll [] calls = some bytes ∧ Reads (readAll (calls.map BufferCall.kind)) bytes calls

/-! ## Single calls -/

/-- The four bytes of a fixed integer, put back together. -/
lemma or_shift_bytes (value : BitVec 32) :
    (((value &&& 0xFF#32).setWidth 8).setWidth 32) |||
      ((((value >>> 8) &&& 0xFF#32).setWidth 8).setWidth 32 <<< 8) |||
      ((((value >>> 16) &&& 0xFF#32).setWidth 8).setWidth 32 <<< 16) |||
      ((((value >>> 24) &&& 0xFF#32).setWidth 8).setWidth 32 <<< 24) = value := by
  have hmask : 0xFF#32 = (BitVec.allOnes 8).setWidth 32 := by decide
  rw [hmask]
  ext i hi
  simp only [BitVec.getElem_or, BitVec.getElem_shiftLeft, BitVec.getElem_setWidth,
    BitVec.getLsbD_setWidth, BitVec.getLsbD_and, BitVec.getLsbD_allOnes,
    BitVec.getLsbD_ushiftRight]
  rcases Nat.lt_or_ge i 8 with h | h
  · have h16 : i < 16 := by omega
    have h24 : i < 24 := by omega
    simp [h, h16, h24, hi]
  · rcases Nat.lt_or_ge i 16 with h' | h'
    · have hlow : i - 8 < 8 := by omega
      have hlow' : i - 8 < 32 := by omega
      have h24 : i < 24 := by omega
      have heq : 8 + (i - 8) = i := by omega
      simp [Nat.not_lt.2 h, h', h24, hlow, hlow', heq, BitVec.getLsbD_eq_getElem hi]
    · rcases Nat.lt_or_ge i 24 with h'' | h''
      · have hlow : i - 16 < 8 := by omega
        have hlow' : i - 16 < 32 := by omega
        have heq : 16 + (i - 16) = i := by omega
        have hout : ¬ i - 8 < 8 := by omega
        simp [Nat.not_lt.2 h, Nat.not_lt.2 h', h'', hlow, hlow', heq, hout,
          BitVec.getLsbD_eq_getElem hi]
      · have hlow : i - 24 < 8 := by omega
        have hlow' : i - 24 < 32 := by omega
        have heq : 24 + (i - 24) = i := by omega
        have hout : ¬ i - 8 < 8 := by omega
        have hout' : ¬ i - 16 < 8 := by omega
        simp [Nat.not_lt.2 h, Nat.not_lt.2 h', Nat.not_lt.2 h'', hlow, hlow', heq, hout, hout',
          BitVec.getLsbD_eq_getElem hi]

lemma transmits_fixedUint32 (value : BitVec 32) :
    Transmits (writeFixedUint32 · value) readFixedUint32 value := by
  refine ⟨[(value &&& 0xFF#32).setWidth 8, ((value >>> 8) &&& 0xFF#32).setWidth 8,
    ((value >>> 16) &&& 0xFF#32).setWidth 8, ((value >>> 24) &&& 0xFF#32).setWidth 8], ?_, ?_⟩
  · intro buffer
    simp [writeFixedUint32, writeByte]
  · intro rest
    have hvalue := or_shift_bytes value
    show some (_, rest) = some (value, rest)
    rw [hvalue]

/-- Negation that is defined is negation that wraps, except that it does not yield `INT32_MIN`. -/
lemma negate_eq {result v : BitVec 32} (hv : v ≠ BitVec.intMin 32) (h : -result = v) :
    negate result = some v := by
  rw [negate, if_neg, h]
  rintro rfl
  exact hv (h.symm.trans (by decide))

/-- What is read by a negation that wraps is read by one that is defined, if it is not
`INT32_MIN`. -/
lemma readSignedDefined_eq {stream rest : List Byte} {v : BitVec 32} (hv : v ≠ BitVec.intMin 32)
    (h : readSigned stream = some (v, rest)) : readSignedDefined stream = some (v, rest) := by
  cases stream with
  | nil => cases h
  | cons b tail =>
    change (readMagnitude b tail).bind (fun p =>
      some (if b &&& 1#8 ≠ 0#8 then -p.1 else p.1, p.2)) = _ at h
    change (readMagnitude b tail).bind (fun p =>
      (if b &&& 1#8 ≠ 0#8 then Reader.ofOption (negate p.1) else pure p.1) p.2) = _
    cases hmagnitude : readMagnitude b tail with
    | none =>
      rw [hmagnitude] at h
      cases h
    | some p =>
      obtain ⟨result, rest'⟩ := p
      rw [hmagnitude, Option.bind_some, Option.some.injEq, Prod.mk.injEq] at h
      obtain ⟨hvalue, rfl⟩ := h
      rw [Option.bind_some]
      split at hvalue
      · rename_i hnegative
        rw [if_pos hnegative]
        show (negate result).map _ = _
        rw [negate_eq hv hvalue]
        rfl
      · rename_i hpositive
        rw [if_neg hpositive, ← hvalue]
        rfl

lemma writeSignedDefined_eq {v : BitVec 32} (hv : v ≠ BitVec.intMin 32) (buffer : CompactBuffer) :
    buffer.writeSignedDefined v = some (buffer.writeSigned v) := by
  rw [writeSignedDefined, negate, if_neg hv]
  exact ite_self _

lemma writeSignedDefined_intMin (buffer : CompactBuffer) :
    buffer.writeSignedDefined (BitVec.intMin 32) = none := by
  rw [writeSignedDefined, if_pos (by decide), negate, if_pos rfl]
  rfl

/-- Every call but that for `INT32_MIN` appends what is read back. -/
lemma write_reads {call : BufferCall} (hcall : call ≠ .signed (BitVec.intMin 32)) :
    ∃ bytes, (∀ buffer : CompactBuffer, buffer.write call = some (buffer ++ bytes)) ∧
      Reads (read call.kind) bytes call := by
  cases call with
  | byte byte =>
    obtain ⟨bytes, hwrite, hread⟩ := Transmits.next byte
    exact ⟨bytes, fun buffer => congrArg some (hwrite buffer), hread.map _⟩
  | unsigned value =>
    obtain ⟨bytes, hwrite, hread⟩ := transmits_unsigned value
    exact ⟨bytes, fun buffer => congrArg some (hwrite buffer), hread.map _⟩
  | signed v =>
    have hv : v ≠ BitVec.intMin 32 := fun h => hcall (congrArg BufferCall.signed h)
    obtain ⟨bytes, hwrite, hread⟩ := transmits_signed v
    have hdefined : Reads readSignedDefined bytes v :=
      fun rest => readSignedDefined_eq hv (hread rest)
    exact ⟨bytes, fun buffer => (writeSignedDefined_eq hv buffer).trans (congrArg some (hwrite buffer)),
      hdefined.map _⟩
  | fixedUint32 value =>
    obtain ⟨bytes, hwrite, hread⟩ := transmits_fixedUint32 value
    exact ⟨bytes, fun buffer => congrArg some (hwrite buffer), hread.map _⟩
  | fixedUint16 value =>
    obtain ⟨bytes, hwrite, hread⟩ := transmits_fixedUint16 value
    exact ⟨bytes, fun buffer => congrArg some (hwrite buffer), hread.map _⟩

/-! ## Sequences of calls -/

lemma writeAll_reads {calls : List BufferCall}
    (hcalls : ∀ call ∈ calls, call ≠ .signed (BitVec.intMin 32)) :
    ∃ bytes, (∀ buffer : CompactBuffer, buffer.writeAll calls = some (buffer ++ bytes)) ∧
      Reads (readAll (calls.map BufferCall.kind)) bytes calls := by
  induction calls with
  | nil => exact ⟨[], fun buffer => by rw [writeAll, List.append_nil], Reads.pure []⟩
  | cons call calls ih =>
    obtain ⟨bytes, hwrite, hread⟩ := write_reads (hcalls call List.mem_cons_self)
    obtain ⟨bytes', hwrite', hread'⟩ := ih fun call' h => hcalls call' (List.mem_cons_of_mem _ h)
    refine ⟨bytes ++ bytes', fun buffer => ?_, hread.bind (hread'.bind_done (Reads.pure _))⟩
    rw [writeAll, hwrite, Option.bind_eq_bind, Option.bind_some, hwrite', List.append_assoc]

/-- A sequence with a call for `INT32_MIN` overflows. -/
lemma writeAll_intMin {calls : List BufferCall} (h : .signed (BitVec.intMin 32) ∈ calls)
    (buffer : CompactBuffer) : buffer.writeAll calls = none := by
  induction calls generalizing buffer with
  | nil => cases h
  | cons call calls ih =>
    rw [writeAll, Option.bind_eq_bind]
    rcases List.mem_cons.mp h with rfl | hmem
    · rw [write, writeSignedDefined_intMin]
      rfl
    · cases buffer.write call with
      | none => rfl
      | some buffer' => exact ih hmem buffer'

/-- Any calls come back without overflow, exactly if none of them is for `INT32_MIN`. -/
theorem roundTrips_iff (calls : List BufferCall) :
    RoundTrips calls ↔ ∀ call ∈ calls, call ≠ .signed (BitVec.intMin 32) := by
  constructor
  · rintro ⟨bytes, hwrite, -⟩ call hcall rfl
    rw [writeAll_intMin hcall] at hwrite
    cases hwrite
  · intro hcalls
    obtain ⟨bytes, hwrite, hread⟩ := writeAll_reads hcalls
    exact ⟨bytes, (hwrite []).trans (by rw [List.nil_append]), hread⟩

theorem not_roundTrips_intMin : ¬∀ calls, RoundTrips calls := by
  intro hclaim
  obtain ⟨bytes, hwrite, -⟩ := hclaim [.signed (BitVec.intMin 32)]
  rw [writeAll_intMin (List.mem_singleton_self _)] at hwrite
  cases hwrite

end CompactBuffer

end SpiderMonkey.Ion
