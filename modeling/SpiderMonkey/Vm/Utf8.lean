import SpiderMonkey.Vm.Chars

/-! # Conversion of strings to UTF-8 and back

`GetDeflatedUTF8StringLength`, `DeflateStringToUTF8Buffer` and `InflateUTF8StringToBuffer`
(`jsstr.cpp`). A buffer is the list of what has been written to it; the number that `*dstlenp`
returns stands beside it.
-/

namespace SpiderMonkey.Vm

inductive FlationCoding where
  | normalEncoding
  | cesu8Encoding
  deriving DecidableEq, Repr

/-! ## One character -/

/-- `while (a) { a >>= 5; length++; }` -/
def shiftLoop (a length : Nat) : Nat :=
  if a = 0 then length else shiftLoop (a >>> 5) (length + 1)
termination_by a
decreasing_by
  rw [Nat.shiftRight_eq_div_pow]
  exact Nat.div_lt_self (Nat.pos_of_ne_zero ‹_›) (by decide)

/-- `while (--i) { buffer[i] = (c & 0x3F) | 0x80; c >>= 6; }`, with what is left of `c`. -/
def tailLoop : Nat → Nat → List UInt8 → List UInt8 × Nat
  | 0, c, buffer => (buffer, c)
  | i + 1, c, buffer => tailLoop i (c >>> 6) (UInt8.ofNat ((c &&& 0x3F) ||| 0x80) :: buffer)

/-- `js_OneUcs4ToUtf8Char` -/
def oneUcs4ToUtf8Char (ucs4Char : Nat) : List UInt8 :=
  if ucs4Char < 0x80 then [UInt8.ofNat ucs4Char]
  else
    let utf8Length := shiftLoop (ucs4Char >>> 11) 2
    let (tail, c) := tailLoop (utf8Length - 1) ucs4Char []
    UInt8.ofNat (0x100 - (1 <<< (8 - utf8Length)) + c) :: tail

/-- `INVALID_UTF8` -/
def invalidUtf8 : Nat := 0xFFFFFFFF

/-- `minucs4Table[length - 2]` -/
def minUcs4 (length : Nat) : Nat :=
  match length - 2 with
  | 0 => 0x80
  | 1 => 0x800
  | _ => 0x10000

/-- `Utf8ToOneUcs4Char` of a lead byte and those behind it. -/
def utf8ToOneUcs4Char (lead : UInt8) (tail : List UInt8) : Nat :=
  let length := tail.length + 1
  if length = 1 then lead.toNat
  else
    let ucs4Char := tail.foldl (fun c b => (c <<< 6) ||| (b.toNat &&& 0x3F))
      (lead.toNat &&& ((1 <<< (7 - length)) - 1))
    -- The non-shortest form is illegal, and so are surrogates.
    if ucs4Char < minUcs4 length ∨ (0xD800 ≤ ucs4Char ∧ ucs4Char ≤ 0xDFFF) then invalidUtf8
    else ucs4Char

/-! ## Deflation -/

/-- The loop of `GetDeflatedUTF8StringLength`; an error has the unit that its message shows. -/
def deflatedLength (useCESU8 : Bool) : List Jschar → Nat → Except Nat Nat
  | [], nbytes => .ok nbytes
  | c :: chars, nbytes =>
    if c.toNat < 0x80 then deflatedLength useCESU8 chars nbytes
    else if 0xD800 ≤ c.toNat ∧ c.toNat ≤ 0xDFFF ∧ useCESU8 = false then
      if 0xDC00 ≤ c.toNat then .error c.toNat
      else
        match chars with
        | [] => .error c.toNat
        | c2 :: chars =>
          if c2.toNat < 0xDC00 ∨ 0xDFFF < c2.toNat then .error c.toNat
          else
            let v := ((c.toNat - 0xD800) <<< 10) + (c2.toNat - 0xDC00) + 0x10000
            deflatedLength useCESU8 chars (shiftLoop (v >>> 11) (nbytes - 1 + 1))
    else deflatedLength useCESU8 chars (shiftLoop (c.toNat >>> 11) (nbytes + 1))

/-- `GetDeflatedUTF8StringLength`; its `(size_t) -1` is an error. -/
def getDeflatedUTF8StringLength (chars : List Jschar) (fc : FlationCoding) : Except Nat Nat :=
  deflatedLength (fc == .cesu8Encoding) chars chars.length

inductive DeflateExit where
  | done
  /-- The units are those that the measurement is called with to report the error. -/
  | badSurrogate (src : List Jschar)
  | bufferTooSmall
  deriving DecidableEq, Repr

structure Deflated where
  exit : DeflateExit
  dst : List UInt8
  dstlen : Nat
  deriving DecidableEq, Repr

/-- One character, unless it does not fit. -/
def deflateChar (v dstlen : Nat) : Option (List UInt8) :=
  if v < 0x80 then
    if dstlen = 0 then none else some [UInt8.ofNat v]
  else if dstlen < (oneUcs4ToUtf8Char v).length then none
  else some (oneUcs4ToUtf8Char v)

/-- The loop of `DeflateStringToUTF8Buffer`; `dstlen` is what is left of the buffer. -/
def deflateLoop (useCESU8 : Bool) : List Jschar → Nat → List UInt8 → Deflated
  | [], dstlen, dst => ⟨.done, dst, dstlen⟩
  | c :: src, dstlen, dst =>
    if 0xDC00 ≤ c.toNat ∧ c.toNat ≤ 0xDFFF ∧ useCESU8 = false then
      ⟨.badSurrogate (c :: src), dst, dstlen⟩
    else if c.toNat < 0xD800 ∨ 0xDBFF < c.toNat ∨ useCESU8 = true then
      match deflateChar c.toNat dstlen with
      | none => ⟨.bufferTooSmall, dst, dstlen⟩
      | some bytes => deflateLoop useCESU8 src (dstlen - bytes.length) (dst ++ bytes)
    else
      match src with
      | [] => ⟨.badSurrogate [c], dst, dstlen⟩
      | c2 :: src =>
        if c2.toNat < 0xDC00 ∨ 0xDFFF < c2.toNat then ⟨.badSurrogate (c :: c2 :: src), dst, dstlen⟩
        else
          match deflateChar (((c.toNat - 0xD800) <<< 10) + (c2.toNat - 0xDC00) + 0x10000) dstlen with
          | none => ⟨.bufferTooSmall, dst, dstlen⟩
          | some bytes => deflateLoop useCESU8 src (dstlen - bytes.length) (dst ++ bytes)

/-- The loop over any way to write a character. Unfolded, it does not make the kernel evaluate the
bytes of a pair of units that are not known. -/
def deflateLoopBy (write : Nat → Nat → Option (List UInt8)) (useCESU8 : Bool) :
    List Jschar → Nat → List UInt8 → Deflated
  | [], dstlen, dst => ⟨.done, dst, dstlen⟩
  | c :: src, dstlen, dst =>
    if 0xDC00 ≤ c.toNat ∧ c.toNat ≤ 0xDFFF ∧ useCESU8 = false then
      ⟨.badSurrogate (c :: src), dst, dstlen⟩
    else if c.toNat < 0xD800 ∨ 0xDBFF < c.toNat ∨ useCESU8 = true then
      match write c.toNat dstlen with
      | none => ⟨.bufferTooSmall, dst, dstlen⟩
      | some bytes => deflateLoopBy write useCESU8 src (dstlen - bytes.length) (dst ++ bytes)
    else
      match src with
      | [] => ⟨.badSurrogate [c], dst, dstlen⟩
      | c2 :: src =>
        if c2.toNat < 0xDC00 ∨ 0xDFFF < c2.toNat then ⟨.badSurrogate (c :: c2 :: src), dst, dstlen⟩
        else
          match write (((c.toNat - 0xD800) <<< 10) + (c2.toNat - 0xDC00) + 0x10000) dstlen with
          | none => ⟨.bufferTooSmall, dst, dstlen⟩
          | some bytes => deflateLoopBy write useCESU8 src (dstlen - bytes.length) (dst ++ bytes)

lemma deflateLoop_eq_by : deflateLoop = deflateLoopBy deflateChar := by
  delta deflateLoop deflateLoopBy deflateLoop._f deflateLoopBy._f
  rfl

lemma deflateLoop_nil (useCESU8 : Bool) (dstlen : Nat) (dst : List UInt8) :
    deflateLoop useCESU8 [] dstlen dst = ⟨.done, dst, dstlen⟩ := rfl

lemma deflateLoop_cons (useCESU8 : Bool) (c : Jschar) (src : List Jschar) (dstlen : Nat)
    (dst : List UInt8) :
    deflateLoop useCESU8 (c :: src) dstlen dst =
      if 0xDC00 ≤ c.toNat ∧ c.toNat ≤ 0xDFFF ∧ useCESU8 = false then
        ⟨.badSurrogate (c :: src), dst, dstlen⟩
      else if c.toNat < 0xD800 ∨ 0xDBFF < c.toNat ∨ useCESU8 = true then
        match deflateChar c.toNat dstlen with
        | none => ⟨.bufferTooSmall, dst, dstlen⟩
        | some bytes => deflateLoop useCESU8 src (dstlen - bytes.length) (dst ++ bytes)
      else
        match src with
        | [] => ⟨.badSurrogate [c], dst, dstlen⟩
        | c2 :: src =>
          if c2.toNat < 0xDC00 ∨ 0xDFFF < c2.toNat then
            ⟨.badSurrogate (c :: c2 :: src), dst, dstlen⟩
          else
            match deflateChar (((c.toNat - 0xD800) <<< 10) + (c2.toNat - 0xDC00) + 0x10000)
              dstlen with
            | none => ⟨.bufferTooSmall, dst, dstlen⟩
            | some bytes => deflateLoop useCESU8 src (dstlen - bytes.length) (dst ++ bytes) := by
  rw [deflateLoop_eq_by, deflateLoopBy.eq_def]

/-- `DeflateStringToUTF8Buffer`; `dstlen` is the number of bytes written. -/
def deflateStringToUTF8Buffer (src : List Jschar) (dstlen : Nat) (fc : FlationCoding) : Deflated :=
  let r := deflateLoop (fc == .cesu8Encoding) src dstlen []
  { r with dstlen := dstlen - r.dstlen }

/-! ## Inflation -/

inductive InflateExit where
  | done
  | bufferTooSmall
  | badCharacter (offset : Nat)
  | charTooLarge (v : Nat)
  deriving DecidableEq, Repr

structure Inflated where
  exit : InflateExit
  dst : List Jschar
  dstlen : Nat
  deriving DecidableEq, Repr

/-- `while (v & (0x80 >> n)) n++;`. At `n = 8` there is no bit left. -/
def leadLoop (v : Nat) : Nat → Nat → Nat
  | 0, n => n
  | fuel + 1, n => if v &&& (0x80 >>> n) ≠ 0 then leadLoop v fuel (n + 1) else n

/-- The length `n` of the character that begins with `b` and its code `v`. -/
def readChar (b : UInt8) (rest : List UInt8) (offset : Nat) : Except InflateExit (Nat × Nat) :=
  if b.toNat &&& 0x80 = 0 then .ok (1, b.toNat)
  else
    let n := leadLoop b.toNat 7 1
    if rest.length + 1 < n then .error .bufferTooSmall
    else if n = 1 ∨ 4 < n then .error (.badCharacter offset)
    else if (rest.take (n - 1)).all (fun b => b.toNat &&& 0xC0 = 0x80) then
      .ok (n, utf8ToOneUcs4Char b (rest.take (n - 1)))
    else .error (.badCharacter offset)

/-- The first unit of a pair; what is left is the second. -/
def highUnit (useCESU8 hasDst : Bool) (v dstlen : Nat) (dst : List Jschar) :
    Option (Nat × Nat × List Jschar) :=
  if 0x10000 ≤ v ∧ useCESU8 = false then
    if 0xFFFFF < v - 0x10000 ∨ dstlen < 2 then none
    else if hasDst then
      some (((v - 0x10000) &&& 0x3FF) + 0xDC00, dstlen - 1,
        dst ++ [UInt16.ofNat (((v - 0x10000) >>> 10) + 0xD800)])
    else some (v - 0x10000, dstlen - 1, dst)
  else some (v, dstlen, dst)

/-- The loop of `InflateUTF8StringToBuffer`; without a buffer, `hasDst` is false. -/
def inflateLoop (useCESU8 hasDst : Bool) (src : List UInt8) (dstlen offset : Nat)
    (dst : List Jschar) : Inflated :=
  match src with
  | [] => ⟨.done, dst, dstlen⟩
  | b :: rest =>
    match readChar b rest offset with
    | .error exit => ⟨exit, dst, dstlen⟩
    | .ok (n, v) =>
      match highUnit useCESU8 hasDst v dstlen dst with
      | none => ⟨.charTooLarge v, dst, dstlen⟩
      | some (v, dstlen, dst) =>
        if dstlen = 0 then ⟨.bufferTooSmall, dst, dstlen⟩
        else
          inflateLoop useCESU8 hasDst (rest.drop (n - 1)) (dstlen - 1) (offset + n)
            (if hasDst then dst ++ [UInt16.ofNat v] else dst)
termination_by src.length
decreasing_by
  rw [List.length_drop, List.length_cons]
  omega

/-- `InflateUTF8StringToBuffer`. Without a buffer, `dst` is `none` and it measures; `dstlen` is the
number of units. -/
def inflateUTF8StringToBuffer (src : List UInt8) (dst : Option Nat) (fc : FlationCoding) :
    Inflated :=
  let dstlen := dst.getD (2 ^ 64 - 1)
  let r := inflateLoop (fc == .cesu8Encoding) dst.isSome src dstlen 0 []
  { r with dstlen := dstlen - r.dstlen }

end SpiderMonkey.Vm
