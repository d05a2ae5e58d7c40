import SpiderMonkey.Lib.Fallible
import SpiderMonkey.Vm.JsonParser
import SpiderMonkey.Vm.Utf8

/-! # URI encoding and decoding

`Encode` and `Decode` (`jsstr.cpp`). A reading of the string past its end is an error of its own,
which the model could not hide.
-/

namespace SpiderMonkey.Vm

open SpiderMonkey.Json (isHex unHex)

abbrev percent : Jschar := 37

/-! ## Sets -/

/-- `js_strchr`: whether `c` stands before the NUL that ends `s`. -/
def strchr : List Jschar → Jschar → Bool
  | [], _ => false
  | a :: s, c => if a = 0 then false else if a = c then true else strchr s c

/-- `js_uriReservedPlusPound_ucstr`: `;/?:@&=+$,#` -/
def uriReservedPlusPound : List Jschar := [59, 47, 63, 58, 64, 38, 61, 43, 36, 44, 35, 0]

/-- `js_uriUnescaped_ucstr`: digits, letters and `-_.!~*'()` -/
def uriUnescaped : List Jschar :=
  [48, 49, 50, 51, 52, 53, 54, 55, 56, 57,
    65, 66, 67, 68, 69, 70, 71, 72, 73, 74, 75, 76, 77,
    78, 79, 80, 81, 82, 83, 84, 85, 86, 87, 88, 89, 90,
    97, 98, 99, 100, 101, 102, 103, 104, 105, 106, 107, 108, 109,
    110, 111, 112, 113, 114, 115, 116, 117, 118, 119, 120, 121, 122,
    45, 95, 46, 33, 126, 42, 39, 40, 41, 0]

/-- `js_empty_ucstr` -/
def emptyUcstr : List Jschar := [0]

/-! ## Encode -/

/-- `HexDigits` -/
def hexDigits : List Jschar :=
  [48, 49, 50, 51, 52, 53, 54, 55, 56, 57, 65, 66, 67, 68, 69, 70]

/-- `hexBuf` for a byte. -/
def triplet (b : UInt8) : List Jschar :=
  [percent, hexDigits.getD (b.toNat >>> 4) 0, hexDigits.getD (b.toNat &&& 0xF) 0]

inductive UriError where
  | badUri
  | pastEnd
  deriving DecidableEq, Repr

/-- The loop of `Encode`. -/
def encodeLoop (unescapedSet : List Jschar) (unescapedSet2 : Option (List Jschar)) :
    List Jschar → List Jschar → Except UriError (List Jschar)
  | [], sb => .ok sb
  | c :: chars, sb =>
    if strchr unescapedSet c || unescapedSet2.any (strchr · c) then
      encodeLoop unescapedSet unescapedSet2 chars (sb ++ [c])
    else if 0xDC00 ≤ c.toNat ∧ c.toNat ≤ 0xDFFF then .error .badUri
    else if c.toNat < 0xD800 ∨ 0xDBFF < c.toNat then
      encodeLoop unescapedSet unescapedSet2 chars
        (sb ++ (oneUcs4ToUtf8Char c.toNat).flatMap triplet)
    else
      match chars with
      | [] => .error .badUri
      | c2 :: chars =>
        if c2.toNat < 0xDC00 ∨ 0xDFFF < c2.toNat then .error .badUri
        else
          let v := ((c.toNat - 0xD800) <<< 10) + (c2.toNat - 0xDC00) + 0x10000
          encodeLoop unescapedSet unescapedSet2 chars
            (sb ++ (oneUcs4ToUtf8Char v).flatMap triplet)

/-- `Encode` -/
def encode (chars unescapedSet : List Jschar) (unescapedSet2 : Option (List Jschar)) :
    Except UriError (List Jschar) :=
  if chars.length = 0 then .ok [] else encodeLoop unescapedSet unescapedSet2 chars []

/-! ## Decode -/

/-- `chars[k]` -/
def charAt (chars : List Jschar) (k : Nat) : Except UriError Jschar :=
  match chars[k]? with
  | some c => .ok c
  | none => .error .pastEnd

/-- The byte of the two digits after `chars[k]`. -/
def hexByte (chars : List Jschar) (k : Nat) : Except UriError Nat := do
  let h1 ← charAt chars (k + 1)
  if !isHex h1 then throw .badUri
  let h2 ← charAt chars (k + 2)
  if !isHex h2 then throw .badUri
  return (unHex h1).toNat * 16 + (unHex h2).toNat

/-- The bytes of a character behind the first; `k` is at the last digit before them. -/
def octetLoop (chars : List Jschar) : Nat → Nat → List UInt8 →
    Except UriError (List UInt8 × Nat)
  | 0, k, octets => .ok (octets, k)
  | left + 1, k, octets => do
    let c ← charAt chars (k + 1)
    if c ≠ percent then throw .badUri
    let b ← hexByte chars (k + 1)
    if b &&& 0xC0 ≠ 0x80 then throw .badUri
    octetLoop chars left (k + 3) (octets ++ [UInt8.ofNat b])

/-- The unit of a code, and the one before it in a pair. -/
def splitUnit (v : Nat) : Except UriError (Jschar × List Jschar) :=
  if 0x10000 ≤ v then
    if 0xFFFFF < v - 0x10000 then .error .badUri
    else
      .ok (UInt16.ofNat (((v - 0x10000) &&& 0x3FF) + 0xDC00),
        [UInt16.ofNat (((v - 0x10000) >>> 10) + 0xD800)])
  else .ok (UInt16.ofNat v, [])

/-- What the triplets from `k` on denote: a unit, another before it in a pair, and the last index. -/
def decodeTriplets (chars : List Jschar) (k : Nat) :
    Except UriError (Jschar × List Jschar × Nat) := do
  if chars.length ≤ k + 2 then throw .badUri
  let b ← hexByte chars k
  if b &&& 0x80 = 0 then return (UInt16.ofNat b, [], k + 2)
  let n := leadLoop b 7 1
  if n = 1 ∨ 4 < n then throw .badUri
  if chars.length ≤ k + 2 + 3 * (n - 1) then throw .badUri
  let (octets, k') ← octetLoop chars (n - 1) (k + 2) []
  let (c, high) ← splitUnit (utf8ToOneUcs4Char (UInt8.ofNat b) octets)
  return (c, high, k')

/-- One iteration of the loop of `Decode`: what it appends, and the last index it has read. -/
def decodeStep (chars reservedSet : List Jschar) (k : Nat) :
    Except UriError (List Jschar × Nat) := do
  let c ← charAt chars k
  if c = percent then
    let (c, high, k') ← decodeTriplets chars k
    if strchr reservedSet c then return (high ++ (chars.drop k).take (k' - k + 1), k')
    else return (high ++ [c], k')
  else return ([c], k)

/-- The loop of `Decode`; every iteration goes on by one at least. -/
def decodeLoop (chars reservedSet : List Jschar) : Nat → Nat → List Jschar →
    Except UriError (List Jschar)
  | 0, _, sb => .ok sb
  | fuel + 1, k, sb =>
    if k < chars.length then
      match decodeStep chars reservedSet k with
      | .error e => .error e
      | .ok (units, k') => decodeLoop chars reservedSet fuel (k' + 1) (sb ++ units)
    else .ok sb

/-- `Decode` -/
def decode (chars reservedSet : List Jschar) : Except UriError (List Jschar) :=
  if chars.length = 0 then .ok [] else decodeLoop chars reservedSet chars.length 0 []

/-! ## The functions of the global object -/

/-- `str_encodeURI` -/
def strEncodeURI (str : List Jschar) : Except UriError (List Jschar) :=
  encode str uriReservedPlusPound (some uriUnescaped)

/-- `str_encodeURI_Component` -/
def strEncodeURIComponent (str : List Jschar) : Except UriError (List Jschar) :=
  encode str uriUnescaped none

/-- `str_decodeURI` -/
def strDecodeURI (str : List Jschar) : Except UriError (List Jschar) :=
  decode str uriReservedPlusPound

/-- `str_decodeURI_Component` -/
def strDecodeURIComponent (str : List Jschar) : Except UriError (List Jschar) :=
  decode str emptyUcstr

end SpiderMonkey.Vm
