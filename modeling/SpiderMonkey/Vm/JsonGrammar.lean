import SpiderMonkey.Vm.JsonParser

/-! # The JSON grammar

The grammar of ECMAScript 5.1 (15.12.1) with white space around the tokens, and what its
sentences denote. In legacy mode there may be one comma before the closing bracket of an array or
object that is not empty.
-/

namespace SpiderMonkey.Json

section

variable {δ : Type}

/-! ## White space and digits -/

/-- JSONWhiteSpace: tab, line feed, carriage return and space. -/
def Ws (w : List Jschar) : Prop := ∀ c ∈ w, c = 9 ∨ c = 10 ∨ c = 13 ∨ c = 32

def DecimalDigit (c : Jschar) : Prop := 48 ≤ c ∧ c ≤ 57

/-- A hexadecimal digit and its value. -/
inductive HexDigit : Jschar → Nat → Prop
  | decimal {c} (hlo : 48 ≤ c) (hhi : c ≤ 57) : HexDigit c (c.toNat - 48)
  | upper {c} (hlo : 65 ≤ c) (hhi : c ≤ 70) : HexDigit c (c.toNat - 65 + 10)
  | lower {c} (hlo : 97 ≤ c) (hhi : c ≤ 102) : HexDigit c (c.toNat - 97 + 10)

/-! ## Strings -/

/-- The character after a backslash and what the two stand for. -/
inductive SimpleEscape : Jschar → Jschar → Prop
  | quote : SimpleEscape quote quote
  | slash : SimpleEscape slash slash
  | backslash : SimpleEscape backslash backslash
  | backspace : SimpleEscape 98 8
  | formFeed : SimpleEscape 102 12
  | lineFeed : SimpleEscape 110 10
  | carriageReturn : SimpleEscape 114 13
  | tab : SimpleEscape 116 9

/-- JSONStringCharacters and the string they stand for. -/
inductive StringChars : List Jschar → List Jschar → Prop
  | nil : StringChars [] []
  | plain {c s chars} (hcontrol : 0x1F < c) (hquote : c ≠ quote) (hbackslash : c ≠ backslash)
      (hs : StringChars s chars) : StringChars (c :: s) (c :: chars)
  | escape {e c s chars} (he : SimpleEscape e c) (hs : StringChars s chars) :
      StringChars (backslash :: e :: s) (c :: chars)
  | unicode {h1 h2 h3 h4 d1 d2 d3 d4 s chars} (hh1 : HexDigit h1 d1) (hh2 : HexDigit h2 d2)
      (hh3 : HexDigit h3 d3) (hh4 : HexDigit h4 d4) (hs : StringChars s chars) :
      StringChars (backslash :: 117 :: h1 :: h2 :: h3 :: h4 :: s)
        (UInt16.ofNat (4096 * d1 + 256 * d2 + 16 * d3 + d4) :: chars)

/-- JSONString. -/
inductive StringText : List Jschar → List Jschar → Prop
  | mk {s chars} (hs : StringChars s chars) : StringText (quote :: (s ++ [quote])) chars

/-! ## Numbers -/

inductive IntPart : List Jschar → Prop
  | zero : IntPart [zero]
  | digits {d ds} (hd : DecimalDigit d) (hne : d ≠ zero) (hds : ∀ c ∈ ds, DecimalDigit c) :
      IntPart (d :: ds)

inductive Fraction : List Jschar → Prop
  | none : Fraction []
  | digits {d ds} (hd : DecimalDigit d) (hds : ∀ c ∈ ds, DecimalDigit c) :
      Fraction (dot :: d :: ds)

inductive Exponent : List Jschar → Prop
  | none : Exponent []
  | unsigned {e d ds} (he : e = 101 ∨ e = 69) (hd : DecimalDigit d)
      (hds : ∀ c ∈ ds, DecimalDigit c) : Exponent (e :: d :: ds)
  | signed {e s d ds} (he : e = 101 ∨ e = 69) (hs : s = plus ∨ s = minus) (hd : DecimalDigit d)
      (hds : ∀ c ∈ ds, DecimalDigit c) : Exponent (e :: s :: d :: ds)

/-- A number without a sign. -/
def Unsigned (u : List Jschar) : Prop :=
  ∃ i f e, IntPart i ∧ Fraction f ∧ Exponent e ∧ u = i ++ f ++ e

variable (conv : Conversion δ)

/-- JSONNumber. -/
inductive NumberText : List Jschar → δ → Prop
  | unsigned {u} (hu : Unsigned u) : NumberText u (conv.toDouble u)
  | negative {u} (hu : Unsigned u) : NumberText (minus :: u) (conv.neg (conv.toDouble u))

/-! ## Values -/

/-- The object that has the members; of duplicates the last one wins. -/
def objectOf (members : List (List Jschar × JsonValue δ)) : JsonValue δ :=
  .object (members.foldl (fun o m => setMember o m.1 m.2) [])

variable (legacy : Bool)

mutual

/-- JSONValue. -/
inductive ValueText : List Jschar → JsonValue δ → Prop
  | null : ValueText (asciiChars "null") .null
  | true : ValueText (asciiChars "true") (.boolean true)
  | false : ValueText (asciiChars "false") (.boolean false)
  | string {s chars} (hs : StringText s chars) : ValueText s (.string chars)
  | number {s d} (hs : NumberText conv s d) : ValueText s (.number d)
  | emptyArray {w} (hw : Ws w) : ValueText (openBracket :: (w ++ [closeBracket])) (.array [])
  | array {s elements} (hs : ElementsText s elements) :
      ValueText (openBracket :: (s ++ [closeBracket])) (.array elements)
  | arrayComma {s w elements} (hlegacy : legacy = true) (hs : ElementsText s elements)
      (hw : Ws w) :
      ValueText (openBracket :: (s ++ comma :: (w ++ [closeBracket]))) (.array elements)
  | emptyObject {w} (hw : Ws w) : ValueText (openBrace :: (w ++ [closeBrace])) (objectOf [])
  | object {s members} (hs : MembersText s members) :
      ValueText (openBrace :: (s ++ [closeBrace])) (objectOf members)
  | objectComma {s w members} (hlegacy : legacy = true) (hs : MembersText s members)
      (hw : Ws w) :
      ValueText (openBrace :: (s ++ comma :: (w ++ [closeBrace]))) (objectOf members)

/-- JSONElementList. -/
inductive ElementsText : List Jschar → List (JsonValue δ) → Prop
  | one {w s w' v} (hw : Ws w) (hs : ValueText s v) (hw' : Ws w') :
      ElementsText (w ++ s ++ w') [v]
  | more {l elements w s w' v} (hl : ElementsText l elements) (hw : Ws w) (hs : ValueText s v)
      (hw' : Ws w') : ElementsText (l ++ comma :: (w ++ s ++ w')) (elements ++ [v])

/-- JSONMemberList. -/
inductive MembersText : List Jschar → List (List Jschar × JsonValue δ) → Prop
  | one {m name v} (hm : MemberText m name v) : MembersText m [(name, v)]
  | more {l members m name v} (hl : MembersText l members) (hm : MemberText m name v) :
      MembersText (l ++ comma :: m) (members ++ [(name, v)])

/-- JSONMember. -/
inductive MemberText : List Jschar → List Jschar → JsonValue δ → Prop
  | mk {w1 n w2 w3 s w4 name v} (hw1 : Ws w1) (hn : StringText n name) (hw2 : Ws w2)
      (hw3 : Ws w3) (hs : ValueText s v) (hw4 : Ws w4) :
      MemberText (w1 ++ n ++ w2 ++ colon :: (w3 ++ s ++ w4)) name v

end

/-- JSONText. -/
def JsonText (text : List Jschar) (v : JsonValue δ) : Prop :=
  ∃ w s w', Ws w ∧ ValueText conv legacy s v ∧ Ws w' ∧ text = w ++ s ++ w'

end

end SpiderMonkey.Json
