import SpiderMonkey.Vm.Chars

/-! # Parsing JSON

`JSONParser` of `jsonparser.cpp`. The text is a list of code units. The machine has a state for
each label that `parse` goes to; where an assertion would fail, or an empty stack be popped, it
stops without a result.
-/

namespace SpiderMonkey.Json

/-! ## Characters -/

abbrev quote : Jschar := 34
abbrev plus : Jschar := 43
abbrev comma : Jschar := 44
abbrev minus : Jschar := 45
abbrev dot : Jschar := 46
abbrev slash : Jschar := 47
abbrev zero : Jschar := 48
abbrev colon : Jschar := 58
abbrev openBracket : Jschar := 91
abbrev backslash : Jschar := 92
abbrev closeBracket : Jschar := 93
abbrev openBrace : Jschar := 123
abbrev closeBrace : Jschar := 125

/-- `IsJSONWhitespace`. -/
def isJSONWhitespace (c : Jschar) : Bool := c = 9 || c = 13 || c = 10 || c = 32

/-- `JS7_ISHEX`. -/
def isHex (c : Jschar) : Bool :=
  isDec c || (65 ≤ c && c ≤ 70) || (97 ≤ c && c ≤ 102)

/-- `JS7_UNHEX`. -/
def unHex (c : Jschar) : Jschar :=
  if isDec c then c - 48 else if 97 ≤ c then c - 97 + 10 else c - 65 + 10

/-! ## Values and tokens -/

/-- JSON data, with numbers in `δ`. -/
inductive JsonValue (δ : Type) where
  | null
  | boolean (b : Bool)
  | number (d : δ)
  | string (chars : List Jschar)
  | array (elements : List (JsonValue δ))
  | object (members : List (List Jschar × JsonValue δ))

/-- The conversion of decimal numbers without a sign, and the negation of doubles.
`GetPrefixInteger` and `js_strtod` are both correct. -/
structure Conversion (δ : Type) where
  neg : δ → δ
  toDouble : List Jschar → δ
  getPrefixInteger : List Jschar → δ
  strtod : List Jschar → δ
  getPrefixInteger_eq : ∀ digits, digits.all isDec = true → digits ≠ [] →
    getPrefixInteger digits = toDouble digits
  strtod_eq : strtod = toDouble

/-- Numbers kept as their sign and text. -/
def Conversion.text : Conversion (Bool × List Jschar) where
  neg d := (!d.1, d.2)
  toDouble digits := (false, digits)
  getPrefixInteger digits := (false, digits)
  strtod digits := (false, digits)
  getPrefixInteger_eq _ _ _ := rfl
  strtod_eq := rfl

/-- The tokens; a string is an atom if it was read as a property name. -/
inductive Token (δ : Type) where
  | string (chars : List Jschar) (atom : Bool)
  | number (d : δ)
  | true
  | false
  | null
  | arrayOpen
  | arrayClose
  | objectOpen
  | objectClose
  | colon
  | comma
  | error (msg : String)

/-- A token and what is left of the text; none if an assertion fails. -/
abbrev Read (δ : Type) := Option (Token δ × List Jschar)

section

variable {δ : Type}

/-! ## Strings -/

/-- A code unit that stands for itself. -/
def isPlain (c : Jschar) : Bool := !(c = quote || c = backslash || c ≤ 0x1F)

/-- The escapes of one character. -/
def simpleEscape (c : Jschar) : Option Jschar :=
  if c = quote then some quote
  else if c = slash then some slash
  else if c = backslash then some backslash
  else if c = 98 then some 8
  else if c = 102 then some 12
  else if c = 110 then some 10
  else if c = 114 then some 13
  else if c = 116 then some 9
  else none

/-- The digits of a Unicode escape. -/
def unHex4 (a b c d : Jschar) : Jschar :=
  (unHex a <<< 12) ||| (unHex b <<< 8) ||| (unHex c <<< 4) ||| unHex d

/-- The slow case of `readString`: the buffer has what comes before, up to a code unit that does
not stand for itself. -/
def readEscaped (atom : Bool) (buffer rest : List Jschar) : Token δ × List Jschar :=
  match rest with
  | [] => (.error "unterminated string", [])
  | c :: rest =>
    if c = quote then (.string buffer atom, rest)
    else if c ≠ backslash then (.error "bad character in string literal", rest)
    else
      match rest with
      | [] => (.error "unterminated string", [])
      | e :: rest =>
        match simpleEscape e with
        | some c =>
          readEscaped atom (buffer ++ [c] ++ rest.takeWhile isPlain) (rest.dropWhile isPlain)
        | none =>
          if e = 117 then
            match rest with
            | h1 :: h2 :: h3 :: h4 :: rest =>
              if isHex h1 && isHex h2 && isHex h3 && isHex h4 then
                readEscaped atom (buffer ++ [unHex4 h1 h2 h3 h4] ++ rest.takeWhile isPlain)
                  (rest.dropWhile isPlain)
              else (.error "bad escaped character", rest)
            | _ => (.error "bad Unicode escape", rest)
          else (.error "bad escaped character", rest)
termination_by rest.length
decreasing_by
  · have hle := (List.dropWhile_sublist isPlain (l := rest)).length_le
    simp only [List.length_cons]
    omega
  · have hle := (List.dropWhile_sublist isPlain (l := rest)).length_le
    simp only [List.length_cons]
    omega

/-- `readString`: without escapes the string is made of the text. -/
def readString (atom : Bool) (rest : List Jschar) : Read δ :=
  match rest with
  | [] => none
  | c :: rest =>
    if c ≠ quote then none
    else
      match rest with
      | [] => some (.error "unterminated string literal", [])
      | _ :: _ =>
        let plain := rest.takeWhile isPlain
        match rest.dropWhile isPlain with
        | [] => some (.error "unterminated string", [])
        | c :: after =>
          if c = quote then some (.string plain atom, after)
          else if c = backslash then some (readEscaped atom plain (c :: after))
          else some (.error "bad control character in string literal", c :: after)

/-! ## Numbers -/

/-- `(\.[0-9]+)?`; an error is a message. -/
def readFraction (rest : List Jschar) : Except String (List Jschar) :=
  match rest with
  | [] => .ok []
  | c :: after =>
    if c ≠ dot then .ok (c :: after)
    else
      match after with
      | [] => .error "missing digits after decimal point"
      | d :: after =>
        if isDec d then .ok (after.dropWhile isDec) else .error "unterminated fractional number"

/-- `([eE][\+\-]?[0-9]+)?`. -/
def readExponent (rest : List Jschar) : Except String (List Jschar) :=
  match rest with
  | [] => .ok []
  | c :: after =>
    if c ≠ 101 ∧ c ≠ 69 then .ok (c :: after)
    else
      match after with
      | [] => .error "missing digits after exponent indicator"
      | s :: signed =>
        match if s = plus ∨ s = minus then signed else s :: signed with
        | [] => .error "missing digits after exponent sign"
        | d :: after =>
          if isDec d then .ok (after.dropWhile isDec)
          else .error "exponent part is missing a number"

/-- The text up to what is left of it. -/
def upTo (text rest : List Jschar) : List Jschar := text.take (text.length - rest.length)

variable (conv : Conversion δ)

/-- A number, negated if it has a sign. -/
def numberToken (negative : Bool) (d : δ) : Token δ := .number (if negative then conv.neg d else d)

/-- What `readNumber` does after the sign. -/
def readUnsigned (negative : Bool) (digitStart : List Jschar) : Token δ × List Jschar :=
  match digitStart with
  | [] => (.error "no number after minus sign", [])
  | d :: after =>
    if !isDec d then (.error "unexpected non-digit", d :: after)
    else
      let afterInteger := if d ≠ zero then after.dropWhile isDec else after
      match afterInteger with
      | [] => (numberToken conv negative (conv.getPrefixInteger digitStart), [])
      | c :: more =>
        if c ≠ dot ∧ c ≠ 101 ∧ c ≠ 69 then
          (numberToken conv negative (conv.getPrefixInteger (upTo digitStart (c :: more))),
            c :: more)
        else
          match readFraction (c :: more) >>= readExponent with
          | .ok rest => (numberToken conv negative (conv.strtod (upTo digitStart rest)), rest)
          | .error msg => (.error msg, c :: more)

/-- `readNumber`. -/
def readNumber (rest : List Jschar) : Read δ :=
  match rest with
  | [] => none
  | c :: after =>
    if !(isDec c || c = minus) then none
    else if c = minus then some (readUnsigned conv true after)
    else some (readUnsigned conv false (c :: after))

/-! ## Tokens by their context -/

/-- A keyword. -/
def readKeyword (keyword : String) (token : Token δ) (rest : List Jschar) :
    Token δ × List Jschar :=
  if (asciiChars keyword).isPrefixOf rest then (token, rest.drop (asciiChars keyword).length)
  else (.error "unexpected keyword", rest)

/-- `advance`. -/
def advance (rest : List Jschar) : Read δ :=
  match rest.dropWhile isJSONWhitespace with
  | [] => some (.error "unexpected end of data", [])
  | c :: after =>
    if c = quote then readString false (c :: after)
    else if c = minus || isDec c then readNumber conv (c :: after)
    else if c = 116 then some (readKeyword "true" .true (c :: after))
    else if c = 102 then some (readKeyword "false" .false (c :: after))
    else if c = 110 then some (readKeyword "null" .null (c :: after))
    else if c = openBracket then some (.arrayOpen, after)
    else if c = closeBracket then some (.arrayClose, after)
    else if c = openBrace then some (.objectOpen, after)
    else if c = closeBrace then some (.objectClose, after)
    else if c = comma then some (.comma, after)
    else if c = colon then some (.colon, after)
    else some (.error "unexpected character", c :: after)

/-- The code unit before the current one. -/
def before1 (before : List Jschar) (c : Jschar) : Bool := before.head? = some c

/-- `advanceAfterObjectOpen`; the text before the current code unit is in reverse. -/
def advanceAfterObjectOpen (before rest : List Jschar) : Read δ :=
  if !before1 before openBrace then none
  else
    match rest.dropWhile isJSONWhitespace with
    | [] => some (.error "end of data while reading object contents", [])
    | c :: after =>
      if c = quote then readString true (c :: after)
      else if c = closeBrace then some (.objectClose, after)
      else some (.error "expected property name or a closing brace", c :: after)

/-- `AssertPastValue`. -/
def pastValue (before : List Jschar) : Bool :=
  (asciiChars "llun").isPrefixOf before || (asciiChars "eurt").isPrefixOf before ||
    (asciiChars "eslaf").isPrefixOf before || before1 before closeBrace ||
    before1 before closeBracket || before1 before quote ||
    match before with
    | [] => false
    | c :: _ => isDec c

/-- `advanceAfterArrayElement`. -/
def advanceAfterArrayElement (before rest : List Jschar) : Read δ :=
  if !pastValue before then none
  else
    match rest.dropWhile isJSONWhitespace with
    | [] => some (.error "end of data when ',' or ']' was expected", [])
    | c :: after =>
      if c = comma then some (.comma, after)
      else if c = closeBracket then some (.arrayClose, after)
      else some (.error "expected ',' or ']' after array element", c :: after)

/-- `advancePropertyName`; in legacy mode there may be a comma before the closing brace. -/
def advancePropertyName (legacy : Bool) (before rest : List Jschar) : Read δ :=
  if !before1 before comma then none
  else
    match rest.dropWhile isJSONWhitespace with
    | [] => some (.error "end of data when property name was expected", [])
    | c :: after =>
      if c = quote then readString true (c :: after)
      else if legacy && c = closeBrace then some (.objectClose, after)
      else some (.error "expected double-quoted property name", c :: after)

/-- `advancePropertyColon`. -/
def advancePropertyColon (before rest : List Jschar) : Read δ :=
  if !before1 before quote then none
  else
    match rest.dropWhile isJSONWhitespace with
    | [] => some (.error "end of data after property name when ':' was expected", [])
    | c :: after =>
      if c = colon then some (.colon, after)
      else some (.error "expected ':' after property name in object", c :: after)

/-- `advanceAfterProperty`. -/
def advanceAfterProperty (before rest : List Jschar) : Read δ :=
  if !pastValue before then none
  else
    match rest.dropWhile isJSONWhitespace with
    | [] => some (.error "end of data after property value in object", [])
    | c :: after =>
      if c = comma then some (.comma, after)
      else if c = closeBrace then some (.objectClose, after)
      else some (.error "expected ',' or a closing brace after property value in object",
        c :: after)

/-! ## The machine -/

inductive ParserState where
  | finishArrayElement
  | finishObjectMember
  | jsonValue
deriving DecidableEq

/-- The labels of `parse`: the cases of its outer switch, `JSONMember` and `JSONValueSwitch` with
the token, and the end of the loop's body. -/
inductive Label (δ : Type) where
  | case (state : ParserState)
  | jsonMember (token : Token δ)
  | jsonValueSwitch (token : Token δ)
  | endOfLoop

/-- The text around the current code unit, what comes before it in reverse, the variable `state`
and the two stacks. -/
structure Parser (δ : Type) where
  before : List Jschar
  rest : List Jschar
  state : ParserState
  stateStack : List ParserState
  valueStack : List (JsonValue δ)

/-- Where `parse` is: at a label; or it has returned a value or, after an error, `undefined`; or
an assertion has failed. -/
inductive Machine (δ : Type) where
  | running (label : Label δ) (p : Parser δ)
  | accepted (v : JsonValue δ)
  | rejected (msg : String)
  | asserted

/-- What `vp` holds; it is `undefined` until `parse` returns a value. -/
def Machine.vp : Machine δ → Option (JsonValue δ)
  | .accepted v => some v
  | _ => none

/-- Take a token. -/
def Parser.moveTo (p : Parser δ) (rest : List Jschar) : Parser δ :=
  { p with rest := rest, before := (upTo p.rest rest).reverse ++ p.before }

def Parser.take (p : Parser δ) (read : Read δ) (next : Token δ → Parser δ → Machine δ) :
    Machine δ :=
  match read with
  | some (token, rest) => next token (p.moveTo rest)
  | none => .asserted

def Parser.pushValue (p : Parser δ) (v : JsonValue δ) : Parser δ :=
  { p with valueStack := v :: p.valueStack }

def Parser.pushState (p : Parser δ) (s : ParserState) : Parser δ :=
  { p with stateStack := s :: p.stateStack }

/-- `DefineNativeProperty`: a property that exists gets the new value. -/
def setMember (members : List (List Jschar × JsonValue δ)) (name : List Jschar) (v : JsonValue δ) :
    List (List Jschar × JsonValue δ) :=
  match members with
  | [] => [(name, v)]
  | m :: rest => if m.1 = name then (name, v) :: rest else m :: setMember rest name v

/-- The case `FinishObjectMember`. -/
def finishObjectMember (legacy : Bool) (p : Parser δ) : Machine δ :=
  match p.valueStack with
  | v :: .string name :: .object members :: values =>
    let p := { p with valueStack := .object (setMember members name v) :: values }
    p.take (advanceAfterProperty p.before p.rest) fun token p =>
      match token with
      | .objectClose => .running .endOfLoop p
      | .comma =>
        p.take (advancePropertyName legacy p.before p.rest) fun token p =>
          .running (.jsonMember token) p
      | .error msg => .rejected msg
      | _ => .rejected "expected ',' or a closing brace after property-value pair in object literal"
  | _ => .asserted

/-- `JSONMember`. -/
def jsonMember (legacy : Bool) (token : Token δ) (p : Parser δ) : Machine δ :=
  match token with
  | .string name atom =>
    if !atom then .asserted
    else
      let p := p.pushValue (.string name)
      p.take (advancePropertyColon p.before p.rest) fun token p =>
        match token with
        | .colon => .running (.case .jsonValue) (p.pushState .finishObjectMember)
        | .error msg => .rejected msg
        | _ => .asserted
  | .objectClose =>
    if p.state = .finishObjectMember && legacy then .running .endOfLoop p else .asserted
  | .error msg => .rejected msg
  | _ => .rejected "property names must be double-quoted strings"

/-- The case `FinishArrayElement`. -/
def finishArrayElement (p : Parser δ) : Machine δ :=
  match p.valueStack with
  | v :: .array elements :: values =>
    let p := { p with valueStack := .array (elements ++ [v]) :: values }
    p.take (advanceAfterArrayElement p.before p.rest) fun token p =>
      match token with
      | .comma => .running (.case .jsonValue) (p.pushState .finishArrayElement)
      | .arrayClose => .running .endOfLoop p
      | .error msg => .rejected msg
      | _ => .asserted
  | _ => .asserted

/-- `JSONValueSwitch`. -/
def jsonValueSwitch (legacy : Bool) (token : Token δ) (p : Parser δ) : Machine δ :=
  match token with
  | .string chars _ => .running .endOfLoop (p.pushValue (.string chars))
  | .number d => .running .endOfLoop (p.pushValue (.number d))
  | .true => .running .endOfLoop (p.pushValue (.boolean true))
  | .false => .running .endOfLoop (p.pushValue (.boolean false))
  | .null => .running .endOfLoop (p.pushValue .null)
  | .arrayOpen =>
    let p := p.pushValue (.array [])
    p.take (advance conv p.rest) fun token p =>
      match token with
      | .arrayClose => .running .endOfLoop p
      | token => .running (.jsonValueSwitch token) (p.pushState .finishArrayElement)
  | .objectOpen =>
    let p := p.pushValue (.object [])
    p.take (advanceAfterObjectOpen p.before p.rest) fun token p =>
      match token with
      | .objectClose => .running .endOfLoop p
      | token => .running (.jsonMember token) p
  | .arrayClose =>
    -- in legacy mode there may be a comma before the closing bracket
    if legacy then
      match p.stateStack with
      | .finishArrayElement :: states => .running .endOfLoop { p with stateStack := states }
      | _ => .rejected "unexpected character"
    else .rejected "unexpected character"
  | .objectClose | .colon | .comma => .rejected "unexpected character"
  | .error msg => .rejected msg

/-- The end of the loop's body, and what comes after the loop. -/
def endOfLoop (p : Parser δ) : Machine δ :=
  match p.stateStack with
  | s :: states => .running (.case s) { p with state := s, stateStack := states }
  | [] =>
    if p.rest.dropWhile isJSONWhitespace ≠ [] then
      .rejected "unexpected non-whitespace character after JSON data"
    else
      match p.valueStack with
      | [v] => .accepted v
      | _ => .asserted

/-- One step of `parse`. -/
def step (legacy : Bool) : Machine δ → Machine δ
  | .running (.case .finishObjectMember) p => finishObjectMember legacy p
  | .running (.case .finishArrayElement) p => finishArrayElement p
  | .running (.case .jsonValue) p =>
    p.take (advance conv p.rest) fun token p => .running (.jsonValueSwitch token) p
  | .running (.jsonMember token) p => jsonMember legacy token p
  | .running (.jsonValueSwitch token) p => jsonValueSwitch conv legacy token p
  | .running .endOfLoop p => endOfLoop p
  | m => m

/-- `parse`, up to some number of steps. -/
def run (legacy : Bool) : Nat → Machine δ → Machine δ
  | 0, m => m
  | n + 1, m => run legacy n (step conv legacy m)

/-- `parse` when it starts. -/
def start (text : List Jschar) : Machine δ :=
  .running (.case .jsonValue) ⟨[], text, .jsonValue, [], []⟩

end

end SpiderMonkey.Json
