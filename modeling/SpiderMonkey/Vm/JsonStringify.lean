import SpiderMonkey.Vm.JsonParser

/-! # Writing JSON

`Quote`, `WriteIndent`, `JO`, `JA`, `Str` and `js_Stringify` of `json.cpp` with no replacer. Each
function gives what it appends to the buffer, or nothing if an assertion fails.
-/

namespace SpiderMonkey.Json

section

variable {δ : Type}

/-! ## Strings -/

/-- `IsQuoteSpecialCharacter`. -/
def isQuoteSpecialCharacter (c : Jschar) : Bool := c = quote || c = backslash || c < 32

/-- What `Quote` appends for a special character. -/
def quoteEscape (c : Jschar) : Option (List Jschar) :=
  if c = quote || c = backslash then some [backslash, c]
  else if c = 8 || c = 12 || c = 10 || c = 13 || c = 9 then
    let letter : Jschar :=
      if c = 8 then 98 else if c = 12 then 102 else if c = 10 then 110 else if c = 13 then 114
      else 116
    some [backslash, letter]
  else if ¬c < 32 then none
  else if ¬c >>> 4 < 10 then none
  else
    let x := c >>> 4
    let y := c % 16
    some (asciiChars "\\u00" ++ [48 + x, if y < 10 then 48 + y else 97 + (y - 10)])

/-- The loop of `Quote`: characters without escapes are appended in batches. -/
def quoteLoop (buf : List Jschar) : Option (List Jschar) :=
  match buf with
  | [] => some []
  | c :: rest =>
    let batch := (c :: rest).takeWhile fun c => !isQuoteSpecialCharacter c
    match h : (c :: rest).dropWhile fun c => !isQuoteSpecialCharacter c with
    | [] => some batch
    | special :: rest' => do
      let escape ← quoteEscape special
      let out ← quoteLoop rest'
      some (batch ++ escape ++ out)
termination_by buf.length
decreasing_by
  have hle := (List.dropWhile_sublist (fun c => !isQuoteSpecialCharacter c)
    (l := c :: rest)).length_le
  rw [h] at hle
  simp only [List.length_cons] at hle ⊢
  omega

/-- `Quote`. -/
def quoted (buf : List Jschar) : Option (List Jschar) := do
  let out ← quoteLoop buf
  some ([quote] ++ out ++ [quote])

/-! ## Values -/

/-- What `Str` is given, when nothing has a `toJSON` method and wrapper objects have been
unwrapped. The property names of an object are as they are enumerated. -/
inductive StrValue (δ : Type) where
  | null
  | boolean (b : Bool)
  | number (d : δ)
  | string (chars : List Jschar)
  | array (elements : List (StrValue δ))
  | object (members : List (List Jschar × StrValue δ))
  /-- `undefined`, a function or XML. -/
  | filtered

/-- `IsFilteredValue`. -/
def isFilteredValue : StrValue δ → Bool
  | .filtered => true
  | _ => false

/-- `NumberValueToStringBuffer`, and which doubles are finite. -/
structure NumberFormat (δ : Type) where
  isFinite : δ → Bool
  toChars : δ → List Jschar

/-- The argument `space`, as an integer if it is a number. -/
inductive Space where
  | none
  | number (n : Int)
  | string (chars : List Jschar)

/-- The gap: at most ten spaces or characters. -/
def Space.gap : Space → List Jschar
  | .none => []
  | .number n => if 1 ≤ min 10 n then List.replicate (min 10 n).toNat 32 else []
  | .string chars => chars.take 10

variable (format : NumberFormat δ) (gap : List Jschar)

/-- `WriteIndent`. -/
def writeIndent (limit : Nat) : List Jschar :=
  if gap = [] then [] else 10 :: (List.replicate limit gap).flatten

mutual

/-- `Str`; `depth` is `scx->depth`. -/
def str (depth : Nat) : StrValue δ → Option (List Jschar)
  | .filtered => none
  | .string chars => quoted chars
  | .null => some (asciiChars "null")
  | .boolean b => some (if b then asciiChars "true" else asciiChars "false")
  | .number d => if format.isFinite d then some (format.toChars d) else some (asciiChars "null")
  | .array elements => do
    -- `JA`
    let out ← jaElements (depth + 1) elements
    some ([openBracket] ++
      (if elements.length ≠ 0 then
        writeIndent gap (depth + 1) ++ out ++ writeIndent gap depth
      else []) ++ [closeBracket])
  | .object members => do
    -- `JO`
    let out ← joMembers (depth + 1) false members
    some ([openBrace] ++ out ++ [closeBrace])

/-- The loop of `JA`. -/
def jaElements (depth : Nat) : List (StrValue δ) → Option (List Jschar)
  | [] => some []
  | v :: rest => do
    let s ← if isFilteredValue v then some (asciiChars "null") else str depth v
    let out ← jaElements depth rest
    some (s ++ (if rest.length ≠ 0 then [comma] ++ writeIndent gap depth else []) ++ out)

/-- The loop of `JO` and the indentation after it. -/
def joMembers (depth : Nat) (wroteMember : Bool) :
    List (List Jschar × StrValue δ) → Option (List Jschar)
  | [] => some (if wroteMember then writeIndent gap (depth - 1) else [])
  | (name, v) :: rest =>
    if isFilteredValue v then joMembers depth wroteMember rest
    else do
      let n ← quoted name
      let s ← str depth v
      let out ← joMembers depth true rest
      some ((if wroteMember then [comma] else []) ++ writeIndent gap depth ++ n ++ [colon] ++
        (if gap = [] then [] else [32]) ++ s ++ out)

end

/-- `js_Stringify` with no replacer. -/
def jsStringify (space : Space) (v : StrValue δ) : Option (List Jschar) :=
  if isFilteredValue v then some [] else str format space.gap 0 v

end

end SpiderMonkey.Json
