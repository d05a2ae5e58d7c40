import Mathlib

/-! # Token lookahead

`js/src/frontend/TokenStream.h`, `js/src/frontend/TokenStream.cpp`.

The current token, up to three tokens that were pushed back, and those before it are in a ring of four
entries. The scanner stands behind the last token that was scanned, also where tokens were pushed
back. A comment takes an entry of the ring and gives it back.
-/

namespace SpiderMonkey.Frontend.Lookahead

/-- What is between two tokens. The lines of a comment are the line terminators that are read inside
of it: those of a comment to the end of the line, only one for the URL of a source map, do not set
`TSF_EOL`. -/
inductive GapItem where
  | lineTerminator
  | lineComment (ptr index lines : ℕ)
  | comment (ptr index lines : ℕ)

structure TokenPtr where
  index : ℕ
  lineno : ℕ
deriving DecidableEq

/-- `TokenPos`. -/
structure TokenPos where
  first : TokenPtr
  last : TokenPtr
deriving DecidableEq

structure Token (K V : Type) where
  type : K
  pos : TokenPos
  ptr : ℕ
  value : V
deriving DecidableEq

/-- A token of the source with what is before it: where it begins, the column of its begin and of its
end, and the line terminators inside of it. -/
structure Lexeme (K V : Type) where
  gap : List GapItem
  type : K
  value : V
  ptr : ℕ
  index : ℕ
  endIndex : ℕ
  lines : ℕ

/-- A source. The last token of the list is the end with what is before it; behind it the end is
scanned again. -/
structure Source (K V : Type) where
  lineno : ℕ
  lexemes : List (Lexeme K V)
  eof : Lexeme K V
  eof_gap : eof.gap = []
  eof_lines : eof.lines = 0

/-- `TokenStream`; `eol` is `TSF_EOL`, and `rest` is what has not been scanned. -/
structure TokenStream (K V : Type) where
  tokens : Fin 4 → Token K V
  cursor : Fin 4
  lookahead : ℕ
  lineno : ℕ
  eol : Bool
  rest : List (Lexeme K V)

variable {K V : Type}

namespace TokenStream

variable (s : TokenStream K V)

def currentToken : Token K V := s.tokens s.cursor

def onCurrentLine (pos : TokenPos) : Bool := s.lineno == pos.last.lineno

def setToken (i : Fin 4) (t : Token K V) : TokenStream K V :=
  { s with tokens := fun j => if j = i then t else s.tokens j }

/-- The entry keeps its kind and its value. -/
def newToken (ptr index : ℕ) : TokenStream K V :=
  let cursor := s.cursor + 1
  let t := s.tokens cursor
  { s.setToken cursor { t with ptr := ptr, pos := ⟨⟨index, s.lineno⟩, ⟨t.pos.last.index, s.lineno⟩⟩ } with
    cursor := cursor }

def scanGapItem : GapItem → TokenStream K V
  | .lineTerminator => { s with lineno := s.lineno + 1, eol := true }
  | .lineComment ptr index lines =>
    let s := s.newToken ptr index
    { s with lineno := s.lineno + lines, cursor := s.cursor - 1 }
  | .comment ptr index lines =>
    let linenoBefore := s.lineno
    let s := s.newToken ptr index
    let lineno := s.lineno + lines
    { s with lineno := lineno, eol := s.eol || linenoBefore != lineno, cursor := s.cursor - 1 }

def scanGap (gap : List GapItem) : TokenStream K V := gap.foldl scanGapItem s

/-- The token behind the gap. -/
def scanToken (l : Lexeme K V) : TokenStream K V :=
  let s := s.newToken l.ptr l.index
  let lineno := s.lineno + l.lines
  { s.setToken s.cursor
      ⟨l.type, ⟨s.currentToken.pos.first, ⟨l.endIndex, lineno⟩⟩, s.currentToken.ptr, l.value⟩ with
    lineno := lineno }

def getTokenInternal (src : Source K V) : TokenStream K V :=
  match s.rest with
  | [] => (s.scanGap src.eof.gap).scanToken src.eof
  | l :: rest => { (s.scanGap l.gap).scanToken l with rest := rest }

def getToken (src : Source K V) : TokenStream K V :=
  if s.lookahead ≠ 0 then { s with lookahead := s.lookahead - 1, cursor := s.cursor + 1 }
  else s.getTokenInternal src

/-- None where an assertion fails. -/
def ungetToken : Option (TokenStream K V) :=
  if s.lookahead < 3 then some { s with lookahead := s.lookahead + 1, cursor := s.cursor - 1 }
  else none

/-- What is read of the ring where tokens have been pushed back. -/
def peekPushedBack : Option K :=
  if s.lookahead ≤ 2 then some (s.tokens (s.cursor + Fin.ofNat 4 s.lookahead)).type else none

def peekToken (src : Source K V) : Option (K × TokenStream K V) :=
  if s.lookahead ≠ 0 then s.peekPushedBack.map fun tt => (tt, s)
  else do
    let s := s.getTokenInternal src
    let tt := s.currentToken.type
    let s ← s.ungetToken
    some (tt, s)

/-- None as the kind is `TOK_EOL`. -/
def peekTokenSameLine (src : Source K V) : Option (Option K × TokenStream K V) :=
  if ¬s.onCurrentLine s.currentToken.pos then some (none, s)
  else if s.lookahead ≠ 0 then s.peekPushedBack.map fun tt => (some tt, s)
  else do
    let s := getToken { s with eol := false } src
    let tt := if s.eol then none else some s.currentToken.type
    let s ← ungetToken { s with eol := false }
    some (tt, s)

def matchToken [DecidableEq K] (src : Source K V) (tt : K) : Option (Bool × TokenStream K V) :=
  let s := s.getToken src
  if s.currentToken.type = tt then some (true, s)
  else s.ungetToken.map fun s => (false, s)

end TokenStream

/-- The first token of the ring has the line of the source. -/
def Source.start (src : Source K V) (tokens : Fin 4 → Token K V) : TokenStream K V :=
  { tokens := fun i => if i = 0 then { tokens 0 with
      pos := ⟨⟨(tokens 0).pos.first.index, src.lineno⟩, ⟨(tokens 0).pos.last.index, src.lineno⟩⟩ }
      else tokens i
    cursor := 0
    lookahead := 0
    lineno := src.lineno
    eol := false
    rest := src.lexemes }

inductive Call (K : Type) where
  | getToken
  | ungetToken
  | peekToken
  | peekTokenSameLine
  | matchToken (tt : K)

inductive Reply (K V : Type) where
  | token (t : Token K V)
  | pushedBack
  | kind (tt : K)
  | kindSameLine (tt : Option K)
  | matched (b : Bool)
deriving DecidableEq

/-- A call; the reply to `getToken` is the whole token. -/
def TokenStream.call [DecidableEq K] (src : Source K V) (s : TokenStream K V) :
    Call K → Option (Reply K V × TokenStream K V)
  | .getToken => some (.token (s.getToken src).currentToken, s.getToken src)
  | .ungetToken => s.ungetToken.map fun s => (.pushedBack, s)
  | .peekToken => (s.peekToken src).map fun r => (.kind r.1, r.2)
  | .peekTokenSameLine => (s.peekTokenSameLine src).map fun r => (.kindSameLine r.1, r.2)
  | .matchToken tt => (s.matchToken src tt).map fun r => (.matched r.1, r.2)

def TokenStream.calls [DecidableEq K] (src : Source K V) :
    List (Call K) → TokenStream K V → Option (List (Reply K V) × TokenStream K V)
  | [], s => some ([], s)
  | c :: cs, s => do
    let (r, s) ← s.call src c
    let (rs, s) ← TokenStream.calls src cs s
    some (r :: rs, s)

/-! ### The list with a cursor -/

def GapItem.lines : GapItem → ℕ
  | .lineTerminator => 1
  | .lineComment _ _ lines => lines
  | .comment _ _ lines => lines

def GapItem.setsEol : GapItem → Bool
  | .lineTerminator => true
  | .lineComment _ _ _ => false
  | .comment _ _ lines => lines != 0

namespace Source

variable (src : Source K V)

def lexeme (n : ℕ) : Lexeme K V := src.lexemes[n]?.getD src.eof

/-- The line terminators between a token and the one before it. -/
def gapLines (n : ℕ) : ℕ := ((src.lexeme n).gap.map GapItem.lines).sum

/-- The line behind the first `n` tokens. -/
def lineBehind : ℕ → ℕ
  | 0 => src.lineno
  | n + 1 => lineBehind n + src.gapLines n + (src.lexeme n).lines

def token (n : ℕ) : Token K V :=
  let l := src.lexeme n
  ⟨l.type, ⟨⟨l.index, src.lineBehind n + src.gapLines n⟩, ⟨l.endIndex, src.lineBehind (n + 1)⟩⟩, l.ptr,
    l.value⟩

/-- What a call does to a cursor before the token `p`; the first token is not preceded by any that
could be pushed back. -/
def cursorCall [DecidableEq K] (p : ℕ) : Call K → Option (Reply K V × ℕ)
  | .getToken => some (.token (src.token p), p + 1)
  | .ungetToken => if p = 0 then none else some (.pushedBack, p - 1)
  | .peekToken => some (.kind (src.token p).type, p)
  | .peekTokenSameLine =>
    some (.kindSameLine (if src.gapLines p = 0 then some (src.token p).type else none), p)
  | .matchToken tt =>
    if (src.token p).type = tt then some (.matched true, p + 1) else some (.matched false, p)

def cursorCalls [DecidableEq K] : List (Call K) → ℕ → Option (List (Reply K V) × ℕ)
  | [], p => some ([], p)
  | c :: cs, p => do
    let (r, p) ← src.cursorCall p c
    let (rs, p) ← cursorCalls cs p
    some (r :: rs, p)

end Source

end SpiderMonkey.Frontend.Lookahead
