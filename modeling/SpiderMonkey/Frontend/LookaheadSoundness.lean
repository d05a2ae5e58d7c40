import SpiderMonkey.Frontend.Lookahead

/-! # Lookahead as a cursor

The ring holds the last four tokens that were scanned, and its cursor is the number of the tokens that
have been taken. Every call moves the cursor as it should. The replies are right but for two cases: a
peek with two tokens pushed back, which reads the second of them, and the test for the same line, for
which the scanner may have left the line of the next token. -/

namespace SpiderMonkey.Frontend.Lookahead

open Option

variable {K V : Type}

open TokenStream

/-! ### The scanner -/

lemma add_one_sub_one (c : Fin 4) : c + 1 - 1 = c := by
  revert c
  decide

/-- What scanning a gap does: only the entry behind the cursor is written. -/
structure GapScanned (s s' : TokenStream K V) (lines : ℕ) (eol : Bool) : Prop where
  cursor : s'.cursor = s.cursor
  lookahead : s'.lookahead = s.lookahead
  rest : s'.rest = s.rest
  lineno : s'.lineno = s.lineno + lines
  eol : s'.eol = (s.eol || eol)
  tokens : ∀ i, i ≠ s.cursor + 1 → s'.tokens i = s.tokens i

lemma scanGapItem_spec (s : TokenStream K V) (g : GapItem) :
    GapScanned s (s.scanGapItem g) g.lines g.setsEol := by
  cases g with
  | lineTerminator =>
    refine ⟨rfl, rfl, rfl, rfl, ?_, fun _ _ => rfl⟩
    exact (Bool.or_true s.eol).symm
  | lineComment ptr index lines =>
    refine ⟨?_, rfl, rfl, rfl, (Bool.or_false s.eol).symm, fun i hi => if_neg hi⟩
    exact add_one_sub_one s.cursor
  | comment ptr index lines =>
    refine ⟨?_, rfl, rfl, rfl, ?_, fun i hi => if_neg hi⟩
    · exact add_one_sub_one s.cursor
    · refine congrArg (s.eol || ·) ?_
      show (s.lineno != s.lineno + lines) = (lines != 0)
      rw [Bool.eq_iff_iff, bne_iff_ne, bne_iff_ne]
      exact not_congr Nat.left_eq_add

lemma scanGap_spec (s : TokenStream K V) (gap : List GapItem) :
    GapScanned s (s.scanGap gap) (gap.map GapItem.lines).sum (gap.any GapItem.setsEol) := by
  induction gap generalizing s with
  | nil => exact ⟨rfl, rfl, rfl, rfl, (Bool.or_false s.eol).symm, fun _ _ => rfl⟩
  | cons g gap ih =>
    have hfirst := scanGapItem_spec s g
    have hrest := ih (s.scanGapItem g)
    refine ⟨hrest.cursor.trans hfirst.cursor, hrest.lookahead.trans hfirst.lookahead,
      hrest.rest.trans hfirst.rest, ?_, ?_, ?_⟩
    · rw [List.map_cons, List.sum_cons, ← Nat.add_assoc, ← hfirst.lineno]
      exact hrest.lineno
    · rw [List.any_cons, ← Bool.or_assoc, ← hfirst.eol]
      exact hrest.eol
    · intro i hi
      refine (hrest.tokens i ?_).trans (hfirst.tokens i hi)
      rw [hfirst.cursor]
      exact hi

/-- Whether scanning up to a token sets `TSF_EOL`. -/
def Source.gapSetsEol (src : Source K V) (n : ℕ) : Bool := (src.lexeme n).gap.any GapItem.setsEol

/-- What scanning the token `n` does. -/
structure TokenScanned (src : Source K V) (n : ℕ) (s s' : TokenStream K V) : Prop where
  cursor : s'.cursor = s.cursor + 1
  lookahead : s'.lookahead = s.lookahead
  rest : s'.rest = src.lexemes.drop (n + 1)
  lineno : s'.lineno = src.lineBehind (n + 1)
  eol : s'.eol = (s.eol || src.gapSetsEol n)
  token : s'.tokens (s.cursor + 1) = src.token n
  tokens : ∀ i, i ≠ s.cursor + 1 → s'.tokens i = s.tokens i

lemma scanToken_spec {src : Source K V} {n : ℕ} {s : TokenStream K V} (l : Lexeme K V)
    (hl : src.lexeme n = l) (hlineno : s.lineno = src.lineBehind n)
    {rest : List (Lexeme K V)} (hrest : rest = src.lexemes.drop (n + 1)) :
    TokenScanned src n s { (s.scanGap l.gap).scanToken l with rest := rest } := by
  have hgap := scanGap_spec s l.gap
  have hcursor : (s.scanGap l.gap).cursor + 1 = s.cursor + 1 := congrArg (· + 1) hgap.cursor
  have hline : (s.scanGap l.gap).lineno = src.lineBehind n + src.gapLines n := by
    rw [hgap.lineno, hlineno, Source.gapLines, hl]
  refine ⟨hcursor, hgap.lookahead, hrest, ?_, ?_, ?_, ?_⟩
  · rw [Source.lineBehind, ← hline, hl]
    rfl
  · rw [Source.gapSetsEol, hl]
    exact hgap.eol
  · rw [← hcursor, Source.token, Source.lineBehind, hl, ← hline]
    simp only [scanToken, newToken, setToken, currentToken, if_true]
  · intro i hi
    rw [← hcursor] at hi
    refine Eq.trans ?_ (hgap.tokens i (hcursor ▸ hi))
    simp only [scanToken, newToken, setToken, if_neg hi]

lemma getTokenInternal_spec {src : Source K V} {n : ℕ} {s : TokenStream K V}
    (hrest : s.rest = src.lexemes.drop n) (hlineno : s.lineno = src.lineBehind n) :
    TokenScanned src n s (s.getTokenInternal src) := by
  rw [getTokenInternal]
  cases hs : s.rest with
  | nil =>
    rw [hs] at hrest
    have hle : src.lexemes.length ≤ n := List.drop_eq_nil_iff.1 hrest.symm
    have hl : src.lexeme n = src.eof := by rw [Source.lexeme, List.getElem?_eq_none hle]; rfl
    have hgap := scanGap_spec s src.eof.gap
    have hnil : ((s.scanGap src.eof.gap).scanToken src.eof).rest = src.lexemes.drop (n + 1) := by
      rw [List.drop_eq_nil_of_le (Nat.le_succ_of_le hle)]
      exact hgap.rest.trans hs
    exact scanToken_spec src.eof hl hlineno hnil
  | cons l rest =>
    rw [hs] at hrest
    have hl : src.lexeme n = l := by
      rw [Source.lexeme, ← List.head?_drop, ← hrest]
      rfl
    have hdrop : rest = src.lexemes.drop (n + 1) := by
      rw [← List.tail_drop, ← hrest]
      rfl
    exact scanToken_spec l hl hlineno hdrop

/-! ### The cursor -/

lemma ofNat_succ (n : ℕ) : Fin.ofNat 4 (n + 1) = Fin.ofNat 4 n + 1 :=
  Fin.ext (Nat.add_mod n 1 4)

lemma ofNat_add (m n : ℕ) : Fin.ofNat 4 (m + n) = Fin.ofNat 4 m + Fin.ofNat 4 n :=
  Fin.ext (Nat.add_mod m n 4)

/-- Two tokens that are in the ring at the same time are in different entries. -/
lemma ofNat_ne {m n : ℕ} (hlt : m < n) (hle : n < m + 4) : Fin.ofNat 4 m ≠ Fin.ofNat 4 n := by
  intro h
  have hmod : m % 4 = n % 4 := congrArg Fin.val h
  omega

/-- The stream is a cursor before the token `p`. -/
structure Follows (src : Source K V) (s : TokenStream K V) (p : ℕ) : Prop where
  lookahead_le : s.lookahead ≤ 3
  rest : s.rest = src.lexemes.drop (p + s.lookahead)
  lineno : s.lineno = src.lineBehind (p + s.lookahead)
  cursor : s.cursor = Fin.ofNat 4 p
  token : ∀ j < p + s.lookahead, p + s.lookahead ≤ j + 4 →
    s.tokens (Fin.ofNat 4 (j + 1)) = src.token j
  start : p + s.lookahead ≤ 3 → (s.tokens 0).pos.last.lineno = src.lineno

namespace Follows

variable {src : Source K V} {s : TokenStream K V} {p : ℕ}

lemma new (src : Source K V) (tokens : Fin 4 → Token K V) : Follows src (src.start tokens) 0 :=
  ⟨Nat.zero_le 3, rfl, rfl, rfl, fun _ hj => absurd hj (Nat.not_lt_zero _), fun _ => rfl⟩

/-- The tokens that have been pushed back. -/
lemma pushedBack (h : Follows src s p) {i : ℕ} (hi : i < s.lookahead) :
    s.tokens (s.cursor + Fin.ofNat 4 (i + 1)) = src.token (p + i) := by
  have hle := h.lookahead_le
  rw [h.cursor, ← ofNat_add, ← Nat.add_assoc]
  exact h.token (p + i) (by omega) (by omega)

/-- The current token ends on the line behind the tokens that have been taken. -/
lemma currentToken_lineno (h : Follows src s p) :
    s.currentToken.pos.last.lineno = src.lineBehind p := by
  have hle := h.lookahead_le
  rw [currentToken, h.cursor]
  cases p with
  | zero => exact h.start (by omega)
  | succ p =>
    rw [h.token p (by omega) (by omega)]
    rfl

lemma eol_irrelevant (h : Follows src s p) (eol : Bool) : Follows src { s with eol := eol } p :=
  ⟨h.lookahead_le, h.rest, h.lineno, h.cursor, h.token, h.start⟩

lemma getTokenInternal (h : Follows src s p) (hnone : s.lookahead = 0) :
    Follows src (s.getTokenInternal src) (p + 1) ∧
      (s.getTokenInternal src).eol = (s.eol || src.gapSetsEol p) ∧
      (s.getTokenInternal src).lookahead = 0 := by
  obtain ⟨-, hrest, hlineno, hcursor, htoken, hstart⟩ := h
  simp only [hnone, Nat.add_zero] at hrest hlineno htoken hstart
  have hscan := getTokenInternal_spec hrest hlineno
  generalize s.getTokenInternal src = s' at hscan ⊢
  have hlookahead : s'.lookahead = 0 := hscan.lookahead.trans hnone
  have hnext : s.cursor + 1 = Fin.ofNat 4 (p + 1) := by rw [hcursor, ofNat_succ]
  refine ⟨⟨?_, ?_, ?_, ?_, ?_, ?_⟩, hscan.eol, hlookahead⟩
  · rw [hlookahead]
    exact Nat.zero_le 3
  · rw [hlookahead]
    exact hscan.rest
  · rw [hlookahead]
    exact hscan.lineno
  · exact hscan.cursor.trans hnext
  · rw [hlookahead, Nat.add_zero]
    intro j hj hle
    rcases Nat.lt_succ_iff_lt_or_eq.1 hj with hlt | rfl
    · rw [hscan.tokens _ (by rw [hnext]; exact ofNat_ne (by omega) (by omega))]
      exact htoken j hlt (by omega)
    · rw [← hnext]
      exact hscan.token
  · rw [hlookahead, Nat.add_zero]
    intro hle
    rw [hscan.tokens 0 (by rw [hnext]; exact ofNat_ne (Nat.succ_pos p) (by omega))]
    exact hstart (by omega)

lemma getToken (h : Follows src s p) : Follows src (s.getToken src) (p + 1) ∧
    (s.getToken src).lookahead = s.lookahead - 1 ∧
    (s.lookahead = 0 → (s.getToken src).eol = (s.eol || src.gapSetsEol p)) := by
  rw [TokenStream.getToken]
  split
  · rename_i hsome
    have hsum : p + 1 + (s.lookahead - 1) = p + s.lookahead := by omega
    have hle := h.lookahead_le
    refine ⟨⟨?_, ?_, ?_, ?_, ?_, ?_⟩, rfl, fun hnone => absurd hnone hsome⟩
    · exact (Nat.sub_le _ _).trans hle
    · exact hsum.symm ▸ h.rest
    · exact hsum.symm ▸ h.lineno
    · rw [ofNat_succ, ← h.cursor]
    · exact hsum.symm ▸ h.token
    · exact hsum.symm ▸ h.start
  · rename_i hnone
    have hnone := not_not.1 hnone
    obtain ⟨hfollows, heol, hlookahead⟩ := h.getTokenInternal hnone
    exact ⟨hfollows, by rw [hlookahead, hnone], fun _ => heol⟩

lemma getToken_currentToken (h : Follows src s p) :
    (s.getToken src).currentToken = src.token p := by
  have hnext := h.getToken.1
  rw [currentToken, hnext.cursor]
  exact hnext.token p (by omega) (by have := hnext.lookahead_le; omega)

lemma ungetToken (h : Follows src s (p + 1)) {s' : TokenStream K V}
    (hunget : s.ungetToken = some s') :
    Follows src s' p ∧ s'.lookahead = s.lookahead + 1 ∧ s'.eol = s.eol := by
  rw [TokenStream.ungetToken] at hunget
  split at hunget
  · rename_i hlt
    cases hunget
    have hsum : p + (s.lookahead + 1) = p + 1 + s.lookahead := by omega
    refine ⟨⟨hlt, ?_, ?_, ?_, ?_, ?_⟩, rfl, rfl⟩
    · exact hsum.symm ▸ h.rest
    · exact hsum.symm ▸ h.lineno
    · show s.cursor - 1 = _
      rw [h.cursor, ofNat_succ, add_one_sub_one]
    · exact hsum.symm ▸ h.token
    · exact hsum.symm ▸ h.start
  · cases hunget

/-- What is read of the ring is the last token that was pushed back first. -/
lemma peekPushedBack (h : Follows src s p) {i : ℕ} (hi : s.lookahead = i + 1) {tt : K}
    (hpeek : s.peekPushedBack = some tt) : s.lookahead ≤ 2 ∧ tt = (src.token (p + i)).type := by
  rw [TokenStream.peekPushedBack] at hpeek
  split at hpeek
  · rename_i hle
    cases hpeek
    rw [hi, h.pushedBack (by omega)]
    exact ⟨hi ▸ hle, rfl⟩
  · cases hpeek

lemma peekToken (h : Follows src s p) {tt : K} {s' : TokenStream K V}
    (hpeek : s.peekToken src = some (tt, s')) : Follows src s' p ∧
      (tt = (src.token p).type ↔
        (s.lookahead = 2 → (src.token (p + 1)).type = (src.token p).type)) := by
  rw [TokenStream.peekToken] at hpeek
  split at hpeek
  · rename_i hsome
    obtain ⟨tt', hread, hresult⟩ := map_eq_some_iff.1 hpeek
    cases hresult
    obtain ⟨i, hi⟩ := Nat.exists_eq_succ_of_ne_zero hsome
    obtain ⟨hle, rfl⟩ := h.peekPushedBack hi hread
    refine ⟨h, ?_⟩
    obtain rfl | rfl : i = 0 ∨ i = 1 := by omega
    · exact iff_of_true rfl fun htwo => absurd (hi.symm.trans htwo) (by decide)
    · exact ⟨fun heq _ => heq, fun heq => heq hi⟩
  · rename_i hnone
    obtain ⟨s₂, hunget, hresult⟩ := bind_eq_some_iff.1 hpeek
    cases hresult
    have hnone := not_not.1 hnone
    have hget := h.getToken_currentToken
    rw [TokenStream.getToken, if_neg (not_not.2 hnone)] at hget
    refine ⟨((h.getTokenInternal hnone).1.ungetToken hunget).1, ?_⟩
    rw [hget]
    exact iff_of_true rfl fun htwo => absurd (hnone.symm.trans htwo) (by decide)

lemma onCurrentLine_iff (h : Follows src s p) : s.onCurrentLine s.currentToken.pos ↔
    src.lineBehind (p + s.lookahead) = src.lineBehind p := by
  rw [onCurrentLine, h.currentToken_lineno, h.lineno, beq_iff_eq]

end Follows

/-- A line terminator that sets `TSF_EOL` is one. -/
lemma gapLines_pos_of_setsEol {src : Source K V} {n : ℕ} (h : src.gapSetsEol n = true) :
    0 < src.gapLines n := by
  rw [Source.gapLines]
  rw [Source.gapSetsEol, List.any_eq_true] at h
  obtain ⟨g, hg, heol⟩ := h
  refine List.sum_pos_iff_exists_pos_nat.2 ⟨g.lines, List.mem_map_of_mem hg, ?_⟩
  cases g with
  | lineTerminator => exact Nat.one_pos
  | lineComment ptr index lines => cases heol
  | comment ptr index lines => exact Nat.pos_of_ne_zero (bne_iff_ne.1 heol)

/-- When the reply to a call is right. A peek with two tokens pushed back reads the second of them.
The test for the same line depends on what has been scanned: with nothing pushed back it misses a line
terminator that only a comment to the end of the line has read, with one token pushed back it finds
those inside of that token, and with two also those behind it. -/
def CallExact (src : Source K V) (lookahead p : ℕ) : Call K → Prop
  | .peekToken => lookahead = 2 → (src.token (p + 1)).type = (src.token p).type
  | .peekTokenSameLine =>
    match lookahead with
    | 0 => src.gapSetsEol p = true ∨ src.gapLines p = 0
    | 1 => 0 < src.gapLines p ∨ (src.lexeme p).lines = 0
    | 2 => 0 < src.gapLines p ∨ (src.lexeme p).lines = 0 ∧ src.gapLines (p + 1) = 0 ∧
        (src.lexeme (p + 1)).lines = 0 ∧ (src.token (p + 1)).type = (src.token p).type
    | _ => 0 < src.gapLines p
  | _ => True

section Calls

variable {src : Source K V} {s : TokenStream K V} {p : ℕ}

/-- With nothing pushed back the scanner is at the end of the current token. -/
lemma peekTokenSameLine_of_none (h : Follows src s p) (hnone : s.lookahead = 0)
    {tt : Option K} {s' : TokenStream K V} (hpeek : s.peekTokenSameLine src = some (tt, s')) :
    Follows src s' p ∧
      tt = if src.gapSetsEol p then none else some (src.token p).type := by
  have hline : s.onCurrentLine s.currentToken.pos = true :=
    h.onCurrentLine_iff.2 (congrArg src.lineBehind (by omega))
  rw [peekTokenSameLine, if_neg (not_not.2 hline), if_neg (not_not.2 hnone)] at hpeek
  obtain ⟨s₂, hunget, hresult⟩ := bind_eq_some_iff.1 hpeek
  cases hresult
  have hcleared := h.eol_irrelevant false
  obtain ⟨hget, -, heol⟩ := hcleared.getToken
  refine ⟨((hget.eol_irrelevant false).ungetToken hunget).1, ?_⟩
  rw [heol hnone, hcleared.getToken_currentToken]
  rfl

/-- With tokens pushed back the ring is read, unless the scanner has left the line. -/
lemma peekTokenSameLine_of_pushedBack (h : Follows src s p) {i : ℕ} (hi : s.lookahead = i + 1)
    {tt : Option K} {s' : TokenStream K V} (hpeek : s.peekTokenSameLine src = some (tt, s')) :
    s' = s ∧ (src.lineBehind (p + (i + 1)) ≠ src.lineBehind p ∧ tt = none ∨
      src.lineBehind (p + (i + 1)) = src.lineBehind p ∧ i + 1 ≤ 2 ∧
        tt = some (src.token (p + i)).type) := by
  rw [peekTokenSameLine] at hpeek
  split at hpeek
  · rename_i hleft
    cases hpeek
    rw [h.onCurrentLine_iff, hi] at hleft
    exact ⟨rfl, .inl ⟨hleft, rfl⟩⟩
  · rename_i hline
    rw [not_not, h.onCurrentLine_iff, hi] at hline
    rw [if_pos (by omega)] at hpeek
    obtain ⟨tt', hread, hresult⟩ := map_eq_some_iff.1 hpeek
    cases hresult
    obtain ⟨hle, rfl⟩ := h.peekPushedBack hi hread
    exact ⟨rfl, .inr ⟨hline, hi ▸ hle, rfl⟩⟩

lemma none_eq_ite_iff {n : ℕ} {tt : K} : none = (if n = 0 then some tt else none) ↔ 0 < n := by
  split
  · rename_i hn
    exact iff_of_false nofun (by omega)
  · rename_i hn
    exact iff_of_true rfl (Nat.pos_of_ne_zero hn)

lemma peekTokenSameLine_spec (h : Follows src s p) {tt : Option K} {s' : TokenStream K V}
    (hpeek : s.peekTokenSameLine src = some (tt, s')) : Follows src s' p ∧
      (tt = (if src.gapLines p = 0 then some (src.token p).type else none) ↔
        CallExact src s.lookahead p .peekTokenSameLine) := by
  cases hl : s.lookahead with
  | zero =>
    obtain ⟨hfollows, rfl⟩ := peekTokenSameLine_of_none h hl hpeek
    refine ⟨hfollows, ?_⟩
    show _ ↔ src.gapSetsEol p = true ∨ src.gapLines p = 0
    by_cases heol : src.gapSetsEol p = true
    · rw [if_pos heol, if_neg (gapLines_pos_of_setsEol heol).ne']
      exact iff_of_true rfl (.inl heol)
    · rw [if_neg heol]
      by_cases hlines : src.gapLines p = 0
      · rw [if_pos hlines]
        exact iff_of_true rfl (.inr hlines)
      · rw [if_neg hlines]
        exact iff_of_false nofun (not_or.2 ⟨heol, hlines⟩)
  | succ i =>
    obtain ⟨rfl, hcases⟩ := peekTokenSameLine_of_pushedBack h hl hpeek
    refine ⟨h, ?_⟩
    rcases hcases with ⟨hleft, rfl⟩ | ⟨hline, hle, rfl⟩
    · rw [none_eq_ite_iff]
      match i with
      | 0 =>
        show _ ↔ 0 < src.gapLines p ∨ (src.lexeme p).lines = 0
        rw [Source.lineBehind] at hleft
        omega
      | 1 =>
        show _ ↔ 0 < src.gapLines p ∨ (src.lexeme p).lines = 0 ∧ src.gapLines (p + 1) = 0 ∧
          (src.lexeme (p + 1)).lines = 0 ∧ (src.token (p + 1)).type = (src.token p).type
        rw [Source.lineBehind, Source.lineBehind] at hleft
        constructor
        · exact Or.inl
        · rintro (hpos | ⟨hlines, hgap, hlines', -⟩)
          · exact hpos
          · omega
      | i + 2 => exact Iff.rfl
    · match i with
      | 0 =>
        rw [Source.lineBehind] at hline
        have hgap : src.gapLines p = 0 := by omega
        rw [if_pos hgap]
        exact iff_of_true rfl (.inr (by omega))
      | 1 =>
        rw [Source.lineBehind, Source.lineBehind] at hline
        have hgap : src.gapLines p = 0 := by omega
        rw [if_pos hgap, some_inj]
        constructor
        · exact fun htype => .inr ⟨by omega, by omega, by omega, htype⟩
        · rintro (hpos | ⟨-, -, -, htype⟩)
          · exact absurd hgap hpos.ne'
          · exact htype
      | i + 2 => omega

variable [DecidableEq K]

lemma matchToken_spec (h : Follows src s p) {tt : K} {b : Bool} {s' : TokenStream K V}
    (hmatch : s.matchToken src tt = some (b, s')) :
    b = decide ((src.token p).type = tt) ∧ Follows src s' (if b then p + 1 else p) := by
  rw [matchToken] at hmatch
  simp only [h.getToken_currentToken] at hmatch
  split at hmatch
  · rename_i heq
    cases hmatch
    exact ⟨(decide_eq_true heq).symm, h.getToken.1⟩
  · rename_i hne
    obtain ⟨s₂, hunget, hresult⟩ := map_eq_some_iff.1 hmatch
    cases hresult
    exact ⟨(decide_eq_false hne).symm, (h.getToken.1.ungetToken hunget).1⟩

/-- A call moves the cursor, and its reply is right just where it is to be expected. -/
lemma call_spec (h : Follows src s p) {c : Call K} {r r' : Reply K V} {s' : TokenStream K V}
    {p' : ℕ} (hcall : s.call src c = some (r, s')) (hcursor : src.cursorCall p c = some (r', p')) :
    Follows src s' p' ∧ (r = r' ↔ CallExact src s.lookahead p c) := by
  cases c with
  | getToken =>
    cases hcall
    cases hcursor
    refine ⟨h.getToken.1, iff_of_true ?_ trivial⟩
    rw [h.getToken_currentToken]
  | ungetToken =>
    obtain ⟨s₂, hunget, hresult⟩ := map_eq_some_iff.1 hcall
    cases hresult
    rw [Source.cursorCall] at hcursor
    split at hcursor
    · cases hcursor
    · rename_i hp
      cases hcursor
      obtain ⟨q, rfl⟩ := Nat.exists_eq_succ_of_ne_zero hp
      exact ⟨(h.ungetToken hunget).1, iff_of_true rfl trivial⟩
  | peekToken =>
    obtain ⟨⟨tt, s₂⟩, hpeek, hresult⟩ := map_eq_some_iff.1 hcall
    cases hresult
    cases hcursor
    obtain ⟨hfollows, hiff⟩ := h.peekToken hpeek
    exact ⟨hfollows, (Reply.kind.injEq _ _).to_iff.trans hiff⟩
  | peekTokenSameLine =>
    obtain ⟨⟨tt, s₂⟩, hpeek, hresult⟩ := map_eq_some_iff.1 hcall
    cases hresult
    cases hcursor
    obtain ⟨hfollows, hiff⟩ := peekTokenSameLine_spec h hpeek
    exact ⟨hfollows, (Reply.kindSameLine.injEq _ _).to_iff.trans hiff⟩
  | matchToken tt =>
    obtain ⟨⟨b, s₂⟩, hmatch, hresult⟩ := map_eq_some_iff.1 hcall
    cases hresult
    obtain ⟨rfl, hfollows⟩ := matchToken_spec h hmatch
    rw [Source.cursorCall] at hcursor
    split at hcursor
    · rename_i heq
      cases hcursor
      rw [decide_eq_true heq] at hfollows ⊢
      exact ⟨hfollows, iff_of_true rfl trivial⟩
    · rename_i hne
      cases hcursor
      rw [decide_eq_false hne] at hfollows ⊢
      exact ⟨hfollows, iff_of_true rfl trivial⟩

/-- Every call of a run is made where its reply is right. -/
def CallsExact (src : Source K V) : List (Call K) → TokenStream K V → ℕ → Prop
  | [], _, _ => True
  | c :: cs, s, p => CallExact src s.lookahead p c ∧
      ∀ r s' r' p', s.call src c = some (r, s') → src.cursorCall p c = some (r', p') →
        CallsExact src cs s' p'

lemma calls_spec : ∀ {cs : List (Call K)} {s : TokenStream K V} {p : ℕ} {rs rs' : List (Reply K V)}
    {s' : TokenStream K V} {p' : ℕ}, Follows src s p →
    TokenStream.calls src cs s = some (rs, s') → src.cursorCalls cs p = some (rs', p') →
    Follows src s' p' ∧ (rs = rs' ↔ CallsExact src cs s p) := by
  intro cs
  induction cs with
  | nil =>
    rintro s p rs rs' s' p' h ⟨⟩ ⟨⟩
    exact ⟨h, iff_of_true rfl trivial⟩
  | cons c cs ih =>
    intro s p rs rs' s' p' h hcalls hcursor
    obtain ⟨⟨r, s₁⟩, hcall, hcalls⟩ := bind_eq_some_iff.1 hcalls
    obtain ⟨⟨rest, s₂⟩, hrest, hresult⟩ := bind_eq_some_iff.1 hcalls
    cases hresult
    obtain ⟨⟨r', p₁⟩, hcall', hcursor⟩ := bind_eq_some_iff.1 hcursor
    obtain ⟨⟨rest', p₂⟩, hrest', hresult⟩ := bind_eq_some_iff.1 hcursor
    cases hresult
    obtain ⟨hfollows, hiff⟩ := call_spec h hcall hcall'
    obtain ⟨hend, hiff'⟩ := ih hfollows hrest hrest'
    refine ⟨hend, ?_⟩
    rw [List.cons.injEq, hiff, hiff', CallsExact]
    refine and_congr_right fun _ => ⟨?_, fun hall => hall r s₁ r' p₁ hcall hcall'⟩
    intro hexact q t q' n hq hq'
    rw [hcall] at hq
    rw [hcall'] at hq'
    cases hq
    cases hq'
    exact hexact

end Calls

/-- The replies of a run are those of the cursor if and only if each call is made where its reply is
right. -/
theorem lookahead_exact [DecidableEq K] {src : Source K V} {tokens : Fin 4 → Token K V}
    {cs : List (Call K)} {rs rs' : List (Reply K V)} {s' : TokenStream K V} {p' : ℕ}
    (hcalls : TokenStream.calls src cs (src.start tokens) = some (rs, s'))
    (hcursor : src.cursorCalls cs 0 = some (rs', p')) :
    rs = rs' ↔ CallsExact src cs (src.start tokens) 0 :=
  (calls_spec (.new src tokens) hcalls hcursor).2

/-- The tokens 1, 2 and 3, the last on a line of its own. -/
def threeTokens : Source ℕ Unit where
  lineno := 1
  lexemes := [⟨[], 1, (), 0, 0, 1, 0⟩, ⟨[], 2, (), 2, 2, 3, 0⟩, ⟨[.lineTerminator], 3, (), 4, 0, 1, 0⟩]
  eof := ⟨[], 0, (), 5, 1, 1, 0⟩
  eof_gap := rfl
  eof_lines := rfl

def noToken : Fin 4 → Token ℕ Unit := fun _ => ⟨0, ⟨⟨0, 0⟩, ⟨0, 0⟩⟩, 0, ()⟩

/-- Two tokens are pushed back, and the peek finds the second of them. -/
theorem peekToken_second : ¬∀ (src : Source ℕ Unit) tokens cs rs s' rs' p',
    TokenStream.calls src cs (src.start tokens) = some (rs, s') →
      src.cursorCalls cs 0 = some (rs', p') → rs = rs' := by
  intro hclaim
  have hreplies := hclaim threeTokens noToken
    [.getToken, .getToken, .getToken, .ungetToken, .ungetToken, .peekToken] _ _ _ _ rfl rfl
  exact absurd hreplies (by decide)

/-- One token is pushed back, and the next is on another line. -/
theorem lookahead_exact_line :
    CallsExact threeTokens [.getToken, .peekToken, .matchToken 2, .peekTokenSameLine]
      (threeTokens.start noToken) 0 :=
  (lookahead_exact rfl rfl).1 rfl

end SpiderMonkey.Frontend.Lookahead
