import SpiderMonkey.Vm.JsonTokens

/-! # The JSON parser accepts only the JSON grammar

The two stacks say what the text before the current code unit is: each state that was pushed has
an array or an object that is open, with the elements or members that have been read. So what is
accepted is a sentence, and no assertion fails.
-/

namespace SpiderMonkey.Json

open List

section

variable {δ : Type} (conv : Conversion δ) (legacy : Bool)

/-! ## What comes before the current code unit -/

/-- The elements that have been read, each with its comma. -/
def OpenElements (l : List Jschar) (elements : List (JsonValue δ)) : Prop :=
  (l = [] ∧ elements = []) ∨
    ∃ l', ElementsText conv legacy l' elements ∧ l = l' ++ [comma]

/-- The members that have been read, each with its comma. -/
def OpenMembers (l : List Jschar) (members : List (List Jschar × JsonValue δ)) : Prop :=
  (l = [] ∧ members = []) ∨
    ∃ l', MembersText conv legacy l' members ∧ l = l' ++ [comma]

/-- The text before a value, as the stacks have it. -/
inductive Context : List ParserState → List (JsonValue δ) → List Jschar → Prop
  | top : Context [] [] []
  | element {states values u w l elements} (hu : Context states values u) (hw : Ws w)
      (hl : OpenElements conv legacy l elements) :
      Context (.finishArrayElement :: states) (.array elements :: values)
        (u ++ w ++ openBracket :: l)
  | member {states values u w l members w1 n name w2} (hu : Context states values u) (hw : Ws w)
      (hl : OpenMembers conv legacy l members) (hw1 : Ws w1) (hn : StringText n name)
      (hw2 : Ws w2) :
      Context (.finishObjectMember :: states) (.string name :: objectOf members :: values)
        (u ++ w ++ openBrace :: (l ++ (w1 ++ n ++ w2 ++ [colon])))

/-- The text up to the end of a value, which is on the stack. -/
def AfterValue (states : List ParserState) (values : List (JsonValue δ))
    (consumed : List Jschar) : Prop :=
  ∃ u w s v values', values = v :: values' ∧ Context conv legacy states values' u ∧ Ws w ∧
    ValueText conv legacy s v ∧ consumed = u ++ w ++ s

/-- The text up to the token that is to start a value. A closing bracket comes after a comma. -/
def AtToken (states : List ParserState) (values : List (JsonValue δ)) (token : Token δ)
    (consumed : List Jschar) : Prop :=
  ∃ u w s, Context conv legacy states values u ∧ Ws w ∧ TokenText conv token s ∧
    consumed = u ++ w ++ s ∧ (token = .arrayClose → ∀ values', values ≠ .array [] :: values')

/-- The text up to the token that is to start a member. A closing brace comes after a comma. -/
def AtMember (state : ParserState) (states : List ParserState) (values : List (JsonValue δ))
    (token : Token δ) (consumed : List Jschar) : Prop :=
  ∃ u w l members values' w' s, values = objectOf members :: values' ∧
    Context conv legacy states values' u ∧ Ws w ∧ OpenMembers conv legacy l members ∧ Ws w' ∧
    TokenText conv token s ∧ consumed = u ++ w ++ openBrace :: (l ++ (w' ++ s)) ∧
    ((token = .objectClose ∧ legacy = true ∧ state = .finishObjectMember ∧ members ≠ []) ∨
      (∃ chars, token = .string chars true) ∨ ∃ msg, token = .error msg)

/-- The text up to a label. -/
def AtLabel (label : Label δ) (p : Parser δ) : Prop :=
  match label with
  | .case .jsonValue =>
    Context conv legacy p.stateStack p.valueStack p.before.reverse ∧
      ∀ values', p.valueStack ≠ .array [] :: values'
  | .case s =>
    p.state = s ∧ AfterValue conv legacy (s :: p.stateStack) p.valueStack p.before.reverse
  | .jsonMember token =>
    AtMember conv legacy p.state p.stateStack p.valueStack token p.before.reverse
  | .jsonValueSwitch token =>
    AtToken conv legacy p.stateStack p.valueStack token p.before.reverse
  | .endOfLoop => AfterValue conv legacy p.stateStack p.valueStack p.before.reverse

/-- What holds of the machine on a text. -/
def Valid (text : List Jschar) : Machine δ → Prop
  | .running label p => p.before.reverse ++ p.rest = text ∧ AtLabel conv legacy label p
  | .accepted v => JsonText conv legacy text v
  | .rejected _ => True
  | .asserted => False

variable {conv legacy}

lemma OpenElements.snoc {l w s w' : List Jschar} {elements : List (JsonValue δ)}
    {v : JsonValue δ} (hl : OpenElements conv legacy l elements) (hw : Ws w)
    (hs : ValueText conv legacy s v) (hw' : Ws w') :
    ElementsText conv legacy (l ++ (w ++ s ++ w')) (elements ++ [v]) := by
  rcases hl with ⟨rfl, rfl⟩ | ⟨l, hl, rfl⟩
  · exact .one hw hs hw'
  · rw [append_assoc, singleton_append]
    exact .more hl hw hs hw'

lemma OpenMembers.snoc {l m name : List Jschar} {members : List (List Jschar × JsonValue δ)}
    {v : JsonValue δ} (hl : OpenMembers conv legacy l members)
    (hm : MemberText conv legacy m name v) :
    MembersText conv legacy (l ++ m) (members ++ [(name, v)]) := by
  rcases hl with ⟨rfl, rfl⟩ | ⟨l, hl, rfl⟩
  · exact .one hm
  · rw [append_assoc, singleton_append]
    exact .more hl hm

lemma OpenElements.nonempty {l : List Jschar} {elements : List (JsonValue δ)}
    (hl : OpenElements conv legacy l elements) (hne : elements ≠ []) :
    ∃ l', ElementsText conv legacy l' elements ∧ l = l' ++ [comma] := by
  rcases hl with ⟨_, hnil⟩ | hl
  · exact absurd hnil hne
  · exact hl

lemma OpenMembers.nonempty {l : List Jschar} {members : List (List Jschar × JsonValue δ)}
    (hl : OpenMembers conv legacy l members) (hne : members ≠ []) :
    ∃ l', MembersText conv legacy l' members ∧ l = l' ++ [comma] := by
  rcases hl with ⟨_, hnil⟩ | hl
  · exact absurd hnil hne
  · exact hl

/-- The members with one more. -/
lemma objectOf_snoc (members : List (List Jschar × JsonValue δ)) (name : List Jschar)
    (v : JsonValue δ) :
    objectOf (members ++ [(name, v)]) =
      .object (setMember (members.foldl (fun o m => setMember o m.1 m.2) []) name v) := by
  rw [objectOf, foldl_append]
  rfl

/-! ## Taking a token -/

/-- The parser after some of the text. -/
def Parser.skip (p : Parser δ) (s rest : List Jschar) : Parser δ :=
  { p with before := s.reverse ++ p.before, rest := rest }

variable {p : Parser δ}

lemma Parser.moveTo_eq {s rest : List Jschar} (hrest : p.rest = s ++ rest) :
    p.moveTo rest = p.skip s rest := by
  rw [Parser.moveTo, hrest, upTo_append]
  rfl

lemma Parser.take_eq {s rest : List Jschar} (hrest : p.rest = s ++ rest) (token : Token δ)
    (next : Token δ → Parser δ → Machine δ) :
    p.take (some (token, rest)) next = next token (p.skip s rest) := by
  rw [Parser.take, Parser.moveTo_eq hrest]

lemma Parser.skip_before (p : Parser δ) (s rest : List Jschar) :
    (p.skip s rest).before.reverse = p.before.reverse ++ s := by
  rw [Parser.skip, reverse_append, reverse_reverse]

/-- Taking a token keeps the text. -/
lemma Parser.skip_text {s rest text : List Jschar} (hrest : p.rest = s ++ rest)
    (htext : p.before.reverse ++ p.rest = text) :
    (p.skip s rest).before.reverse ++ (p.skip s rest).rest = text := by
  rw [Parser.skip_before, ← htext, hrest, append_assoc]
  rfl

/-! ## Every step keeps the invariant -/

lemma before_eq {before u s : List Jschar} (h : before.reverse = u ++ s) :
    before = s.reverse ++ u.reverse := by
  rw [← reverse_append, ← h, reverse_reverse]

lemma before1_of_reverse {before u : List Jschar} {c : Jschar}
    (h : before.reverse = u ++ [c]) : before1 before c = true := by
  rw [before_eq h]
  simp [before1]

variable {text : List Jschar}

lemma finishArrayElement_valid (htext : p.before.reverse ++ p.rest = text)
    (hafter : AfterValue conv legacy (.finishArrayElement :: p.stateStack) p.valueStack
      p.before.reverse) : Valid conv legacy text (finishArrayElement p) := by
  obtain ⟨u, w, s, v, values', hvalues, hu, hw, hs, hconsumed⟩ := hafter
  cases hu with
  | @element _ values u0 w0 l elements hu0 hw0 hl =>
    have hpast : pastValue p.before = true := by
      rw [before_eq hconsumed]
      exact pastValue_of_text hs _
    obtain ⟨token, rest', hread, ⟨w', t, hw', ht, hrest⟩, htoken⟩ :=
      advanceAfterArrayElement_spec conv p.rest hpast
    have helements := hl.snoc hw hs hw'
    unfold finishArrayElement
    rw [hvalues]
    simp only
    rw [hread, Parser.take_eq (p := { p with valueStack := .array (elements ++ [v]) :: values }) hrest]
    rcases htoken with rfl | rfl | ⟨msg, rfl⟩
    · cases ht
      refine ⟨Parser.skip_text hrest htext, ?_, ?_⟩
      · have hcontext := Context.element hu0 hw0 (.inr ⟨_, helements, rfl⟩)
        simpa [Parser.pushState, Parser.skip, hconsumed] using hcontext
      · simp [Parser.pushState, Parser.skip]
    · cases ht
      refine ⟨Parser.skip_text hrest htext, u0, w0, _, _, values, rfl, hu0, hw0,
        .array helements, ?_⟩
      simp [Parser.skip, hconsumed]
    · trivial

lemma jsonMember_valid {token : Token δ} (htext : p.before.reverse ++ p.rest = text)
    (hmember : AtMember conv legacy p.state p.stateStack p.valueStack token p.before.reverse) :
    Valid conv legacy text (jsonMember legacy token p) := by
  obtain ⟨u, w, l, members, values', w', s, hvalues, hu, hw, hl, hw', hs, hconsumed, htoken⟩ :=
    hmember
  rcases htoken with ⟨rfl, hlegacy, hstate, hne⟩ | ⟨name, rfl⟩ | ⟨msg, rfl⟩
  · -- the comma before the closing brace
    cases hs
    subst hlegacy
    obtain ⟨l', hl', rfl⟩ := hl.nonempty hne
    simp only [jsonMember, hstate, decide_true, Bool.and_self, if_true]
    refine ⟨htext, u, w, _, _, values', hvalues, hu, hw, .objectComma rfl hl' hw', ?_⟩
    rw [hconsumed]
    simp
  · cases hs with
    | string _ hn =>
      have hquote : before1 p.before quote = true := by
        cases hn with
        | @mk body _ _ =>
          exact before1_of_reverse (u := u ++ w ++ openBrace :: (l ++ (w' ++ quote :: body)))
            (by rw [hconsumed]; simp)
      obtain ⟨token, rest', hread, ⟨w2, t, hw2, ht, hrest⟩, htoken⟩ :=
        advancePropertyColon_spec conv p.rest hquote
      simp only [jsonMember, Bool.not_true, Bool.false_eq_true, if_false]
      have hread' : advancePropertyColon (δ := δ) (p.pushValue (.string name)).before
          (p.pushValue (.string name)).rest = some (token, rest') := hread
      rw [hread', Parser.take_eq (p := p.pushValue _) hrest]
      rcases htoken with rfl | ⟨msg, rfl⟩
      · cases ht
        refine ⟨Parser.skip_text hrest htext, ?_, ?_⟩
        · have hcontext := Context.member hu hw hl hw' hn hw2
          simpa [Parser.pushState, Parser.pushValue, Parser.skip, hconsumed, hvalues] using hcontext
        · simp [Parser.pushState, Parser.pushValue, Parser.skip]
      · trivial
  · trivial

lemma finishObjectMember_valid (htext : p.before.reverse ++ p.rest = text)
    (hstate : p.state = .finishObjectMember)
    (hafter : AfterValue conv legacy (.finishObjectMember :: p.stateStack) p.valueStack
      p.before.reverse) : Valid conv legacy text (finishObjectMember legacy p) := by
  obtain ⟨u, w, s, v, values', hvalues, hu, hw, hs, hconsumed⟩ := hafter
  cases hu with
  | @member _ values u0 w0 l members w1 n name w2 hu0 hw0 hl hw1 hn hw2 =>
    have hpast : pastValue p.before = true := by
      rw [before_eq hconsumed]
      exact pastValue_of_text hs _
    obtain ⟨token, rest', hread, ⟨w', t, hw', ht, hrest⟩, htoken⟩ :=
      advanceAfterProperty_spec conv p.rest hpast
    have hmembers := hl.snoc (.mk hw1 hn hw2 hw hs hw')
    unfold finishObjectMember
    rw [hvalues]
    simp only [objectOf]
    rw [hread, ← objectOf_snoc,
      Parser.take_eq (p := { p with valueStack := objectOf (members ++ [(name, v)]) :: values }) hrest]
    rcases htoken with rfl | rfl | ⟨msg, rfl⟩
    · cases ht
      simp only
      have hcomma : before1 (p.skip (w' ++ [comma]) rest').before comma = true :=
        before1_of_reverse (u := p.before.reverse ++ w') (by rw [Parser.skip_before]; simp)
      obtain ⟨token, rest'', hread', ⟨w'', t, hw'', ht, hrest'⟩, htoken⟩ :=
        advancePropertyName_spec conv legacy rest' hcomma
      have htake := Parser.take_eq
        (p := Parser.skip { p with valueStack := objectOf (members ++ [(name, v)]) :: values }
          (w' ++ [comma]) rest') hrest' token fun token p => .running (.jsonMember token) p
      rw [← hread'] at htake
      refine htake ▸ ?_
      refine ⟨Parser.skip_text hrest' (Parser.skip_text hrest htext), u0, w0, _,
        members ++ [(name, v)], values, w'', t, rfl, hu0, hw0, .inr ⟨_, hmembers, rfl⟩, hw'', ht,
        ?_, ?_⟩
      · simp [Parser.skip, hconsumed]
      · rcases htoken with ⟨rfl, hlegacy⟩ | htoken
        · exact .inl ⟨rfl, hlegacy, hstate, by simp⟩
        · exact .inr htoken
    · cases ht
      refine ⟨Parser.skip_text hrest htext, u0, w0, _, _, values, rfl, hu0, hw0,
        .object hmembers, ?_⟩
      simp [Parser.skip, hconsumed]
    · trivial

/-- A value that is one token. -/
lemma AtToken.afterValue {states : List ParserState} {values : List (JsonValue δ)}
    {token : Token δ} {consumed : List Jschar} {v : JsonValue δ}
    (h : AtToken conv legacy states values token consumed)
    (hv : ∀ s, TokenText conv token s → ValueText conv legacy s v) :
    AfterValue conv legacy states (v :: values) consumed := by
  obtain ⟨u, w, s, hu, hw, hs, hconsumed, _⟩ := h
  exact ⟨u, w, s, v, values, rfl, hu, hw, hv s hs, hconsumed⟩

lemma arrayOpen_valid (htext : p.before.reverse ++ p.rest = text)
    (htoken : AtToken conv legacy p.stateStack p.valueStack .arrayOpen p.before.reverse) :
    Valid conv legacy text (jsonValueSwitch conv legacy .arrayOpen p) := by
  obtain ⟨u, w, s, hu, hw, hs, hconsumed, _⟩ := htoken
  cases hs
  obtain ⟨token, rest', hread, w', t, hw', ht, hrest⟩ := advance_spec conv p.rest
  have hread' : advance conv (p.pushValue (.array [])).rest = some (token, rest') := hread
  simp only [jsonValueSwitch]
  rw [hread', Parser.take_eq (p := p.pushValue (.array [])) hrest]
  by_cases hclose : token = .arrayClose
  · subst hclose
    cases ht
    refine ⟨Parser.skip_text hrest htext, u, w, _, _, p.valueStack, rfl, hu, hw,
      .emptyArray hw', ?_⟩
    rw [Parser.skip_before]
    simp [Parser.pushValue, hconsumed]
  · have hnext : Valid conv legacy text (.running (.jsonValueSwitch token)
        (((p.pushValue (.array [])).skip (w' ++ t) rest').pushState .finishArrayElement)) := by
      refine ⟨Parser.skip_text hrest htext, _, w', t,
        .element hu hw (.inl ⟨rfl, rfl⟩), hw', ht, ?_, fun h => absurd h hclose⟩
      simp [Parser.pushState, Parser.skip, Parser.pushValue, hconsumed]
    cases token with
    | arrayClose => exact absurd rfl hclose
    | _ => exact hnext

lemma objectOpen_valid (htext : p.before.reverse ++ p.rest = text)
    (htoken : AtToken conv legacy p.stateStack p.valueStack .objectOpen p.before.reverse) :
    Valid conv legacy text (jsonValueSwitch conv legacy .objectOpen p) := by
  obtain ⟨u, w, s, hu, hw, hs, hconsumed, _⟩ := htoken
  cases hs
  obtain ⟨token, rest', hread, ⟨w', t, hw', ht, hrest⟩, htoken⟩ :=
    advanceAfterObjectOpen_spec conv p.rest (before1_of_reverse hconsumed)
  have hread' : advanceAfterObjectOpen (p.pushValue (.object [])).before
      (p.pushValue (.object [])).rest = some (token, rest') := hread
  simp only [jsonValueSwitch]
  rw [hread', Parser.take_eq (p := p.pushValue (.object [])) hrest]
  have hmember : (∃ chars, token = .string chars true) ∨ (∃ msg, token = .error msg) →
      Valid conv legacy text
        (.running (.jsonMember token) ((p.pushValue (.object [])).skip (w' ++ t) rest')) := by
    intro htoken
    refine ⟨Parser.skip_text hrest htext, u, w, [], [], p.valueStack, w', t, rfl, hu, hw,
      .inl ⟨rfl, rfl⟩, hw', ht, ?_, .inr htoken⟩
    rw [Parser.skip_before]
    simp [Parser.pushValue, hconsumed]
  rcases htoken with rfl | ⟨chars, rfl⟩ | ⟨msg, rfl⟩
  · cases ht
    refine ⟨Parser.skip_text hrest htext, u, w, _, _, p.valueStack, rfl, hu, hw,
      .emptyObject hw', ?_⟩
    rw [Parser.skip_before]
    simp [Parser.pushValue, hconsumed]
  · exact hmember (.inl ⟨chars, rfl⟩)
  · exact hmember (.inr ⟨msg, rfl⟩)

lemma arrayClose_valid (htext : p.before.reverse ++ p.rest = text)
    (htoken : AtToken conv legacy p.stateStack p.valueStack .arrayClose p.before.reverse) :
    Valid conv legacy text (jsonValueSwitch conv legacy .arrayClose p) := by
  obtain ⟨u, w, s, hu, hw, hs, hconsumed, hne⟩ := htoken
  cases hs
  cases legacy with
  | false => trivial
  | true =>
    simp only [jsonValueSwitch, if_true]
    cases hstates : p.stateStack with
    | nil => trivial
    | cons state states =>
      rw [hstates] at hu
      -- the array is not empty, and a comma is before the bracket
      generalize hvalues : p.valueStack = values at hu
      cases hu with
      | member => trivial
      | @element _ values u0 w0 l elements hu0 hw0 hl =>
        have helements : elements ≠ [] := by
          rintro rfl
          exact hne rfl values hvalues
        obtain ⟨l', hl', rfl⟩ := hl.nonempty helements
        refine ⟨htext, u0, w0, _, _, values, rfl, hu0, hw0, .arrayComma rfl hl' hw, ?_⟩
        rw [hconsumed]
        simp

lemma jsonValueSwitch_valid {token : Token δ} (htext : p.before.reverse ++ p.rest = text)
    (htoken : AtToken conv legacy p.stateStack p.valueStack token p.before.reverse) :
    Valid conv legacy text (jsonValueSwitch conv legacy token p) := by
  cases token with
  | string chars atom =>
    refine ⟨htext, htoken.afterValue ?_⟩
    rintro s ⟨⟩
    exact .string ‹_›
  | number d =>
    refine ⟨htext, htoken.afterValue ?_⟩
    rintro s ⟨⟩
    exact .number ‹_›
  | true =>
    refine ⟨htext, htoken.afterValue ?_⟩
    rintro s ⟨⟩
    exact .true
  | false =>
    refine ⟨htext, htoken.afterValue ?_⟩
    rintro s ⟨⟩
    exact .false
  | null =>
    refine ⟨htext, htoken.afterValue ?_⟩
    rintro s ⟨⟩
    exact .null
  | arrayOpen => exact arrayOpen_valid htext htoken
  | arrayClose => exact arrayClose_valid htext htoken
  | objectOpen => exact objectOpen_valid htext htoken
  | objectClose => trivial
  | colon => trivial
  | comma => trivial
  | error msg => trivial

lemma endOfLoop_valid (htext : p.before.reverse ++ p.rest = text)
    (hafter : AfterValue conv legacy p.stateStack p.valueStack p.before.reverse) :
    Valid conv legacy text (endOfLoop p) := by
  cases hstates : p.stateStack with
  | cons state states =>
    rw [hstates] at hafter
    simp only [endOfLoop, hstates]
    cases state with
    | jsonValue =>
      obtain ⟨u, w, s, v, values', _, hu, _⟩ := hafter
      cases hu
    | finishArrayElement => exact ⟨htext, rfl, hafter⟩
    | finishObjectMember => exact ⟨htext, rfl, hafter⟩
  | nil =>
    rw [hstates] at hafter
    obtain ⟨u, w, s, v, values', hvalues, hu, hw, hs, hconsumed⟩ := hafter
    cases hu
    simp only [endOfLoop, hstates]
    by_cases hrest : p.rest.dropWhile isJSONWhitespace ≠ []
    · rw [if_pos hrest]
      trivial
    · rw [if_neg hrest, hvalues]
      rw [Classical.not_not] at hrest
      refine ⟨w, s, p.rest, hw, hs, ?_, ?_⟩
      · have hsplit := split_ws p.rest
        rw [hrest, append_nil] at hsplit
        rw [hsplit]
        exact ws_takeWhile p.rest
      · rw [← htext, hconsumed]
        simp

lemma case_jsonValue_valid (htext : p.before.reverse ++ p.rest = text)
    (hcontext : Context conv legacy p.stateStack p.valueStack p.before.reverse)
    (hne : ∀ values', p.valueStack ≠ .array [] :: values') :
    Valid conv legacy text (step conv legacy (.running (.case .jsonValue) p)) := by
  obtain ⟨token, rest', hread, w, s, hw, hs, hrest⟩ := advance_spec conv p.rest
  simp only [step]
  rw [hread, Parser.take_eq hrest]
  refine ⟨Parser.skip_text hrest htext, _, w, s, hcontext, hw, hs, ?_, fun _ => hne⟩
  rw [Parser.skip_before, append_assoc]

lemma step_valid {m : Machine δ} (h : Valid conv legacy text m) :
    Valid conv legacy text (step conv legacy m) := by
  cases m with
  | accepted v => exact h
  | rejected msg => trivial
  | asserted => exact h
  | running label p =>
    obtain ⟨htext, hat⟩ := h
    cases label with
    | case state =>
      cases state with
      | jsonValue => exact case_jsonValue_valid htext hat.1 hat.2
      | finishArrayElement => exact finishArrayElement_valid htext hat.2
      | finishObjectMember => exact finishObjectMember_valid htext hat.1 hat.2
    | jsonMember token => exact jsonMember_valid htext hat
    | jsonValueSwitch token => exact jsonValueSwitch_valid htext hat
    | endOfLoop => exact endOfLoop_valid htext hat

lemma start_valid (text : List Jschar) : Valid conv legacy text (start text) :=
  ⟨rfl, .top, by simp⟩

lemma run_valid (n : Nat) {m : Machine δ} (h : Valid conv legacy text m) :
    Valid conv legacy text (run conv legacy n m) := by
  induction n generalizing m with
  | zero => exact h
  | succ n ih => exact ih (step_valid h)

end

end SpiderMonkey.Json
