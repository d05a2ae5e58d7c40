import SpiderMonkey.Vm.JsonParserSoundness

/-! # The JSON parser accepts the JSON grammar

The parser goes through every sentence: from any place where a value may start it comes to the
end of the value, with the value on the stack. And it stops on every text, as each token shortens
what is left. So it accepts exactly the sentences.
-/

namespace SpiderMonkey.Json

open List

section

variable {δ : Type} {conv : Conversion δ} {legacy : Bool}

/-! ## Every sentence is gone through -/

/-- What comes after a value. -/
def Follows (t : List Jschar) : Prop :=
  ∀ c ∈ t.head?, isJSONWhitespace c = true ∨ c = comma ∨ c = closeBracket ∨ c = closeBrace

lemma Follows.stops {t : List Jschar} (ht : Follows t) : Stops t := by
  intro c hc
  unfold DecimalDigit
  rcases ht c hc with hws | rfl | rfl | rfl
  · rcases (isJSONWhitespace_iff c).mp hws with rfl | rfl | rfl | rfl <;> decide
  · decide
  · decide
  · decide

lemma Follows.append {w t : List Jschar} (hw : Ws w) (ht : Follows t) : Follows (w ++ t) := by
  cases w with
  | nil => exact ht
  | cons c w =>
    intro c' hc'
    cases hc'
    exact .inl ((isJSONWhitespace_iff c).mpr (hw c mem_cons_self))

variable (conv legacy)

def Reaches (m m' : Machine δ) : Prop := ∃ n, run conv legacy n m = m'

variable {conv legacy}

lemma run_add (n k : Nat) (m : Machine δ) :
    run conv legacy (n + k) m = run conv legacy k (run conv legacy n m) := by
  induction n generalizing m with
  | zero => rw [Nat.zero_add, run]
  | succ n ih => rw [Nat.succ_add, run, run, ih]

lemma Reaches.refl (m : Machine δ) : Reaches conv legacy m m := ⟨0, rfl⟩

lemma Reaches.step {m m1 m' : Machine δ} (h1 : Json.step conv legacy m = m1)
    (h : Reaches conv legacy m1 m') : Reaches conv legacy m m' := by
  obtain ⟨n, hn⟩ := h
  exact ⟨n + 1, by rw [run, h1, hn]⟩

lemma Reaches.trans {m m1 m' : Machine δ} (h1 : Reaches conv legacy m m1)
    (h : Reaches conv legacy m1 m') : Reaches conv legacy m m' := by
  obtain ⟨n, rfl⟩ := h1
  obtain ⟨k, rfl⟩ := h
  exact ⟨n + k, run_add n k m⟩

variable (conv legacy)

/-- From any place where a value may start the parser goes through its text. -/
def PassesValue (s : List Jschar) (v : JsonValue δ) : Prop :=
  ∀ (p : Parser δ) (w t : List Jschar), Ws w → Follows t → p.rest = w ++ s ++ t →
    ∃ token rest', advance conv p.rest = some (token, rest') ∧ token ≠ .arrayClose ∧
      ∃ state, Reaches conv legacy (.running (.jsonValueSwitch token) (p.moveTo rest'))
        (.running .endOfLoop ⟨(w ++ s).reverse ++ p.before, t, state, p.stateStack,
          v :: p.valueStack⟩)

/-- The parser goes through the elements of an array up to the last of them. -/
def PassesElements (l : List Jschar) (elements : List (JsonValue δ)) : Prop :=
  ∀ (p : Parser δ) (t : List Jschar) (states : List ParserState) (values : List (JsonValue δ)),
    (∀ c ∈ t.head?, c = comma ∨ c = closeBracket) → p.rest = l ++ t →
    p.stateStack = .finishArrayElement :: states → p.valueStack = .array [] :: values →
    ∃ token rest', advance conv p.rest = some (token, rest') ∧ token ≠ .arrayClose ∧
      ∃ l' w elements' v, l = l' ++ w ∧ Ws w ∧ elements = elements' ++ [v] ∧
        pastValue (l'.reverse ++ p.before) = true ∧
        Reaches conv legacy (.running (.jsonValueSwitch token) (p.moveTo rest'))
          (.running (.case .finishArrayElement) ⟨l'.reverse ++ p.before, w ++ t,
            .finishArrayElement, states, v :: .array elements' :: values⟩)

/-- From any place where a member may start the parser goes through its text. -/
def PassesMember (m name : List Jschar) (v : JsonValue δ) : Prop :=
  ∀ (p : Parser δ) (t : List Jschar), (∀ c ∈ t.head?, c = comma ∨ c = closeBrace) →
    p.rest = m ++ t →
    ∃ w n rest', p.rest = w ++ n ++ rest' ∧ Ws w ∧ StringText n name ∧
      ∃ m' w', m = m' ++ w' ∧ Ws w' ∧ pastValue (m'.reverse ++ p.before) = true ∧
        Reaches conv legacy (.running (.jsonMember (.string name true)) (p.moveTo rest'))
          (.running (.case .finishObjectMember) ⟨m'.reverse ++ p.before, w' ++ t,
            .finishObjectMember, p.stateStack, v :: .string name :: p.valueStack⟩)

/-- The parser goes through the members of an object up to the last of them. -/
def PassesMembers (l : List Jschar) (members : List (List Jschar × JsonValue δ)) : Prop :=
  ∀ (p : Parser δ) (t : List Jschar) (values : List (JsonValue δ)),
    (∀ c ∈ t.head?, c = comma ∨ c = closeBrace) → p.rest = l ++ t →
    p.valueStack = objectOf [] :: values →
    ∃ w n first rest', p.rest = w ++ n ++ rest' ∧ Ws w ∧ StringText n first ∧
      ∃ l' w' members' name v, l = l' ++ w' ∧ Ws w' ∧ members = members' ++ [(name, v)] ∧
        pastValue (l'.reverse ++ p.before) = true ∧
        Reaches conv legacy (.running (.jsonMember (.string first true)) (p.moveTo rest'))
          (.running (.case .finishObjectMember) ⟨l'.reverse ++ p.before, w' ++ t,
            .finishObjectMember, p.stateStack, v :: .string name :: objectOf members' :: values⟩)

variable {conv legacy}

/-- A value that is one token. -/
lemma passesValue_token {s : List Jschar} {v : JsonValue δ} {token : Token δ}
    (hread : ∀ {w t}, Ws w → Follows t → advance conv (w ++ s ++ t) = some (token, t))
    (htoken : token ≠ .arrayClose)
    (hstep : ∀ p, jsonValueSwitch conv legacy token p = .running .endOfLoop (p.pushValue v)) :
    PassesValue conv legacy s v := by
  intro p w t hw ht hrest
  refine ⟨token, t, ?_, htoken, p.state, ?_⟩
  · rw [hrest]
    exact hread hw ht
  · rw [Parser.moveTo_eq hrest]
    exact .step (hstep _) (.refl _)

/-- After an element that is not the first. -/
lemma step_elementComma {before w rest : List Jschar} {state : ParserState}
    {states : List ParserState} {v : JsonValue δ} {elements values : List (JsonValue δ)}
    (hbefore : pastValue before = true) (hw : Ws w) :
    step conv legacy (.running (.case .finishArrayElement)
        ⟨before, w ++ comma :: rest, state, states, v :: .array elements :: values⟩) =
      .running (.case .jsonValue) ⟨(w ++ [comma]).reverse ++ before, rest, state,
        .finishArrayElement :: states, .array (elements ++ [v]) :: values⟩ := by
  simp only [step, finishArrayElement]
  rw [advanceAfterArrayElement_comma hbefore hw, Parser.take_eq (s := w ++ [comma]) (by simp)]
  rfl

lemma step_elementClose {before w rest : List Jschar} {state : ParserState}
    {states : List ParserState} {v : JsonValue δ} {elements values : List (JsonValue δ)}
    (hbefore : pastValue before = true) (hw : Ws w) :
    step conv legacy (.running (.case .finishArrayElement)
        ⟨before, w ++ closeBracket :: rest, state, states, v :: .array elements :: values⟩) =
      .running .endOfLoop ⟨(w ++ [closeBracket]).reverse ++ before, rest, state, states,
        .array (elements ++ [v]) :: values⟩ := by
  simp only [step, finishArrayElement]
  rw [advanceAfterArrayElement_close hbefore hw,
    Parser.take_eq (s := w ++ [closeBracket]) (by simp)]
  rfl

/-- The end of the loop's body takes a state from the stack. -/
lemma step_endOfLoop (before rest : List Jschar) (state s : ParserState)
    (states : List ParserState) (values : List (JsonValue δ)) :
    step conv legacy (.running .endOfLoop ⟨before, rest, state, s :: states, values⟩) =
      .running (.case s) ⟨before, rest, s, states, values⟩ := rfl

lemma PassesValue.one {w s w' : List Jschar} {v : JsonValue δ}
    (hs : PassesValue conv legacy s v) (hpast : ∀ before, pastValue (s.reverse ++ before) = true)
    (hw : Ws w) (hw' : Ws w') : PassesElements conv legacy (w ++ s ++ w') [v] := by
  intro p t states values ht hrest hstates hvalues
  have hfollows : Follows (w' ++ t) := by
    apply Follows.append hw'
    intro c hc
    rcases ht c hc with rfl | rfl
    · exact .inr (.inl rfl)
    · exact .inr (.inr (.inl rfl))
  obtain ⟨token, rest', hread, hne, state, hreach⟩ :=
    hs p w (w' ++ t) hw hfollows (by rw [hrest, append_assoc])
  refine ⟨token, rest', hread, hne, w ++ s, w', [], v, rfl, hw', rfl, ?_, ?_⟩
  · rw [reverse_append, append_assoc]
    exact hpast _
  · rw [hstates, hvalues] at hreach
    exact hreach.trans (.step (step_endOfLoop ..) (.refl _))

lemma PassesElements.more {l w s w' : List Jschar} {elements : List (JsonValue δ)}
    {v : JsonValue δ} (hl : PassesElements conv legacy l elements)
    (hs : PassesValue conv legacy s v) (hpast : ∀ before, pastValue (s.reverse ++ before) = true)
    (hw : Ws w) (hw' : Ws w') :
    PassesElements conv legacy (l ++ comma :: (w ++ s ++ w')) (elements ++ [v]) := by
  intro p t states values ht hrest hstates hvalues
  have hfollows : Follows (w' ++ t) := by
    apply Follows.append hw'
    intro c hc
    rcases ht c hc with rfl | rfl
    · exact .inr (.inl rfl)
    · exact .inr (.inr (.inl rfl))
  obtain ⟨token, rest', hread, hne, l', wl, elements', v', hsplit, hwl, helements, hbefore, hreach⟩ :=
    hl p (comma :: (w ++ s ++ (w' ++ t))) states values (fun c hc => by cases hc; exact .inl rfl)
      (by rw [hrest]; simp) hstates hvalues
  -- the comma is taken, and then the value
  obtain ⟨token2, rest2, hread2, _, state, hreach2⟩ :=
    hs ⟨(wl ++ [comma]).reverse ++ (l'.reverse ++ p.before), w ++ s ++ (w' ++ t),
      .finishArrayElement, .finishArrayElement :: states, .array (elements' ++ [v']) :: values⟩
      w (w' ++ t) hw hfollows rfl
  have hcase := hreach.trans (.step (step_elementComma hbefore hwl) (.step
    (by simp only [step]; rw [hread2]; rfl) (hreach2.trans (.step (step_endOfLoop ..) (.refl _)))))
  refine ⟨token, rest', hread, hne, l' ++ wl ++ comma :: (w ++ s), w', elements, v, ?_, hw', rfl,
    ?_, ?_⟩
  · rw [hsplit]
    simp
  · have hp := hpast ((l' ++ wl ++ comma :: w).reverse ++ p.before)
    simpa using hp
  · rw [helements]
    simpa using hcase

lemma passesValue_emptyArray {w : List Jschar} (hw : Ws w) :
    PassesValue conv legacy (openBracket :: (w ++ [closeBracket])) (.array []) := by
  intro p w0 t hw0 ht hrest
  refine ⟨.arrayOpen, w ++ closeBracket :: t, ?_, by simp, p.state, ?_⟩
  · rw [hrest, append_assoc, cons_append, append_assoc]
    exact advance_arrayOpen _ hw0
  · rw [Parser.moveTo_eq (s := w0 ++ [openBracket]) (by rw [hrest]; simp)]
    refine .step ?_ (.refl _)
    simp only [step, jsonValueSwitch, Parser.pushValue, Parser.skip]
    rw [advance_arrayClose t hw, Parser.take_eq (s := w ++ [closeBracket]) (by simp)]
    simp [Parser.skip]

/-- The first element of an array. -/
lemma step_arrayOpen {p : Parser δ} {token : Token δ} {rest : List Jschar}
    (hread : advance conv p.rest = some (token, rest)) (hne : token ≠ .arrayClose) :
    step conv legacy (.running (.jsonValueSwitch .arrayOpen) p) =
      .running (.jsonValueSwitch token)
        (((p.pushValue (.array [])).pushState .finishArrayElement).moveTo rest) := by
  have hread' : advance conv (p.pushValue (.array [])).rest = some (token, rest) := hread
  simp only [step, jsonValueSwitch]
  rw [hread', Parser.take]
  cases token with
  | arrayClose => exact absurd rfl hne
  | _ => rfl

lemma PassesElements.array {l : List Jschar} {elements : List (JsonValue δ)}
    (hl : PassesElements conv legacy l elements) :
    PassesValue conv legacy (openBracket :: (l ++ [closeBracket])) (.array elements) := by
  intro p w0 t hw0 ht hrest
  refine ⟨.arrayOpen, l ++ closeBracket :: t, ?_, by simp, .finishArrayElement, ?_⟩
  · rw [hrest, append_assoc, cons_append, append_assoc]
    exact advance_arrayOpen _ hw0
  · rw [Parser.moveTo_eq (s := w0 ++ [openBracket]) (by rw [hrest]; simp)]
    obtain ⟨token, rest', hread, hne, l', w', elements', v, rfl, hw', rfl, hpast, hreach⟩ :=
      hl (((p.skip (w0 ++ [openBracket]) (l ++ closeBracket :: t)).pushValue
          (.array [])).pushState .finishArrayElement) (closeBracket :: t) p.stateStack
        p.valueStack (fun c hc => by cases hc; exact .inr rfl) rfl rfl rfl
    have hclose := hreach.trans (.step (step_elementClose hpast hw') (.refl _))
    have hopen := Reaches.step (step_arrayOpen (p := p.skip (w0 ++ [openBracket]) _) hread hne) hclose
    simpa [Parser.pushState, Parser.pushValue, Parser.skip] using hopen

lemma step_arrayClose (before rest : List Jschar) (state : ParserState)
    (states : List ParserState) (values : List (JsonValue δ)) :
    step conv true (.running (.jsonValueSwitch .arrayClose)
        ⟨before, rest, state, .finishArrayElement :: states, values⟩) =
      .running .endOfLoop ⟨before, rest, state, states, values⟩ := rfl

/-- In legacy mode the array may end with a comma. -/
lemma PassesElements.arrayComma {l w : List Jschar} {elements : List (JsonValue δ)}
    (hl : PassesElements conv legacy l elements) (hlegacy : legacy = true) (hw : Ws w) :
    PassesValue conv legacy (openBracket :: (l ++ comma :: (w ++ [closeBracket])))
      (.array elements) := by
  subst hlegacy
  intro p w0 t hw0 ht hrest
  refine ⟨.arrayOpen, l ++ comma :: (w ++ closeBracket :: t), ?_, by simp, .finishArrayElement, ?_⟩
  · rw [hrest, append_assoc]
    simpa using advance_arrayOpen (l ++ comma :: (w ++ closeBracket :: t)) hw0
  · rw [Parser.moveTo_eq (s := w0 ++ [openBracket]) (by rw [hrest]; simp)]
    obtain ⟨token, rest', hread, hne, l', w', elements', v, rfl, hw', rfl, hpast, hreach⟩ :=
      hl (((p.skip (w0 ++ [openBracket]) (l ++ comma :: (w ++ closeBracket :: t))).pushValue
          (.array [])).pushState .finishArrayElement) (comma :: (w ++ closeBracket :: t))
        p.stateStack p.valueStack (fun c hc => by cases hc; exact .inl rfl) rfl rfl rfl
    have hbracket : step conv true (.running (.case .jsonValue)
        ⟨(w' ++ [comma]).reverse ++ (l'.reverse ++ (openBracket :: (w0.reverse ++ p.before))),
          w ++ closeBracket :: t, .finishArrayElement, .finishArrayElement :: p.stateStack,
          .array (elements' ++ [v]) :: p.valueStack⟩) =
        .running (.jsonValueSwitch .arrayClose)
          ⟨(w ++ [closeBracket]).reverse ++ ((w' ++ [comma]).reverse ++
            (l'.reverse ++ (openBracket :: (w0.reverse ++ p.before)))), t,
            .finishArrayElement, .finishArrayElement :: p.stateStack,
            .array (elements' ++ [v]) :: p.valueStack⟩ := by
      simp only [step]
      rw [advance_arrayClose t hw, Parser.take_eq (s := w ++ [closeBracket]) (by simp)]
      rfl
    have hclose := hreach.trans (.step (step_elementComma hpast hw') (.refl _))
    have hopen := Reaches.step (step_arrayOpen (p := p.skip (w0 ++ [openBracket]) _) hread hne) hclose
    have hend := hopen.trans (.step
      (by simpa [Parser.pushState, Parser.pushValue, Parser.skip] using hbracket)
      (.step (step_arrayClose ..) (.refl _)))
    simpa [Parser.pushState, Parser.pushValue, Parser.skip] using hend

variable (conv legacy)

/-- After the name of a member. -/
lemma step_memberName (before rest : List Jschar) {w : List Jschar} (hw : Ws w)
    (name : List Jschar) (state : ParserState) (states : List ParserState)
    (values : List (JsonValue δ)) :
    step conv legacy (.running (.jsonMember (.string name true))
        ⟨quote :: before, w ++ colon :: rest, state, states, values⟩) =
      .running (.case .jsonValue) ⟨(w ++ [colon]).reverse ++ quote :: before, rest, state,
        .finishObjectMember :: states, .string name :: values⟩ := by
  simp only [step, jsonMember, Bool.not_true, Bool.false_eq_true, if_false, Parser.pushValue]
  rw [advancePropertyColon_colon before hw, Parser.take_eq (s := w ++ [colon]) (by simp)]
  rfl

/-- After a member that is not the last. -/
lemma step_memberComma {before w w' n first : List Jschar} (rest name : List Jschar)
    (state : ParserState) (states : List ParserState) (v : JsonValue δ)
    (members : List (List Jschar × JsonValue δ)) (values : List (JsonValue δ)) (hbefore : pastValue before = true) (hw : Ws w) (hw' : Ws w')
    (hn : StringText n first) :
    step conv legacy (.running (.case .finishObjectMember)
        ⟨before, w ++ comma :: (w' ++ n ++ rest), state, states,
          v :: .string name :: objectOf members :: values⟩) =
      .running (.jsonMember (.string first true))
        ⟨(w' ++ n).reverse ++ ((w ++ [comma]).reverse ++ before), rest, state, states,
          objectOf (members ++ [(name, v)]) :: values⟩ := by
  simp only [step, finishObjectMember, objectOf]
  rw [advanceAfterProperty_comma hbefore hw, Parser.take_eq (s := w ++ [comma]) (by simp)]
  simp only [Parser.skip, reverse_append, reverse_singleton,
    cons_append]
  rw [advancePropertyName_name legacy _ hw' hn, Parser.take_eq (s := w' ++ n) rfl]
  simp [Parser.skip]

variable {conv legacy}

lemma step_memberClose {before w rest name : List Jschar} {state : ParserState}
    {states : List ParserState} {v : JsonValue δ} {members : List (List Jschar × JsonValue δ)}
    {values : List (JsonValue δ)} (hbefore : pastValue before = true) (hw : Ws w) :
    step conv legacy (.running (.case .finishObjectMember)
        ⟨before, w ++ closeBrace :: rest, state, states,
          v :: .string name :: objectOf members :: values⟩) =
      .running .endOfLoop ⟨(w ++ [closeBrace]).reverse ++ before, rest, state, states,
        objectOf (members ++ [(name, v)]) :: values⟩ := by
  simp only [step, finishObjectMember, objectOf]
  rw [advanceAfterProperty_close hbefore hw, Parser.take_eq (s := w ++ [closeBrace]) (by simp)]
  simp [Parser.skip]

/-- In legacy mode a comma may be the last thing in an object. -/
lemma step_memberCommaClose {before w w' rest name : List Jschar} {state : ParserState}
    {states : List ParserState} {v : JsonValue δ} {members : List (List Jschar × JsonValue δ)}
    {values : List (JsonValue δ)} (hbefore : pastValue before = true) (hw : Ws w) (hw' : Ws w') :
    step conv true (.running (.case .finishObjectMember)
        ⟨before, w ++ comma :: (w' ++ closeBrace :: rest), state, states,
          v :: .string name :: objectOf members :: values⟩) =
      .running (.jsonMember .objectClose)
        ⟨(w' ++ [closeBrace]).reverse ++ ((w ++ [comma]).reverse ++ before), rest, state, states,
          objectOf (members ++ [(name, v)]) :: values⟩ := by
  simp only [step, finishObjectMember, objectOf]
  rw [advanceAfterProperty_comma hbefore hw, Parser.take_eq (s := w ++ [comma]) (by simp)]
  simp only [Parser.skip, reverse_append, reverse_singleton,
    cons_append]
  rw [advancePropertyName_close _ hw', Parser.take_eq (s := w' ++ [closeBrace]) (by simp)]
  simp [Parser.skip]

lemma step_objectClose (before rest : List Jschar) (states : List ParserState)
    (values : List (JsonValue δ)) :
    step conv true (.running (.jsonMember .objectClose)
        ⟨before, rest, .finishObjectMember, states, values⟩) =
      .running .endOfLoop ⟨before, rest, .finishObjectMember, states, values⟩ := rfl

lemma StringText.last {n chars : List Jschar} (hn : StringText n chars) :
    ∃ more, n.reverse = quote :: more := by
  cases hn with
  | @mk body => exact ⟨(quote :: body).reverse, by simp⟩

lemma PassesValue.member {w1 n w2 w3 s w4 name : List Jschar} {v : JsonValue δ}
    (hs : PassesValue conv legacy s v) (hpast : ∀ before, pastValue (s.reverse ++ before) = true)
    (hw1 : Ws w1) (hn : StringText n name) (hw2 : Ws w2) (hw3 : Ws w3) (hw4 : Ws w4) :
    PassesMember conv legacy (w1 ++ n ++ w2 ++ colon :: (w3 ++ s ++ w4)) name v := by
  intro p t ht hrest
  have hfollows : Follows (w4 ++ t) := by
    apply Follows.append hw4
    intro c hc
    rcases ht c hc with rfl | rfl
    · exact .inr (.inl rfl)
    · exact .inr (.inr (.inr rfl))
  obtain ⟨more, hmore⟩ := hn.last
  have hsplit : p.rest = w1 ++ n ++ (w2 ++ colon :: (w3 ++ s ++ (w4 ++ t))) := by
    rw [hrest]
    simp
  refine ⟨w1, n, _, hsplit, hw1, hn, w1 ++ n ++ w2 ++ colon :: (w3 ++ s), w4, by simp, hw4, ?_, ?_⟩
  · have hp := hpast ((w1 ++ n ++ w2 ++ colon :: w3).reverse ++ p.before)
    simpa using hp
  · rw [Parser.moveTo_eq hsplit, Parser.skip, reverse_append, hmore]
    have hname := step_memberName conv legacy (more ++ (w1.reverse ++ p.before)) (w3 ++ s ++ (w4 ++ t)) hw2 name p.state p.stateStack
      p.valueStack
    obtain ⟨token, rest', hread, _, state, hreach⟩ :=
      hs ⟨(w2 ++ [colon]).reverse ++ quote :: (more ++ (w1.reverse ++ p.before)),
        w3 ++ s ++ (w4 ++ t), p.state, .finishObjectMember :: p.stateStack,
        .string name :: p.valueStack⟩ w3 (w4 ++ t) hw3 hfollows rfl
    have hcase := Reaches.step hname (.step (by simp only [step]; rw [hread]; rfl)
      (hreach.trans (.step (step_endOfLoop ..) (.refl _))))
    simpa [hmore] using hcase

lemma PassesMember.one {m name : List Jschar} {v : JsonValue δ}
    (hm : PassesMember conv legacy m name v) : PassesMembers conv legacy m [(name, v)] := by
  intro p t values ht hrest hvalues
  obtain ⟨w, n, rest', hsplit, hw, hn, m', w', hm', hw', hpast, hreach⟩ := hm p t ht hrest
  rw [hvalues] at hreach
  exact ⟨w, n, name, rest', hsplit, hw, hn, m', w', [], name, v, hm', hw', rfl, hpast, hreach⟩

lemma PassesMembers.more {l m name : List Jschar} {members : List (List Jschar × JsonValue δ)}
    {v : JsonValue δ} (hl : PassesMembers conv legacy l members)
    (hm : PassesMember conv legacy m name v) :
    PassesMembers conv legacy (l ++ comma :: m) (members ++ [(name, v)]) := by
  intro p t values ht hrest hvalues
  obtain ⟨w, n, first, rest', hsplit, hw, hn, l', w', members', name', v', hl', hw', hmembers,
      hpast, hreach⟩ :=
    hl p (comma :: (m ++ t)) values (fun c hc => by cases hc; exact .inl rfl)
      (by rw [hrest]; simp) hvalues
  -- the comma is taken, and then the member
  obtain ⟨w2, n2, rest2, hsplit2, hw2, hn2, m', wm, hm', hwm, hpast2, hreach2⟩ :=
    hm ⟨(w' ++ [comma]).reverse ++ (l'.reverse ++ p.before), m ++ t, .finishObjectMember,
      p.stateStack, objectOf (members' ++ [(name', v')]) :: values⟩ t ht rfl
  have hcomma := step_memberComma conv legacy rest2 name' .finishObjectMember p.stateStack v' members'
    values hpast hw' hw2 hn2
  rw [Parser.moveTo_eq hsplit2] at hreach2
  simp only at hsplit2
  rw [hsplit2] at hreach
  have hcase := hreach.trans (.step hcomma hreach2)
  refine ⟨w, n, first, rest', hsplit, hw, hn, l' ++ w' ++ comma :: m', wm, members, name, v, ?_,
    hwm, rfl, ?_, ?_⟩
  · rw [hl', hm']
    simp
  · simpa using hpast2
  · rw [hmembers]
    simpa using hcase

lemma passesValue_emptyObject {w : List Jschar} (hw : Ws w) :
    PassesValue conv legacy (openBrace :: (w ++ [closeBrace])) (objectOf []) := by
  intro p w0 t hw0 ht hrest
  refine ⟨.objectOpen, w ++ closeBrace :: t, ?_, by simp, p.state, ?_⟩
  · rw [hrest, append_assoc, cons_append, append_assoc]
    exact advance_objectOpen _ hw0
  · rw [Parser.moveTo_eq (s := w0 ++ [openBrace]) (by rw [hrest]; simp)]
    refine .step ?_ (.refl _)
    simp only [step, jsonValueSwitch, Parser.pushValue, Parser.skip, reverse_append,
      reverse_singleton, cons_append]
    rw [advanceAfterObjectOpen_close _ hw, Parser.take_eq (s := w ++ [closeBrace]) (by simp)]
    simp [Parser.skip, objectOf]

variable (conv legacy) in
/-- The first member of an object. -/
lemma step_objectOpen (before rest : List Jschar) {w n first : List Jschar} (hw : Ws w)
    (hn : StringText n first) (state : ParserState) (states : List ParserState)
    (values : List (JsonValue δ)) :
    step conv legacy (.running (.jsonValueSwitch .objectOpen)
        ⟨openBrace :: before, w ++ n ++ rest, state, states, values⟩) =
      .running (.jsonMember (.string first true))
        ⟨(w ++ n).reverse ++ openBrace :: before, rest, state, states,
          objectOf [] :: values⟩ := by
  simp only [step, jsonValueSwitch, Parser.pushValue]
  rw [advanceAfterObjectOpen_name before hw hn, Parser.take_eq (s := w ++ n) rfl]
  rfl

lemma PassesMembers.object {l : List Jschar} {members : List (List Jschar × JsonValue δ)}
    (hl : PassesMembers conv legacy l members) :
    PassesValue conv legacy (openBrace :: (l ++ [closeBrace])) (objectOf members) := by
  intro p w0 t hw0 ht hrest
  refine ⟨.objectOpen, l ++ closeBrace :: t, ?_, by simp, .finishObjectMember, ?_⟩
  · rw [hrest, append_assoc, cons_append, append_assoc]
    exact advance_objectOpen _ hw0
  · rw [Parser.moveTo_eq (s := w0 ++ [openBrace]) (by rw [hrest]; simp)]
    obtain ⟨w, n, first, rest', hsplit, hw, hn, l', w', members', name, v, rfl, hw', rfl, hpast,
        hreach⟩ :=
      hl ⟨openBrace :: (w0.reverse ++ p.before), l ++ closeBrace :: t, p.state, p.stateStack,
        objectOf [] :: p.valueStack⟩ (closeBrace :: t) p.valueStack
        (fun c hc => by cases hc; exact .inr rfl) rfl rfl
    rw [Parser.moveTo_eq hsplit] at hreach
    simp only at hsplit
    have hopen := Reaches.step (step_objectOpen conv legacy
      (w0.reverse ++ p.before) rest' hw hn p.state p.stateStack p.valueStack)
      (hreach.trans (.step (step_memberClose hpast hw') (.refl _)))
    rw [← hsplit] at hopen
    simpa [Parser.skip] using hopen

/-- In legacy mode the object may end with a comma. -/
lemma PassesMembers.objectComma {l w : List Jschar}
    {members : List (List Jschar × JsonValue δ)} (hl : PassesMembers conv legacy l members)
    (hlegacy : legacy = true) (hws : Ws w) :
    PassesValue conv legacy (openBrace :: (l ++ comma :: (w ++ [closeBrace])))
      (objectOf members) := by
  subst hlegacy
  intro p w0 t hw0 ht hrest
  refine ⟨.objectOpen, l ++ comma :: (w ++ closeBrace :: t), ?_, by simp, .finishObjectMember, ?_⟩
  · rw [hrest, append_assoc]
    simpa using advance_objectOpen (l ++ comma :: (w ++ closeBrace :: t)) hw0
  · rw [Parser.moveTo_eq (s := w0 ++ [openBrace]) (by rw [hrest]; simp)]
    obtain ⟨w1, n, first, rest', hsplit, hw1, hn, l', w', members', name, v, rfl, hw', rfl, hpast,
        hreach⟩ :=
      hl ⟨openBrace :: (w0.reverse ++ p.before), l ++ comma :: (w ++ closeBrace :: t), p.state,
        p.stateStack, objectOf [] :: p.valueStack⟩ (comma :: (w ++ closeBrace :: t)) p.valueStack
        (fun c hc => by cases hc; exact .inl rfl) rfl rfl
    rw [Parser.moveTo_eq hsplit] at hreach
    simp only at hsplit
    have hopen := Reaches.step (step_objectOpen conv true
      (w0.reverse ++ p.before) rest' hw1 hn p.state p.stateStack p.valueStack)
      (hreach.trans (.step (step_memberCommaClose hpast hw' hws)
        (.step (step_objectClose ..) (.refl _))))
    rw [← hsplit] at hopen
    simpa [Parser.skip] using hopen

/-! Induction on the derivation of the sentence. -/

mutual

lemma ValueText.passes {s : List Jschar} {v : JsonValue δ} :
    ValueText conv legacy s v → PassesValue conv legacy s v
  | .null => passesValue_token (fun hw _ => advance_null _ hw) (by simp) fun _ => rfl
  | .true => passesValue_token (fun hw _ => advance_true _ hw) (by simp) fun _ => rfl
  | .false => passesValue_token (fun hw _ => advance_false _ hw) (by simp) fun _ => rfl
  | .string hs => passesValue_token (fun hw _ => advance_string hw hs) (by simp) fun _ => rfl
  | .number hs =>
    passesValue_token (fun hw ht => advance_number hw hs ht.stops) (by simp) fun _ => rfl
  | .emptyArray hw => passesValue_emptyArray hw
  | .array hs => hs.passes.array
  | .arrayComma hlegacy hs hw => hs.passes.arrayComma hlegacy hw
  | .emptyObject hw => passesValue_emptyObject hw
  | .object hs => hs.passes.object
  | .objectComma hlegacy hs hw => hs.passes.objectComma hlegacy hw

lemma ElementsText.passes {l : List Jschar} {elements : List (JsonValue δ)} :
    ElementsText conv legacy l elements → PassesElements conv legacy l elements
  | .one hw hs hw' => hs.passes.one (pastValue_of_text hs) hw hw'
  | .more hl hw hs hw' => hl.passes.more hs.passes (pastValue_of_text hs) hw hw'

lemma MembersText.passes {l : List Jschar} {members : List (List Jschar × JsonValue δ)} :
    MembersText conv legacy l members → PassesMembers conv legacy l members
  | .one hm => hm.passes.one
  | .more hl hm => hl.passes.more hm.passes

lemma MemberText.passes {m name : List Jschar} {v : JsonValue δ} :
    MemberText conv legacy m name v → PassesMember conv legacy m name v
  | .mk hw1 hn hw2 hw3 hs hw4 => hs.passes.member (pastValue_of_text hs) hw1 hn hw2 hw3 hw4

end

lemma start_reaches {text : List Jschar} {v : JsonValue δ} (h : JsonText conv legacy text v) :
    Reaches conv legacy (start text) (.accepted v) := by
  obtain ⟨w, s, w', hw, hs, hw', rfl⟩ := h
  have hfollows : Follows w' := by
    have happend := Follows.append hw' (t := []) fun c hc => by cases hc
    rwa [append_nil] at happend
  obtain ⟨token, rest', hread, _, state, hreach⟩ :=
    hs.passes ⟨[], w ++ s ++ w', .jsonValue, [], []⟩ w w' hw hfollows rfl
  have hend : step conv legacy (.running .endOfLoop
      ⟨(w ++ s).reverse ++ [], w', state, [], [v]⟩) = .accepted v := by
    have hskip : w'.dropWhile isJSONWhitespace = [] := by
      rw [dropWhile_eq_nil_iff]
      exact fun c hc => (isJSONWhitespace_iff c).mpr (hw' c hc)
    simp only [step, endOfLoop, hskip, ne_eq, not_true_eq_false, if_false]
  have hstart : step conv legacy (start (w ++ s ++ w')) = .running (.jsonValueSwitch token)
      (Parser.moveTo ⟨[], w ++ s ++ w', .jsonValue, [], []⟩ rest') := by
    simp only [step, start]
    rw [hread]
    rfl
  exact .step hstart (hreach.trans (.step hend (.refl _)))

/-! ## Every text is read to an end -/

/-- Errors need not take anything of the text. -/
def Token.weight : Token δ → Nat
  | .error _ => 0
  | _ => 1

def Label.rank : Label δ → Nat
  | .case _ => 1
  | .jsonMember token => 3 * token.weight
  | .jsonValueSwitch token => 3 * token.weight
  | .endOfLoop => 2

def Machine.measure : Machine δ → Nat
  | .running label p => 4 * p.rest.length + label.rank + 1
  | _ => 0

lemma TokenText.weight_le {token : Token δ} {s : List Jschar} (hs : TokenText conv token s) :
    token.weight ≤ s.length := by
  cases hs with
  | string _ hs =>
    obtain ⟨after, rfl⟩ := hs.head
    exact Nat.le_add_left 1 _
  | number hs =>
    obtain ⟨c, after, rfl, _⟩ := hs.head
    exact Nat.le_add_left 1 _
  | true => exact (by decide : 1 ≤ (asciiChars "true").length)
  | false => exact (by decide : 1 ≤ (asciiChars "false").length)
  | null => exact (by decide : 1 ≤ (asciiChars "null").length)
  | error => exact Nat.zero_le _
  | _ => exact Nat.le_refl 1

lemma Lexes.length {rest rest' : List Jschar} {token : Token δ}
    (h : Lexes conv rest token rest') : rest'.length + token.weight ≤ rest.length := by
  obtain ⟨w, s, _, hs, rfl⟩ := h
  have hweight := hs.weight_le
  simp only [length_append]
  omega

/-- What is read takes something of the text, unless it is an error. -/
def Takes (read : Read δ) (rest : List Jschar) : Prop :=
  ∀ token rest', read = some (token, rest') → rest'.length + token.weight ≤ rest.length

lemma takes_of_spec {read : Read δ} {rest : List Jschar} {P : Token δ → Prop} (check : Bool)
    (hspec : check = true → ∃ token rest', read = some (token, rest') ∧
      Lexes conv rest token rest' ∧ P token)
    (hnone : check = false → read = none) : Takes read rest := by
  intro token rest' hread
  cases check with
  | false =>
    rw [hnone rfl] at hread
    cases hread
  | true =>
    obtain ⟨token', rest'', hread', hlexes, _⟩ := hspec rfl
    rw [hread] at hread'
    cases hread'
    exact hlexes.length

lemma advance_takes (rest : List Jschar) : Takes (advance conv rest) rest := by
  intro token rest' hread
  obtain ⟨token', rest'', hread', hlexes⟩ := advance_spec conv rest
  rw [hread] at hread'
  cases hread'
  exact hlexes.length

lemma advanceAfterObjectOpen_takes (conv : Conversion δ) (before rest : List Jschar) :
    Takes (advanceAfterObjectOpen (δ := δ) before rest) rest :=
  takes_of_spec (before1 before openBrace) (advanceAfterObjectOpen_spec conv rest) fun hcheck => by
    rw [advanceAfterObjectOpen, hcheck]
    rfl

lemma advanceAfterArrayElement_takes (conv : Conversion δ) (before rest : List Jschar) :
    Takes (advanceAfterArrayElement (δ := δ) before rest) rest :=
  takes_of_spec (pastValue before) (advanceAfterArrayElement_spec conv rest) fun hcheck => by
    rw [advanceAfterArrayElement, hcheck]
    rfl

lemma advancePropertyName_takes (conv : Conversion δ) (legacy : Bool)
    (before rest : List Jschar) :
    Takes (advancePropertyName (δ := δ) legacy before rest) rest :=
  takes_of_spec (before1 before comma) (advancePropertyName_spec conv legacy rest) fun hcheck => by
    rw [advancePropertyName, hcheck]
    rfl

lemma advancePropertyColon_takes (conv : Conversion δ) (before rest : List Jschar) :
    Takes (advancePropertyColon (δ := δ) before rest) rest :=
  takes_of_spec (before1 before quote) (advancePropertyColon_spec conv rest) fun hcheck => by
    rw [advancePropertyColon, hcheck]
    rfl

lemma advanceAfterProperty_takes (conv : Conversion δ) (before rest : List Jschar) :
    Takes (advanceAfterProperty (δ := δ) before rest) rest :=
  takes_of_spec (pastValue before) (advanceAfterProperty_spec conv rest) fun hcheck => by
    rw [advanceAfterProperty, hcheck]
    rfl

lemma Parser.take_measure {p : Parser δ} {read : Read δ} {next : Token δ → Parser δ → Machine δ}
    {k : Nat} (hread : Takes read p.rest) (hk : 0 < k)
    (hnext : ∀ token p', p'.rest.length + token.weight ≤ p.rest.length →
      (next token p').measure < k) : (p.take read next).measure < k := by
  cases hr : read with
  | none => exact hk
  | some r => exact hnext r.1 (p.moveTo r.2) (hread r.1 r.2 hr)

lemma finishObjectMember_measure (conv : Conversion δ) (p : Parser δ) :
    (finishObjectMember legacy p).measure < 4 * p.rest.length + 2 := by
  unfold finishObjectMember
  split
  · refine Parser.take_measure (advanceAfterProperty_takes conv _ _) (by omega) ?_
    intro token p1 hp1
    cases token with
    | objectClose =>
      simp only [Machine.measure, Label.rank]
      simp only [Token.weight] at hp1
      omega
    | comma =>
      refine Parser.take_measure (advancePropertyName_takes conv _ _ _) (by omega) ?_
      intro token p2 hp2
      simp only [Machine.measure, Label.rank]
      simp only [Token.weight] at hp1
      omega
    | _ => exact Nat.succ_pos _
  · exact Nat.succ_pos _

lemma finishArrayElement_measure (conv : Conversion δ) (p : Parser δ) :
    (finishArrayElement p).measure < 4 * p.rest.length + 2 := by
  unfold finishArrayElement
  split
  · refine Parser.take_measure (advanceAfterArrayElement_takes conv _ _) (by omega) ?_
    intro token p1 hp1
    cases token with
    | comma =>
      simp only [Machine.measure, Label.rank, Parser.pushState]
      simp only [Token.weight] at hp1
      omega
    | arrayClose =>
      simp only [Machine.measure, Label.rank]
      simp only [Token.weight] at hp1
      omega
    | _ => exact Nat.succ_pos _
  · exact Nat.succ_pos _

lemma jsonMember_measure (conv : Conversion δ) (token : Token δ) (p : Parser δ) :
    (jsonMember legacy token p).measure < 4 * p.rest.length + 3 * token.weight + 1 := by
  cases token with
  | string name atom =>
    cases atom with
    | false => exact Nat.succ_pos _
    | true =>
      simp only [jsonMember, Bool.not_true, Bool.false_eq_true, if_false]
      refine Parser.take_measure (advancePropertyColon_takes conv _ _) (by omega) ?_
      intro token p1 hp1
      simp only [Parser.pushValue] at hp1
      cases token with
      | colon =>
        simp only [Machine.measure, Label.rank, Parser.pushState, Token.weight]
        simp only [Token.weight] at hp1
        omega
      | _ => exact Nat.succ_pos _
  | objectClose =>
    simp only [jsonMember]
    split_ifs
    · simp only [Machine.measure, Label.rank, Token.weight]
      omega
    · exact Nat.succ_pos _
  | _ => exact Nat.succ_pos _

lemma jsonValueSwitch_measure (token : Token δ) (p : Parser δ) :
    (jsonValueSwitch conv legacy token p).measure <
      4 * p.rest.length + 3 * token.weight + 1 := by
  cases token with
  | string | number | true | false | null =>
    simp only [jsonValueSwitch, Machine.measure, Label.rank, Parser.pushValue, Token.weight]
    omega
  | arrayOpen =>
    simp only [jsonValueSwitch]
    refine Parser.take_measure (advance_takes _) (by omega) ?_
    intro token p1 hp1
    simp only [Parser.pushValue] at hp1
    have hnext : (Machine.running (.jsonValueSwitch token)
        (p1.pushState .finishArrayElement)).measure < 4 * p.rest.length + 3 * 1 + 1 := by
      simp only [Machine.measure, Label.rank, Parser.pushState]
      omega
    cases token with
    | arrayClose =>
      simp only [Machine.measure, Label.rank, Token.weight]
      simp only [Token.weight] at hp1
      omega
    | _ => exact hnext
  | objectOpen =>
    simp only [jsonValueSwitch]
    refine Parser.take_measure (advanceAfterObjectOpen_takes conv _ _) (by omega) ?_
    intro token p1 hp1
    simp only [Parser.pushValue] at hp1
    have hnext : (Machine.running (.jsonMember token) p1).measure <
        4 * p.rest.length + 3 * 1 + 1 := by
      simp only [Machine.measure, Label.rank]
      omega
    cases token with
    | objectClose =>
      simp only [Machine.measure, Label.rank, Token.weight]
      simp only [Token.weight] at hp1
      omega
    | _ => exact hnext
  | arrayClose =>
    simp only [jsonValueSwitch]
    split_ifs
    · split
      · simp only [Machine.measure, Label.rank, Token.weight]
        omega
      · exact Nat.succ_pos _
    · exact Nat.succ_pos _
  | _ => exact Nat.succ_pos _

variable (conv legacy) in
lemma step_measure (label : Label δ) (p : Parser δ) :
    (step conv legacy (.running label p)).measure < (Machine.running label p).measure := by
  cases label with
  | case state =>
    cases state with
    | finishArrayElement => exact finishArrayElement_measure conv p
    | finishObjectMember => exact finishObjectMember_measure conv p
    | jsonValue =>
      refine Parser.take_measure (advance_takes _) (by simp [Machine.measure]) ?_
      intro token p1 hp1
      simp only [Machine.measure, Label.rank]
      cases token <;> simp only [Token.weight] at hp1 ⊢ <;> omega
  | jsonMember token => exact jsonMember_measure conv token p
  | jsonValueSwitch token => exact jsonValueSwitch_measure token p
  | endOfLoop =>
    simp only [step, endOfLoop]
    split
    · simp only [Machine.measure, Label.rank]
      omega
    · split_ifs
      · exact Nat.succ_pos _
      · split
        · exact Nat.succ_pos _
        · exact Nat.succ_pos _

lemma run_of_step_eq {m : Machine δ} (hm : step conv legacy m = m) (n : Nat) :
    run conv legacy n m = m := by
  induction n with
  | zero => rfl
  | succ n ih => rw [run, hm, ih]

variable (conv legacy) in
lemma run_halts (m : Machine δ) :
    ∃ m', m'.measure = 0 ∧ ∀ n, m.measure ≤ n → run conv legacy n m = m' := by
  induction hk : m.measure using Nat.strongRecOn generalizing m with
  | ind k ih =>
    cases m with
    | running label p =>
      have hstep := step_measure conv legacy label p
      rw [hk] at hstep
      obtain ⟨m', hm', hrun⟩ := ih _ hstep _ rfl
      refine ⟨m', hm', fun n hn => ?_⟩
      cases n with
      | zero => omega
      | succ n =>
        rw [run]
        exact hrun n (by omega)
    | accepted v => exact ⟨_, rfl, fun n _ => run_of_step_eq rfl n⟩
    | rejected msg => exact ⟨_, rfl, fun n _ => run_of_step_eq rfl n⟩
    | asserted => exact ⟨_, rfl, fun n _ => run_of_step_eq rfl n⟩

/-- On every text `parse` comes to an end and reaches no assertion and no empty stack on the way.
It produces a value just when the text is a sentence, and then the value that it denotes; on any
other text the result is `undefined`. -/
theorem parse_iff (conv : Conversion δ) (legacy : Bool) (text : List Jschar) :
    ∃ m, (∃ n₀, ∀ n, n₀ ≤ n → run conv legacy n (start text) = m) ∧
      (∀ n, run conv legacy n (start text) ≠ .asserted) ∧
      (∀ v, m = .accepted v ↔ JsonText conv legacy text v) ∧
      ((∀ v, ¬JsonText conv legacy text v) → ∃ msg, m = .rejected msg ∧ m.vp = none) := by
  obtain ⟨m, hm, hrun⟩ := run_halts conv legacy (start text)
  have hvalid : Valid conv legacy text m := by
    rw [← hrun _ (Nat.le_refl _)]
    exact run_valid _ (start_valid text)
  have hiff : ∀ v, m = .accepted v ↔ JsonText conv legacy text v := by
    intro v
    constructor
    · rintro rfl
      exact hvalid
    · intro htext
      obtain ⟨n, hn⟩ := start_reaches htext
      rw [← hrun (n + (start text : Machine δ).measure) (Nat.le_add_left _ _), run_add, hn]
      exact run_of_step_eq rfl _
  refine ⟨m, ⟨_, hrun⟩, ?_, hiff, ?_⟩
  · intro n hasserted
    have hn : Valid conv legacy text (run conv legacy n (start text)) :=
      run_valid n (start_valid text)
    rw [hasserted] at hn
    exact hn
  · intro hnone
    cases m with
    | running label p => exact absurd hm (Nat.succ_ne_zero _)
    | accepted v => exact absurd ((hiff v).mp rfl) (hnone v)
    | rejected msg => exact ⟨msg, rfl, rfl⟩
    | asserted => exact absurd hvalid id

/-! ## Legacy mode -/

mutual

lemma ValueText.lenient {s v} : ValueText conv legacy s v → ValueText conv true s v
  | .null => .null
  | .true => .true
  | .false => .false
  | .string hs => .string hs
  | .number hs => .number hs
  | .emptyArray hw => .emptyArray hw
  | .array hs => .array hs.lenient
  | .arrayComma _ hs hw => .arrayComma rfl hs.lenient hw
  | .emptyObject hw => .emptyObject hw
  | .object hs => .object hs.lenient
  | .objectComma _ hs hw => .objectComma rfl hs.lenient hw

lemma ElementsText.lenient {l vs} : ElementsText conv legacy l vs → ElementsText conv true l vs
  | .one hw hs hw' => .one hw hs.lenient hw'
  | .more hl hw hs hw' => .more hl.lenient hw hs.lenient hw'

lemma MembersText.lenient {l ms} : MembersText conv legacy l ms → MembersText conv true l ms
  | .one hm => .one hm.lenient
  | .more hl hm => .more hl.lenient hm.lenient

lemma MemberText.lenient {m name v} :
    MemberText conv legacy m name v → MemberText conv true m name v
  | .mk hw1 hn hw2 hw3 hs hw4 => .mk hw1 hn hw2 hw3 hs.lenient hw4

end

/-- A text with a value in either mode has that value in legacy mode. -/
theorem run_legacy {text : List Jschar} {v : JsonValue δ} {n : ℕ}
    (h : run conv legacy n (start text) = .accepted v) :
    ∃ n₀, ∀ n, n₀ ≤ n → run conv true n (start text) = .accepted v := by
  have hvalid : Valid conv legacy text _ := run_valid n (start_valid text)
  rw [h] at hvalid
  obtain ⟨w, s, w', hw, hs, hw', htext⟩ := hvalid
  obtain ⟨n₀, hrun⟩ := start_reaches ⟨w, s, w', hw, hs.lenient, hw', htext⟩
  refine ⟨n₀, fun n hn => ?_⟩
  obtain ⟨k, rfl⟩ := Nat.exists_eq_add_of_le hn
  rw [run_add, hrun]
  exact run_of_step_eq rfl k

theorem run_legacy_one : ∃ n₀, ∀ n, n₀ ≤ n → run .text true n (start (asciiChars "[1]")) =
    .accepted (.array [.number (false, asciiChars "1")]) :=
  run_legacy (show run .text false 20 (start _) = _ from rfl)

end

end SpiderMonkey.Json
