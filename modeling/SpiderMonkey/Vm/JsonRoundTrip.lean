import SpiderMonkey.Vm.JsonParserCompleteness
import SpiderMonkey.Vm.JsonStringify

/-! # Reading back the JSON that was written

What `Str` writes for JSON data is a text of the strict grammar that denotes the data, so `parse`
reads it back.
-/

namespace SpiderMonkey.Json

open List

section

variable {δ : Type}

/-! ## Strings -/

lemma isQuoteSpecialCharacter_eq (c : Jschar) : isQuoteSpecialCharacter c = !isPlain c := by
  have hcontrol : c < 32 ↔ c ≤ 0x1F := by
    rw [UInt16.lt_iff_toNat_lt, UInt16.le_iff_toNat_le]
    exact Nat.lt_succ_iff
  simp only [isQuoteSpecialCharacter, isPlain, hcontrol, Bool.not_not]

/-- The digits of the control characters. -/
lemma controlDigits (n : Fin 32) :
    let c : Jschar := UInt16.ofNat n.val
    let h3 := (48 : Jschar) + c >>> 4
    let h4 := if c % 16 < 10 then 48 + c % 16 else 97 + (c % 16 - 10)
    c >>> 4 < 10 ∧ isHex h3 = true ∧ isHex h4 = true ∧
      UInt16.ofNat (4096 * 0 + 256 * 0 + 16 * (unHex h3).toNat + (unHex h4).toNat) = c := by
  decide +revert

lemma quoteEscape_spec {c : Jschar} (hc : isQuoteSpecialCharacter c = true) :
    ∃ e, quoteEscape c = some e ∧
      ∀ s chars, StringChars s chars → StringChars (e ++ s) (c :: chars) := by
  unfold quoteEscape
  by_cases hquote : (decide (c = quote) || decide (c = backslash)) = true
  · rw [if_pos hquote]
    rw [Bool.or_eq_true, decide_eq_true_iff, decide_eq_true_iff] at hquote
    refine ⟨_, rfl, fun s chars hs => ?_⟩
    rcases hquote with rfl | rfl
    · exact .escape .quote hs
    · exact .escape .backslash hs
  rw [if_neg hquote]
  by_cases hletter : (decide (c = 8) || decide (c = 12) || decide (c = 10) || decide (c = 13) ||
      decide (c = 9)) = true
  · rw [if_pos hletter]
    simp only [Bool.or_eq_true, decide_eq_true_iff] at hletter
    refine ⟨_, rfl, fun s chars hs => ?_⟩
    rcases hletter with (((rfl | rfl) | rfl) | rfl) | rfl
    · exact .escape .backspace hs
    · exact .escape .formFeed hs
    · exact .escape .lineFeed hs
    · exact .escape .carriageReturn hs
    · exact .escape .tab hs
  rw [if_neg hletter]
  have hlt : c < 32 := by
    simp only [isQuoteSpecialCharacter, Bool.or_eq_true, decide_eq_true_iff] at hc hquote
    exact hc.resolve_left hquote
  have hdigits := controlDigits ⟨c.toNat, UInt16.lt_iff_toNat_lt.mp hlt⟩
  simp only [UInt16.ofNat_toNat] at hdigits
  obtain ⟨hshift, hh3, hh4, hvalue⟩ := hdigits
  rw [if_neg (not_not_intro hlt), if_neg (not_not_intro hshift)]
  refine ⟨_, rfl, fun s chars hs => ?_⟩
  have hzero : HexDigit 48 0 := .decimal (by decide) (by decide)
  have hunicode := StringChars.unicode hzero hzero ((hexDigit_iff _ _).mpr ⟨hh3, rfl⟩)
    ((hexDigit_iff _ _).mpr ⟨hh4, rfl⟩) hs
  rw [hvalue] at hunicode
  exact hunicode

lemma batch_plain (buf : List Jschar) :
    (buf.takeWhile fun c => !isQuoteSpecialCharacter c).all isPlain = true := by
  rw [all_eq_true]
  intro c hc
  have hplain := mem_takeWhile_imp hc
  rwa [isQuoteSpecialCharacter_eq, Bool.not_not] at hplain

lemma quoteLoop_spec (buf : List Jschar) :
    ∃ out, quoteLoop buf = some out ∧ StringChars out buf := by
  fun_induction quoteLoop buf with
  | case1 => exact ⟨[], rfl, .nil⟩
  | case2 c rest batch hdrop =>
    refine ⟨batch, rfl, ?_⟩
    have hsplit : batch = c :: rest := by
      have happend := takeWhile_append_dropWhile (p := fun c => !isQuoteSpecialCharacter c)
        (l := c :: rest)
      rwa [hdrop, append_nil] at happend
    have hplain : batch.all isPlain = true := batch_plain (c :: rest)
    have hbatch := StringChars.nil.append_plain hplain
    rw [append_nil] at hbatch
    rwa [hsplit] at hbatch ⊢
  | case3 c rest batch special rest' hdrop ih =>
    obtain ⟨out, hout, hs⟩ := ih
    have hspecial : isQuoteSpecialCharacter special = true := by
      have hhead := List.head?_dropWhile_not (fun c => !isQuoteSpecialCharacter c) (c :: rest)
      rw [hdrop] at hhead
      simpa using hhead
    obtain ⟨e, he, hescape⟩ := quoteEscape_spec hspecial
    have hplain := batch_plain (c :: rest)
    have hsplit : batch ++ special :: rest' = c :: rest := by
      rw [← hdrop]
      exact takeWhile_append_dropWhile
    refine ⟨batch ++ e ++ out, by rw [he, hout]; rfl, ?_⟩
    rw [← hsplit, append_assoc]
    exact (hescape out rest' hs).append_plain hplain

lemma quoted_spec (buf : List Jschar) : ∃ out, quoted buf = some out ∧ StringText out buf := by
  obtain ⟨out, hout, hs⟩ := quoteLoop_spec buf
  refine ⟨[quote] ++ out ++ [quote], by rw [quoted, hout]; rfl, ?_⟩
  exact .mk hs

/-! ## Values -/

mutual

/-- JSON data as what `Str` is given. -/
def ofJson : JsonValue δ → StrValue δ
  | .null => .null
  | .boolean b => .boolean b
  | .number d => .number d
  | .string chars => .string chars
  | .array elements => .array (ofElements elements)
  | .object members => .object (ofMembers members)

def ofElements : List (JsonValue δ) → List (StrValue δ)
  | [] => []
  | v :: rest => ofJson v :: ofElements rest

def ofMembers : List (List Jschar × JsonValue δ) → List (List Jschar × StrValue δ)
  | [] => []
  | (name, v) :: rest => (name, ofJson v) :: ofMembers rest

end

/-- The numbers are such, and the names in each object are distinct. -/
inductive Tree (number : δ → Prop) : JsonValue δ → Prop
  | null : Tree number .null
  | boolean (b : Bool) : Tree number (.boolean b)
  | number {d} (hd : number d) : Tree number (.number d)
  | string (chars : List Jschar) : Tree number (.string chars)
  | array {elements} (helements : ∀ v ∈ elements, Tree number v) : Tree number (.array elements)
  | object {members : List (List Jschar × JsonValue δ)}
      (hnames : (members.map Prod.fst).Nodup) (hmembers : ∀ m ∈ members, Tree number m.2) :
      Tree number (.object members)

lemma isFilteredValue_ofJson (v : JsonValue δ) : isFilteredValue (ofJson v) = false := by
  cases v <;> rfl

lemma length_ofElements (elements : List (JsonValue δ)) :
    (ofElements elements).length = elements.length := by
  induction elements with
  | nil => rfl
  | cons v rest ih => rw [ofElements, length_cons, length_cons, ih]

variable {conv : Conversion δ} {legacy : Bool}

variable {elements : List (JsonValue δ)}

lemma ElementsText.append_ws {l w : List Jschar} (hl : ElementsText conv legacy l elements)
    (hw : Ws w) :
    ElementsText conv legacy (l ++ w) elements := by
  cases hl with
  | one hw1 hs hw2 =>
    rw [append_assoc]
    exact .one hw1 hs (hw2.append hw)
  | more hl hw1 hs hw2 =>
    rw [append_assoc, cons_append, append_assoc]
    exact .more hl hw1 hs (hw2.append hw)

lemma MemberText.append_ws {m w name : List Jschar} {v : JsonValue δ}
    (hm : MemberText conv legacy m name v) (hw : Ws w) :
    MemberText conv legacy (m ++ w) name v := by
  cases hm with
  | mk hw1 hn hw2 hw3 hs hw4 =>
    have happend := MemberText.mk hw1 hn hw2 hw3 hs (hw4.append hw)
    simpa using happend

variable {members : List (List Jschar × JsonValue δ)}

lemma MembersText.append_ws {l w : List Jschar} (hl : MembersText conv legacy l members)
    (hw : Ws w) :
    MembersText conv legacy (l ++ w) members := by
  cases hl with
  | one hm => exact .one (hm.append_ws hw)
  | more hl hm =>
    rw [append_assoc, cons_append]
    exact .more hl (hm.append_ws hw)

lemma setMember_of_not_mem {name : List Jschar} (v : JsonValue δ)
    (hname : name ∉ members.map Prod.fst) :
    setMember members name v = members ++ [(name, v)] := by
  induction members with
  | nil => rfl
  | cons m rest ih =>
    rw [map_cons, mem_cons, not_or] at hname
    rw [setMember, if_neg (Ne.symm hname.1), ih hname.2, cons_append]

/-- Distinct members stay as they are. -/
lemma objectOf_of_nodup (hnames : (members.map Prod.fst).Nodup) :
    objectOf members = .object members := by
  induction members using List.reverseRecOn with
  | nil => rfl
  | append_singleton members m ih =>
    rw [map_append, map_singleton, nodup_append] at hnames
    obtain ⟨hnodup, _, hdisjoint⟩ := hnames
    have hfold := ih hnodup
    simp only [objectOf, JsonValue.object.injEq] at hfold
    rw [objectOf_snoc, hfold, setMember_of_not_mem]
    intro hmem
    exact hdisjoint m.1 hmem m.1 mem_cons_self rfl

variable {format : NumberFormat δ} {gap : List Jschar}

lemma writeIndent_ws (hgap : Ws gap) (limit : Nat) : Ws (writeIndent gap limit) := by
  unfold writeIndent
  split_ifs
  · exact Ws.nil
  · intro c hc
    rcases mem_cons.mp hc with rfl | hc
    · exact .inr (.inl rfl)
    · obtain ⟨g, hg, hc⟩ := mem_flatten.mp hc
      rw [(mem_replicate.mp hg).2] at hc
      exact hgap c hc

variable (conv format gap)

/-- What `Str` writes is a text of the value. -/
def Writes (v : JsonValue δ) : Prop :=
  ∀ depth, ∃ s, str format gap depth (ofJson v) = some s ∧ ValueText conv false s v

variable {conv format gap}

lemma jaElements_spec (hgap : Ws gap) (depth : Nat) (hne : elements ≠ [])
    (hwrites : ∀ v ∈ elements, Writes conv format gap v) :
    ∃ out, jaElements format gap depth (ofElements elements) = some out ∧
      ∀ l w written, OpenElements conv false l written → Ws w →
        ElementsText conv false (l ++ w ++ out) (written ++ elements) := by
  induction elements with
  | nil => exact absurd rfl hne
  | cons v rest ih =>
    obtain ⟨s, hs, htext⟩ := hwrites v mem_cons_self depth
    rw [ofElements, jaElements, isFilteredValue_ofJson, length_ofElements]
    simp only [Bool.false_eq_true, if_false, hs, Option.bind_eq_bind, Option.bind_some]
    cases rest with
    | nil =>
      refine ⟨s, by simp [ofElements, jaElements], fun l w written hl hw => ?_⟩
      have hsnoc := hl.snoc hw htext Ws.nil
      simpa using hsnoc
    | cons v' rest =>
      obtain ⟨out, hout, hl'⟩ := ih (cons_ne_nil _ _)
        fun v hv => hwrites v (mem_cons_of_mem _ hv)
      rw [hout]
      refine ⟨_, rfl, fun l w written hl hw => ?_⟩
      have hsnoc := hl.snoc hw htext Ws.nil
      have hrest := hl' _ (writeIndent gap depth) _ (.inr ⟨_, hsnoc, rfl⟩)
        (writeIndent_ws hgap depth)
      simpa using hrest

lemma joMembers_spec (hgap : Ws gap) (depth : Nat) (wrote : Bool)
    (hwrites : ∀ m ∈ members, Writes conv format gap m.2) :
    ∃ out, joMembers format gap depth wrote (ofMembers members) = some out ∧
      ((wrote = false ∧ members = [] ∧ out = []) ∨
        ∀ l written, (wrote = false ∧ l = [] ∧ written = []) ∨
          (wrote = true ∧ MembersText conv false l written) →
          MembersText conv false (l ++ out) (written ++ members)) := by
  induction members generalizing wrote with
  | nil =>
    refine ⟨_, rfl, ?_⟩
    cases wrote with
    | false => exact .inl ⟨rfl, rfl, rfl⟩
    | true =>
      refine .inr fun l written hl => ?_
      rcases hl with ⟨hfalse, _⟩ | ⟨_, hl⟩
      · cases hfalse
      · rw [append_nil]
        exact hl.append_ws (writeIndent_ws hgap _)
  | cons m rest ih =>
    obtain ⟨name, v⟩ := m
    obtain ⟨s, hs, htext⟩ := hwrites _ mem_cons_self depth
    obtain ⟨n, hn, hname⟩ := quoted_spec name
    obtain ⟨out, hout, hrest⟩ := ih true fun m hm => hwrites m (mem_cons_of_mem _ hm)
    rw [ofMembers, joMembers, isFilteredValue_ofJson]
    simp only [Bool.false_eq_true, if_false, hs, hn, hout, Option.bind_eq_bind, Option.bind_some]
    refine ⟨_, rfl, .inr fun l written hl => ?_⟩
    have hspace : Ws (if gap = [] then [] else [32]) := by
      split_ifs
      · exact Ws.nil
      · intro c hc
        exact .inr (.inr (.inr (mem_singleton.mp hc)))
    have hmember := MemberText.mk (writeIndent_ws hgap depth) hname Ws.nil hspace htext Ws.nil
    have hsnoc : MembersText conv false (l ++ ((if wrote then [comma] else []) ++
        (writeIndent gap depth ++ n ++ [] ++ colon ::
          ((if gap = [] then [] else [32]) ++ s ++ [])))) (written ++ [(name, v)]) := by
      rcases hl with ⟨rfl, rfl, rfl⟩ | ⟨rfl, hl⟩
      · exact .one hmember
      · exact .more hl hmember
    rcases hrest with ⟨hfalse, _⟩ | hrest
    · cases hfalse
    · have hall := hrest _ _ (.inr ⟨rfl, hsnoc⟩)
      simpa using hall

/-- Arrays. -/
lemma writes_array (hgap : Ws gap) (hwrites : ∀ v ∈ elements, Writes conv format gap v) :
    Writes conv format gap (.array elements) := by
  intro depth
  rw [ofJson, str, length_ofElements]
  cases elements with
  | nil =>
    refine ⟨_, rfl, ?_⟩
    exact .emptyArray Ws.nil
  | cons v rest =>
    obtain ⟨out, hout, htext⟩ := jaElements_spec hgap (depth + 1) (cons_ne_nil v rest) hwrites
    rw [hout]
    refine ⟨_, rfl, ?_⟩
    have helements := (htext [] (writeIndent gap (depth + 1)) [] (.inl ⟨rfl, rfl⟩)
      (writeIndent_ws hgap _)).append_ws (writeIndent_ws hgap depth)
    have harray := ValueText.array helements
    simpa using harray

/-- Objects with distinct names. -/
lemma writes_object (hgap : Ws gap) (hnames : (members.map Prod.fst).Nodup)
    (hwrites : ∀ m ∈ members, Writes conv format gap m.2) :
    Writes conv format gap (.object members) := by
  intro depth
  obtain ⟨out, hout, hspec⟩ := joMembers_spec hgap (depth + 1) false hwrites
  rw [ofJson, str, hout]
  refine ⟨_, rfl, ?_⟩
  rw [← objectOf_of_nodup hnames]
  rcases hspec with ⟨_, rfl, rfl⟩ | hspec
  · exact .emptyObject Ws.nil
  · have hobject := ValueText.object (hspec [] [] (.inl ⟨rfl, rfl, rfl⟩))
    simpa using hobject

lemma Tree.writes {number : δ → Prop} (hfinite : ∀ d, number d → format.isFinite d = true)
    (hnumber : ∀ d, number d → NumberText conv (format.toChars d) d) (hgap : Ws gap)
    {v : JsonValue δ} (hv : Tree number v) : Writes conv format gap v := by
  induction hv with
  | null =>
    intro depth
    exact ⟨_, by rw [ofJson, str], .null⟩
  | boolean b =>
    intro depth
    refine ⟨_, by rw [ofJson, str], ?_⟩
    cases b with
    | true => exact .true
    | false => exact .false
  | @number d hd =>
    intro depth
    exact ⟨_, by rw [ofJson, str, if_pos (hfinite d hd)], .number (hnumber d hd)⟩
  | string chars =>
    intro depth
    obtain ⟨out, hout, hs⟩ := quoted_spec chars
    exact ⟨out, by rw [ofJson, str, hout], .string hs⟩
  | array _ ih => exact writes_array hgap ih
  | object hnames _ ih => exact writes_object hgap hnames ih

lemma Space.gap_ws {space : Space} (hspace : ∀ chars, space = .string chars → Ws chars) :
    Ws space.gap := by
  cases space with
  | none => exact Ws.nil
  | number n =>
    simp only [Space.gap]
    split_ifs
    · intro c hc
      exact .inr (.inr (.inr (mem_replicate.mp hc).2))
    · exact Ws.nil
  | string chars =>
    intro c hc
    exact hspace chars rfl c (mem_of_mem_take hc)

/-- What `js_Stringify` builds of a tree, with any gap of white space, `parse` reads back. -/
theorem parse_jsStringify (conv : Conversion δ) (format : NumberFormat δ) (negativeZero : δ)
    (hform : ∀ d, format.isFinite d = true → d ≠ negativeZero →
      ∃ d', NumberText conv (format.toChars d) d')
    (hback : ∀ d d', format.isFinite d = true → d ≠ negativeZero →
      NumberText conv (format.toChars d) d' → d' = d)
    {v : JsonValue δ} (hv : Tree (fun d => format.isFinite d = true ∧ d ≠ negativeZero) v)
    {space : Space} (hspace : ∀ chars, space = .string chars → Ws chars) :
    ∃ text, jsStringify format space (ofJson v) = some text ∧
      ∃ n₀, ∀ n, n₀ ≤ n → run conv false n (start text) = .accepted v := by
  have hnumber : ∀ d, format.isFinite d = true ∧ d ≠ negativeZero →
      NumberText conv (format.toChars d) d := by
    rintro d ⟨hfinite, hzero⟩
    obtain ⟨d', hd'⟩ := hform d hfinite hzero
    have heq := hback d d' hfinite hzero hd'
    rwa [heq] at hd'
  obtain ⟨text, hstr, htext⟩ := hv.writes (fun d hd => hd.1) hnumber (Space.gap_ws hspace) 0
  refine ⟨text, by rw [jsStringify, isFilteredValue_ofJson, if_neg Bool.false_ne_true, hstr], ?_⟩
  have hsentence : JsonText conv false text v :=
    ⟨[], text, [], Ws.nil, htext, Ws.nil, by simp⟩
  obtain ⟨n₀, hrun⟩ := start_reaches hsentence
  refine ⟨n₀, fun n hn => ?_⟩
  obtain ⟨k, rfl⟩ := Nat.exists_eq_add_of_le hn
  rw [run_add, hrun]
  exact run_of_step_eq rfl k

/-! The doubles that are integers, as a sign and a magnitude. -/

/-- The number that decimal digits stand for. -/
def ofDigits (digits : List Jschar) : Nat := digits.foldl (fun n c => 10 * n + (c.toNat - 48)) 0

def integers : NumberFormat (Bool × Nat) where
  isFinite _ := true
  toChars d :=
    if d.1 = true ∧ d.2 ≠ 0 then minus :: backfillIndexInCharBuffer d.2
    else backfillIndexInCharBuffer d.2

def Conversion.integers : Conversion (Bool × Nat) where
  neg d := (!d.1, d.2)
  toDouble digits := (false, ofDigits digits)
  getPrefixInteger digits := (false, ofDigits digits)
  strtod digits := (false, ofDigits digits)
  getPrefixInteger_eq _ _ _ := rfl
  strtod_eq := rfl

lemma decimalDigit_digitChar {d : Nat} (hd : d < 10) :
    DecimalDigit (digitChar d) ∧ (digitChar d).toNat - 48 = d := by
  have htoNat : (digitChar d).toNat = 48 + d := UInt16.toNat_ofNat_of_lt' (by
    show 48 + d < 65536
    omega)
  refine ⟨⟨?_, ?_⟩, by omega⟩
  · rw [UInt16.le_iff_toNat_le, htoNat]
    exact Nat.le_add_right 48 d
  · rw [UInt16.le_iff_toNat_le, htoNat]
    show 48 + d ≤ 57
    omega

lemma ofDigits_append (digits : List Jschar) (c : Jschar) :
    ofDigits (digits ++ [c]) = 10 * ofDigits digits + (c.toNat - 48) := by
  rw [ofDigits, foldl_append]
  rfl

/-- The decimal form of a number. -/
lemma backfillIndexInCharBuffer_spec (n : Nat) :
    ofDigits (backfillIndexInCharBuffer n) = n ∧
      ∃ d ds, backfillIndexInCharBuffer n = d :: ds ∧ DecimalDigit d ∧
        (∀ c ∈ ds, DecimalDigit c) ∧ (n = 0 → d :: ds = [zero]) ∧ (n ≠ 0 → d ≠ zero) := by
  induction n using Nat.strongRecOn with
  | ind n ih =>
    have hmod : n % 10 < 10 := Nat.mod_lt _ (by omega)
    obtain ⟨hdigit, hvalue⟩ := decimalDigit_digitChar hmod
    rw [backfillIndexInCharBuffer]
    by_cases hnext : 0 < n / 10
    · rw [if_pos hnext]
      obtain ⟨hlead, d, ds, heq, hd, hds, _, hne⟩ := ih (n / 10) (by omega)
      refine ⟨?_, d, ds ++ [digitChar (n % 10)], by rw [heq]; rfl, hd, ?_, by omega,
        fun _ => hne (by omega)⟩
      · rw [ofDigits_append, hlead, hvalue]
        omega
      · intro c hc
        rcases mem_append.mp hc with hc | hc
        · exact hds c hc
        · rw [mem_singleton.mp hc]
          exact hdigit
    · rw [if_neg hnext]
      have hlt : n < 10 := by omega
      rw [Nat.mod_eq_of_lt hlt] at hdigit hvalue ⊢
      refine ⟨?_, digitChar n, [], rfl, hdigit, by simp, ?_, ?_⟩
      · rw [← nil_append [digitChar n], ofDigits_append, hvalue]
        exact Nat.zero_add n
      · rintro rfl
        rfl
      · intro hne hzero
        rw [hzero] at hvalue
        exact hne hvalue.symm

lemma unsigned_backfill (n : Nat) : Unsigned (backfillIndexInCharBuffer n) := by
  obtain ⟨_, d, ds, heq, hd, hds, hzero, hne⟩ := backfillIndexInCharBuffer_spec n
  apply IntPart.unsigned
  rw [heq]
  by_cases hn : n = 0
  · rw [hzero hn]
    exact .zero
  · exact .digits hd (hne hn) hds

/-- A number is written with its sign, and only so. -/
lemma integers_text (d : Bool × Nat) (hzero : d ≠ (true, 0)) (d' : Bool × Nat) :
    NumberText .integers (integers.toChars d) d' ↔ d' = d := by
  obtain ⟨sign, n⟩ := d
  have hvalue := (backfillIndexInCharBuffer_spec n).1
  have hunsigned := unsigned_backfill n
  have hminus : ∀ {u}, Unsigned u → ∀ {rest}, u ≠ minus :: rest := by
    rintro u hu rest rfl
    obtain ⟨c, after, heq, hc⟩ := hu.head
    cases heq
    exact absurd hc (by decide)
  cases sign with
  | false =>
    have hchars : integers.toChars (false, n) = backfillIndexInCharBuffer n := by
      simp [integers]
    rw [hchars]
    constructor
    · intro h
      generalize hu : backfillIndexInCharBuffer n = u at h
      cases h with
      | unsigned =>
        rw [hu] at hvalue
        rw [← hvalue]
        rfl
      | negative => exact absurd hu (hminus hunsigned)
    · rintro rfl
      have hnumber : NumberText .integers _ _ := .unsigned hunsigned
      simpa only [Conversion.integers, hvalue] using hnumber
  | true =>
    have hn : n ≠ 0 := by
      rintro rfl
      exact hzero rfl
    have hchars : integers.toChars (true, n) = minus :: backfillIndexInCharBuffer n := by
      simp [integers, hn]
    rw [hchars]
    constructor
    · intro h
      cases h with
      | unsigned hu => exact absurd rfl (hminus hu)
      | negative => simp only [Conversion.integers, hvalue, Bool.not_false]
    · rintro rfl
      have hnumber : NumberText .integers _ _ := .negative hunsigned
      simpa only [Conversion.integers, hvalue, Bool.not_false] using hnumber

/-- `{"a": [-1, "\n"]}`, with an indentation of two. -/
theorem parse_jsStringify_integers :
    ∃ text, jsStringify integers (.number 2) (ofJson (.object [(asciiChars "a",
        .array [.number (true, 1), .string [10]])])) = some text ∧
      ∃ n₀, ∀ n, n₀ ≤ n → run .integers false n (start text) = .accepted (.object [(asciiChars "a",
        .array [.number (true, 1), .string [10]])]) := by
  refine parse_jsStringify .integers integers (true, 0)
    (fun d _ hd => ⟨d, (integers_text d hd d).mpr rfl⟩)
    (fun d d' _ hd h => (integers_text d hd d').mp h) (.object (by simp) ?_) (by simp)
  intro m hm
  rw [mem_singleton.mp hm]
  refine .array fun v hv => ?_
  rcases mem_cons.mp hv with rfl | hv
  · exact .number ⟨rfl, by simp⟩
  · rw [mem_singleton.mp hv]
    exact .string _

end

end SpiderMonkey.Json
