import SpiderMonkey.Vm.UriSoundness

/-! # The functions of the global object are inverse

What is encoded are pieces, which decode to the characters that they were made from.
-/

namespace SpiderMonkey.Vm

open SpiderMonkey.Lib List

/-! ## Encoding -/

/-- Whether a unit stands for itself. -/
def isUnescaped (set : List Jschar) (set2 : Option (List Jschar)) (c : Jschar) : Bool :=
  strchr set c || set2.any (strchr · c)

/-- Both sets are sets of `encodeURI`. -/
def AreUriSets (set : List Jschar) (set2 : Option (List Jschar)) : Prop :=
  IsUriSet set ∧ ∀ s ∈ set2, IsUriSet s

variable {set2 : Option (List Jschar)} {set : List Jschar}

lemma AreUriSets.ascii (h : AreUriSets set set2) {c : Jschar}
    (hc : isUnescaped set set2 c = true) : c.toNat < 0x80 ∧ c ≠ percent := by
  rw [isUnescaped, Bool.or_eq_true] at hc
  rcases hc with hc | hc
  · exact h.1 c ((strchr_iff set c).mp hc)
  · cases set2 with
    | none => cases hc
    | some s => exact h.2 s rfl c ((strchr_iff s c).mp hc)

/-- The piece that a character is encoded as. -/
def pieceOf (set : List Jschar) (set2 : Option (List Jschar)) (v : Nat) : Piece :=
  if v < 0x10000 ∧ isUnescaped set set2 (UInt16.ofNat v) = true then .plain (UInt16.ofNat v)
  else .run v ((utf8Bytes v).map digitsOf)

lemma triplets_map_digitsOf (bytes : List UInt8) :
    triplets (bytes.map digitsOf) = bytes.flatMap triplet := by
  rw [triplets, flatMap_map]
  rfl

lemma pieceOf_valid (h : AreUriSets set set2) {v : Nat} (hv : v.isValidChar) :
    (pieceOf set set2 v).Valid := by
  rw [pieceOf]
  split_ifs with hplain
  · exact (h.ascii hplain.2).2
  · refine ⟨hv, fun d hd => ?_, ?_⟩
    · obtain ⟨b, -, rfl⟩ := mem_map.mp hd
      exact ⟨(digitsOf_spec b).1, (digitsOf_spec b).2.1⟩
    · rw [map_map]
      conv_rhs => rw [← map_id (utf8Bytes v)]
      refine map_congr_left fun b _ => ?_
      exact eq_ofNat8 (digitsOf_spec b).2.2

/-- One character: its piece is appended. -/
lemma encodeLoop_char (h : AreUriSets set set2) {v : Nat} (hv : v.isValidChar)
    (rest sb : List Jschar) :
    encodeLoop set set2 (utf16Units v ++ rest) sb =
      encodeLoop set set2 rest (sb ++ (pieceOf set set2 v).source) := by
  rcases utf16Units_cases hv with ⟨u, hu, hnot, hval⟩ | ⟨u, u2, hu, hhigh, hlow, hval⟩
  · have hofNat : UInt16.ofNat v = u := by rw [← hval, UInt16.ofNat_toNat]
    have hsmall : v < 0x10000 := hval ▸ u.toNat_lt
    rw [hu, singleton_append, encodeLoop.eq_def]
    simp only [hval]
    change (if isUnescaped set set2 u = true then _ else _) = _
    by_cases hin : isUnescaped set set2 u = true
    · rw [if_pos hin, pieceOf, hofNat, if_pos ⟨hsmall, hin⟩]
      rfl
    · have hpiece : pieceOf set set2 v = .run v ((utf8Bytes v).map digitsOf) := by
        rw [pieceOf, hofNat, if_neg fun hboth => hin hboth.2]
      rw [IsSurrogate, hval] at hnot
      rw [if_neg hin, if_neg (by omega), if_pos (by omega), hpiece,
        oneUcs4ToUtf8Char_eq (lt_of_isValidChar hv), Piece.source, triplets_map_digitsOf]
  · obtain ⟨hbig, -⟩ := pairValue_bounds hhigh hlow
    rw [hval] at hbig
    rw [IsHighSurrogate] at hhigh
    rw [IsLowSurrogate] at hlow
    have hout : ¬ isUnescaped set set2 u = true := fun hin => by
      have hascii := (h.ascii hin).1
      omega
    have hpiece : pieceOf set set2 v = .run v ((utf8Bytes v).map digitsOf) := by
      rw [pieceOf, if_neg (by omega)]
    rw [hu, cons_append, singleton_append, encodeLoop.eq_def]
    simp only [pairValue_eq, hval]
    change (if isUnescaped set set2 u = true then _ else _) = _
    rw [if_neg hout, if_neg (by omega), if_neg (by omega), if_neg (by omega), hpiece,
      oneUcs4ToUtf8Char_eq (lt_of_isValidChar hv), Piece.source, triplets_map_digitsOf]

lemma encodeLoop_chars (h : AreUriSets set set2) {vs : List Nat} (hvs : ∀ v ∈ vs, v.isValidChar)
    (rest sb : List Jschar) :
    encodeLoop set set2 (vs.flatMap utf16Units ++ rest) sb =
      encodeLoop set set2 rest (sb ++ (vs.map (pieceOf set set2)).flatMap Piece.source) := by
  induction vs generalizing sb with
  | nil => simp
  | cons v vs ih =>
    rw [forall_mem_cons] at hvs
    rw [flatMap_cons, append_assoc, encodeLoop_char h hvs.1, ih hvs.2, map_cons,
      flatMap_cons, append_assoc]

lemma encodeLoop_lone (h : AreUriSets set set2) {rest : List Jschar} (hrest : LoneSurrogate rest)
    (sb : List Jschar) :
    encodeLoop set set2 rest sb = .error .badUri := by
  have hout {u : Jschar} (hu : 0xD800 ≤ u.toNat) :
      ¬ (strchr set u || set2.any (strchr · u)) = true := fun hin => by
    have hascii := (h.ascii hin).1
    omega
  cases hrest with
  | low u rest hu =>
    rw [IsLowSurrogate] at hu
    rw [encodeLoop.eq_def]
    simp only
    rw [if_neg (hout (by omega)), if_pos hu]
  | last u hu =>
    rw [IsHighSurrogate] at hu
    rw [encodeLoop, if_neg (hout (by omega)), if_neg (by omega), if_neg (by omega)]
  | high u u2 rest hu hu2 =>
    rw [IsHighSurrogate] at hu
    rw [IsLowSurrogate] at hu2
    rw [encodeLoop, if_neg (hout (by omega)), if_neg (by omega), if_neg (by omega),
      if_pos (by omega)]

/-- `Encode` succeeds on characters, and writes their pieces. -/
lemma encode_ok_iff (h : AreUriSets set set2) {str out : List Jschar} :
    encode str set set2 = .ok out ↔ ∃ vs : List Nat, (∀ v ∈ vs, v.isValidChar) ∧
      str = vs.flatMap utf16Units ∧ out = (vs.map (pieceOf set set2)).flatMap Piece.source := by
  have hloop : encode str set set2 = encodeLoop set set2 str [] := by
    rw [encode]
    by_cases hempty : str.length = 0
    · rw [if_pos hempty, length_eq_zero_iff.mp hempty, encodeLoop]
    · rw [if_neg hempty]
  have hchars (vs : List Nat) (hvs : ∀ v ∈ vs, v.isValidChar) :
      encodeLoop set set2 (vs.flatMap utf16Units) [] =
        .ok ((vs.map (pieceOf set set2)).flatMap Piece.source) := by
    have hall := encodeLoop_chars h hvs [] []
    rwa [append_nil] at hall
  rw [hloop]
  constructor
  · intro hok
    obtain ⟨vs, rest, hvs, rfl, hrest⟩ := exists_split str
    rcases hrest with rfl | hlone
    · rw [append_nil, hchars vs hvs, Except.ok.injEq] at hok
      exact ⟨vs, hvs, append_nil _, hok.symm⟩
    · rw [encodeLoop_chars h hvs, encodeLoop_lone h hlone] at hok
      cases hok
  · rintro ⟨vs, hvs, rfl, rfl⟩
    exact hchars vs hvs

/-! ## Both ways -/

/-- A function that encodes and the one that decodes with a reserved set. -/
structure UriInverse (encodeFn decodeFn : List Jschar → Except UriError (List Jschar))
    (reservedSet : List Jschar) : Prop where
  encodes_iff : ∀ str, (∃ out, encodeFn str = .ok out) ↔ WellFormedUtf16 str
  inverse : ∀ str out, encodeFn str = .ok out → decodeFn out = .ok str
  in_bounds : ∀ str, decodeFn str ≠ .error .pastEnd
  pieces : ∀ str out, decodeFn str = .ok out → ∃ pieces : List Piece, (∀ p ∈ pieces, p.Valid) ∧
    str = pieces.flatMap Piece.source ∧ out = pieces.flatMap (Piece.result reservedSet)
  kept_iff : ∀ v digits, IsRun v digits →
    ((Piece.run v digits).result reservedSet = triplets digits ↔
      v ∈ (members reservedSet).map UInt16.toNat)

lemma run_kept_iff {reservedSet : List Jschar} {v : Nat} {digits : List (Jschar × Jschar)}
    (h : IsRun v digits) : (Piece.run v digits).result reservedSet = triplets digits ↔
      v ∈ (members reservedSet).map UInt16.toNat := by
  rw [Piece.result]
  by_cases hin : v ∈ (members reservedSet).map UInt16.toNat
  · rw [if_pos hin]
    exact iff_of_true rfl hin
  · rw [if_neg hin]
    refine iff_of_false (fun heq => ?_) hin
    obtain ⟨d, rest, rfl⟩ := h.exists_cons
    have hlen := congrArg List.length heq
    rw [triplets_length, length_cons, utf16Units] at hlen
    split_ifs at hlen <;> simp only [length_cons, length_nil] at hlen <;> omega

/-- The functions are inverse where the reserved characters are not encoded. -/
lemma uriInverse {set reservedSet : List Jschar} (h : AreUriSets set set2)
    (hreserved : IsUriSet reservedSet)
    (hsub : ∀ c ∈ members reservedSet, isUnescaped set set2 c = true) :
    UriInverse (encode · set set2) (decode · reservedSet) reservedSet := by
  refine ⟨fun str => ?_, fun str out hok => ?_, fun str => decode_ne_pastEnd str reservedSet,
    fun str out => (decode_ok_iff hreserved).mp, fun v digits => run_kept_iff⟩
  · rw [wellFormedUtf16_iff]
    constructor
    · rintro ⟨out, hok⟩
      obtain ⟨vs, hvs, hstr, -⟩ := (encode_ok_iff h).mp hok
      exact ⟨vs, hvs, hstr⟩
    · rintro ⟨vs, hvs, hstr⟩
      exact ⟨_, (encode_ok_iff h).mpr ⟨vs, hvs, hstr, rfl⟩⟩
  · obtain ⟨vs, hvs, rfl, rfl⟩ := (encode_ok_iff h).mp hok
    refine (decode_ok_iff hreserved).mpr ⟨vs.map (pieceOf set set2), ?_, rfl, ?_⟩
    · intro p hp
      obtain ⟨v, hv, rfl⟩ := mem_map.mp hp
      exact pieceOf_valid h (hvs v hv)
    · rw [flatMap_map]
      refine flatMap_congr fun v hv => ?_
      rw [pieceOf]
      split_ifs with hplain
      · rw [Piece.result, utf16Units, if_pos hplain.1]
      · rw [Piece.result, if_neg]
        -- A reserved character would not have been encoded.
        intro hin
        obtain ⟨c, hc, rfl⟩ := mem_map.mp hin
        exact hplain ⟨c.toNat_lt, by rw [UInt16.ofNat_toNat]; exact hsub c hc⟩

/-- `decodeURI` undoes `encodeURI`, and `decodeURIComponent` undoes `encodeURIComponent`. -/
theorem uri_functions_inverse :
    UriInverse strEncodeURI strDecodeURI uriReservedPlusPound ∧
      UriInverse strEncodeURIComponent strDecodeURIComponent emptyUcstr := by
  constructor
  · refine uriInverse ⟨isUriSet_reserved, ?_⟩ isUriSet_reserved ?_
    · rintro s ⟨⟩
      exact isUriSet_unescaped
    · intro c hc
      rw [isUnescaped, Bool.or_eq_true]
      exact .inl ((strchr_iff _ c).mpr hc)
  · exact uriInverse ⟨isUriSet_unescaped, nofun⟩ isUriSet_empty nofun

end SpiderMonkey.Vm
