import SpiderMonkey.Lib.Triple
import SpiderMonkey.Vm.CloneReader

/-! # The reader on arbitrary data

What the reader does with data that need not come from a writer: it ends, and it reads no words
outside of the data. The other things that must not happen do happen, at three kinds of words.
-/

namespace SpiderMonkey.StructuredClone

open SpiderMonkey.Lib

/-! ## Single steps -/

section run

variable (env : Engine) (data : List UInt64) (s : Reader)

@[simp] lemma emit_run (e : Event) : emit e s = .ok () { s with trace := e :: s.trace } := rfl

@[simp] lemma reportError_run {α : Type} :
    (reportError : ReadM α) s = .error () { s with trace := .report :: s.trace } := rfl

lemma alloc_run : alloc env s =
    if env.allocates s.allocs then .ok () { s with allocs := s.allocs + 1 }
    else .error () { s with allocs := s.allocs + 1, trace := .report :: s.trace } := by
  cases h : env.allocates s.allocs with
  | true =>
    show (unless env.allocates s.allocs do reportError : ReadM Unit) _ = _
    rw [h]
    rfl
  | false =>
    show (unless env.allocates s.allocs do reportError : ReadM Unit) _ = _
    rw [h]
    rfl

lemma readWord_run : readWord data s =
    if s.point = data.length then .error () { s with trace := .report :: s.trace }
    else .ok (data.getD s.point 0)
      { s with trace := .readBytes (8 * s.point) 8 :: s.trace, point := s.point + 1 } := by
  show (if s.point = data.length then reportError
    else do
      emit (.readBytes (8 * s.point) 8)
      modify fun s => { s with point := s.point + 1 }
      return data.getD s.point 0 : ReadM UInt64) s = _
  split_ifs with h
  · rfl
  · rfl

lemma readPair_run : readPair data s =
    if s.point = data.length then .error () { s with trace := .report :: s.trace }
    else .ok ((data.getD s.point 0 >>> 32).toUInt32, (data.getD s.point 0).toUInt32)
      { s with trace := .readBytes (8 * s.point) 8 :: s.trace, point := s.point + 1 } := by
  rw [readPair, bind_run, readWord_run]
  split_ifs with h
  · rfl
  · rfl

lemma readArray_run (size nelems : Nat) : readArray env data size nelems s =
    if (nelems + 8 / size - 1) % 2 ^ env.sizeBits < nelems ∨
        data.length - s.point < (nelems + 8 / size - 1) % 2 ^ env.sizeBits / (8 / size) then
      .error () { s with trace := .report :: s.trace }
    else .ok (elementsAt data size s.point nelems)
      { s with
        trace := .readBytes (8 * s.point) (nelems * size) :: s.trace
        point := s.point + (nelems + 8 / size - 1) % 2 ^ env.sizeBits / (8 / size) } := by
  show (if (nelems + 8 / size - 1) % 2 ^ env.sizeBits < nelems ∨
        data.length - s.point < (nelems + 8 / size - 1) % 2 ^ env.sizeBits / (8 / size) then
      reportError
    else do
      emit (.readBytes (8 * s.point) (nelems * size))
      modify fun s' =>
        { s' with point := s'.point + (nelems + 8 / size - 1) % 2 ^ env.sizeBits / (8 / size) }
      return elementsAt data size s.point nelems : ReadM (List Nat)) s = _
  split_ifs with h
  · rfl
  · rfl

/-- A sum of a length that fits into 32 bits does not wrap around. -/
lemma Engine.mod_size {n : Nat} (hn : n < 2 ^ 32) : n % 2 ^ env.sizeBits = n := by
  have hpow : 2 ^ 32 ≤ 2 ^ env.sizeBits := Nat.pow_le_pow_right (by omega) env.sizeBits_ge
  exact Nat.mod_eq_of_lt (by omega)

lemma readString_run (n : UInt32) : readString env data n s =
    if maxStringLength < n.toNat then .error () { s with trace := .report :: s.trace }
    else if env.allocates s.allocs then
      if data.length - s.point < (n.toNat + 3) / 4 then
        .error () { s with allocs := s.allocs + 1, trace := .report :: s.trace }
      else if env.allocates (s.allocs + 1) then
        .ok ((elementsAt data 2 s.point n.toNat).map UInt16.ofNat)
          { s with
            allocs := s.allocs + 2
            trace := .readBytes (8 * s.point) (n.toNat * 2) :: s.trace
            point := s.point + (n.toNat + 3) / 4 }
      else .error ()
        { s with
          allocs := s.allocs + 2
          trace := .report :: .readBytes (8 * s.point) (n.toNat * 2) :: s.trace
          point := s.point + (n.toNat + 3) / 4 }
    else .error () { s with allocs := s.allocs + 1, trace := .report :: s.trace } := by
  rw [readString]
  by_cases hmax : maxStringLength < n.toNat
  · rw [if_pos hmax, if_pos hmax, reportError_run]
  · have hmod : (n.toNat + 8 / 2 - 1) % 2 ^ env.sizeBits = n.toNat + 3 := by
      rw [maxStringLength] at hmax
      exact env.mod_size (by omega)
    rw [if_neg hmax, if_neg hmax, bind_run, alloc_run]
    by_cases halloc : env.allocates s.allocs
    · rw [if_pos halloc, if_pos halloc]
      simp only
      rw [bind_run, readArray_run, hmod]
      by_cases hshort : data.length - s.point < (n.toNat + 3) / 4
      · rw [if_pos (Or.inr hshort), if_pos hshort]
      · have hcheck : ¬ (n.toNat + 3 < n.toNat ∨ data.length - s.point < (n.toNat + 3) / 4) := by
          rintro (hwrap | hless)
          · omega
          · exact hshort hless
        rw [if_neg hcheck, if_neg hshort]
        simp only
        rw [bind_run, alloc_run]
        by_cases hnew : env.allocates (s.allocs + 1)
        · rw [if_pos hnew, if_pos hnew]
          rfl
        · rw [if_neg hnew, if_neg hnew]
    · rw [if_neg halloc, if_neg halloc]

lemma readBackReference_run (d : UInt32) : readBackReference d s =
    .ok (.object (s.allObjs.getD d.toNat 0))
      { s with
        trace := .readAllObjs d.toNat s.allObjs.length ::
          if s.allObjs.length ≤ d.toNat then .report :: s.trace else s.trace } := by
  by_cases hle : s.allObjs.length ≤ d.toNat
  · rw [if_pos hle]
    show (do
      if s.allObjs.length ≤ d.toNat then emit .report
      emit (.readAllObjs d.toNat s.allObjs.length)
      return .object (s.allObjs.getD d.toNat 0) : ReadM CloneValue) s = _
    rw [if_pos hle]
    rfl
  · rw [if_neg hle]
    show (do
      if s.allObjs.length ≤ d.toNat then emit .report
      emit (.readAllObjs d.toNat s.allObjs.length)
      return .object (s.allObjs.getD d.toNat 0) : ReadM CloneValue) s = _
    rw [if_neg hle]
    rfl

end run

/-! ## Harmless steps -/

/-- `JSID_INT_MAX`. -/
def jsidIntMax : Nat := 2147483647

/-- The event is one that may happen: it stays within the data and within `allObjs`, and an id is
an integer exactly if it can be one. -/
def Event.Harmless (data : List UInt64) : Event → Prop
  | readBytes offset count => offset + count ≤ 8 * data.length
  | readAllObjs index length => index < length
  | intId d => d.toNat ≤ jsidIntMax
  | stringId chars => ∀ index, isIndex chars = some index → jsidIntMax < index.toNat
  | report => False

/-- The events so far are all right, and the reader is inside the data, at `p` or after it. -/
structure Running (ok : Event → Prop) (data : List UInt64) (p : Nat) (s : Reader) : Prop where
  events : ∀ e ∈ s.trace, ok e
  le : p ≤ s.point
  inside : s.point ≤ data.length

/-- An error has been reported, and nothing has been done after that. -/
def Stopped (ok : Event → Prop) (s : Reader) : Prop :=
  ∃ before, s.trace = .report :: before ∧ ∀ e ∈ before, ok e

/-- A step that does no harm, from `p` on up to `p'` or after it. -/
abbrev Safe (ok : Event → Prop) (data : List UInt64) {α : Type} (p : Nat) (m : ReadM α)
    (p' : Nat) : Prop :=
  Triple (Running ok data p) m (fun _ => Running ok data p') (Stopped ok)

/-- Reading inside the data is all right. -/
def AllowsReads (ok : Event → Prop) (data : List UInt64) : Prop :=
  ∀ offset count, offset + count ≤ 8 * data.length → ok (.readBytes offset count)

section safe

variable {ok : Event → Prop} {env : Engine} {data : List UInt64} {p : Nat}

lemma Running.mono {p' : Nat} {s : Reader} (h : Running ok data p s) (hle : p' ≤ p) :
    Running ok data p' s := ⟨h.events, le_trans hle h.le, h.inside⟩

lemma Running.stop {s s' : Reader} (h : Running ok data p s)
    (htrace : s'.trace = .report :: s.trace) : Stopped ok s' := ⟨s.trace, htrace, h.events⟩

/-- Only the event and the point matter. -/
lemma Running.step {p' : Nat} {s s' : Reader} {e : Event} (h : Running ok data p s)
    (htrace : s'.trace = e :: s.trace) (he : ok e) (hle : p' ≤ s'.point)
    (hinside : s'.point ≤ data.length) : Running ok data p' s' := by
  refine ⟨?_, hle, hinside⟩
  intro e' he'
  rw [htrace] at he'
  rcases List.mem_cons.1 he' with rfl | he'
  · exact he
  · exact h.events e' he'

lemma Running.congr {s s' : Reader} (h : Running ok data p s) (htrace : s'.trace = s.trace)
    (hpoint : s'.point = s.point) : Running ok data p s' := by
  refine ⟨?_, ?_, ?_⟩
  · rw [htrace]
    exact h.events
  · rw [hpoint]
    exact h.le
  · rw [hpoint]
    exact h.inside

lemma Safe.mono {α : Type} {m : ReadM α} {p₁ p₂ p₃ p₄ : Nat} (h : Safe ok data p₂ m p₃)
    (h12 : p₂ ≤ p₁) (h34 : p₄ ≤ p₃) : Safe ok data p₁ m p₄ :=
  h.weaken (fun _ hs => hs.mono h12) fun _ _ hs => hs.mono h34

lemma safe_pure {α : Type} (a : α) : Safe ok data p (pure a : ReadM α) p :=
  Triple.pure fun _ hs => hs

lemma safe_reportError {α : Type} {p' : Nat} : Safe ok data p (reportError : ReadM α) p' := by
  intro s hs
  exact hs.stop rfl

lemma safe_modify {f : Reader → Reader}
    (hf : ∀ s, (f s).trace = s.trace ∧ (f s).point = s.point) : Safe ok data p (modify f) p :=
  Triple.modify fun s hs => hs.congr (hf s).1 (hf s).2

lemma safe_alloc : Safe ok data p (alloc env) p := by
  intro s hs
  rw [alloc_run]
  by_cases hok : env.allocates s.allocs
  · rw [if_pos hok]
    exact hs.congr rfl rfl
  · rw [if_neg hok]
    exact hs.stop rfl

lemma safe_addObject (o : CloneObject) : Safe ok data p (addObject o) p := by
  intro s hs
  exact hs.congr rfl rfl

lemma safe_newObject (o : CloneObject) : Safe ok data p (newObject env o) p :=
  safe_alloc.bind fun _ => safe_addObject o

lemma safe_readWord (hok : AllowsReads ok data) : Safe ok data p (readWord data) (p + 1) := by
  intro s hs
  rw [readWord_run]
  split_ifs with hend
  · exact hs.stop rfl
  · have hlt : s.point < data.length := lt_of_le_of_ne hs.inside hend
    have hle := hs.le
    refine hs.step rfl ?_ ?_ ?_
    · apply hok
      omega
    · show p + 1 ≤ s.point + 1
      omega
    · exact hlt

lemma safe_readPair (hok : AllowsReads ok data) : Safe ok data p (readPair data) (p + 1) :=
  (safe_readWord hok).bind fun _ => safe_pure _

lemma safe_readDouble (hok : AllowsReads ok data) : Safe ok data p (readDouble data) p :=
  ((safe_readWord hok).mono le_rfl (Nat.le_succ p)).bind fun _ => safe_pure _

/-- The words of an array take in all of its elements. -/
lemma safe_readArray (hok : AllowsReads ok data) {size nelems : Nat} (hsize : size = 1 ∨ size = 2 ∨ size = 4 ∨ size = 8) :
    Safe ok data p (readArray env data size nelems) p := by
  intro s hs
  rw [readArray_run]
  split_ifs with hcheck
  · exact hs.stop rfl
  · rw [not_or, Nat.not_lt, Nat.not_lt] at hcheck
    have hle := hs.le
    have hinside := hs.inside
    refine hs.step rfl ?_ (Nat.le_trans hle (Nat.le_add_right _ _)) (Nat.add_le_of_le_sub' hinside hcheck.2)
    apply hok
    -- if the sum has wrapped around it is too small
    have htotal : (nelems + 8 / size - 1) % 2 ^ env.sizeBits = nelems + 8 / size - 1 := by
      have hpow : 2 ^ 32 ≤ 2 ^ env.sizeBits := Nat.pow_le_pow_right (by omega) env.sizeBits_ge
      have hmod := Nat.mod_lt (nelems + 8 / size - 1) (by omega : 0 < 2 ^ env.sizeBits)
      apply Nat.mod_eq_of_lt
      by_contra hbig
      have hsub := Nat.mod_eq_sub_mod (Nat.not_lt.1 hbig)
      have hle' := Nat.mod_le (nelems + 8 / size - 1 - 2 ^ env.sizeBits) (2 ^ env.sizeBits)
      rcases hsize with rfl | rfl | rfl | rfl <;> omega
    rw [htotal] at hcheck
    rcases hsize with rfl | rfl | rfl | rfl <;> omega

lemma safe_checkDouble (bits : UInt64) : Safe ok data p (checkDouble bits) p :=
  Triple.ite (fun _ => safe_pure _) fun _ => safe_reportError

lemma safe_readString (hok : AllowsReads ok data) (nchars : UInt32) : Safe ok data p (readString env data nchars) p := by
  refine Triple.ite (fun _ => safe_reportError) fun _ => ?_
  refine safe_alloc.bind fun _ => ?_
  refine (safe_readArray hok (Or.inr (Or.inl rfl))).bind fun chars => ?_
  exact safe_alloc.bind fun _ => safe_pure _

lemma ArrayType.size_cases (type : ArrayType) :
    type.size = 1 ∨ type.size = 2 ∨ type.size = 4 ∨ type.size = 8 := by
  cases type <;> simp [ArrayType.size]

lemma safe_readTypedArray (hok : AllowsReads ok data) (type : ArrayType) (nelems : UInt32) :
    Safe ok data p (readTypedArray env data type nelems) p := by
  refine Triple.ite (fun _ => safe_reportError) fun _ => ?_
  refine safe_alloc.bind fun _ => ?_
  refine (safe_readArray hok type.size_cases).bind fun elements => ?_
  exact (safe_addObject _).bind fun _ => safe_pure _

lemma safe_readArrayBuffer (hok : AllowsReads ok data) (nbytes : UInt32) :
    Safe ok data p (readArrayBuffer env data nbytes) p := by
  refine safe_alloc.bind fun _ => ?_
  refine (safe_readArray hok (Or.inl rfl)).bind fun bytes => ?_
  exact (safe_addObject _).bind fun _ => safe_pure _

lemma safe_startObject (o : CloneObject) : Safe ok data p (startObject env o) p := by
  refine (safe_newObject o).bind fun address => ?_
  refine safe_alloc.bind fun _ => ?_
  refine Triple.bind (safe_modify ?_) fun _ => ?_
  · exact fun s => ⟨rfl, rfl⟩
  refine safe_alloc.bind fun _ => ?_
  refine Triple.bind (safe_modify ?_) fun _ => safe_pure _
  exact fun s => ⟨rfl, rfl⟩

lemma safe_readDate (hok : AllowsReads ok data) : Safe ok data p (readDate env data) p := by
  refine (safe_readDouble hok).bind fun d => ?_
  refine (safe_checkDouble d).bind fun _ => ?_
  refine Triple.ite (fun _ => safe_reportError) fun _ => ?_
  exact (safe_newObject _).bind fun _ => safe_pure _

lemma safe_readRegExp (hok : AllowsReads ok data) (flags : UInt32) : Safe ok data p (readRegExp env data flags) p := by
  refine ((safe_readPair hok).mono le_rfl (Nat.le_succ p)).bind fun pair => ?_
  refine Triple.ite (fun _ => safe_reportError) fun _ => ?_
  refine (safe_readString hok pair.2).bind fun source => ?_
  refine Triple.ite (fun _ => safe_reportError) fun _ => ?_
  exact (safe_newObject _).bind fun _ => safe_pure _

lemma safe_defineGeneric (address : Nat) (id : Id) (v : CloneValue) :
    Safe ok data p (defineGeneric env address id v) p :=
  safe_alloc.bind fun _ => safe_modify fun _ => ⟨rfl, rfl⟩

/-- Every case is safe but that of a back reference. -/
lemma safe_readTagged (hok : AllowsReads ok data) {tag d : UInt32}
    (hne : tag ≠ backReferenceObjectTag) : Safe ok data p (readTagged env data tag d) p := by
  rw [readTagged]
  refine Triple.ite (fun _ => safe_pure _) fun _ => ?_
  refine Triple.ite (fun _ => safe_pure _) fun _ => ?_
  refine Triple.ite (fun _ => safe_pure _) fun _ => ?_
  refine Triple.ite (fun _ => (safe_newObject _).bind fun _ => safe_pure _) fun _ => ?_
  refine Triple.ite (fun _ => (safe_readString hok d).bind fun _ => safe_pure _) fun _ => ?_
  refine Triple.ite (fun _ => ?_) fun _ => ?_
  · refine (safe_readString hok d).bind fun chars => ?_
    exact (safe_newObject _).bind fun _ => safe_pure _
  refine Triple.ite (fun _ => ?_) fun _ => ?_
  · refine (safe_readDouble hok).bind fun bits => ?_
    refine (safe_checkDouble bits).bind fun _ => ?_
    exact (safe_newObject _).bind fun _ => safe_pure _
  refine Triple.ite (fun _ => safe_readDate hok) fun _ => ?_
  refine Triple.ite (fun _ => safe_readRegExp hok d) fun _ => ?_
  refine Triple.ite (fun _ => safe_startObject _) fun _ => ?_
  refine Triple.ite (fun _ => safe_startObject _) fun _ => ?_
  refine Triple.ite (fun heq => absurd heq hne) fun _ => ?_
  refine Triple.ite (fun _ => safe_readArrayBuffer hok d) fun _ => ?_
  refine Triple.ite (fun _ => (safe_checkDouble _).bind fun _ => safe_pure _) fun _ => ?_
  cases arrayTypeOfTag tag with
  | some type => exact safe_readTypedArray hok type d
  | none => exact safe_reportError

lemma readTagged_backReference (d : UInt32) :
    readTagged env data backReferenceObjectTag d = readBackReference d := rfl

end safe

/-! ## The calls of the loop -/

section calls

variable (env : Engine) (data : List UInt64)

/-- The word that is read next, and its halves. -/
def Reader.next (s : Reader) : UInt64 := data.getD s.point 0

def tagOf (w : UInt64) : UInt32 := (w >>> 32).toUInt32

def dataOf (w : UInt64) : UInt32 := w.toUInt32

/-- The next word is the tag of an id's string, and the string can be read and made an atom. -/
structure IdString (s : Reader) (chars : List Jschar) : Prop where
  length_le : (dataOf (s.next data)).toNat ≤ maxStringLength
  inside : s.point + 1 + ((dataOf (s.next data)).toNat + 3) / 4 ≤ data.length
  allocates : ∀ k < 3, env.allocates (s.allocs + k) = true
  chars_eq : chars =
    (elementsAt data 2 (s.point + 1) (dataOf (s.next data)).toNat).map UInt16.ofNat

/-- What the next word must not be: before a value, a reference to an object that has not been
read; before an id, an index that is too large, or a string that is an index. -/
def CallOk : Control × Reader → Prop
  | (.value _ _, s) => s.point < data.length → tagOf (s.next data) = backReferenceObjectTag →
      (dataOf (s.next data)).toNat < s.allObjs.length
  | (.id _, s) => s.point < data.length →
      (tagOf (s.next data) = indexTag → (dataOf (s.next data)).toNat ≤ jsidIntMax) ∧
      (tagOf (s.next data) = stringTag → ∀ chars, IdString env data s chars →
        ∀ index, isIndex chars = some index → jsidIntMax < index.toNat)
  | _ => True

/-- What holds before each call, and after the last one: nothing has happened that must not, and
`read` returns false exactly if an error has been reported, as the last thing. -/
def Sound : Control × Reader → Prop
  | (.failed, s) => Stopped (Event.Harmless data) s
  | (_, s) => Running (Event.Harmless data) data 0 s

variable {env data}

lemma allowsReads_harmless : AllowsReads (Event.Harmless data) data := fun _ _ h => h

variable {c : Control × Reader}

lemma not_sound_of_mem {e : Event} (hmem : e ∈ c.2.trace) (hharm : ¬ e.Harmless data)
    (hne : e ≠ .report) : ¬ Sound data c := by
  rcases c with ⟨control, s⟩
  cases control with
  | failed =>
    rintro ⟨before, htrace, hbefore⟩
    have hmem' : e ∈ Event.report :: before := htrace ▸ hmem
    rcases List.mem_cons.1 hmem' with heq | hmem'
    · exact hne heq
    · exact hharm (hbefore e hmem')
  | value target root => exact fun h => hharm (h.events e hmem)
  | id root => exact fun h => hharm (h.events e hmem)
  | returned root => exact fun h => hharm (h.events e hmem)

lemma loopHead_snd (root : CloneValue) (s : Reader) : (loopHead root s).2 = s := by
  rw [loopHead]
  split_ifs <;> rfl

/-- The state after the tag has been read. -/
def Reader.pastTag (s : Reader) : Reader :=
  { s with trace := .readBytes (8 * s.point) 8 :: s.trace, point := s.point + 1 }

lemma startRead_run (s : Reader) : startRead env data s =
    if s.point = data.length then .error () { s with trace := .report :: s.trace }
    else readTagged env data (tagOf (s.next data)) (dataOf (s.next data)) s.pastTag := by
  rw [startRead, bind_run, readPair_run]
  split_ifs <;> rfl

lemma readId_run (s : Reader) : readId env data s =
    if s.point = data.length then .error () { s with trace := .report :: s.trace }
    else readTaggedId env data (tagOf (s.next data)) (dataOf (s.next data)) s.pastTag := by
  rw [readId, bind_run, readPair_run]
  split_ifs <;> rfl

variable {s : Reader} {ok : Event → Prop}

lemma Running.pastTag {p : Nat} (hok : AllowsReads ok data) (h : Running ok data p s)
    (hlt : s.point < data.length) :
    Running ok data (p + 1) s.pastTag := by
  have hle := h.le
  refine h.step rfl (hok _ _ (by omega)) ?_ hlt
  show p + 1 ≤ s.point + 1
  omega

/-- A value is read safely, if what a reference does is all right. -/
lemma safe_startRead (hok : AllowsReads ok data) {p : Nat}
    (hcall : s.point < data.length → tagOf (s.next data) = backReferenceObjectTag →
      ok (.readAllObjs (dataOf (s.next data)).toNat s.allObjs.length) ∧
        (s.allObjs.length ≤ (dataOf (s.next data)).toNat → ok .report)) :
    Triple (fun s' => s' = s ∧ Running ok data p s) (startRead env data)
      (fun _ => Running ok data (p + 1)) (Stopped ok) := by
  rintro s' ⟨rfl, h⟩
  rw [startRead_run]
  by_cases hend : s'.point = data.length
  · rw [if_pos hend]
    exact h.stop rfl
  · have hlt : s'.point < data.length := lt_of_le_of_ne h.inside hend
    have hpast := h.pastTag hok hlt
    rw [if_neg hend]
    by_cases hback : tagOf (s'.next data) = backReferenceObjectTag
    · rcases hcall hlt hback with ⟨hobjs, hreport⟩
      rw [hback, readTagged_backReference, readBackReference_run]
      refine ⟨?_, hpast.le, hpast.inside⟩
      intro e he
      rcases List.mem_cons.1 he with rfl | he
      · exact hobjs
      · by_cases hless : s'.pastTag.allObjs.length ≤ (dataOf (s'.next data)).toNat
        · rw [if_pos hless] at he
          rcases List.mem_cons.1 he with rfl | he
          · exact hreport hless
          · exact hpast.events e he
        · rw [if_neg hless] at he
          exact hpast.events e he
    · exact safe_readTagged hok hback s'.pastTag hpast

/-- An id is read safely, if the events that make it are all right. -/
lemma safe_readId (hok : AllowsReads ok data) {p : Nat}
    (hindex : s.point < data.length → tagOf (s.next data) = indexTag →
      ok (.intId (dataOf (s.next data))))
    (hstring : s.point < data.length → tagOf (s.next data) = stringTag →
      ∀ chars, IdString env data s chars → ok (.stringId chars)) :
    Triple (fun s' => s' = s ∧ Running ok data p s) (readId env data)
      (fun _ => Running ok data (p + 1)) (Stopped ok) := by
  rintro s' ⟨rfl, h⟩
  rw [readId_run]
  by_cases hend : s'.point = data.length
  · rw [if_pos hend]
    exact h.stop rfl
  have hlt : s'.point < data.length := lt_of_le_of_ne h.inside hend
  have hpast := h.pastTag hok hlt
  rw [if_neg hend, readTaggedId]
  by_cases hindexTag : tagOf (s'.next data) = indexTag
  · rw [if_pos hindexTag]
    exact hpast.step rfl (hindex hlt hindexTag) hpast.le hpast.inside
  by_cases hstringTag : tagOf (s'.next data) = stringTag
  · rw [if_neg hindexTag, if_pos hstringTag, bind_run, readString_run]
    -- the checks of the string, in their order
    by_cases hmax : maxStringLength < (dataOf (s'.next data)).toNat
    · rw [if_pos hmax]
      exact hpast.stop rfl
    rw [if_neg hmax]
    by_cases halloc : env.allocates s'.pastTag.allocs
    swap
    · rw [if_neg halloc]
      exact hpast.stop rfl
    rw [if_pos halloc]
    by_cases hshort : data.length - s'.pastTag.point < ((dataOf (s'.next data)).toNat + 3) / 4
    · rw [if_pos hshort]
      exact hpast.stop rfl
    rw [if_neg hshort]
    have hpoint : s'.pastTag.point = s'.point + 1 := rfl
    have hread : ok (.readBytes (8 * s'.pastTag.point) ((dataOf (s'.next data)).toNat * 2)) := by
      apply hok
      omega
    by_cases halloc' : env.allocates (s'.pastTag.allocs + 1)
    swap
    · rw [if_neg halloc']
      refine ⟨_, rfl, ?_⟩
      intro e he
      rcases List.mem_cons.1 he with rfl | he
      · exact hread
      · exact hpast.events e he
    rw [if_pos halloc']
    simp only
    rw [bind_run, alloc_run]
    have hchars : Running ok data (p + 1)
        { s'.pastTag with
          allocs := s'.pastTag.allocs + 2
          trace := .readBytes (8 * s'.pastTag.point) ((dataOf (s'.next data)).toNat * 2) ::
            s'.pastTag.trace
          point := s'.pastTag.point + ((dataOf (s'.next data)).toNat + 3) / 4 } := by
      have hle := hpast.le
      have hinside := hpast.inside
      refine hpast.step rfl hread ?_ ?_
      · show p + 1 ≤ s'.pastTag.point + _
        exact Nat.le_trans hle (Nat.le_add_right _ _)
      · show s'.pastTag.point + _ ≤ data.length
        omega
    by_cases hatom : env.allocates (s'.pastTag.allocs + 2)
    swap
    · rw [if_neg hatom]
      exact hchars.stop rfl
    · rw [if_pos hatom]
      refine hchars.step rfl ?_ hchars.le hchars.inside
      apply hstring hlt hstringTag
      refine ⟨Nat.not_lt.1 hmax, by omega, ?_, rfl⟩
      intro k hk
      match k with
      | 0 => exact halloc
      | 1 => exact halloc'
      | 2 => exact hatom
  · rw [if_neg hindexTag, if_neg hstringTag]
    by_cases hnull : tagOf (s'.next data) = nullTag
    · rw [if_pos hnull]
      exact hpast
    · rw [if_neg hnull]
      exact hpast.stop rfl

/-- A string of an id that can be read is made an id. -/
lemma readId_string {chars : List Jschar} (hlt : s.point < data.length)
    (htag : tagOf (s.next data) = stringTag) (h : IdString env data s chars) :
    ∃ s', readId env data s = .ok (some (.string chars)) s' ∧ .stringId chars ∈ s'.trace := by
  have hinside := h.inside
  have hmax := h.length_le
  have hpoint : s.pastTag.point = s.point + 1 := rfl
  have hshort : ¬ data.length - s.pastTag.point < ((dataOf (s.next data)).toNat + 3) / 4 := by
    omega
  rw [readId_run, if_neg (Nat.ne_of_lt hlt), readTaggedId, htag, if_neg (by decide), if_pos rfl,
    bind_run, readString_run, if_neg (Nat.not_lt.2 hmax),
    if_pos (show env.allocates s.pastTag.allocs = true from h.allocates 0 (by omega)),
    if_neg hshort,
    if_pos (show env.allocates (s.pastTag.allocs + 1) = true from h.allocates 1 (by omega))]
  simp only
  rw [bind_run, alloc_run,
    if_pos (show env.allocates (s.pastTag.allocs + 2) = true from h.allocates 2 (by omega)),
    h.chars_eq]
  exact ⟨_, rfl, List.mem_cons_self⟩

/-! ## Steps -/

/-- The events that the next call makes for sure are all right. -/
def CallAllowed (ok : Event → Prop) (env : Engine) (data : List UInt64) :
    Control × Reader → Prop
  | (.value _ _, s) => s.point < data.length → tagOf (s.next data) = backReferenceObjectTag →
      ok (.readAllObjs (dataOf (s.next data)).toNat s.allObjs.length) ∧
        (s.allObjs.length ≤ (dataOf (s.next data)).toNat → ok .report)
  | (.id _, s) =>
      (s.point < data.length → tagOf (s.next data) = indexTag →
        ok (.intId (dataOf (s.next data)))) ∧
      (s.point < data.length → tagOf (s.next data) = stringTag →
        ∀ chars, IdString env data s chars → ok (.stringId chars))
  | _ => True

lemma CallOk.allowed (h : CallOk env data c) :
    CallAllowed (Event.Harmless data) env data c := by
  rcases c with ⟨control, s⟩
  cases control with
  | value target root =>
    intro hlt hback
    have hless := h hlt hback
    exact ⟨hless, fun hle => absurd hless (Nat.not_lt.2 hle)⟩
  | id root => exact ⟨fun hlt => (h hlt).1, fun hlt => (h hlt).2⟩
  | returned root => trivial
  | failed => trivial

/-- Before the next call the point is at `p` or after it. -/
def Advanced (ok : Event → Prop) (data : List UInt64) (p : Nat) : Control × Reader → Prop
  | (.failed, s) => Stopped ok s
  | (_, s) => Running ok data p s

lemma Running.loopHead {p : Nat} (h : Running ok data p s) (root : CloneValue) :
    Advanced ok data p (loopHead root s) := by
  rw [StructuredClone.loopHead]
  split_ifs
  · exact h
  · exact h

/-- `read` has returned. -/
def Control.final : Control → Bool
  | returned _ | failed => true
  | _ => false

/-- Each call reads at least one word. -/
lemma Running.readStep (hok : AllowsReads ok data) {p : Nat} (h : Running ok data p c.2)
    (hfinal : c.1.final = false) (hcall : CallAllowed ok env data c) :
    Advanced ok data (p + 1) (readStep env data c) := by
  rcases c with ⟨control, s⟩
  cases control with
  | value target root =>
    have hsafe : Triple (fun s' => s' = s ∧ Running ok data p s) (startRead env data)
        (fun _ => Running ok data (p + 1)) (Stopped ok) := safe_startRead hok hcall
    have hread := hsafe s ⟨rfl, h⟩
    cases target with
    | none =>
      rw [StructuredClone.readStep]
      cases hrun : startRead env data s with
      | ok v s' =>
        rw [hrun] at hread
        exact hread.loopHead v
      | error e s' =>
        rw [hrun] at hread
        exact hread
    | some target =>
      rcases target with ⟨address, id⟩
      rw [StructuredClone.readStep, bind_run]
      cases hrun : startRead env data s with
      | ok v s' =>
        rw [hrun] at hread
        have hsafe' : Safe ok data (p + 1) (defineGeneric env address id v) (p + 1) :=
          safe_defineGeneric address id v
        have hdefine := hsafe' s' hread
        simp only
        cases hdef : defineGeneric env address id v s' with
        | ok u s'' =>
          rw [hdef] at hdefine
          exact hdefine.loopHead root
        | error e s'' =>
          rw [hdef] at hdefine
          exact hdefine
      | error e s' =>
        rw [hrun] at hread
        exact hread
  | id root =>
    have hsafe : Triple (fun s' => s' = s ∧ Running ok data p s) (readId env data)
        (fun _ => Running ok data (p + 1)) (Stopped ok) := safe_readId hok hcall.1 hcall.2
    have hread := hsafe s ⟨rfl, h⟩
    rw [StructuredClone.readStep]
    cases hrun : readId env data s with
    | ok id s' =>
      rw [hrun] at hread
      cases id with
      | none =>
        have hpopped : Running ok data (p + 1) { s' with objs := s'.objs.tail } :=
          Running.congr hread rfl rfl
        exact hpopped.loopHead root
      | some id => exact hread
    | error e s' =>
      rw [hrun] at hread
      exact hread
  | returned root => cases hfinal
  | failed => cases hfinal

/-- A value that has been read goes into the trace of the next call. -/
lemma mem_trace_readStep {s s' : Reader} {v : CloneValue} {e : Event}
    (hrun : startRead env data s = .ok v s') (he : e ∈ s'.trace) (target : Option (Nat × Id))
    (root : CloneValue) : e ∈ (readStep env data (.value target root, s)).2.trace := by
  cases target with
  | none =>
    rw [readStep, hrun]
    simp only
    rw [loopHead_snd]
    exact he
  | some target =>
    rcases target with ⟨address, id⟩
    rw [readStep, bind_run, hrun]
    simp only
    rw [defineGeneric, bind_run, alloc_run]
    by_cases halloc : env.allocates s'.allocs
    · rw [if_pos halloc]
      show e ∈ (loopHead root _).2.trace
      rw [loopHead_snd]
      exact he
    · rw [if_neg halloc]
      exact List.mem_cons_of_mem _ he

/-- What a call leaves is sound exactly if the next word is one that it can deal with. -/
lemma sound_readStep_iff (h : Sound data c) :
    Sound data (readStep env data c) ↔ CallOk env data c := by
  have hback (hrun : Running (Event.Harmless data) data 0 c.2) (hfinal : c.1.final = false)
      (hcall : CallOk env data c) : Sound data (readStep env data c) := by
    have hadvanced := hrun.readStep allowsReads_harmless hfinal hcall.allowed
    generalize readStep env data c = c' at hadvanced
    rcases c' with ⟨control, s'⟩
    cases control with
    | failed => exact hadvanced
    | value target root => exact Running.mono hadvanced (Nat.zero_le 1)
    | id root => exact Running.mono hadvanced (Nat.zero_le 1)
    | returned root => exact Running.mono hadvanced (Nat.zero_le 1)
  rcases c with ⟨control, s⟩
  cases control with
  | failed => exact iff_of_true h trivial
  | returned root => exact iff_of_true h trivial
  | value target root =>
    constructor
    · intro hsound hlt htag
      by_contra hnot
      -- the call goes on after the error, with the access
      have hrun : startRead env data s = _ := startRead_run s
      rw [if_neg (Nat.ne_of_lt hlt), htag, readTagged_backReference, readBackReference_run] at hrun
      have hmem := mem_trace_readStep hrun List.mem_cons_self target root
      exact not_sound_of_mem hmem (fun hless => hnot hless) (by simp) hsound
    · exact hback h rfl
  | id root =>
    constructor
    · intro hsound hlt
      constructor
      · intro htag
        by_contra hnot
        have hrun : readId env data s = _ := readId_run s
        rw [if_neg (Nat.ne_of_lt hlt), htag, readTaggedId, if_pos rfl, bind_run, emit_run] at hrun
        have hmem : Event.intId (dataOf (s.next data)) ∈
            (readStep env data (.id root, s)).2.trace := by
          rw [readStep, hrun]
          exact List.mem_cons_self
        exact not_sound_of_mem hmem (fun hless => hnot hless) (by simp) hsound
      · intro htag chars hchars index hindex
        by_contra hnot
        rcases readId_string hlt htag hchars with ⟨s', hrun, hmem⟩
        have hmem' : Event.stringId chars ∈ (readStep env data (.id root, s)).2.trace := by
          rw [readStep, hrun]
          exact hmem
        exact not_sound_of_mem hmem' (fun hharm => hnot (hharm index hindex)) (by simp) hsound
    · exact hback h rfl

/-! ## Runs -/

lemma iterate_readStep_final (h : c.1.final = true) :
    readStep env data c = c := by
  rcases c with ⟨control, s⟩
  cases control with
  | value target root => cases h
  | id root => cases h
  | returned root => rfl
  | failed => rfl

/-- The event does not read outside of the data. -/
def Event.InData (data : List UInt64) : Event → Prop
  | readBytes offset count => offset + count ≤ 8 * data.length
  | _ => True

/-- Each of the first calls of a run has read a word, and none outside of the data. -/
lemma inData_run (env : Engine) (data : List UInt64) (heap : List CloneObject) (allocs k : Nat) :
    (((readStep env data)^[k] (readStart heap allocs)).1.final = true ∧
      ∀ e ∈ ((readStep env data)^[k] (readStart heap allocs)).2.trace, e.InData data) ∨
    Running (Event.InData data) data k ((readStep env data)^[k] (readStart heap allocs)).2 := by
  have hok : AllowsReads (Event.InData data) data := fun _ _ h => h
  induction k with
  | zero =>
    right
    refine ⟨fun e he => ?_, le_rfl, Nat.zero_le _⟩
    cases he
  | succ k ih =>
    rw [Function.iterate_succ_apply']
    generalize (readStep env data)^[k] (readStart heap allocs) = c at ih
    cases hfinal : c.1.final with
    | true =>
      left
      rw [iterate_readStep_final hfinal]
      refine ⟨hfinal, ?_⟩
      rcases ih with ⟨_, hevents⟩ | hrun
      · exact hevents
      · exact hrun.events
    | false =>
      rcases ih with ⟨hfinal', _⟩ | hrun
      · rw [hfinal] at hfinal'
        cases hfinal'
      · have hcall : CallAllowed (Event.InData data) env data c := by
          rcases c with ⟨control, s⟩
          cases control with
          | value target root => exact fun _ _ => ⟨trivial, fun _ => trivial⟩
          | id root => exact ⟨fun _ _ => trivial, fun _ _ _ _ => trivial⟩
          | returned root => trivial
          | failed => trivial
        have hadvanced := hrun.readStep hok hfinal hcall
        generalize readStep env data c = c' at hadvanced
        rcases c' with ⟨control, s'⟩
        cases control with
        | failed =>
          left
          rcases hadvanced with ⟨before, htrace, hbefore⟩
          refine ⟨rfl, fun e he => ?_⟩
          have he' : e ∈ Event.report :: before := htrace ▸ he
          rcases List.mem_cons.1 he' with rfl | he'
          · trivial
          · exact hbefore e he'
        | value target root => exact Or.inr hadvanced
        | id root => exact Or.inr hadvanced
        | returned root => exact Or.inr hadvanced

/-- **`read` ends, and never reads outside of the data. Nothing else that must not happen does,
and it returns false exactly after reporting an error, if and only if each call's next word is
one that it can deal with.** -/
theorem read_sound_iff (env : Engine) (data : List UInt64) (heap : List CloneObject)
    (allocs : Nat) :
    ((readStep env data)^[data.length + 1] (readStart heap allocs)).1.final = true ∧
    (∀ k, ∀ e ∈ ((readStep env data)^[k] (readStart heap allocs)).2.trace, e.InData data) ∧
    ((∀ k, Sound data ((readStep env data)^[k] (readStart heap allocs))) ↔
      ∀ k, CallOk env data ((readStep env data)^[k] (readStart heap allocs))) := by
  refine ⟨?_, ?_, ?_⟩
  · rcases inData_run env data heap allocs (data.length + 1) with ⟨hfinal, _⟩ | hrun
    · exact hfinal
    · -- there are not that many words
      have hle := hrun.le
      have hinside := hrun.inside
      omega
  · intro k
    rcases inData_run env data heap allocs k with ⟨_, hevents⟩ | hrun
    · exact hevents
    · exact hrun.events
  · constructor
    · intro hsound k
      have hnext := hsound (k + 1)
      rw [Function.iterate_succ_apply'] at hnext
      exact (sound_readStep_iff (hsound k)).1 hnext
    · intro hcalls k
      induction k with
      | zero =>
        refine ⟨fun e he => ?_, le_rfl, Nat.zero_le _⟩
        cases he
      | succ k ih =>
        rw [Function.iterate_succ_apply']
        exact (sound_readStep_iff ih).2 (hcalls k)

end calls

/-- Everything succeeds, on a machine with 64 bit words. -/
def plainEngine : Engine := ⟨fun _ => true, fun _ _ => true, fun d => d, 64, by decide⟩

/-- A reference to an object when there is none is followed after its error. -/
theorem read_not_sound_backReference :
    ¬ ∀ k, Sound [0xFFFF000D00000000]
      ((readStep plainEngine [0xFFFF000D00000000])^[k] (readStart [] 0)) := by
  intro h
  have hcall : CallOk plainEngine [0xFFFF000D00000000] (readStart [] 0) :=
    (sound_readStep_iff (h 0)).1 (h 1)
  have hless := hcall (by decide) (by decide)
  exact absurd hless (by decide)

end SpiderMonkey.StructuredClone
