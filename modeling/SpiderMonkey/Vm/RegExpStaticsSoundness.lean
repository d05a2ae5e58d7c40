import SpiderMonkey.Vm.RegExpStatics

/-! # A scope restores the statics

An open scope either has a copy of what the statics were at its entry, or they still are that: a scope
inside of it that did write has restored them.
-/

namespace SpiderMonkey.Vm.StaticsScopes

open Lib

variable {Str : Type}

namespace RegExpStatics

lemma copyTo_spec (src : RegExpStatics Str) {dst : RegExpStatics Str}
    (h : src.contents.matchPairs.length ≤ dst.matchPairs.reserved) :
    ∃ r, src.copyTo dst = some r ∧ r.contents = src.contents ∧
      r.matchPairs.reserved = dst.matchPairs.reserved := by
  obtain ⟨v, hv, hitems, hreserved⟩ := GrowableVector.infallibleAppend_clear h
  refine ⟨⟨v, src.matchPairsInput, src.pendingInput, src.flags, dst.copied⟩, ?_, ?_, hreserved⟩
  · rw [copyTo, show src.matchPairs.items = src.contents.matchPairs from rfl, hv]
    rfl
  · rw [contents, hitems]
    rfl

lemma length_fillPairs (matchPairs : GrowableVector ℤ) (i : ℕ) (pairs : List (ℤ × ℤ)) :
    (fillPairs matchPairs i pairs).items.length = matchPairs.items.length ∧
      (fillPairs matchPairs i pairs).reserved = matchPairs.reserved := by
  induction pairs generalizing matchPairs i with
  | nil => exact ⟨rfl, rfl⟩
  | cons pair rest ih =>
    obtain ⟨hlength, hreserved⟩ :=
      ih ((matchPairs.set (2 * i) pair.1).set (2 * i + 1) pair.2) (i + 1)
    rw [fillPairs]
    refine ⟨hlength.trans ?_, hreserved⟩
    simp

end RegExpStatics

open RegExpStatics

/-- The open scopes have what they need: `reserved` is the room in the statics, and `current` what
they hold once the scopes further inside have ended. -/
def Restores (reserved : ℕ) : StaticsContents Str → List (RegExpStatics Str) →
    List (StaticsContents Str) → Prop
  | _, [], [] => True
  | current, buffer :: rest, entry :: entries =>
    (if buffer.copied then buffer.contents = entry else current = entry) ∧
      entry.matchPairs.length ≤ buffer.matchPairs.reserved ∧
      entry.matchPairs.length ≤ reserved ∧ Restores reserved entry rest entries
  | _, _, _ => False

lemma Restores.mono {reserved reserved' : ℕ} (hle : reserved ≤ reserved')
    {contents : StaticsContents Str} {buffers : List (RegExpStatics Str)}
    {entries : List (StaticsContents Str)} (h : Restores reserved contents buffers entries) :
    Restores reserved' contents buffers entries := by
  induction buffers generalizing contents entries with
  | nil =>
    cases entries with
    | nil => exact h
    | cons entry entries => exact h
  | cons buffer rest ih =>
    cases entries with
    | nil => exact h
    | cons entry entries =>
      obtain ⟨hcopied, hbuffer, hstatics, hrest⟩ := h
      exact ⟨hcopied, hbuffer, hstatics.trans hle, ih hrest⟩

/-- After the first write the contents do not matter any more. -/
lemma Restores.written {reserved : ℕ} {contents : StaticsContents Str}
    {buffers : List (RegExpStatics Str)} {entries : List (StaticsContents Str)}
    (h : Restores reserved contents buffers entries)
    (hcopied : ∀ buffer ∈ buffers.head?, buffer.copied = true) (contents' : StaticsContents Str) :
    Restores reserved contents' buffers entries := by
  cases buffers with
  | nil =>
    cases entries with
    | nil => trivial
    | cons entry entries => exact h
  | cons buffer rest =>
    cases entries with
    | nil => exact h
    | cons entry entries =>
      obtain ⟨hentry, hroom⟩ := h
      have hbuffer := hcopied buffer rfl
      rw [if_pos hbuffer] at hentry
      refine ⟨?_, hroom⟩
      rw [if_pos hbuffer]
      exact hentry

namespace LinkedStatics

variable {s s' : LinkedStatics Str} {entries : List (StaticsContents Str)}

/-- The invariant. -/
def Sound (s : LinkedStatics Str) (entries : List (StaticsContents Str)) : Prop :=
  Restores s.statics.matchPairs.reserved s.statics.contents s.buffers entries

/-- The statics may now be written. -/
def Writable (s : LinkedStatics Str) : Prop := ∀ buffer ∈ s.buffers.head?, buffer.copied = true

lemma aboutToWrite_spec (h : s.Sound entries) :
    ∃ s', s.aboutToWrite = some s' ∧ s'.statics = s.statics ∧ s'.Sound entries ∧ s'.Writable := by
  rw [aboutToWrite]
  rw [Sound] at h
  cases hbuffers : s.buffers with
  | nil =>
    refine ⟨s, rfl, rfl, h, ?_⟩
    rw [Writable, hbuffers]
    exact nofun
  | cons buffer rest =>
    rw [hbuffers] at h
    simp only
    cases hcopied' : buffer.copied with
    | true =>
      refine ⟨s, if_pos rfl, rfl, ?_, ?_⟩
      · rwa [Sound, hbuffers]
      · rw [Writable, hbuffers]
        intro b hb
        rwa [← Option.some.inj hb]
    | false =>
      cases entries with
      | nil => exact h.elim
      | cons entry entries =>
        obtain ⟨hentry, hbuffer, hstatics, hrest⟩ := h
        rw [hcopied', if_neg Bool.false_ne_true] at hentry
        -- there was no write since the scope was entered, so that the reserve is large enough
        obtain ⟨r, hr, hcontents, hreserved⟩ :=
          s.statics.copyTo_spec (show _ ≤ buffer.matchPairs.reserved by rw [hentry]; exact hbuffer)
        refine ⟨{ s with buffers := { r with copied := true } :: rest }, ?_, rfl, ?_, ?_⟩
        · rw [if_neg Bool.false_ne_true, hr]
          rfl
        · refine ⟨?_, ?_, hstatics, hrest⟩
          · exact (if_pos rfl).mpr (hcontents.trans hentry)
          · exact hbuffer.trans_eq hreserved.symm
        · rintro - ⟨rfl⟩
          rfl

/-- Writing to the statics, once that is allowed. -/
lemma Sound.write (h : s.Sound entries) (hwritable : s.Writable) {statics : RegExpStatics Str}
    (hreserved : s.statics.matchPairs.reserved ≤ statics.matchPairs.reserved) :
    Sound { s with statics := statics } entries :=
  (h.written hwritable _).mono hreserved

lemma updateFromMatchPairs_spec (h : s.Sound entries) (input : Str) (newPairs : List (ℤ × ℤ))
    (malloc : Bool) : ∃ ok s', s.updateFromMatchPairs input newPairs malloc = some (ok, s') ∧
      s'.Sound entries := by
  obtain ⟨s₁, hs₁, -, hsound, hwritable⟩ := aboutToWrite_spec h
  rw [updateFromMatchPairs, hs₁]
  simp only [Option.bind_eq_bind, Option.bind_some]
  cases hresize : s₁.statics.matchPairs.resize 0 (2 * newPairs.length) malloc with
  | none => exact ⟨_, _, rfl, hsound.write hwritable (Nat.le_refl _)⟩
  | some matchPairs =>
    refine ⟨_, _, rfl, hsound.write hwritable ?_⟩
    exact (GrowableVector.resize_eq_some hresize).2.trans_eq (length_fillPairs _ _ _).2.symm

lemma clear_spec (h : s.Sound entries) :
    ∃ s', s.clear = some s' ∧ s'.Sound entries := by
  obtain ⟨s₁, hs₁, -, hsound, hwritable⟩ := aboutToWrite_spec h
  rw [clear, hs₁]
  exact ⟨_, rfl, hsound.write hwritable (Nat.le_refl _)⟩

lemma setPendingInput_spec (h : s.Sound entries) (newInput : Option Str) :
    ∃ s', s.setPendingInput newInput = some s' ∧ s'.Sound entries := by
  obtain ⟨s₁, hs₁, -, hsound, hwritable⟩ := aboutToWrite_spec h
  rw [setPendingInput, hs₁]
  exact ⟨_, rfl, hsound.write hwritable (Nat.le_refl _)⟩

lemma setMultiline_spec (h : s.Sound entries) (enabled : Bool) :
    ∃ s', s.setMultiline enabled = some s' ∧ s'.Sound entries := by
  obtain ⟨s₁, hs₁, -, hsound, hwritable⟩ := aboutToWrite_spec h
  rw [setMultiline, hs₁]
  exact ⟨_, rfl, hsound.write hwritable (Nat.le_refl _)⟩

lemma aboutToWrite_eq_self (h : s.Writable) : s.aboutToWrite = some s := by
  rw [aboutToWrite]
  cases hbuffers : s.buffers with
  | nil => rfl
  | cons buffer rest => exact if_pos (h buffer (by rw [hbuffers]; rfl))

lemma reset_spec (h : s.Sound entries) (newInput : Option Str) (newMultiline : Bool) :
    ∃ s', s.reset newInput newMultiline = some s' ∧ s'.Sound entries := by
  obtain ⟨s₁, hs₁, -, hsound, hwritable⟩ := aboutToWrite_spec h
  -- nothing is copied again
  have hclear : s₁.clear = some { s₁ with statics := { s₁.statics with
      flags := 0, pendingInput := none, matchPairsInput := none
      matchPairs := s₁.statics.matchPairs.clear } } := by
    rw [clear, aboutToWrite_eq_self hwritable]
    rfl
  rw [reset, hs₁]
  simp only [Option.bind_eq_bind, Option.bind_some, hclear]
  refine setMultiline_spec (hsound.write hwritable ?_) newMultiline
  exact Nat.le_refl _

/-- A write succeeds, but for the memory of an update. -/
lemma write_spec (h : s.Sound entries) (op : StaticsWrite Str) :
    ∃ ok s', s.write op = some (ok, s') ∧ s'.Sound entries := by
  cases op with
  | updateFromMatchPairs input newPairs malloc =>
    exact updateFromMatchPairs_spec h input newPairs malloc
  | clear =>
    obtain ⟨s', hs', hsound⟩ := clear_spec h
    exact ⟨true, s', by rw [write, hs']; rfl, hsound⟩
  | setPendingInput newInput =>
    obtain ⟨s', hs', hsound⟩ := setPendingInput_spec h newInput
    exact ⟨true, s', by rw [write, hs']; rfl, hsound⟩
  | setMultiline enabled =>
    obtain ⟨s', hs', hsound⟩ := setMultiline_spec h enabled
    exact ⟨true, s', by rw [write, hs']; rfl, hsound⟩
  | reset newInput newMultiline =>
    obtain ⟨s', hs', hsound⟩ := reset_spec h newInput newMultiline
    exact ⟨true, s', by rw [write, hs']; rfl, hsound⟩

lemma save_spec (h : s.Sound entries) {flags : RegExpFlag} {malloc : Bool}
    (hsave : s.save flags malloc = (true, s')) : s'.Sound (s.statics.contents :: entries) := by
  rw [save] at hsave
  split at hsave
  · cases hsave
  · rename_i matchPairs hreserve
    obtain ⟨-, rfl⟩ := Prod.mk.injEq .. ▸ hsave
    refine ⟨rfl, ?_, ?_, h⟩
    · exact (GrowableVector.reserve_eq_some hreserve).2
    · exact s.statics.matchPairs.length_le

/-- After an `init` that fails the scope ends with nothing changed. -/
lemma restore_of_save_fails {flags : RegExpFlag} {malloc : Bool}
    (hsave : s.save flags malloc = (false, s')) : s'.restore = some s := by
  rw [save] at hsave
  split at hsave
  · obtain ⟨-, rfl⟩ := Prod.mk.injEq .. ▸ hsave
    rfl
  · cases hsave

lemma restore_spec {entry : StaticsContents Str} (h : s.Sound (entry :: entries)) :
    ∃ s', s.restore = some s' ∧ s'.statics.contents = entry ∧ s'.Sound entries := by
  rw [Sound] at h
  rw [restore]
  cases hbuffers : s.buffers with
  | nil =>
    rw [hbuffers] at h
    exact h.elim
  | cons buffer rest =>
    rw [hbuffers] at h
    obtain ⟨hentry, -, hstatics, hrest⟩ := h
    cases hcopied : buffer.copied with
    | true =>
      rw [hcopied, if_pos rfl] at hentry
      obtain ⟨r, hr, hcontents, hreserved⟩ :=
        buffer.copyTo_spec (show _ ≤ s.statics.matchPairs.reserved by rw [hentry]; exact hstatics)
      rw [hentry] at hcontents
      refine ⟨⟨r, rest⟩, ?_, hcontents, ?_⟩
      · simp only [hcopied, if_true, hr]
        rfl
      · rw [Sound, hcontents]
        exact hrest.mono hreserved.ge
    | false =>
      rw [hcopied, if_neg Bool.false_ne_true] at hentry
      refine ⟨⟨s.statics, rest⟩, ?_, hentry, ?_⟩
      · simp only [hcopied]
        rfl
      · rw [Sound, hentry]
        exact hrest

end LinkedStatics

lemma ScopeRuns.sound {s : LinkedStatics Str} {entries : List (StaticsContents Str)}
    (h : ScopeRuns s entries) : s.Sound entries := by
  induction h with
  | new => exact True.intro
  | @write s s' entries op ok _ hwrite ih =>
    obtain ⟨ok', s'', hs'', hsound⟩ := LinkedStatics.write_spec ih op
    obtain ⟨-, rfl⟩ := Prod.mk.injEq .. ▸ Option.some.inj (hwrite.symm.trans hs'')
    exact hsound
  | enter _ hsave ih => exact LinkedStatics.save_spec ih hsave
  | fail _ hsave hrestore ih =>
    rw [LinkedStatics.restore_of_save_fails hsave] at hrestore
    rwa [← Option.some.inj hrestore]
  | leave _ hrestore ih =>
    obtain ⟨s'', hs'', -, hsound⟩ := LinkedStatics.restore_spec ih
    obtain rfl := Option.some.inj (hrestore.symm.trans hs'')
    exact hsound

/-- At any point of any nesting of scopes: every write finds the room that it needs, a scope that
ends restores what the statics were at its entry, and one whose `init` fails changes nothing. -/
theorem preserveRegExpStatics_exact {s : LinkedStatics Str}
    {entries : List (StaticsContents Str)} (h : ScopeRuns s entries) :
    (∀ op, ∃ ok s', s.write op = some (ok, s')) ∧
      (∀ entry rest, entries = entry :: rest →
        ∃ s', s.restore = some s' ∧ s'.statics.contents = entry) ∧
      ∀ flags malloc s', s.save flags malloc = (false, s') → s'.restore = some s := by
  refine ⟨?_, ?_, ?_⟩
  · intro op
    obtain ⟨ok, s', hs', -⟩ := LinkedStatics.write_spec h.sound op
    exact ⟨ok, s', hs'⟩
  · rintro entry rest rfl
    obtain ⟨s', hs', hcontents, -⟩ := LinkedStatics.restore_spec h.sound
    exact ⟨s', hs', hcontents⟩
  · exact fun _ _ _ hsave => LinkedStatics.restore_of_save_fails hsave

/-- A write in a scope within a scope. -/
theorem preserveRegExpStatics_exact_nested : ∃ s : LinkedStatics String, ∃ entry entries,
    ScopeRuns s (entry :: entries) ∧ s.statics.contents.matchPairs = [0, 3] ∧
      ∃ s', s.restore = some s' ∧ s'.statics.contents = entry := by
  have h₁ := ScopeRuns.new.enter
    (show (LinkedStatics.new : LinkedStatics String).save 0 false = (true, _) from rfl)
  have h₂ := h₁.enter (show LinkedStatics.save _ 0 false = (true, _) from rfl)
  have h₃ := h₂.write
    (show LinkedStatics.write _ (.updateFromMatchPairs "abc" [(0, 3)] false) = some (true, _) from rfl)
  exact ⟨_, _, _, h₃, by decide, (preserveRegExpStatics_exact h₃).2.1 _ _ rfl⟩

end SpiderMonkey.Vm.StaticsScopes
