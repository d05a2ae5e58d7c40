import Mathlib

/-! # Writers and readers of a stream

A writer appends to a buffer, a reader takes what it needs from the front of a stream and
leaves the rest. `Transmits write read a`: what `write` appends is what `read` takes to give
`a`, whatever stands before it in the buffer and after it in the stream.
-/

namespace SpiderMonkey.Lib

variable {β α γ : Type}

abbrev Byte := BitVec 8

/-- A reader: it fails, or gives a value and what is left of the stream. -/
abbrev Reader (β α : Type) := StateT (List β) Option α

/-- The next element of the stream. -/
def Reader.next : Reader β β
  | [] => none
  | b :: rest => some (b, rest)

/-- A value, if there is one. -/
def Reader.ofOption (a : Option α) : Reader β α := fun stream => a.map (·, stream)

/-- `read` takes exactly `bytes` and gives `a`. -/
def Reads (read : Reader β α) (bytes : List β) (a : α) : Prop :=
  ∀ rest, read (bytes ++ rest) = some (a, rest)

lemma Reads.pure (a : α) : Reads (pure a : Reader β α) [] a := by
  intro rest
  rfl

variable {a : α}

lemma Reads.ofOption {o : Option α} (h : o = some a) :
    Reads (Reader.ofOption o : Reader β α) [] a := by
  intro rest
  rw [h]
  rfl

lemma Reads.next (b : β) : Reads Reader.next [b] b := by
  intro rest
  rfl

variable {read : Reader β α} {bytes : List β}

/-- What is read is determined by the bytes. -/
lemma Reads.unique {a a' : α} (h : Reads read bytes a) (h' : Reads read bytes a') : a = a' := by
  have hboth : some (a, []) = some (a', []) := (h []).symm.trans (h' [])
  cases hboth
  rfl

variable {k : α → Reader β γ}

lemma Reads.bind {bytes bytes' : List β} {c : γ} (h : Reads read bytes a)
    (hk : Reads (k a) bytes' c) :
    Reads (read >>= k) (bytes ++ bytes') c := by
  intro rest
  have hfirst : read (bytes ++ bytes' ++ rest) = some (a, bytes' ++ rest) := by
    rw [List.append_assoc]
    exact h (bytes' ++ rest)
  show (read (bytes ++ bytes' ++ rest)).bind (fun p => k p.1 p.2) = _
  rw [hfirst]
  exact hk rest

lemma Reads.map (f : α → γ) (h : Reads read bytes a) : Reads (f <$> read) bytes (f a) := by
  intro rest
  show ((read (bytes ++ rest)).bind fun p => some (f p.1, p.2)) = _
  rw [h rest]
  rfl

/-- A first step that needs nothing of the stream. -/
lemma Reads.bind_nil {c : γ} (h : Reads read [] a) (hk : Reads (k a) bytes c) :
    Reads (read >>= k) bytes c :=
  h.bind hk

/-- A last step that needs nothing of the stream. -/
lemma Reads.bind_done {c : γ} (h : Reads read bytes a) (hk : Reads (k a) [] c) :
    Reads (read >>= k) bytes c := by
  have hall := h.bind hk
  rwa [List.append_nil] at hall

/-- The reader `n` times over. -/
def Reader.times (read : Reader β α) : Nat → Reader β (List α)
  | 0 => pure []
  | n + 1 => do
    let a ← read
    let rest ← Reader.times read n
    pure (a :: rest)

/-- A list of values read one after the other, each from its own bytes. -/
lemma Reads.times {encode : α → List β} {l : List α} (h : ∀ a ∈ l, Reads read (encode a) a) :
    Reads (read.times l.length) (l.flatMap encode) l := by
  induction l with
  | nil => exact Reads.pure []
  | cons a l ih =>
    have hhead : Reads read (encode a) a := h a List.mem_cons_self
    have htail := ih fun b hb => h b (List.mem_cons_of_mem a hb)
    rw [List.flatMap_cons]
    refine hhead.bind ?_
    exact htail.bind_done (Reads.pure (a :: l))

/-! ## Enumerations -/

/-- Repeated calls give the elements, and then that there are no more. -/
inductive Enumerates {σ : Type} (next : σ → Option (Option α × σ)) : σ → List α → σ → Prop
  | done {s s' : σ} (h : next s = some (none, s')) : Enumerates next s [] s'
  | more {s s1 s' : σ} {a : α} {l : List α} (h : next s = some (some a, s1))
      (hl : Enumerates next s1 l s') : Enumerates next s (a :: l) s'

/-- Only the first call tells where the enumeration starts. -/
lemma Enumerates.congr {σ : Type} {next : σ → Option (Option α × σ)} {s s1 s' : σ} {l : List α}
    (hcall : next s = next s1) (h : Enumerates next s1 l s') : Enumerates next s l s' := by
  cases h with
  | done h => exact .done (hcall.trans h)
  | more h hl => exact .more (hcall.trans h) hl

/-! ## Codecs -/

/-- A coding of values that can be read back. -/
structure Codec (β α : Type) where
  encode : α → List β
  decode : Reader β α
  reads : ∀ a, Reads decode (encode a) a

/-- The low `k` bytes of a number, the lowest first. -/
def encodeLittleEndian : Nat → Nat → List Byte
  | 0, _ => []
  | k + 1, n => BitVec.ofNat 8 n :: encodeLittleEndian k (n >>> 8)

def decodeLittleEndian : Nat → Reader Byte Nat
  | 0 => pure 0
  | k + 1 => do
    let b ← Reader.next
    let high ← decodeLittleEndian k
    pure (b.toNat + (high <<< 8))

lemma reads_littleEndian (k n : Nat) (h : n < 2 ^ (8 * k)) :
    Reads (decodeLittleEndian k) (encodeLittleEndian k n) n := by
  induction k generalizing n with
  | zero =>
    have hn : n = 0 := by simpa using h
    rw [hn]
    exact Reads.pure 0
  | succ k ih =>
    have hhigh : n >>> 8 < 2 ^ (8 * k) := by
      rw [Nat.shiftRight_eq_div_pow]
      rw [Nat.mul_succ, Nat.pow_add] at h
      omega
    have hsum : (BitVec.ofNat 8 n).toNat + ((n >>> 8) <<< 8) = n := by
      rw [BitVec.toNat_ofNat, Nat.shiftRight_eq_div_pow, Nat.shiftLeft_eq]
      omega
    have hread := (ih (n >>> 8) hhigh).map fun high => (BitVec.ofNat 8 n).toNat + (high <<< 8)
    rw [hsum] at hread
    exact (Reads.next (BitVec.ofNat 8 n)).bind hread

/-! ## Writers -/

/-- What `write` appends is what `read` takes to give `a`. -/
def Transmits (write : List β → List β) (read : Reader β α) (a : α) : Prop :=
  ∃ bytes, (∀ buffer, write buffer = buffer ++ bytes) ∧ Reads read bytes a

variable {write : List β → List β}

/-- What is appended does not depend on the buffer. -/
lemma Transmits.append (h : Transmits write read a) (buffer : List β) :
    write buffer = buffer ++ write [] := by
  rcases h with ⟨bytes, hwrite, _⟩
  rw [hwrite, hwrite, List.nil_append]

lemma Transmits.reads (h : Transmits write read a) : Reads read (write []) a := by
  rcases h with ⟨bytes, hwrite, hread⟩
  rwa [hwrite, List.nil_append]

lemma Transmits.pure (a : α) : Transmits (fun buffer : List β => buffer) (pure a) a :=
  ⟨[], fun buffer => (List.append_nil buffer).symm, Reads.pure a⟩

/-- One after the other: `writeBoth` is given by its equation. -/
lemma Transmits.bind {write write' writeBoth : List β → List β} {c : γ}
    (h : Transmits write read a) (hk : Transmits write' (k a) c)
    (hboth : ∀ buffer, writeBoth buffer = write' (write buffer)) :
    Transmits writeBoth (read >>= k) c := by
  rcases h with ⟨bytes, hwrite, hread⟩
  rcases hk with ⟨bytes', hwrite', hread'⟩
  refine ⟨bytes ++ bytes', ?_, hread.bind hread'⟩
  intro buffer
  rw [hboth, hwrite, hwrite', List.append_assoc]

lemma Transmits.map (f : α → γ) (h : Transmits write read a) :
    Transmits write (f <$> read) (f a) := by
  rcases h with ⟨bytes, hwrite, hread⟩
  exact ⟨bytes, hwrite, hread.map f⟩

/-- A reader that only picks a value with no need of the stream goes first for free. -/
lemma Transmits.bind_ofOption {o : Option α} {c : γ} (h : o = some a)
    (hk : Transmits write (k a) c) :
    Transmits write (Reader.ofOption o >>= k) c := by
  rcases hk with ⟨bytes, hwrite, hread⟩
  exact ⟨bytes, hwrite, (Reads.ofOption h).bind_nil hread⟩

lemma Transmits.next (b : β) : Transmits (· ++ [b]) Reader.next b :=
  ⟨[b], fun _ => rfl, Reads.next b⟩

/-- Writing a list element by element, and reading that many. -/
lemma Transmits.times {write : List β → α → List β} {l : List α}
    (h : ∀ a ∈ l, Transmits (write · a) read a) :
    Transmits (fun buffer => l.foldl write buffer) (read.times l.length) l := by
  induction l with
  | nil => exact Transmits.pure []
  | cons a l ih =>
    have hhead : Transmits (write · a) read a := h a List.mem_cons_self
    have htail := ih fun b hb => h b (List.mem_cons_of_mem a hb)
    have hrest : Transmits (fun buffer => l.foldl write buffer)
        (read.times l.length >>= fun rest => Pure.pure (a :: rest)) (a :: l) :=
      htail.map (a :: ·)
    exact hhead.bind hrest fun _ => rfl

end SpiderMonkey.Lib
