import Mathlib

/-! # A bump allocator with marks

`LifoAlloc` of `ds/LifoAlloc.h`: chunks of memory in a chain, of which those after `latest` are not
used. A release goes back to a mark; the chunks after it stay in the chain and are reset when they
are used again. Addresses and sizes have 64 bits.
-/

namespace SpiderMonkey.Ds

/-- `AlignPtr` -/
def alignPtr (orig : ℕ) : ℕ := (orig + 7) % 2 ^ 64 / 8 * 8

/-- `sizeof(BumpChunk)` -/
def chunkHeaderSize : ℕ := 32

/-- A chunk; its data go from behind the header to `limit`. -/
structure BumpChunk where
  headerBase : ℕ
  /-- The start of the available data. -/
  bump : ℕ
  limit : ℕ
  pos : 0 < headerBase
  aligned : 8 ∣ headerBase ∧ 8 ∣ limit
  base_le : headerBase + chunkHeaderSize ≤ bump
  le_limit : bump ≤ limit
  limit_lt : limit < 2 ^ 64

/-- The size of a chunk. -/
abbrev ChunkSize : Type := { size : ℕ // 8 ∣ size ∧ chunkHeaderSize < size }

/-- Memory that `js_malloc` returns. -/
structure Memory (size : ℕ) where
  address : ℕ
  pos : 0 < address
  aligned : 8 ∣ address
  fits : address + size < 2 ^ 64

/-- `js_malloc`: an allocation may fail. -/
abbrev Malloc : Type := (size : ChunkSize) → Option (Memory size.1)

namespace BumpChunk

/-- The constructor. -/
def new {size : ChunkSize} (mem : Memory size.1) : BumpChunk where
  headerBase := mem.address
  bump := mem.address + chunkHeaderSize
  limit := mem.address + size.1
  pos := mem.pos
  aligned := ⟨mem.aligned, Nat.dvd_add mem.aligned size.2.1⟩
  base_le := Nat.le_refl _
  le_limit := Nat.add_le_add_left size.2.2.le _
  limit_lt := mem.fits

variable (c : BumpChunk)

def bumpBase : ℕ := c.headerBase + chunkHeaderSize

def setBump (ptr : ℕ) (h : c.bumpBase ≤ ptr ∧ ptr ≤ c.limit) : BumpChunk :=
  { c with bump := ptr, base_le := h.1, le_limit := h.2 }

def resetBump : BumpChunk :=
  c.setBump c.bumpBase ⟨Nat.le_refl _, c.base_le.trans c.le_limit⟩

def contains (mark : ℕ) : Bool := c.bumpBase ≤ mark ∧ mark ≤ c.limit

def unused : ℕ := c.limit - alignPtr c.bump

def canAlloc (n : ℕ) : Bool :=
  let bumped := (alignPtr c.bump + n) % 2 ^ 64
  bumped ≤ c.limit ∧ c.headerBase < bumped

/-- `tryAlloc`: the address of the block. -/
def tryAlloc (n : ℕ) : Option (ℕ × BumpChunk) :=
  let aligned := alignPtr c.bump
  let newBump := (aligned + n) % 2 ^ 64
  if h : newBump ≤ c.limit ∧ c.bump ≤ newBump then
    some (aligned, c.setBump newBump ⟨c.base_le.trans h.2, h.1⟩)
  else none

/-- `release`; none is a failed assertion. -/
def release (mark : ℕ) : Option BumpChunk :=
  if h : (c.bumpBase ≤ mark ∧ mark ≤ c.limit) ∧ mark ≤ c.bump then some (c.setBump mark h.1)
  else none

end BumpChunk

/-- The chain of chunks; a pointer to one is its index. -/
structure LifoAlloc where
  chain : List BumpChunk
  latest : Option ℕ
  defaultChunkSize : ChunkSize

namespace LifoAlloc

def new (defaultChunkSize : ChunkSize) : LifoAlloc := ⟨[], none, defaultChunkSize⟩

variable (a : LifoAlloc)

/-- `*latest` -/
def latestChunk : Option BumpChunk := a.latest.bind fun i => a.chain[i]?

/-- The loop of `getOrCreateChunk`, over so many chunks after `latest`. -/
def seekChunk (n : ℕ) : ℕ → ℕ → List BumpChunk → Bool × ℕ × List BumpChunk
  | 0, latest, chain => (false, latest, chain)
  | rest + 1, latest, chain =>
    let chain := chain.modify (latest + 1) BumpChunk.resetBump
    if (chain[latest + 1]?).any fun c => c.canAlloc n then (true, latest + 1, chain)
    else seekChunk n rest (latest + 1) chain

/-- `RoundUpPow2` -/
def roundUpPow2 (x : ℕ) : ℕ := 2 ^ Nat.clog 2 x

lemma roundUpPow2_spec {x : ℕ} (h : chunkHeaderSize < x) :
    8 ∣ roundUpPow2 x ∧ chunkHeaderSize < roundUpPow2 x := by
  have hle : x ≤ roundUpPow2 x := Nat.le_pow_clog Nat.one_lt_two x
  refine ⟨?_, h.trans_le hle⟩
  have hexp : 3 ≤ Nat.clog 2 x := by
    by_contra hlt
    have hpow : roundUpPow2 x ≤ 2 ^ 3 :=
      Nat.pow_le_pow_right Nat.two_pos (Nat.le_of_lt (Nat.lt_of_not_le hlt))
    rw [chunkHeaderSize] at h
    omega
  exact Nat.pow_dvd_pow 2 hexp

/-- The size of a new chunk; none if it overflows. -/
def newChunkSize (n : ℕ) : Option ChunkSize :=
  let defaultChunkFreeSpace := a.defaultChunkSize.1 - chunkHeaderSize
  if hn : defaultChunkFreeSpace < n then
    let allocSizeWithHeader := (n + chunkHeaderSize) % 2 ^ 64
    if h : n ≤ allocSizeWithHeader ∧ allocSizeWithHeader < 2 ^ 63 then
      some ⟨roundUpPow2 allocSizeWithHeader, roundUpPow2_spec (by
        simp only [chunkHeaderSize, allocSizeWithHeader] at h ⊢
        omega)⟩
    else none
  else some a.defaultChunkSize

/-- `getOrCreateChunk`: whether there is a chunk, which is then `latest`. -/
def getOrCreateChunk (n : ℕ) (malloc : Malloc) : Bool × LifoAlloc :=
  let (found, latest, chain) :=
    match a.latest with
    | none => (false, none, a.chain)
    | some i =>
      let (found, i, chain) := seekChunk n (a.chain.length - 1 - i) i a.chain
      (found, some i, chain)
  if found then (true, { a with chain := chain, latest := latest })
  else
    match (a.newChunkSize n).bind fun size => (malloc size).map fun mem => BumpChunk.new mem with
    | none => (false, { a with chain := chain, latest := latest })
    | some newChunk =>
      (true, { a with chain := chain ++ [newChunk], latest := some chain.length })

/-- `latest->tryAlloc(n)` -/
def tryLatest (n : ℕ) : Option (ℕ × LifoAlloc) := do
  let i ← a.latest
  let c ← a.chain[i]?
  let (p, c) ← c.tryAlloc n
  some (p, { a with chain := a.chain.set i c })

/-- `alloc(n)`: a block, unless an allocation fails; that may be one of `JS_OOM_POSSIBLY_FAIL`. None
is a failed assertion. -/
def alloc (n : ℕ) (malloc : Malloc) (oom : Bool) : Option (Option ℕ × LifoAlloc) :=
  if oom then some (none, a)
  else
    match a.tryLatest n with
    | some (p, a) => some (some p, a)
    | none =>
      match a.getOrCreateChunk n malloc with
      | (false, a) => some (none, a)
      | (true, a) => (a.tryLatest n).map fun r => (some r.1, r.2)

/-- `mark()`; null is 0. -/
def mark : ℕ := match a.latestChunk with | none => 0 | some c => c.bump

/-- The search of `release`, for the chunk with the mark; it must not pass `latest`. -/
def findContainer (mark : ℕ) (latest : Option ℕ) : List BumpChunk → ℕ → Option ℕ
  | [], _ => none
  | c :: rest, i =>
    if c.contains mark then some i
    else if latest = some i then none
    else findContainer mark latest rest (i + 1)

/-- `release(mark)`; none is a failed assertion. -/
def release (mark : ℕ) : Option LifoAlloc :=
  if mark = 0 then
    match a.chain with
    | [] => some { a with latest := none }
    | c :: rest => some { a with chain := c.resetBump :: rest, latest := some 0 }
  else do
    let i ← findContainer mark a.latest a.chain 0
    let c ← a.chain[i]?
    let c ← c.release mark
    some { a with chain := a.chain.set i c, latest := some i }

/-- The loop of `ensureUnusedApproximate`. -/
def enoughUnused (n : ℕ) : ℕ → List BumpChunk → Bool
  | _, [] => false
  | total, c :: rest =>
    let total := (total + c.unused) % 2 ^ 64
    if n ≤ total then true else enoughUnused n total rest

/-- `ensureUnusedApproximate(n)` -/
def ensureUnusedApproximate (n : ℕ) (malloc : Malloc) : Option (Bool × LifoAlloc) :=
  let fromLatest := match a.latest with | none => [] | some i => a.chain.drop i
  if enoughUnused n 0 fromLatest then some (true, a)
  else
    -- `ensureUnusedApproximateSlow`
    let mark := a.mark
    let (found, a) := a.getOrCreateChunk n malloc
    (a.release mark).map fun a => (found, a)

end LifoAlloc

/-! ## Runs -/

structure LifoBlock where
  address : ℕ
  size : ℕ

/-- A mark, with the chunk and the blocks of the time when it was taken. -/
structure LifoMark where
  mark : ℕ
  latest : Option ℕ
  blocks : List LifoBlock

/-- What `js_malloc` returns does not overlap what is allocated. -/
def LifoAlloc.Fresh (a : LifoAlloc) (malloc : Malloc) : Prop :=
  ∀ size mem, malloc size = some mem → ∀ c ∈ a.chain,
    mem.address + size.1 ≤ c.headerBase ∨ c.limit ≤ mem.address

/-- Nested marks and releases, with the blocks that have not been released, and with the marks. All
requests are as `ok` says. -/
inductive LifoRuns (ok : LifoAlloc → ℕ → Prop) : LifoAlloc → List LifoBlock → List LifoMark → Prop
  | new (defaultChunkSize : ChunkSize) : LifoRuns ok (.new defaultChunkSize) [] []
  | alloc {a a' : LifoAlloc} {blocks : List LifoBlock} {marks : List LifoMark} {n p : ℕ}
      {malloc : Malloc} {oom : Bool} (h : LifoRuns ok a blocks marks) (hn : n < 2 ^ 64)
      (hok : ok a n) (hfresh : a.Fresh malloc)
      (halloc : a.alloc n malloc oom = some (some p, a')) : LifoRuns ok a' (⟨p, n⟩ :: blocks) marks
  | allocFails {a a' : LifoAlloc} {blocks : List LifoBlock} {marks : List LifoMark} {n : ℕ}
      {malloc : Malloc} {oom : Bool} (h : LifoRuns ok a blocks marks) (hn : n < 2 ^ 64)
      (hok : ok a n) (hfresh : a.Fresh malloc)
      (halloc : a.alloc n malloc oom = some (none, a')) : LifoRuns ok a' blocks marks
  | ensure {a a' : LifoAlloc} {blocks : List LifoBlock} {marks : List LifoMark} {n : ℕ}
      {malloc : Malloc} {found : Bool} (h : LifoRuns ok a blocks marks) (hn : n < 2 ^ 64)
      (hfresh : a.Fresh malloc)
      (hensure : a.ensureUnusedApproximate n malloc = some (found, a')) :
      LifoRuns ok a' blocks marks
  | mark {a : LifoAlloc} {blocks : List LifoBlock} {marks : List LifoMark}
      (h : LifoRuns ok a blocks marks) : LifoRuns ok a blocks (⟨a.mark, a.latest, blocks⟩ :: marks)
  | release {a a' : LifoAlloc} {blocks : List LifoBlock} {m : LifoMark} {marks : List LifoMark}
      (h : LifoRuns ok a blocks (m :: marks)) (hrelease : a.release m.mark = some a') :
      LifoRuns ok a' m.blocks marks

/-- The request does not wrap so far that it ends behind the header of the latest chunk again. -/
def LifoAlloc.Fits (a : LifoAlloc) (n : ℕ) : Prop :=
  ∀ c, a.latestChunk = some c → alignPtr c.bump + n ≤ 2 ^ 64 + c.headerBase

end SpiderMonkey.Ds
