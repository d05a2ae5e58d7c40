import SpiderMonkey.Lib.Insertions

/-! # Assembler buffers with constant pools

`js/src/ion/shared/IonAssemblerBuffer.h`, `js/src/ion/shared/IonAssemblerBufferWithConstantPools.h`.

Instructions are written to slices of a fixed size, and a pool of constants is put behind a slice.
While code is written a branch holds the distance to its target in bytes of instructions alone. It
is patched when the code is copied, once the place and the size of every pool are known.
-/

namespace SpiderMonkey.Ion.ConstantPools

/-- The parameters of the template and of the constructor. Alignments are powers of two. -/
structure BufferParams where
  sliceSize : ℕ
  instBaseSize : ℕ
  guardSize : ℕ
  headerSize : ℕ
  footerSize : ℕ
  logInstBufferAlign : ℕ
  instBaseSize_pos : 0 < instBaseSize

/-- What the buffer asks of the assembler. A branch cannot be retargeted to where it does not
reach. -/
structure Asm (Inst : Type) where
  getBranchOffset : Inst → ℤ
  retargetNearBranch : Inst → ℤ → Option Inst
  getBranchOffset_retarget : ∀ {i i' : Inst} {offset : ℤ},
    retargetNearBranch i offset = some i' → getBranchOffset i' = offset

/-- A word of ARM code in fields: the condition, the operation, and the immediate of a branch. -/
structure Instruction where
  cond : BitVec 4
  op : BitVec 4
  imm : BitVec 24

/-- `BOffImm::isInRange`. -/
def isInRange (offset : ℤ) : Bool := -33554432 ≤ offset - 8 && offset - 8 ≤ 33554428

/-- The assembler for ARM. A branch with link cannot be retargeted. -/
def armAsm : Asm Instruction where
  getBranchOffset i := if i.op = 0xa#4 ∨ i.op = 0xb#4 then i.imm.toInt * 4 + 8 else 0
  retargetNearBranch i offset :=
    if i.op ≠ 0xb#4 ∧ offset % 4 = 0 ∧ isInRange offset then
      some { i with op := 0xa#4, imm := BitVec.ofInt 24 ((offset - 8) / 4) }
    else none
  getBranchOffset_retarget := by
    intro i i' offset h
    split at h
    · rename_i hok
      obtain ⟨-, hmod, hrange⟩ := hok
      rw [isInRange, Bool.and_eq_true, decide_eq_true_eq, decide_eq_true_eq] at hrange
      cases h
      rw [if_pos (Or.inl rfl), BitVec.toInt_ofInt, Int.bmod_eq_of_le] <;> omega
    · cases h

/-- The buffer for ARM code. -/
def armBuffer : BufferParams := ⟨16, 4, 4, 4, 0, 3, by decide⟩

/-- `Pool`. Its alignment divides that of the buffer. -/
structure Pool (P : BufferParams) where
  immSize : ℕ
  numEntries : ℕ
  poolData : List UInt8
  logAlignment : ℕ
  logAlignment_le : logAlignment ≤ P.logInstBufferAlign

variable {P : BufferParams} {Inst : Type}

namespace Pool

variable (p : Pool P)

/-- A pool without entries is not aligned. -/
def align (ptr : ℤ) : ℤ :=
  if p.numEntries = 0 then ptr
  else (ptr + (2 ^ p.logAlignment - 1)) / 2 ^ p.logAlignment * 2 ^ p.logAlignment

def getPoolSize : ℕ := p.immSize * p.numEntries

def addPoolSize (start : ℤ) : ℤ := p.align start + p.getPoolSize

end Pool

/-- The pools of all kinds, each with its `other`, for references back. -/
abbrev Pools (P : BufferParams) : Type := List (Pool P × Pool P)

/-- In the order in which they are laid out: the pools, then the others from the last kind on. -/
def Pools.layout (pools : Pools P) : List (Pool P) :=
  pools.map Prod.fst ++ pools.reverse.map Prod.snd

def Pools.isEmpty (pools : Pools P) : Bool :=
  pools.all fun p => p.1.numEntries = 0 && p.2.numEntries = 0

/-- `BufferSliceTail`. -/
structure BufferSlice (P : BufferParams) (Inst : Type) where
  instructions : List Inst
  isBranch : ℕ → Bool
  data : Option (Pools P)
  isNatural : Bool

namespace BufferSlice

variable (s : BufferSlice P Inst)

def new : BufferSlice P Inst := ⟨[], fun _ => false, none, true⟩

def size : ℤ := s.instructions.length * P.instBaseSize

def markNextAsBranch : BufferSlice P Inst :=
  { s with isBranch := fun idx => idx == s.instructions.length || s.isBranch idx }

def putBlob (inst : Inst) : BufferSlice P Inst := { s with instructions := s.instructions ++ [inst] }

/-- The instructions, with the marks of branches. -/
def stream : List (Inst × Bool) :=
  s.instructions.zipIdx.map fun (i, idx) => (i, s.isBranch idx)

end BufferSlice

/-- Where a pool is: the bytes of instructions before it, its size with the padding, and its end. -/
structure PoolInfo where
  offset : ℤ
  size : ℤ
  finalPos : ℤ

/-- The `nil` of `getInfo`. -/
def PoolInfo.nil : PoolInfo := ⟨0, 0, 0⟩

/-- What `getPoolData` computes from the pool before and the offset of the perforation. -/
def PoolInfo.next (prev : PoolInfo) (perfOffset : ℤ) (pools : Pools P) : PoolInfo :=
  let initOffset := prev.finalPos + (perfOffset - prev.offset)
  let finOffset :=
    if pools.isEmpty then initOffset
    else pools.layout.foldl (fun off p => p.addPoolSize off) (initOffset + P.headerSize) + P.footerSize
  ⟨perfOffset, finOffset - initOffset, finOffset⟩

/-- A buffer. `perforation` is the slice that was the last one and the offset at the time, and
`poolInfo` has `numDumps` entries. -/
structure AssemblerBuffer (P : BufferParams) (Inst : Type) where
  slices : List (BufferSlice P Inst)
  poolInfo : List PoolInfo
  perforation : Option (ℕ × ℤ)

namespace AssemblerBuffer

variable (b : AssemblerBuffer P Inst)

def new : AssemblerBuffer P Inst := ⟨[], [], none⟩

def nextOffset : ℤ := (b.slices.map BufferSlice.size).sum

/-- The last slice, or a new one where an instruction does not fit into it. -/
def ensureSpace : AssemblerBuffer P Inst :=
  match b.slices.getLast? with
  | some tail =>
    if tail.size + P.instBaseSize ≤ P.sliceSize then b
    else { b with slices := b.slices ++ [.new] }
  | none => { b with slices := [.new] }

def modifyTail (f : BufferSlice P Inst → BufferSlice P Inst) : AssemblerBuffer P Inst :=
  { b with slices := b.slices.modify (b.slices.length - 1) f }

def markNextAsBranch : AssemblerBuffer P Inst := b.ensureSpace.modifyTail .markNextAsBranch

def putBlob (inst : Inst) : AssemblerBuffer P Inst := b.ensureSpace.modifyTail (·.putBlob inst)

/-- A place for a pool; `isNatural` unless a guard has been put before it. -/
def perforate (isNatural : Bool) : Option (AssemblerBuffer P Inst) :=
  if b.slices = [] then none
  else some
    { b with
      slices := b.slices.modify (b.slices.length - 1) (fun s => { s with isNatural := isNatural }) ++
        [.new]
      perforation := some (b.slices.length - 1, b.nextOffset) }

/-- `getInfo(numDumps - 1)`. -/
def lastInfo : PoolInfo := b.poolInfo.getLast?.getD .nil

def getPoolData (pools : Pools P) : PoolInfo :=
  let perfOffset :=
    match b.perforation with
    | some (_, perforation) => perforation
    | none => b.nextOffset + P.guardSize
  b.lastInfo.next perfOffset pools

/-- The pools are bound to the perforation, unless they are empty. -/
def finishPool (pools : Pools P) : Option (AssemblerBuffer P Inst) :=
  let newPoolInfo := b.getPoolData pools
  if newPoolInfo.size = 0 then some { b with perforation := none }
  else do
    let (perforatedNode, _) ← b.perforation
    some
      { slices := b.slices.modify perforatedNode fun s => { s with data := some pools }
        poolInfo := b.poolInfo ++ [newPoolInfo]
        perforation := none }

/-- The scan of `poolSizeBefore`. -/
def poolsBefore (offset : ℤ) : ℕ := (b.poolInfo.takeWhile fun info => info.offset ≤ offset).length

def poolSizeBefore (offset : ℤ) : ℤ :=
  match b.poolsBefore offset with
  | 0 => 0
  | cur + 1 =>
    let info := b.poolInfo[cur]?.getD .nil
    info.finalPos - info.offset

/-- The instructions that have been put, with the marks of branches. -/
def stream : List (Inst × Bool) := b.slices.flatMap BufferSlice.stream

end AssemblerBuffer

/-- What a copy does, in order: an entry of `poolInfo` is read, or bytes are written. -/
inductive CopyEvent (P : BufferParams) (Inst : Type) where
  | readInfo (index : ℕ)
  | inst (dest : ℤ) (i : Inst)
  | poolHeader (dest : ℤ) (data : Pools P) (isNatural : Bool)
  | poolData (dest : ℤ) (bytes : List UInt8)
  | poolFooter (dest : ℤ) (data : Pools P) (isNatural : Bool)

/-- The loop for a branch forward, with `rest` more entries before `numDumps`: the table is read
first. -/
def scanForward (poolInfo : ℕ → PoolInfo) (destOffset : ℤ) : ℕ → ℕ → ℤ → ℤ × List ℕ
  | 0, curpool, offset => (offset, [curpool])
  | rest + 1, curpool, offset =>
    if (poolInfo curpool).offset ≤ destOffset then
      let r := scanForward poolInfo destOffset rest (curpool + 1) (offset + (poolInfo curpool).size)
      (r.1, curpool :: r.2)
    else (offset, [curpool])

/-- The loop for a branch back, over the first entries. -/
def scanBackward (poolInfo : ℕ → PoolInfo) (destOffset : ℤ) : ℕ → ℤ → ℤ × List ℕ
  | 0, offset => (offset, [])
  | curpool + 1, offset =>
    if destOffset < (poolInfo curpool).offset then
      let r := scanBackward poolInfo destOffset curpool (offset - (poolInfo curpool).size)
      (r.1, curpool :: r.2)
    else (offset, [curpool])

/-- `patchBranch`, with the entries of `poolInfo` that it reads. -/
def patchBranch (asm : Asm Inst) (poolInfo : ℕ → PoolInfo) (numDumps : ℕ) (i : Inst) (curpool : ℕ)
    (branch : ℤ) : Option (Inst × List ℕ) :=
  let offset := asm.getBranchOffset i
  if offset = 0 then some (i, [])
  else
    let destOffset := branch + offset
    let r :=
      if 0 < offset then scanForward poolInfo destOffset (numDumps - curpool) curpool offset
      else scanBackward poolInfo destOffset curpool offset
    (asm.retargetNearBranch i r.1).map fun i' => (i', r.2)

/-- An instruction is patched if it is marked as a branch. -/
def patchMarked (asm : Asm Inst) (poolInfo : ℕ → PoolInfo) (numDumps : ℕ) (marked : Bool) (i : Inst)
    (curIndex : ℕ) (curInstOffset : ℤ) : Option (Inst × List ℕ) :=
  if marked then patchBranch asm poolInfo numDumps i curIndex curInstOffset else some (i, [])

/-- The instructions of a slice. -/
def copyInstructions (asm : Asm Inst) (poolInfo : ℕ → PoolInfo) (numDumps curIndex : ℕ)
    (isBranch : ℕ → Bool) : List Inst → ℕ → ℤ → ℤ → Option (List (CopyEvent P Inst))
  | [], _, _, _ => some []
  | i :: rest, idx, curInstOffset, dest => do
    let (i', reads) ← patchMarked asm poolInfo numDumps (isBranch idx) i curIndex curInstOffset
    let events ← copyInstructions asm poolInfo numDumps curIndex isBranch rest (idx + 1)
      (curInstOffset + P.instBaseSize) (dest + P.instBaseSize)
    some (reads.map .readInfo ++ .inst dest i' :: events)

/-- Pools one after the other, with where they end. -/
def copyPools : List (Pool P) → ℤ → List (CopyEvent P Inst) × ℤ
  | [], poolDest => ([], poolDest)
  | curPool :: rest, poolDest =>
    let r := copyPools rest (curPool.addPoolSize poolDest)
    (.poolData (curPool.align poolDest) (curPool.poolData.take curPool.getPoolSize) :: r.1, r.2)

/-- The slices, with where the code ends. -/
def copySlices (asm : Asm Inst) (poolInfo : ℕ → PoolInfo) (numDumps : ℕ) :
    List (BufferSlice P Inst) → ℕ → ℤ → ℤ → Option (List (CopyEvent P Inst) × ℤ)
  | [], _, _, dest => some ([], dest)
  | cur :: rest, curIndex, curInstOffset, dest => do
    let events ←
      copyInstructions asm poolInfo numDumps curIndex cur.isBranch cur.instructions 0 curInstOffset dest
    match cur.data with
    | none =>
      let r ← copySlices asm poolInfo numDumps rest curIndex (curInstOffset + cur.size)
        (dest + cur.size)
      some (events ++ r.1, r.2)
    | some data =>
      let pools := copyPools data.layout (dest + cur.size + P.headerSize)
      let r ← copySlices asm poolInfo numDumps rest (curIndex + 1) (curInstOffset + cur.size)
        (pools.2 + P.footerSize)
      some (events ++ .poolHeader (dest + cur.size) data cur.isNatural :: pools.1 ++
        .poolFooter pools.2 data cur.isNatural :: r.1, r.2)

/-- The start of the code: the destination is aligned. -/
def alignedStart (P : BufferParams) (dest : ℕ) : ℤ :=
  (dest + (2 ^ P.logInstBufferAlign - 1)) / 2 ^ P.logInstBufferAlign * 2 ^ P.logInstBufferAlign

/-- `executableCopy`, once the pools have been flushed. Behind the entries of the table the memory is
`beyond`. -/
def AssemblerBuffer.executableCopy (b : AssemblerBuffer P Inst) (asm : Asm Inst)
    (beyond : ℕ → PoolInfo) (dest : ℕ) : Option (List (CopyEvent P Inst) × ℤ) :=
  copySlices asm (fun i => b.poolInfo[i]?.getD (beyond i)) b.poolInfo.length b.slices 0 0
    (alignedStart P dest)

/-- The buffers that can be built. Empty pools are not placed. -/
inductive BufferRuns : AssemblerBuffer P Inst → Prop
  | new : BufferRuns .new
  | markNextAsBranch {b : AssemblerBuffer P Inst} (h : BufferRuns b) : BufferRuns b.markNextAsBranch
  | putBlob {b : AssemblerBuffer P Inst} (h : BufferRuns b) (inst : Inst) :
      BufferRuns (b.putBlob inst)
  | perforate {b b' : AssemblerBuffer P Inst} {isNatural : Bool} (h : BufferRuns b)
      (hperforate : b.perforate isNatural = some b') : BufferRuns b'
  | finishPool {b b' : AssemblerBuffer P Inst} {pools : Pools P} (h : BufferRuns b)
      (hfinish : b.finishPool pools = some b') : BufferRuns b'

end SpiderMonkey.Ion.ConstantPools
