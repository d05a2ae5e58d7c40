import SpiderMonkey.Vm.ScriptSoundness

/-! # The clone of a script

`CloneScript` of `jsscript.cpp`, with `ScriptDataSize` and `partiallyInit`. The arrays of a script
are in one block of memory, which is copied as a whole.
-/

namespace SpiderMonkey.CloneScript

open List

/-! ## The block -/

/-- The arrays, in their order in the block. -/
inductive ScriptArray
  | consts | atoms | objects | regexps | trynotes | closedArgs | closedVars | code | notes
deriving DecidableEq

def arrays : List ScriptArray :=
  [.consts, .atoms, .objects, .regexps, .trynotes, .closedArgs, .closedVars, .code, .notes]

/-- The sizes of the types that depend on the platform. -/
structure Sizes where
  value : ℕ
  pointer : ℕ
  tryNote : ℕ
  header : ℕ
  value_pos : 0 < value
  pointer_pos : 0 < pointer
  tryNote_pos : 0 < tryNote

variable (z : Sizes)

def elementSize : ScriptArray → ℕ
  | .consts => z.value
  | .atoms | .objects | .regexps => z.pointer
  | .trynotes => z.tryNote
  | .closedArgs | .closedVars => 4
  | .code | .notes => 1

/-- The length and the vector of an array, unless they are fields of the script. -/
def headerSize : ScriptArray → ℕ
  | .atoms | .code | .notes => 0
  | _ => z.header

variable {A F B R S C D : Type} (s : Script A F B R S)

def count : ScriptArray → ℕ
  | .consts => s.consts.length
  | .atoms => s.atoms.length
  | .objects => s.objects.length
  | .regexps => s.regexps.length
  | .trynotes => s.trynotes.length
  | .closedArgs => s.closedArgs.length
  | .closedVars => s.closedVars.length
  | .code => s.code.length
  | .notes => s.notes.length

def headers : ℕ := (arrays.map fun a => if count s a = 0 then 0 else headerSize z a).sum

def arraySize (a : ScriptArray) : ℕ := count s a * elementSize z a

def scriptDataSize : ℕ := headers z s + (arrays.map (arraySize z s)).sum

/-- How far `cursor` is when `partiallyInit` gets to an array. -/
def offset (a : ScriptArray) : ℕ :=
  headers z s + ((arrays.takeWhile (· ≠ a)).map (arraySize z s)).sum

/-- The vector that `partiallyInit` sets. -/
def vector (data : ℕ) (a : ScriptArray) : Option ℕ :=
  if count s a = 0 ∧ a ≠ .code then none else some (data + offset z s a)

/-- What `memcpy` copies of an array: the elements in the first `scriptDataSize` bytes. -/
def copied {α : Type} (a : ScriptArray) (elements : List α) : List α :=
  elements.take ((scriptDataSize z s - offset z s a) / elementSize z a)

lemma offset_add_le (a : ScriptArray) : offset z s a + arraySize z s a ≤ scriptDataSize z s := by
  cases a <;> simp [offset, scriptDataSize, arrays] <;> omega

lemma copied_eq {α : Type} {a : ScriptArray} {elements : List α}
    (h : elements.length = count s a) : copied z s a elements = elements := by
  have hpos : 0 < elementSize z a := by
    cases a <;> simp [elementSize, z.value_pos, z.pointer_pos, z.tryNote_pos]
  refine take_of_length_le ((Nat.le_div_iff_mul_le hpos).2 ?_)
  have hle := offset_add_le z s a
  rw [h]
  simp only [arraySize] at hle
  omega

/-! ## The clone -/

def cloneBindings (b : Bindings A) : Option (Bindings A) :=
  b.getOrderedBindings.foldlM (fun bindings x =>
    match x.maybeName with
    | some atom => bindings.add (some atom) x.kind
    | none => bindings.add none .argument) Bindings.empty

/-- A loop that appends a clone for each object. It may fail by what has been cloned so far. -/
def cloneAll {α γ : Type} (clone : List γ → α → Option γ) (objects : List α) : Option (List γ) :=
  objects.foldlM (fun done x => do
    let y ← clone done x
    some (done ++ [y])) []

/-- `enclosingScope`, which is the function itself if it is none. -/
def enclosingScope (done : List C) (o : ScriptObject F B) : Option (Option C) :=
  match o.enclosing with
  | none => some none
  | some index => done[index]?.map some

-- `CloneStaticBlockObject` or `CloneInterpretedFunction`, and `CloneScriptRegExpObject`
variable (cloneObject : List C → Option C → ScriptObject F B → Option C)
  (cloneRegExp : List D → R → Option D)

/-- The clone of a block or a function, in the clone of the block around it. -/
def cloneInScope (done : List C) (o : ScriptObject F B) : Option C := do
  let scope ← enclosingScope done o
  cloneObject done scope o

/-- What is copied into a script of zeros. -/
def copyFields (src : Script A F B R S) (bindings : Bindings A) : Script A F B R S where
  bindings := bindings
  code := copied z src .code src.code
  mainOffset := src.mainOffset
  version := src.version
  nfixed := src.nfixed
  nslots := src.nslots
  staticLevel := src.staticLevel
  lineno := src.lineno
  sourceStart := src.sourceStart
  sourceEnd := src.sourceEnd
  nTypeSets := src.nTypeSets
  notes := copied z src .notes src.notes
  atoms := copied z src .atoms src.atoms
  objects := []
  regexps := []
  closedArgs := copied z src .closedArgs src.closedArgs
  closedVars := copied z src .closedVars src.closedVars
  trynotes := copied z src .trynotes src.trynotes
  consts := copied z src .consts src.consts
  noScriptRval := src.noScriptRval
  savedCallerFun := src.savedCallerFun
  strictModeCode := src.strictModeCode
  explicitUseStrict := src.explicitUseStrict
  bindingsAccessedDynamically := src.bindingsAccessedDynamically
  funHasExtensibleScope := src.funHasExtensibleScope
  isGenerator := src.isGenerator
  isGeneratorExp := src.isGeneratorExp
  argsHasVarBinding := false
  needsArgsAnalysis := false
  needsArgsObj := false
  filename := src.filename
  scriptSource := src.scriptSource

/-- The flags for `arguments`. -/
def copyArguments (src dst : Script A F B R S) : Option (Script A F B R S) :=
  if src.argsHasVarBinding then
    if src.needsArgsAnalysis then some dst.setArgumentsHasVarBinding
    else dst.setArgumentsHasVarBinding.setNeedsArgsObj src.needsArgsObj
  else some dst

/-- `CloneScript`, where `data` is what `AllocScriptData` returns and `creates` says whether
`JSScript::Create` succeeds. Beside the new script are its objects, its regexps and its vectors. -/
def cloneScript (src : Script A F B R S) (srcData : ℕ) (data : Option ℕ) (creates : Bool) :
    Option (Script A F B R S × List C × List D × (ScriptArray → Option ℕ)) := do
  let data ← data
  let bindings ← cloneBindings src.bindings
  let objects ← cloneAll (cloneInScope cloneObject) src.objects
  let regexps ← cloneAll cloneRegExp (replicate src.regexps.length src.regexps).flatten
  guard creates
  let dst ← copyArguments src (copyFields z src bindings)
  some (dst, objects, regexps.take src.regexps.length, fun a =>
    (vector z src srcData a).map fun p => data + (p - srcData))

/-! ## What it has of the script -/

lemma cloneBindings_eq {b : Bindings A} {l : List (Binding A)} (h : b.Built l) :
    cloneBindings b = some b := by
  rw [cloneBindings, h.holds.ordered]
  induction h with
  | empty => rfl
  | @add b b' l name kind _ hadd ih =>
    rw [foldlM_append, ih]
    cases name with
    | some atom => simpa using hadd
    | none =>
      have hkind : kind = .argument := by
        cases kind <;> simp [Bindings.add] at hadd ⊢
      simpa [hkind] using hadd

lemma cloneAll_spec {α γ : Type} {f : List γ → α → Option γ} {xs : List α}
    (h : ∀ i x done, xs[i]? = some x → done.length = i → (f done x).isSome) :
    ∃ ys, cloneAll f xs = some ys ∧ ys.length = xs.length ∧
      ∀ i x, xs[i]? = some x → ∃ y, ys[i]? = some y ∧ f (ys.take i) x = some y := by
  induction xs using reverseRecOn with
  | nil => exact ⟨[], rfl, rfl, by simp⟩
  | append_singleton xs x ih =>
    obtain ⟨ys, hys, hlength, hclones⟩ := ih fun i y done hy =>
      h i y done (getElem?_append_left (List.getElem?_eq_some_iff.1 hy).1 ▸ hy)
    obtain ⟨y, hy⟩ := Option.isSome_iff_exists.1 (h xs.length x ys (by simp) hlength)
    refine ⟨ys ++ [y], ?_, by simp [hlength], fun i x' hx' => ?_⟩
    · rw [cloneAll] at hys ⊢
      rw [foldlM_append, hys]
      simp [hy]
    · rcases Nat.lt_or_ge i xs.length with hlt | hge
      · obtain ⟨y', hy', hclone⟩ := hclones i x' (getElem?_append_left hlt ▸ hx')
        rw [← hlength] at hlt
        exact ⟨y', by rw [getElem?_append_left hlt, hy'], by rwa [take_append_of_le_length hlt.le]⟩
      · obtain ⟨hi, rfl⟩ := List.getElem?_eq_some_iff.1 hx'
        obtain rfl : i = ys.length := by simp at hi; omega
        exact ⟨y, by simp, by simpa [hlength] using hy⟩

lemma copyFields_eq : copyFields z s s.bindings = { s with
    objects := [], regexps := []
    argsHasVarBinding := false, needsArgsAnalysis := false, needsArgsObj := false } := by
  simp only [copyFields, Script.mk.injEq, true_and, and_true]
  refine ⟨?_, ?_, ?_, ?_, ?_, ?_, ?_⟩ <;> exact copied_eq z s rfl

lemma copyArguments_spec (harguments : s.knownToNeedArgsObj → s.argsHasVarBinding) :
    ∃ dst, copyArguments s (copyFields z s s.bindings) = some dst ∧
      dst.knownToNeedArgsObj = s.knownToNeedArgsObj ∧ dst = { s with
        objects := [], regexps := []
        needsArgsAnalysis := dst.needsArgsAnalysis, needsArgsObj := dst.needsArgsObj } := by
  rw [copyFields_eq]
  unfold copyArguments
  split_ifs with hsrc hpending
  · exact ⟨_, rfl, by simp [Script.knownToNeedArgsObj, Script.setArgumentsHasVarBinding, hpending],
      by simp [Script.setArgumentsHasVarBinding, hsrc]⟩
  · refine ⟨{ s with
      objects := [], regexps := []
      argsHasVarBinding := true, needsArgsAnalysis := false }, ?_, ?_, ?_⟩
    · simp [Script.setNeedsArgsObj, Script.setArgumentsHasVarBinding, guard]
    · simp [Script.knownToNeedArgsObj, hpending]
    · simp [hsrc]
  · have hunknown := mt harguments hsrc
    rw [Bool.not_eq_true] at hsrc hunknown
    exact ⟨_, rfl, by rw [hunknown, Script.knownToNeedArgsObj, Bool.and_false], by rw [hsrc]⟩

variable {src : Script A F B R S}

lemma cloneInScope_take {objects : List C} {i : ℕ} {o : ScriptObject F B} {clone : C}
    (h : cloneInScope cloneObject (objects.take i) o = some clone) :
    ∃ scope, enclosingScope objects o = some scope ∧
      cloneObject (objects.take i) scope o = some clone := by
  obtain ⟨scope, hscope, hclone⟩ := Option.bind_eq_some_iff.1 h
  refine ⟨scope, ?_, hclone⟩
  unfold enclosingScope at hscope ⊢
  cases henclosing : o.enclosing with
  | none => simpa [henclosing] using hscope
  | some index =>
    simp only [henclosing, Option.map_eq_some_iff, getElem?_take] at hscope ⊢
    obtain ⟨c, hc, hsome⟩ := hscope
    split_ifs at hc
    exact ⟨c, hc, hsome⟩

lemma cloneInScope_isSome (hs : src.WellFormed)
    (hobject : ∀ done scope o, (cloneObject done scope o).isSome) {i : ℕ} {o : ScriptObject F B}
    {done : List C} (ho : src.objects[i]? = some o) (hdone : done.length = i) :
    (cloneInScope cloneObject done o).isSome := by
  have hlt := hs.enclosed i o ho
  unfold cloneInScope enclosingScope
  cases henclosing : o.enclosing with
  | none => simp [hobject]
  | some index =>
    have hindex : index < done.length := hdone ▸ hlt index henclosing
    simp [hindex, hobject]

/-- The inner loop for the regexps makes all clones, in the first run of the outer one. -/
lemma getElem?_flatten_replicate {α : Type} {xs : List α} {i : ℕ} {x : α} (h : xs[i]? = some x) :
    (replicate xs.length xs).flatten[i]? = some x := by
  have hlt := (List.getElem?_eq_some_iff.1 h).1
  obtain ⟨n, hn⟩ : ∃ n, xs.length = n + 1 := ⟨xs.length - 1, by omega⟩
  rw [hn, replicate_succ, flatten_cons, getElem?_append_left hlt, h]

/-- A block with a function in it, and two regexps. -/
def nestedScript : Script (BitVec 32) Unit Unit Unit Unit :=
  { bareScript threeBindings with
    objects := [.block none (), .function (some 0) ()], regexps := [(), ()] }

def sizes64 : Sizes := ⟨8, 8, 16, 16, Nat.zero_lt_succ 7, Nat.zero_lt_succ 7, Nat.zero_lt_succ 15⟩

end SpiderMonkey.CloneScript
