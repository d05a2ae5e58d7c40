import SpiderMonkey.Ion.ParameterSpecialization

/-! # When specialized code runs on the arguments it was compiled for

The constants baked at the entry are guarded by the saved arguments: while there
is such code, the script counts as specialized and the saved arguments are the
baked ones. `Compile` keeps this as long as it does not save other arguments and
return the code all the same, which it does when the last execution bailed out.

The constants baked for the locals at the OSR entry are guarded by nothing but
the test of the arguments.
-/

namespace SpiderMonkey.Ion

open SpiderMonkey.Lib Option

namespace Choices

/-- `Compile` gets to the test of the arguments. -/
def reachesTest (c : Choices) : Bool := !c.debugMode && c.checkScript && c.checkScriptSize

end Choices

namespace JSScript

/-- The test of the arguments discards the code. -/
def discardsCode (script : JSScript) (fp : StackFrame) : Bool :=
  (script.hasArgumentsChangedSinceLastCall fp).1 && script.isParameterSpecialized &&
    !script.bailed

/-- The constants the code has in place of the arguments, if it has them. -/
def argConstants? (script : JSScript) : Option (List Value) :=
  script.ionScript?.bind IonScript.argConstants

/-- Code with constants in place of the arguments belongs to a specialized script
whose saved arguments are these constants. -/
def Guarded (script : JSScript) : Prop :=
  ∀ constants, script.argConstants? = some constants →
    script.isFunction = true ∧ script.disabledForPS = false ∧
      script.isParameterSpecialized = true ∧ script.argsOfLastCall = constants

/-- The saved arguments are those of the frame, if they are used at all. -/
def Saved (script : JSScript) (fp : StackFrame) : Prop :=
  script.isFunction = true → script.disabledForPS = false → script.argsOfLastCall = fp.formals

/-! ## The test of the arguments -/

variable {script : JSScript} {ion : IonScript}

@[simp] lemma ionScript?_code (h : script.ion = .code ion) :
    script.ionScript? = some ion := by
  simp [ionScript?, h]

variable {fp : StackFrame}

/-- Where the saved arguments are used, the test compares them and then saves those
of the frame. -/
lemma hasArgumentsChanged_eq (hfun : script.isFunction = true)
    (henabled : script.disabledForPS = false) :
    script.hasArgumentsChangedSinceLastCall fp =
      (script.isParameterSpecialized && script.argsOfLastCall ≠ fp.formals,
        { script with argsOfLastCall := fp.formals }) := by
  obtain ⟨isFunction, disabledForPS, isParameterSpecialized, bailed, args, ion⟩ := script
  obtain rfl : isFunction = true := hfun
  obtain rfl : disabledForPS = false := henabled
  unfold hasArgumentsChangedSinceLastCall
  by_cases hargs : args = fp.formals
  · subst hargs
    cases isParameterSpecialized <;> simp
  · cases isParameterSpecialized <;> simp [hargs]

/-- Elsewhere it does nothing and answers yes. -/
lemma hasArgumentsChanged_unused (h : script.isFunction = false ∨ script.disabledForPS = true) :
    script.hasArgumentsChangedSinceLastCall fp = (true, script) := by
  unfold hasArgumentsChangedSinceLastCall
  rcases h with h | h <;> simp [h]

/-- The test touches the saved arguments only, and leaves those of the frame there. -/
lemma hasArgumentsChanged_saves (script : JSScript) (fp : StackFrame) :
    ∃ args, (script.hasArgumentsChangedSinceLastCall fp).2 =
      { script with argsOfLastCall := args } ∧
      (script.isFunction = true → script.disabledForPS = false → args = fp.formals) := by
  by_cases hused : script.isFunction = true ∧ script.disabledForPS = false
  · exact ⟨fp.formals, by rw [hasArgumentsChanged_eq hused.1 hused.2], fun _ _ => rfl⟩
  · refine ⟨script.argsOfLastCall, ?_, fun hfun henabled => absurd ⟨hfun, henabled⟩ hused⟩
    rw [hasArgumentsChanged_unused (by grind)]

/-! ## Compilation -/

variable {o : IonOptions} {osrPc : Option Pc}

/-- New code with constants in place of the arguments has the arguments of the frame,
and the script says so. -/
lemma initParameters_some {script script' : JSScript} {constants : List Value}
    (h : script.initParameters o fp osrPc = (some constants, script')) :
    constants = fp.formals ∧ script.isFunction = true ∧ script.disabledForPS = false ∧
      script' = { script with isParameterSpecialized := true } := by
  unfold initParameters at h
  split_ifs at h with hcond
  · have hfun : script.isFunction = true := by grind
    unfold canSpecialize at h
    split_ifs at h
    all_goals grind
  · simp at h

lemma newOsrPreheader_isFunction (hfun : script.isFunction = true) :
    (script.newOsrPreheader o fp).2.2 = script := by
  unfold newOsrPreheader canSpecializeAtOsr
  split_ifs
  all_goals simp_all

/-- The constants in place of the locals are the locals of the frame. -/
lemma newOsrPreheader_locals {constants : List Value}
    (h : (script.newOsrPreheader o fp).2.1 = some constants) :
    constants = fp.locals := by
  unfold newOsrPreheader canSpecializeAtOsr at h
  split_ifs at h
  all_goals simp_all

variable {id : Nat}

/-- The code a successful compilation leaves. -/
lemma ionCompile_code {outcome : IonCompileOutcome} {script script' : JSScript}
    (h : script.ionCompile o outcome id fp osrPc = (true, script'))
    (hion : script'.ion = .code ion) :
    ion.osrPc = osrPc ∧
    (∀ constants, ion.osrLocalConstants = some constants → constants = fp.locals) ∧
    ∀ constants, ion.argConstants = some constants → constants = fp.formals ∧
      script.isFunction = true ∧ script.disabledForPS = false ∧
      script' = { script with isParameterSpecialized := true, ion := .code ion } := by
  unfold ionCompile at h
  cases outcome with
  | failsEarly => simp at h
  | fails builtOsr => cases builtOsr <;> simp at h
  | succeeds builtOsr valid =>
    cases hparams : script.initParameters o fp osrPc with | mk args script1
    simp only [hparams, Prod.mk.injEq, true_and] at h
    subst h
    cases valid with
    | false => simp at hion
    | true =>
      simp only [if_true, IonPointer.code.injEq] at hion
      subst hion
      refine ⟨rfl, ?_, ?_⟩
      · cases builtOsr with
        | false => simp
        | true => exact fun constants hconstants => newOsrPreheader_locals hconstants
      · rintro constants rfl
        obtain ⟨rfl, hfun, henabled, rfl⟩ := initParameters_some hparams
        have hsame : ∀ builtOsr : Bool, (if builtOsr = true then
            newOsrPreheader o { script with isParameterSpecialized := true } fp
            else (none, none, { script with isParameterSpecialized := true })).2.2 =
              { script with isParameterSpecialized := true } := by
          rintro (_ | _)
          · rfl
          · exact newOsrPreheader_isFunction hfun
        exact ⟨rfl, hfun, henabled, by rw [hsame, if_pos rfl]⟩

/-- A successful compilation leaves code or nothing. -/
lemma ionCompile_ion {outcome : IonCompileOutcome} {script script' : JSScript}
    (h : script.ionCompile o outcome id fp osrPc = (true, script')) :
    script'.ion = .null ∨ ∃ ion, script'.ion = .code ion := by
  unfold ionCompile at h
  cases outcome with
  | failsEarly => simp at h
  | fails builtOsr => cases builtOsr <;> simp at h
  | succeeds builtOsr valid =>
    simp only [Prod.mk.injEq, true_and] at h
    subst h
    cases valid with
    | false => exact Or.inl rfl
    | true => exact Or.inr ⟨_, rfl⟩

variable {c : Choices}

/-- What `Compile` does after the test: it returns the code that is there, or new
code, or none. -/
lemma compileIon_cases {script script' : JSScript} {status : MethodStatus}
    (h : script.compileIon o c id fp osrPc = (script', status)) :
    status = .cantCompile ∨
    (∃ ion, script.ion = .code ion ∧ script' = script ∧ status = .compiled) ∨
    (script.ion = .null ∧ script'.ion = .null ∧ status = .skipped) ∨
    ∃ ion, script.ion = .null ∧ script'.ion = .code ion ∧ status = .compiled ∧
      script.ionCompile o c.outcome id fp osrPc = (true, script') := by
  unfold compileIon at h
  split at h
  · rename_i ion hion
    exact Or.inr (Or.inl ⟨ion, hion, (Prod.mk.inj h).1.symm, (Prod.mk.inj h).2.symm⟩)
  · exact Or.inl (Prod.mk.inj h).2.symm
  · rename_i hnull
    split_ifs at h
    · obtain ⟨rfl, rfl⟩ := Prod.mk.inj h
      exact Or.inr (Or.inr (Or.inl ⟨hnull, hnull, rfl⟩))
    · split at h
      · exact Or.inl (Prod.mk.inj h).2.symm
      · rename_i script1 hcompile
        obtain ⟨rfl, rfl⟩ := Prod.mk.inj h
        rcases ionCompile_ion hcompile with hion | ⟨ion, hion⟩
        · exact Or.inr (Or.inr (Or.inl ⟨hnull, hion, by simp [hasIonScript, hion]⟩))
        · exact Or.inr (Or.inr (Or.inr
            ⟨ion, hnull, hion, by simp [hasIonScript, hion], hcompile⟩))

/-- What `Compile` does: nothing is compiled, or the code that is there is returned
with the arguments of the frame saved, or there is new code or none. -/
lemma compile_cases {script script' : JSScript} {status : MethodStatus}
    (h : script.compile o c id fp osrPc = (script', status)) :
    status = .cantCompile ∨
    (∃ ion, script.ion = .code ion ∧ c.reachesTest = true ∧ script.discardsCode fp = false ∧
      script' = (script.hasArgumentsChangedSinceLastCall fp).2 ∧ status = .compiled) ∨
    (script'.ion = .null ∧ status = .skipped) ∨
    ∃ (before : JSScript) (ion : IonScript), before.ion = .null ∧ before.Saved fp ∧ script'.ion = .code ion ∧
      status = .compiled ∧ before.ionCompile o c.outcome id fp osrPc = (true, script') := by
  obtain ⟨args, hargs, hsaved⟩ := script.hasArgumentsChanged_saves fp
  unfold compile at h
  split_ifs at h with hdebug hcheck
  · exact Or.inl (Prod.mk.inj h).2.symm
  · exact Or.inl (Prod.mk.inj h).2.symm
  have hreaches : c.reachesTest = true := by
    simp only [Choices.reachesTest]
    grind
  simp only [hargs] at h
  split_ifs at h with hdiscards hinvalid
  · exact Or.inl (Prod.mk.inj h).2.symm
  · have hnocode : ∀ ion, (dropIon { script with argsOfLastCall := args }).ion ≠ .code ion := by
      intro ion
      unfold dropIon hasIonScript
      split <;> simp_all
    rcases compileIon_cases h with hcant | ⟨ion, hion, -, -⟩ | ⟨-, hnull, hskip⟩ |
      ⟨ion, hnull, hion, hcomp, hcompile⟩
    · exact Or.inl hcant
    · exact absurd hion (hnocode ion)
    · exact Or.inr (Or.inr (Or.inl ⟨hnull, hskip⟩))
    · exact Or.inr (Or.inr (Or.inr ⟨_, ion, hnull, by simp [Saved], hion, hcomp, hcompile⟩))
  · have hkeeps : script.discardsCode fp = false := by
      unfold discardsCode
      grind
    rcases compileIon_cases h with hcant | ⟨ion, hion, hsame, hcomp⟩ | ⟨-, hnull, hskip⟩ |
      ⟨ion, hnull, hion, hcomp, hcompile⟩
    · exact Or.inl hcant
    · exact Or.inr (Or.inl ⟨ion, hion, hreaches, hkeeps, by rw [hargs, hsame], hcomp⟩)
    · exact Or.inr (Or.inr (Or.inl ⟨hnull, hskip⟩))
    · exact Or.inr (Or.inr (Or.inr ⟨_, ion, hnull, hsaved, hion, hcomp, hcompile⟩))

/-! ## The guard -/

/-- The test of the arguments fails for code with constants in place of them, and the
code is kept because the last execution bailed out. -/
def BypassesGuard (c : Choices) (script : JSScript) (fp : StackFrame) : Prop :=
  c.reachesTest = true ∧ script.bailed = true ∧ script.argConstants?.isSome = true ∧
    script.argsOfLastCall ≠ fp.formals

instance (c : Choices) (script : JSScript) (fp : StackFrame) :
    Decidable (script.BypassesGuard c fp) := inferInstanceAs (Decidable (_ ∧ _))

lemma argConstants?_code (h : script.ion = .code ion) :
    script.argConstants? = ion.argConstants := by
  simp [argConstants?, h]

lemma argConstants?_null (h : script.ion = .null) :
    script.argConstants? = none := by
  simp [argConstants?, ionScript?, h]

lemma guarded_of_argConstants?_eq_none (h : script.argConstants? = none) :
    script.Guarded := by
  intro constants hconstants
  simp [h] at hconstants

lemma guarded_forbidCompilation (script : JSScript) : script.forbidCompilation.Guarded :=
  guarded_of_argConstants?_eq_none rfl

lemma Guarded.dropIon (h : script.Guarded) : script.dropIon.Guarded := by
  unfold JSScript.dropIon
  split_ifs
  · exact guarded_of_argConstants?_eq_none rfl
  · exact h

/-- `Compile` keeps the guard where it does not bypass it, and then returns no code
for other arguments than those of the frame. -/
lemma Guarded.compile {script script' : JSScript} {status : MethodStatus}
    (hguard : script.Guarded) (hpass : ¬ script.BypassesGuard c fp)
    (h : script.compile o c id fp osrPc = (script', status)) (hstatus : status ≠ .cantCompile) :
    script'.Guarded ∧ ∀ constants, script'.argConstants? = some constants →
      fp.formals = constants := by
  rcases compile_cases h with hcant | ⟨ion, hion, hreaches, hkeeps, rfl, -⟩ | ⟨hnull, -⟩ |
    ⟨before, ion, -, hsaved, hion, -, hcompile⟩
  · exact absurd hcant hstatus
  · suffices hsame : ∀ constants,
        (script.hasArgumentsChangedSinceLastCall fp).2.argConstants? = some constants →
          fp.formals = constants ∧ script.isFunction = true ∧ script.disabledForPS = false ∧
            script.isParameterSpecialized = true by
      refine ⟨fun constants hconstants => ?_, fun constants hconstants =>
        (hsame constants hconstants).1⟩
      obtain ⟨rfl, hfun, henabled, hps⟩ := hsame constants hconstants
      rw [hasArgumentsChanged_eq hfun henabled]
      exact ⟨hfun, henabled, hps, rfl⟩
    intro constants hconstants
    obtain ⟨args, hargs, -⟩ := script.hasArgumentsChanged_saves fp
    rw [hargs] at hconstants
    obtain ⟨hfun, henabled, hps, hlast⟩ := hguard constants hconstants
    refine ⟨?_, hfun, henabled, hps⟩
    by_contra hne
    -- the test fails, so only a bailout before can have kept the code
    have hbailed : script.bailed = true := by
      simpa [discardsCode, hasArgumentsChanged_eq hfun henabled, hps, hlast, Ne.symm hne]
        using hkeeps
    exact hpass ⟨hreaches, hbailed, Option.isSome_iff_exists.mpr ⟨constants, hconstants⟩,
      by rw [hlast]; exact Ne.symm hne⟩
  · have hnone := argConstants?_null hnull
    exact ⟨guarded_of_argConstants?_eq_none hnone, by simp [hnone]⟩
  · obtain ⟨-, -, hcode⟩ := ionCompile_code hcompile hion
    rw [argConstants?_code hion]
    constructor
    · intro constants hconstants
      rw [argConstants?_code hion] at hconstants
      obtain ⟨rfl, hfun, henabled, rfl⟩ := hcode constants hconstants
      exact ⟨hfun, henabled, rfl, hsaved hfun henabled⟩
    · intro constants hconstants
      exact (hcode constants hconstants).1.symm

/-- Where it bypasses the guard, it returns code for other arguments. -/
lemma Guarded.compile_bypassed (o : IonOptions) (id : Nat) (osrPc : Option Pc)
    (hguard : script.Guarded) (hbypass : script.BypassesGuard c fp) :
    ∃ script' constants, script.compile o c id fp osrPc = (script', .compiled) ∧
      script'.argConstants? = some constants ∧ fp.formals ≠ constants := by
  obtain ⟨hreaches, hbailed, hsome, hne⟩ := hbypass
  obtain ⟨constants, hconstants⟩ := Option.isSome_iff_exists.mp hsome
  obtain ⟨hfun, henabled, hps, hlast⟩ := hguard constants hconstants
  obtain ⟨ion, hion, -⟩ := bind_eq_some_iff.mp hconstants
  have hcode : script.ion = .code ion := by
    unfold ionScript? at hion
    split at hion <;> simp_all
  refine ⟨{ script with argsOfLastCall := fp.formals }, constants, ?_, hconstants,
    by rw [← hlast]; exact hne.symm⟩
  simp only [Choices.reachesTest, Bool.and_eq_true, Bool.not_eq_true'] at hreaches
  obtain ⟨⟨hdebug, hscript⟩, hsize⟩ := hreaches
  simp [JSScript.compile, compileIon, hasArgumentsChanged_eq hfun henabled, hdebug, hscript, hsize,
    hbailed, hcode]

lemma Guarded.enterJIT (h : script.Guarded) :
    (script.enterJIT c).1.Guarded := by
  unfold JSScript.enterJIT
  simp only
  split_ifs
  all_goals first | exact h | exact h.dropIon

/-- An attempt at a call keeps the guard. -/
lemma Guarded.canEnter (h : script.Guarded)
    (hpass : triesEntry c script = true → c.checkFrame = true → ¬ script.BypassesGuard c fp) :
    (script.canEnter o c id fp).1.Guarded := by
  unfold JSScript.canEnter
  split_ifs with htries hframe
  · exact h
  · exact guarded_forbidCompilation _
  have hnot := hpass (by simpa using htries) (by simpa using hframe)
  split
  · rename_i script' hcompile
    exact ((h.compile hnot hcompile (by simp)).1).enterJIT
  · exact guarded_forbidCompilation _
  · rename_i hcant hcompile
    exact (h.compile hnot hcompile hcant).1

/-- An attempt at a loop entry keeps the guard. -/
lemma Guarded.canEnterAtBranch {pc : Pc} (h : script.Guarded)
    (hpass : triesEntryAtBranch o script = true → c.checkFrame = true →
      ¬ script.BypassesGuard c fp) :
    (script.canEnterAtBranch o c id fp pc).1.Guarded := by
  unfold JSScript.canEnterAtBranch
  split_ifs with htries hframe
  · exact h
  · exact guarded_forbidCompilation _
  have hnot := hpass (by simpa using htries) (by simpa using hframe)
  split
  · rename_i script' hcompile
    have hguard := (h.compile hnot hcompile (by simp)).1
    split_ifs
    · exact hguard.enterJIT
    · exact hguard
  · exact guarded_forbidCompilation _
  · rename_i hcant hcompile
    exact (h.compile hnot hcompile hcant).1

lemma Guarded.setBailed (h : script.Guarded) (bailed : Bool) :
    Guarded { script with bailed := bailed } := h

lemma Guarded.expectBailout (h : script.Guarded) (id : Nat) :
    (script.expectBailout id).Guarded := by
  unfold JSScript.expectBailout
  split
  · rename_i ion hion
    split_ifs
    · intro constants hconstants
      exact h constants (by rw [argConstants?_code hion]; exact hconstants)
    · exact h
  · exact h

/-! ## The locals at the OSR entry -/

/-- The constants the code has in place of the locals, if it has them. -/
def osrLocalConstants? (script : JSScript) : Option (List Value) :=
  script.ionScript?.bind IonScript.osrLocalConstants

/-- The code of the script is entered at its loop: no check of the attempt or test of
the arguments is in the way, and its locals are not those of the frame. -/
def ReusedWithOtherLocals (o : IonOptions) (c : Choices) (script : JSScript) (fp : StackFrame)
    (pc : Pc) : Prop :=
  triesEntryAtBranch o script = true ∧ c.checkFrame = true ∧ c.reachesTest = true ∧
    script.discardsCode fp = false ∧ script.ionScript?.bind IonScript.osrPc = some pc ∧
    c.enterJIT = true ∧ c.ionKept = true ∧
    script.osrLocalConstants?.isSome = true ∧ script.osrLocalConstants? ≠ some fp.locals

instance (o : IonOptions) (c : Choices) (script : JSScript) (fp : StackFrame) (pc : Pc) :
    Decidable (script.ReusedWithOtherLocals o c fp pc) := inferInstanceAs (Decidable (_ ∧ _))

lemma ionScript?_eq_some :
    script.ionScript? = some ion ↔ script.ion = .code ion := by
  unfold ionScript?
  split <;> simp_all

/-- Code that the attempt does not lose is entered. -/
lemma enterJIT_eq_compiled {script script' : JSScript} (hion : script.ion = .code ion) :
    script.enterJIT c = (script', .compiled) ↔
      c.enterJIT = true ∧ c.ionKept = true ∧ script' = script := by
  unfold enterJIT dropIon hasIonScript
  cases c.ionKept <;> cases c.enterJIT <;> simp [hion, eq_comm]

/-- An attempt at a loop entry that succeeds enters the code that was there, or new
code. -/
lemma canEnterAtBranch_eq_compiled {script script' : JSScript} {pc : Pc} :
    script.canEnterAtBranch o c id fp pc = (script', .compiled) ↔
      triesEntryAtBranch o script = true ∧ c.checkFrame = true ∧
        script.compile o c id fp (some pc) = (script', .compiled) ∧
        script'.ionScript?.bind IonScript.osrPc = some pc ∧
        c.enterJIT = true ∧ c.ionKept = true := by
  unfold canEnterAtBranch
  split_ifs with htries hframe
  · simp_all
  · simp_all
  have htries' : triesEntryAtBranch o script = true := by simpa using htries
  have hframe' : c.checkFrame = true := by simpa using hframe
  simp only [htries', hframe', true_and]
  split
  · rename_i script1 hcompile
    split_ifs with hpc
    · obtain ⟨ion, hion, -⟩ := bind_eq_some_iff.mp hpc
      rw [enterJIT_eq_compiled (ionScript?_eq_some.mp hion)]
      constructor
      · rintro ⟨henter, hkept, rfl⟩
        exact ⟨hcompile, hpc, henter, hkept⟩
      · rintro ⟨hsame, -, henter, hkept⟩
        exact ⟨henter, hkept, by rw [hcompile] at hsame; exact (Prod.mk.inj hsame).1.symm⟩
    · constructor
      · simp
      · rintro ⟨hsame, hpc', -⟩
        rw [hcompile] at hsame
        obtain rfl := (Prod.mk.inj hsame).1
        exact absurd hpc' hpc
  · rename_i hcompile
    simp [hcompile]
  · rename_i hcompiled _ hcompile
    constructor
    · intro h
      exact absurd (Prod.mk.inj h).2 hcompiled
    · rintro ⟨hsame, -⟩
      rw [hcompile] at hsame
      exact absurd (Prod.mk.inj hsame).2 hcompiled

/-- Code that is there and not discarded is what `Compile` returns. -/
lemma compile_of_code (o : IonOptions) (id : Nat) (osrPc : Option Pc)
    (hion : script.ion = .code ion) (hreaches : c.reachesTest = true)
    (hkeeps : script.discardsCode fp = false) :
    script.compile o c id fp osrPc =
      ((script.hasArgumentsChangedSinceLastCall fp).2, .compiled) := by
  obtain ⟨args, hargs, -⟩ := script.hasArgumentsChanged_saves fp
  simp only [Choices.reachesTest, Bool.and_eq_true, Bool.not_eq_true'] at hreaches
  obtain ⟨⟨hdebug, hscript⟩, hsize⟩ := hreaches
  unfold discardsCode at hkeeps
  simp [compile, compileIon, hdebug, hscript, hsize, hargs, hkeeps, hion]

/-- A successful attempt at a loop entry goes wrong for the locals exactly if it reuses
code with other ones. -/
lemma locals_of_canEnterAtBranch_iff (id : Nat) {pc : Pc} :
    (∀ script' constants, script.canEnterAtBranch o c id fp pc = (script', .compiled) →
      script'.osrLocalConstants? = some constants → fp.locals = constants) ↔
      ¬ script.ReusedWithOtherLocals o c fp pc := by
  obtain ⟨args, hargs, -⟩ := script.hasArgumentsChanged_saves fp
  constructor
  · rintro hmatch ⟨htries, hframe, hreaches, hkeeps, hpc, henter, hkept, hsome, hne⟩
    obtain ⟨constants, hconstants⟩ := Option.isSome_iff_exists.mp hsome
    obtain ⟨ion, hion, -⟩ := bind_eq_some_iff.mp hpc
    have hcompile := compile_of_code o id (some pc)
      (ionScript?_eq_some.mp hion) hreaches hkeeps
    rw [hargs] at hcompile
    have hsame := hmatch _ constants (canEnterAtBranch_eq_compiled.mpr
      ⟨htries, hframe, hcompile, hpc, henter, hkept⟩) hconstants
    exact hne (by rw [hconstants, hsame])
  · intro hnot script' constants hcan hconstants
    obtain ⟨htries, hframe, hcompile, hpc, henter, hkept⟩ := canEnterAtBranch_eq_compiled.mp hcan
    rcases compile_cases hcompile with hcant | ⟨ion, hion, hreaches, hkeeps, rfl, -⟩ |
      ⟨-, hskip⟩ | ⟨before, ion, -, -, hion, -, hnew⟩
    · simp at hcant
    · rw [hargs] at hpc hconstants
      by_contra hne
      refine hnot ⟨htries, hframe, hreaches, hkeeps, hpc, henter, hkept,
        Option.isSome_iff_exists.mpr ⟨constants, hconstants⟩, fun heq => hne ?_⟩
      have hsame : some constants = some fp.locals := hconstants.symm.trans heq
      exact (some.inj hsame).symm
    · simp at hskip
    · have hlocals := (ionCompile_code hnew hion).2.1
      rw [osrLocalConstants?, ionScript?_eq_some.mpr hion] at hconstants
      exact (hlocals constants hconstants).symm

end JSScript

/-! ## The arguments in a run -/

namespace PSState

/-- The call of `Compile` an event makes: the frame, the loop entry and the choices. -/
def compileCall (o : IonOptions) (s : PSState) :
    PSEvent → Option (StackFrame × Option Pc × Choices)
  | .call formals locals (some c) =>
      if JSScript.triesEntry c s.script && c.checkFrame then
        some (⟨formals, locals, none, false⟩, none, c)
      else none
  | .loopEntry pc c =>
      match s.frames with
      | fp :: _ =>
          if fp.running = none && JSScript.triesEntryAtBranch o s.script && c.checkFrame then
            some (fp, some pc, c)
          else none
      | [] => none
  | _ => none

/-- If the event has `Compile` return code with constants in place of the arguments,
they are the formals of the current frame. -/
def ArgumentsMatch (o : IonOptions) (s : PSState) (e : PSEvent) : Prop :=
  ∀ fp osrPc c, s.compileCall o e = some (fp, osrPc, c) → ∀ script constants,
    s.script.compile o c s.nextId fp osrPc = (script, .compiled) →
      script.argConstants? = some constants → fp.formals = constants

/-- The event has `Compile` keep code with constants in place of the arguments
because `bailed` is set, although the saved arguments are not those of the frame. -/
def GuardBypassed (o : IonOptions) (s : PSState) (e : PSEvent) : Prop :=
  match s.compileCall o e with
  | some (fp, _, c) => s.script.BypassesGuard c fp
  | none => False

instance (o : IonOptions) (s : PSState) (e : PSEvent) : Decidable (s.GuardBypassed o e) := by
  unfold GuardBypassed
  split <;> infer_instance

/-- Where the guard holds, one event goes wrong exactly if it is bypassed. -/
lemma argumentsMatch_iff {o : IonOptions} {s : PSState} {e : PSEvent}
    (h : s.script.Guarded) : s.ArgumentsMatch o e ↔ ¬ s.GuardBypassed o e := by
  unfold ArgumentsMatch GuardBypassed
  cases hcall : s.compileCall o e with
  | none => simp
  | some call =>
    obtain ⟨fp, osrPc, c⟩ := call
    simp only [some.injEq, Prod.mk.injEq, and_imp]
    constructor
    · intro hmatch hbypass
      obtain ⟨script', constants, hcompile, hconstants, hne⟩ :=
        h.compile_bypassed o s.nextId osrPc hbypass
      exact hne (hmatch fp osrPc c rfl rfl rfl script' constants hcompile hconstants)
    · rintro hpass fp osrPc c rfl rfl rfl script' constants hcompile hconstants
      exact (h.compile hpass hcompile (by simp)).2 constants hconstants

lemma guarded_leaveCannon {s : PSState} (h : s.script.Guarded) (fp : StackFrame)
    (status : Bool) : (s.leaveCannon fp status).Guarded := by
  unfold leaveCannon
  split_ifs
  · exact h.setBailed status
  · exact h

/-- An event that does not bypass the guard keeps it. -/
lemma guarded_step {o : IonOptions} {s s' : PSState} {e : PSEvent} (h : s.script.Guarded)
    (hpass : ¬ s.GuardBypassed o e) (hstep : s.step o e = some s') : s'.script.Guarded := by
  cases e with
  | call formals locals attempt =>
    cases attempt with
    | none =>
      obtain rfl := some.inj hstep
      exact h
    | some c =>
      obtain rfl := some.inj hstep
      refine JSScript.Guarded.canEnter h fun htries hframe hbypass => hpass ?_
      simpa [GuardBypassed, compileCall, htries, hframe] using hbypass
  | ionCall formals locals =>
    simp only [step] at hstep
    split at hstep
    · obtain rfl := some.inj hstep
      exact h
    · simp at hstep
  | loopEntry pc c =>
    simp only [step] at hstep
    split at hstep
    · rename_i fp rest hframes
      split_ifs at hstep with hrunning
      obtain rfl := some.inj hstep
      refine JSScript.Guarded.canEnterAtBranch h fun htries hframe hbypass => hpass ?_
      simpa [GuardBypassed, compileCall, hframes, hrunning, htries, hframe] using hbypass
    · simp at hstep
  | interpret formals locals =>
    simp only [step] at hstep
    split at hstep
    · split_ifs at hstep
      obtain rfl := some.inj hstep
      exact h
    · simp at hstep
  | bailout formals locals =>
    simp only [step] at hstep
    split at hstep
    · obtain ⟨id, -, rfl⟩ := map_eq_some_iff.mp hstep
      exact (guarded_leaveCannon h _ _).expectBailout id
    · simp at hstep
  | finish =>
    simp only [step] at hstep
    split at hstep
    · obtain rfl := some.inj hstep
      exact guarded_leaveCannon h _ _
    · simp at hstep
  | invalidate =>
    obtain rfl := some.inj hstep
    exact h.dropIon

lemma guarded_of_initial {s : PSState} (h : s.Initial) : s.script.Guarded :=
  JSScript.guarded_of_argConstants?_eq_none (JSScript.argConstants?_null h.2.2.2.1)

/-- In every run, code with constants in place of the arguments is only returned for
these arguments, exactly if no event bypasses the guard. -/
theorem argumentsMatch_run_iff (o : IonOptions) {s : PSState} (hinit : s.Initial)
    (events : List PSEvent) :
    (psTransition o).AllSteps (ArgumentsMatch o) s events ↔
      (psTransition o).AllSteps (fun s e => ¬ s.GuardBypassed o e) s events :=
  Transition.allSteps_iff (fun s => s.script.Guarded) argumentsMatch_iff guarded_step
    (guarded_of_initial hinit) events

/-- A function before its first run. -/
def newFunction : PSState := ⟨⟨true, false, false, false, [], .null⟩, [], 0⟩

lemma newFunction_initial : newFunction.Initial := by
  simp [newFunction, Initial]

/-- Both options are on. -/
def specializing : IonOptions := ⟨true, true⟩

/-- An attempt that nothing stands in the way of. -/
def hotAttempt : Choices :=
  ⟨true, true, false, true, true, true, true, .succeeds true true, true, true⟩

/-- `f(1)` is compiled at its loop, and called again with the same argument and with
another one. -/
theorem argumentsMatch_run_iff_twoArguments :
    (psTransition specializing).AllSteps (ArgumentsMatch specializing) newFunction
      [.call [.int32 1] [] none, .loopEntry 0 hotAttempt, .finish,
        .call [.int32 1] [] (some hotAttempt), .finish,
        .call [.int32 2] [] (some hotAttempt), .finish] :=
  (argumentsMatch_run_iff specializing newFunction_initial _).mpr (by decide)

/-- `f(undefined)` bails out of its code, which is discarded. `f(1)` is compiled at
its loop and, while it runs, calls `f(2)`. -/
theorem argumentsMatch_run_fails_nestedCall :
    ¬ ∀ (o : IonOptions) (s : PSState) (events : List PSEvent), s.Initial →
      (psTransition o).AllSteps (ArgumentsMatch o) s events := by
  intro h
  have hrun := h specializing newFunction
    [.call [.undefined] [] none, .loopEntry 0 hotAttempt, .bailout [.undefined] [], .finish,
      .invalidate, .call [.int32 1] [] none, .loopEntry 0 hotAttempt,
      .call [.int32 2] [] (some hotAttempt)] newFunction_initial
  have hnested := hrun.2.2.2.2.2.2.2.1
  have hsame := hnested _ _ _ rfl _ [.int32 1] rfl rfl
  exact absurd hsame (by decide)

/-! ## The locals in a run -/

/-- If `CanEnterAtBranch` has code entered that has constants in place of the locals,
they are the locals of the frame. -/
def LocalsMatch (o : IonOptions) (s : PSState) (e : PSEvent) : Prop :=
  ∀ fp rest pc c, e = .loopEntry pc c → s.frames = fp :: rest → fp.running = none →
    ∀ script constants, s.script.canEnterAtBranch o c s.nextId fp pc = (script, .compiled) →
      script.osrLocalConstants? = some constants → fp.locals = constants

/-- The event enters code that was there before at the loop it was compiled for, with
other locals than at that time. -/
def EntersOtherLocals (o : IonOptions) (s : PSState) (e : PSEvent) : Prop :=
  match e, s.frames with
  | .loopEntry pc c, fp :: _ => fp.running = none ∧ s.script.ReusedWithOtherLocals o c fp pc
  | _, _ => False

instance (o : IonOptions) (s : PSState) (e : PSEvent) : Decidable (s.EntersOtherLocals o e) := by
  unfold EntersOtherLocals
  split <;> infer_instance

lemma localsMatch_iff {o : IonOptions} {s : PSState} {e : PSEvent} :
    s.LocalsMatch o e ↔ ¬ s.EntersOtherLocals o e := by
  unfold LocalsMatch EntersOtherLocals
  split
  · rename_i pc c fp rest hframes
    rw [not_and, ← JSScript.locals_of_canEnterAtBranch_iff s.nextId]
    constructor
    · intro h hrunning
      exact h fp rest pc c rfl hframes hrunning
    · rintro h fp' rest' pc' c' heq hframes' hrunning
      obtain ⟨rfl, rfl⟩ := PSEvent.loopEntry.inj heq
      obtain ⟨rfl, rfl⟩ := List.cons.inj (hframes.symm.trans hframes')
      exact h hrunning
  · rename_i hother
    simp only [not_false_eq_true, iff_true]
    intro fp rest pc c heq hframes
    exact absurd hframes (hother pc c fp rest heq)

end PSState
end SpiderMonkey.Ion
