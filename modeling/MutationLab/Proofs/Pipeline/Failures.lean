import MutationLab.Proofs.Mutants.Building
import MutationLab.Proofs.Pipeline.Outcome
import MutationLab.Proofs.Testing

/-! # Why a run fails

With the built-in framework a run fails for a fault of its input only (`Pipeline.InputFault`): a
module that does not compile, a program that does not link as it is loaded, or names that are kept
for the copies of mutated functions and are defined already (`Pipeline.fails_only_for_input`).
Everything that could go wrong between the stages cannot: points can be put in where they were
found, the modules with mutants compile, and the tests of a mutant are there. -/

namespace MutationLab

namespace Pipeline

/-! ## Faults of the input -/

/-- How a program is compiled to learn what its tests cover. -/
def instrumentation (p : Pipeline) (program : Program) : Compilation :=
  { mangling := p.toolchain.mangling, probes := some program.probes }

/-- A fault of the input that a run can end with, and the error for it. -/
inductive InputFault (p : Pipeline) (files : FileTree) (program : Program) : PipelineError → Prop
  /-- A module does not compile. -/
  | faulty {id : ModuleId} {m : Module} {e : CompileError} (expected actual : Nat) :
      program.modules[id]? = some m → (p.instrumentation program).compile id m = .error e →
      InputFault p files program
        (.stageIncomplete "Compiling instrumented code" expected actual)
  /-- The program does not link as it is loaded. -/
  | unlinked {objects : List ObjectFile} {e : LinkError} :
      (p.instrumentation program).compileAll 0 program.modules = .ok objects →
      Image.link (objects ++ joined files program) = .error e →
      InputFault p files program (.link e)
  /-- The module of a point defines a name that is derived for the point. -/
  | taken {points : List Point} {point : Point} {m : Module} {derived : String}
      (expected actual : Nat) :
      p.points files program = .ok points → point ∈ points →
      program.modules[point.module]? = some m →
      derived ∈ derivedNames point.function [point] → derived ∈ m.functionNames →
      InputFault p files program
        (.stageIncomplete "Cloning functions for mutation" expected actual)
  /-- Another module or an object file defines the symbol of a name that is derived for a point. -/
  | clashing {points : List Point} {point : Point} {derived : String} (first second : String) :
      p.points files program = .ok points → point ∈ points →
      derived ∈ derivedNames point.function [point] →
      ((∃ id m, program.modules[id]? = some m ∧ id ≠ point.module ∧ derived ∈ m.functionNames) ∨
        ∃ o ∈ joined files program,
          p.toolchain.mangling.mangle derived ∈ o.functions.map CompiledFunction.symbol) →
      InputFault p files program
        (.link (.duplicateSymbol (p.toolchain.mangling.mangle derived) first second))

/-- A failure of a stage is an error of this stage. -/
theorem eq_stageIncomplete_of_failure_eq {e : PipelineError} {label : String}
    (h : e.failure = .incomplete label) :
    ∃ expected actual, e = .stageIncomplete label expected actual := by
  cases e with
  | stageIncomplete other expected actual =>
    obtain rfl := Failure.incomplete.inj h
    exact ⟨expected, actual, rfl⟩
  | _ => cases h

/-- A failure of the linker is an error of the linker. -/
theorem eq_link_of_failure_eq {e : PipelineError} {reason : LinkError}
    (h : e.failure = .link reason) : e = .link reason := by
  cases e with
  | link other =>
    obtain rfl := Failure.link.inj h
    rfl
  | _ => cases h

/-- If modules do not compile, one of them does not. -/
theorem exists_compile_eq_error {c : Compilation} {first : ModuleId} {ms : List Module}
    {e : CompileError} (h : c.compileAll first ms = .error e) :
    ∃ id m, ms[id]? = some m ∧ c.compile (first + id) m = .error e := by
  induction ms generalizing first with
  | nil => cases h
  | cons m ms ih =>
    rw [Compilation.compileAll, bind_eq_error_iff] at h
    obtain h | ⟨o, -, h⟩ := h
    · exact ⟨0, m, rfl, h⟩
    · obtain h | ⟨os, -, h⟩ := bind_eq_error_iff.mp h
      · obtain ⟨id, n, hn, hcompile⟩ := ih h
        refine ⟨id + 1, n, hn, ?_⟩
        rwa [Nat.add_right_comm, Nat.add_assoc] at hcompile
      · cases h

section

variable {p : Pipeline} {files : FileTree} {program : Program} {points : List Point}
  {finder : Mangling}

/-! ## The points of a run -/

/-- What a run with points has gone through. -/
theorem points_eq_ok (h : p.points files program = .ok points) :
    ∃ objects found, (p.instrumentation program).compileAll 0 program.modules = .ok objects ∧
      p.found program (objects ++ joined files program) (p.framework.find program).1 = .ok found ∧
      points = p.surviving found := by
  rw [Pipeline.points] at h
  obtain ⟨objects, hobjects, h⟩ := bind_eq_ok_iff.mp h
  obtain ⟨found, hfound, h⟩ := bind_eq_ok_iff.mp h
  exact ⟨objects, found, mapError_eq_ok_iff.mp hobjects, hfound, (Except.ok.inj h).symm⟩

/-- The modules of such a run are sound. -/
theorem sound_of_points (h : p.points files program = .ok points) :
    ∀ m ∈ program.modules, m.Sound := by
  obtain ⟨objects, -, hobjects, -, -⟩ := points_eq_ok h
  exact (Compilation.compileAll_eq_ok_iff.mp hobjects).1

/-- Its points are on different sites. -/
theorem apart_of_points (hoperators : p.operators.Nodup)
    (h : p.points files program = .ok points) : Point.Apart points := by
  obtain ⟨objects, found, -, hfound, rfl⟩ := points_eq_ok h
  exact apart_surviving (apart_found hoperators hfound)

/-- **A point of a run** is where it says. The program was built as it was loaded, and the tests of
the point have their symbols in its image. -/
theorem of_mem_points (hframework : p.framework = Testing.simple finder)
    (h : p.points files program = .ok points) {point : Point} (hpoint : point ∈ points) :
    Discovery.Found program.modules p.operators point ∧
      ∃ image, (p.instrumentation program).Builds program.modules (joined files program) image ∧
        point.tests ≠ [] ∧ ∀ id ∈ point.tests, ∃ test ∈ (p.framework.find program).1,
          test.id = id ∧ (image.index? test.symbol).isSome := by
  obtain ⟨objects, found, hobjects, hfound, rfl⟩ := points_eq_ok h
  obtain ⟨image, hload, c, hc, hoffers⟩ :=
    exists_offers_of_found hfound (mem_of_mem_surviving hpoint)
  obtain ⟨htests, hpassed⟩ := exists_passed_of_mem_candidates hc
  refine ⟨hoffers.found, image, ⟨objects, hobjects, ?_⟩, ?_, ?_⟩
  · rw [hframework] at hload
    obtain ⟨linked, hlinked, himage⟩ := map_eq_ok_iff.mp hload
    obtain rfl := Option.some.inj himage
    exact hlinked
  · rw [hoffers.tests_eq]
    exact htests
  · rw [hoffers.tests_eq]
    intro id hid
    obtain ⟨test, htest, hid, hpassed⟩ := hpassed id hid
    rw [hframework] at hpassed
    obtain ⟨entry, hentry, -⟩ := Test.traced_of_passed hpassed
    exact ⟨test, htest, hid, by rw [hentry]; rfl⟩

/-! ## The image with the mutants -/

/-- Symbols are made in one way, with probes and without. -/
theorem mangling_instrumentation (p : Pipeline) (program : Program) :
    Compilation.mangling { mangling := p.toolchain.mangling } =
      (p.instrumentation program).mangling := rfl

/-- If there is an image with the mutants, it was built from the modules with mutants. -/
theorem of_mutantImage_eq_ok {ms : List Module} {extra : List ObjectFile} {image : Image}
    (h : p.mutantImage ms extra points = .ok image) :
    FreshNames ms points ∧ Compilation.Builds { mangling := p.toolchain.mangling }
      (withMutants ms points) extra image := by
  rw [mutantImage] at h
  by_cases hfresh : FreshNames ms points
  · rw [if_pos hfresh] at h
    obtain ⟨objects, hobjects, hlink⟩ := bind_eq_ok_iff.mp h
    exact ⟨hfresh, objects, mapError_eq_ok_iff.mp hobjects, mapError_eq_ok_iff.mp hlink⟩
  · rw [if_neg hfresh] at h
    cases h

/-- If there is none, it is a fault of the input. -/
theorem inputFault_of_mutantImage_eq_error {names : List String} {failure : Failure}
    (hframework : p.framework = Testing.simple finder)
    (hoperators : Operator.select names = .ok p.operators)
    (hpoints : p.points files program = .ok points) (hsome : points ≠ [])
    (h : p.mutantImage program.modules (joined files program) points = .error failure)
    {e : PipelineError} (he : e.failure = failure) : p.InputFault files program e := by
  obtain ⟨hnodup, hcatalog⟩ := Operator.select_eq_ok hoperators
  have hsound := sound_of_points hpoints
  rw [mutantImage] at h
  by_cases hfresh : FreshNames program.modules points
  · rw [if_pos hfresh] at h
    obtain h | ⟨objects, hobjects, h⟩ := bind_eq_error_iff.mp h
    · -- The modules with mutants do compile.
      obtain ⟨reason, hreason, -⟩ := mapError_eq_error_iff.mp h
      obtain ⟨id, m, hm, hcompile⟩ := exists_compile_eq_error hreason
      have hok : Compilation.compile { mangling := p.toolchain.mangling } (0 + id) m = .ok _ :=
        Compilation.compile_eq_ok_iff.mpr
          ⟨sound_of_mem_withMutants hfresh hsound (List.mem_of_getElem? hm), rfl⟩
      rw [hok] at hcompile
      cases hcompile
    · obtain ⟨reason, hreason, rfl⟩ := mapError_eq_error_iff.mp h
      obtain ⟨point, hpoint⟩ := List.exists_mem_of_ne_nil points hsome
      obtain ⟨-, original, horiginal, -⟩ := of_mem_points hframework hpoints hpoint
      have hcompiled : Compilation.compileAll { mangling := p.toolchain.mangling } 0
          (withMutants program.modules points) = .ok objects := mapError_eq_ok_iff.mp hobjects
      obtain ⟨symbol, first, second, rfl, point, hpoint, derived, hderived, rfl, hclash⟩ :=
        exists_clash_of_link_eq_error hfresh (p.mangling_instrumentation program) horiginal
          hcompiled hreason
      rw [eq_link_of_failure_eq he]
      exact .clashing first second hpoints hpoint hderived hclash
  · rw [if_neg hfresh] at h
    obtain rfl := Except.error.inj h
    obtain ⟨point, hpoint, m, hm, derived, hderived, htaken⟩ := exists_taken_of_not_freshNames
      (fun m hm => (hsound m hm).nodup) hcatalog
      (fun point hpoint => (of_mem_points hframework hpoints hpoint).1)
      (apart_of_points hnodup hpoints) hfresh
    obtain ⟨expected, actual, rfl⟩ := eq_stageIncomplete_of_failure_eq he
    exact .taken expected actual hpoints hpoint hm hderived htaken

/-! ## Verdicts -/

/-- **What decides about a mutant is never invalid**: its tests are known and have their symbols. -/
theorem status_verdict_ne_invalid {image : Image}
    (hframework : p.framework = Testing.simple finder)
    (hpoints : p.points files program = .ok points)
    (himage : p.mutantImage program.modules (joined files program) points = .ok image)
    {point : Point} (hpoint : point ∈ points) :
    (p.verdict image (p.framework.find program).1 point).status ≠ .invalid := by
  obtain ⟨hfresh, hbuilds⟩ := of_mutantImage_eq_ok himage
  obtain ⟨-, original, horiginal, htests, hknown⟩ := of_mem_points hframework hpoints hpoint
  -- The tests are found again under their ids.
  have htest : ∀ id ∈ point.tests, ∃ test, (p.framework.find program).1[id]? = some test ∧
      (original.index? test.symbol).isSome := fun id hid => by
    obtain ⟨test, htest, rfl, hsymbol⟩ := hknown id hid
    rw [hframework] at htest ⊢
    exact ⟨test, Testing.getElem?_of_mem_findAll htest, hsymbol⟩
  refine status_verdict_ne (fun hnone => absurd hnone htests) (fun id hid hunknown => ?_)
    fun id hid test hfound start => ?_
  · obtain ⟨test, hfound, -⟩ := htest id hid
    rw [hunknown] at hfound
    exact nomatch hfound
  · obtain ⟨other, hother, hsymbol⟩ := htest id hid
    obtain rfl := Option.some.inj (hother.symm.trans hfound)
    have hmutated := isSome_index?_withMutants hfresh (p.mangling_instrumentation program)
      horiginal hbuilds hsymbol
    have hinvalid : Status.invalid ≠ .timedout := nofun
    rw [hframework]
    exact Sandbox.status_run_ne hinvalid
      (fun watchdog => Testing.status_run_ne_invalid hmutated _) _ _

/-- A reporter for an editor reports every mutant. -/
theorem verdicts_eq_ok {image : Image} {tests : List Test} {mode : EditorMode}
    (hreporter : p.reporter = mode.reporter) :
    p.verdicts image tests points =
      .ok (points.map fun point => ⟨point, p.verdict image tests point⟩) := by
  refine if_pos (List.all_eq_true.mpr fun point _ => ?_)
  rw [isReported, hreporter, Bool.or_eq_true]
  exact .inr rfl

/-- No result of a point is invalid. -/
theorem status_ne_invalid_of_decided {ms : List Module} {extra : List ObjectFile}
    {tests : List Test} {results : List MutationResult}
    (h : p.decided ms extra tests points = .ok results) :
    ∀ r ∈ results, r.result.status ≠ .invalid := by
  rw [decided] at h
  split at h
  · obtain rfl := Except.ok.inj h
    simp
  · obtain ⟨found, -, hchecked⟩ := bind_eq_ok_iff.mp h
    obtain ⟨-, hvalid, rfl⟩ := checked_eq_ok_iff.mp hchecked
    exact fun r hr => hvalid r (List.mem_mergeSort.mp hr)

/-! ## Runs -/

/-- What is found for points passes the check of the results. -/
theorem checked_of_unsorted_eq_ok {mode : EditorMode} {found : List MutationResult}
    (hframework : p.framework = Testing.simple finder) (hreporter : p.reporter = mode.reporter)
    (hpoints : p.points files program = .ok points)
    (h : p.unsorted program.modules (joined files program) (p.framework.find program).1 points =
      .ok found) : checked points found = .ok (sortResults found) := by
  rw [unsorted] at h
  by_cases hdry : p.configuration.dryRun = true
  · -- A dry run lists the points.
    rw [if_pos hdry] at h
    obtain rfl := Except.ok.inj h
    refine checked_eq_ok_iff.mpr ⟨List.length_map _, fun r hr => ?_, rfl⟩
    obtain ⟨point, -, rfl⟩ := List.mem_map.mp hr
    simp [ExecutionResult.dryRun]
  · rw [if_neg hdry] at h
    obtain ⟨image, himage, hverdicts⟩ := bind_eq_ok_iff.mp h
    rw [verdicts_eq_ok hreporter] at hverdicts
    obtain rfl := Except.ok.inj hverdicts
    refine checked_eq_ok_iff.mpr ⟨List.length_map _, fun r hr => ?_, rfl⟩
    obtain ⟨point, hpoint, rfl⟩ := List.mem_map.mp hr
    exact status_verdict_ne_invalid hframework hpoints himage hpoint

/-- **If points have no results, it is a fault of the input.** -/
theorem inputFault_of_decided_eq_error {names : List String} {mode : EditorMode} {failure : Failure}
    (hframework : p.framework = Testing.simple finder) (hreporter : p.reporter = mode.reporter)
    (hoperators : Operator.select names = .ok p.operators)
    (hpoints : p.points files program = .ok points)
    (h : p.decided program.modules (joined files program) (p.framework.find program).1 points =
      .error failure)
    {e : PipelineError} (he : e.failure = failure) : p.InputFault files program e := by
  rw [decided] at h
  by_cases hsome : points = []
  · rw [hsome] at h
    cases h
  · rw [if_neg (by rwa [List.isEmpty_iff])] at h
    obtain h | ⟨found, hfound, h⟩ := bind_eq_error_iff.mp h
    · rw [unsorted] at h
      by_cases hdry : p.configuration.dryRun = true
      · rw [if_pos hdry] at h
        cases h
      · -- Every mutant is reported, so it can only be the image that is missing.
        rw [if_neg hdry] at h
        obtain h | ⟨image, -, h⟩ := bind_eq_error_iff.mp h
        · exact inputFault_of_mutantImage_eq_error hframework hoperators hpoints hsome h he
        · rw [verdicts_eq_ok hreporter] at h
          cases h
    · have hchecked := checked_of_unsorted_eq_ok hframework hreporter hpoints hfound
      rw [hchecked] at h
      cases h

/-- If a run has no points, because it fails before, it is a fault of the input. -/
theorem inputFault_of_points_eq_error {failure : Failure}
    (hframework : p.framework = Testing.simple finder)
    (h : p.points files program = .error failure)
    {e : PipelineError} (he : e.failure = failure) : p.InputFault files program e := by
  rw [Pipeline.points] at h
  obtain h | ⟨objects, hobjects, h⟩ := bind_eq_error_iff.mp h
  · obtain ⟨reason, hreason, rfl⟩ := mapError_eq_error_iff.mp h
    obtain ⟨id, m, hm, hcompile⟩ := exists_compile_eq_error hreason
    rw [Nat.zero_add] at hcompile
    obtain ⟨expected, actual, rfl⟩ := eq_stageIncomplete_of_failure_eq he
    exact .faulty expected actual hm hcompile
  · obtain h | ⟨found, -, h⟩ := bind_eq_error_iff.mp h
    · rw [Pipeline.found, hframework] at h
      split at h
      · cases h
      · split at h
        · rename_i reason hload
          obtain rfl := Except.error.inj h
          rw [eq_link_of_failure_eq he]
          exact .unlinked (mapError_eq_ok_iff.mp hobjects) (map_eq_error_iff.mp hload)
        · rename_i hload
          -- The built-in framework always loads the image that it has linked.
          obtain ⟨image, -, hnone⟩ := map_eq_ok_iff.mp hload
          cases hnone
        · cases h
    · cases h

/-- An outcome that is a failure is one for a fault of the input. -/
theorem inputFault_of_outcome_eq_error {names : List String} {mode : EditorMode}
    {failure : Failure} (hframework : p.framework = Testing.simple finder)
    (hreporter : p.reporter = mode.reporter) (hoperators : Operator.select names = .ok p.operators)
    (h : p.outcome files program = .error failure) {e : PipelineError} (he : e.failure = failure) :
    p.InputFault files program e := by
  rw [outcome] at h
  obtain h | ⟨points, hpoints, h⟩ := bind_eq_error_iff.mp h
  · exact inputFault_of_points_eq_error hframework h he
  · obtain h | ⟨results, -, h⟩ := bind_eq_error_iff.mp h
    · exact inputFault_of_decided_eq_error hframework hreporter hoperators hpoints h he
    · cases h

/-- In an outcome no mutant is invalid. -/
theorem status_ne_invalid_of_outcome {result : PipelineResult}
    (h : p.outcome files program = .ok result) :
    ∀ r ∈ result.results, r.result.status ≠ .invalid := by
  rw [outcome] at h
  obtain ⟨points, -, h⟩ := bind_eq_ok_iff.mp h
  obtain ⟨results, hresults, h⟩ := bind_eq_ok_iff.mp h
  obtain rfl := Except.ok.inj h
  exact status_ne_invalid_of_decided hresults

/-- A run with a result has said no error on the way. -/
theorem errors_run {w : Workspace} {ms : List Module} (hcache : p.toolchain.cache = none)
    (hprogram : w.program.subjects = Program.numbered 0 ms)
    (hframework : p.framework = Testing.simple finder) {result : PipelineResult}
    (hresult : (p.run w).1 = .ok result) : (p.run w).2.log.errors = w.log.errors := by
  have hcomes := comes_stages hcache hprogram
  rw [(run_eq_ok_iff hcache hprogram result).mp hresult] at hcomes
  obtain ⟨later, hrun, herrors⟩ := hcomes
  -- About tests there are warnings at worst.
  have hquiet : (p.framework.find w.program).2.countP (·.level = .error) = 0 := by
    rw [hframework]
    refine List.countP_eq_zero.mpr fun m hm => ?_
    rw [Testing.level_of_mem_findAll hm]
    decide
  rw [run, hrun, herrors, hquiet, Nat.add_zero]

/-- **A run fails for a fault of its input only.** Take a program as it is loaded, with any
libraries and object files, any filters, sandbox and clock, operators that were selected by their
names, the built-in framework, a reporter for an editor and no cache. An error with which the run
ends is that of a fault of the input. If it has a result, no mutant is invalid, and no error was
said on the way. -/
theorem fails_only_for_input {w : Workspace} {ms : List Module} {names : List String}
    {mode : EditorMode} (hcache : p.toolchain.cache = none)
    (hprogram : w.program.subjects = Program.numbered 0 ms)
    (hframework : p.framework = Testing.simple finder) (hreporter : p.reporter = mode.reporter)
    (hoperators : Operator.select names = .ok p.operators) :
    (∀ e, (p.run w).1 = .error e → p.InputFault w.files w.program e) ∧
      ∀ result, (p.run w).1 = .ok result →
        (∀ r ∈ result.results, r.result.status ≠ .invalid) ∧
          (p.run w).2.log.errors = w.log.errors := by
  constructor
  · intro e he
    have houtcome : p.outcome w.files w.program = .error e.failure := by
      rw [← mapError_run hcache hprogram, he]
      rfl
    exact inputFault_of_outcome_eq_error hframework hreporter hoperators houtcome rfl
  · intro result hresult
    have houtcome := (run_eq_ok_iff hcache hprogram result).mp hresult
    exact ⟨status_ne_invalid_of_outcome houtcome, errors_run hcache hprogram hframework hresult⟩

end

end Pipeline

namespace Example

/-- The example with a function under the name that is kept for an unmutated copy. -/
def crowded : Module :=
  arithmetic.append
    [{ name := "difference$original", params := 0, body := [{ operation := .return none }] }]

end Example

/-- `fails_only_for_input` at a program whose mutants are run, and at one in which a name for a copy
is taken. -/
theorem Pipeline.fails_only_for_input_example :
    (∃ result, (Example.pipeline.run Example.workspace).1 = .ok result ∧ result.results ≠ [] ∧
      (∀ r ∈ result.results, r.result.status ≠ .invalid) ∧
      (Example.pipeline.run Example.workspace).2.log.errors = 0) ∧
    Example.pipeline.InputFault {} (.ofModules [Example.crowded])
      (.stageIncomplete "Cloning functions for mutation" 1 0) := by
  have hreporter : Example.pipeline.reporter = EditorMode.none.reporter := rfl
  have hoperators : Operator.select [] = .ok Example.pipeline.operators := by decide +kernel
  constructor
  · have hpoints : (Example.pipeline.run Example.workspace).1.toOption.map
        (fun result : PipelineResult => result.results.isEmpty) = some false := by
      decide +kernel
    obtain ⟨result, hrun, hsome⟩ := Option.map_eq_some_iff.mp hpoints
    have hok := toOption_eq_some_iff.mp hrun
    obtain ⟨hvalid, herrors⟩ := (fails_only_for_input (w := Example.workspace)
      rfl rfl rfl hreporter hoperators).2 result hok
    exact ⟨result, hok, List.isEmpty_eq_false_iff.mp hsome, hvalid, herrors⟩
  · have herror : (Example.pipeline.run { program := .ofModules [Example.crowded] }).1 =
        .error (.stageIncomplete "Cloning functions for mutation" 1 0) := by
      decide +kernel
    exact (fails_only_for_input rfl rfl rfl hreporter hoperators).1 _ herror

end MutationLab
