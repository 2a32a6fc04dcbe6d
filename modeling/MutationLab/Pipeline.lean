import MutationLab.Configuration
import MutationLab.Discovery
import MutationLab.Execution
import MutationLab.Toolchain

/-! # The pipeline

A run takes a program through these stages: compile it with probes, load libraries, find
tests, run them to learn what they cover, search and filter points, then put all mutants
into the program, compile and link it once more, and run the mutants. A dry run stops
before the mutants are made. -/

namespace MutationLab

/-- Why a run ends without a result. What happens to a single mutant is never a reason. -/
inductive PipelineError where
  /-- The object files do not link. -/
  | link (e : LinkError)
  /-- A module is not as a step of applying mutations needs it. -/
  | application (e : ApplicationError)
  /-- A stage has lost items. -/
  | stageIncomplete (label : String) (expected actual : Nat)
  /-- The framework has not loaded the instrumented program. -/
  | notLoaded
  /-- Some points have no result. -/
  | missingResults (expected actual : Nat)
  /-- The result of a mutant is inconsistent. -/
  | invalidResult (point reason : String)
  /-- The only worker of a stage was torn down. -/
  | panicked (p : Panic)
  deriving DecidableEq, Repr

/-- The text of an error. -/
def PipelineError.message : PipelineError → String
  | link e => s!"link error: {e.message}"
  | application e => s!"mutation application error: {e.message}"
  | stageIncomplete label expected actual => s!"{label}: expected {expected} items, got {actual}"
  | notLoaded => "instrumented program was not loaded"
  | missingResults expected actual => s!"expected {expected} mutation results, got {actual}"
  | invalidResult point reason => s!"mutant {point} produced an invalid result: {reason}"
  | panicked p => p.message

/-- How a program is to be run. -/
structure Pipeline where
  configuration : Configuration := {}
  toolchain : Toolchain := {}
  framework : Framework
  filters : Filters := {}
  operators : List Operator := Operator.defaults
  sandbox : Sandbox := .watched
  clock : Clock := .steady 10000
  reporter : Reporter := EditorMode.none.reporter

/-- What a run works on. -/
structure Workspace where
  program : Program
  files : FileTree := {}
  log : Log := {}
  /-- What was written for editors, the latest first. -/
  written : List String := []

/-- A part of a run. -/
abbrev Run (α : Type) := ExceptT PipelineError (StateM Workspace) α

namespace Run

/-- Say something. -/
def say (level : Level) (text : String) : Run Unit :=
  modify fun w => { w with log := w.log.add ⟨level, text⟩ }

/-- A step of one worker. -/
def single (label : String) (job : Workspace → α × List Message) : Run α :=
  ExceptT.mk fun w =>
    let (result, log) := Pool.single label (fun log =>
      let (result, messages) := job w
      (result, log.addAll messages)) w.log
    (.ok result, { w with log })

/-- A stage whose tasks keep no state. -/
def stage (label : String) (workers : Nat) (task : Task Unit α β) (inputs : List α) :
    Run (List β) :=
  ExceptT.mk fun w =>
    let (outputs, log, _) := Pool.execute label workers task inputs w.log ()
    (outputs.mapError .panicked, { w with log })

/-- A stage whose tasks use the files. -/
def stageOnFiles (label : String) (workers : Nat) (task : Task FileTree α β) (inputs : List α) :
    Run (List β) :=
  ExceptT.mk fun w =>
    let (outputs, log, files) := Pool.execute label workers task inputs w.log w.files
    (outputs.mapError .panicked, { w with log, files })

/-- A stage that changes every module in place. -/
def stageOnSubjects (label : String) (workers : Nat) (work : Subject → Step β × Subject) :
    Run (List β) :=
  ExceptT.mk fun w =>
    let (outputs, log, subjects) := Pool.executeInPlace label workers work w.program.subjects w.log
    (outputs.mapError .panicked, { w with log, program := { w.program with subjects } })

/-- Fail if a stage has lost items. -/
def ensureCount (label : String) (expected actual : Nat) : Run Unit :=
  if expected = actual then pure () else throw (.stageIncomplete label expected actual)

/-- Fail unless every module with mutations has come to a stage of their application. -/
def ensureStage (label : String) (stage : Stage) : Run Unit := do
  let mutated := (← get).program.subjects.filter fun s => !s.pending.isEmpty
  ensureCount label mutated.length (mutated.filter fun s => s.stage = stage).length

end Run

namespace Pipeline

/-- The pipeline of a configuration with the toolchain of the platform. -/
def ofConfiguration (c : Configuration) : Pipeline :=
  { configuration := c
    toolchain := { cache := c.cacheDirectory.map ObjectCache.mk }
    framework := Testing.simple .native
    reporter := c.editor.reporter }

/-- The size of the general pool. -/
def workers (p : Pipeline) : Nat := Pools.size p.configuration.pools.workers

/-- The size of the pool for tests before any mutant is made. -/
def testWorkers (p : Pipeline) : Nat := Pools.size p.configuration.pools.testWorkers

/-- The size of the pool for mutants. -/
def mutantWorkers (p : Pipeline) : Nat := Pools.size p.configuration.pools.mutantWorkers

/-- How the run of a test is timed before any mutant is made. -/
def originalTiming (p : Pipeline) (test : Test) : Timing .zero :=
  p.clock.timing none test .zero p.configuration.millis

/-- How the run of a test is timed with a mutant active. -/
def mutantTiming (p : Pipeline) (point : Point) (test : Test) (start : Duration) : Timing start :=
  p.clock.timing (some point) test start p.configuration.millis

/-! ## From the program to its points -/

/-- The task that compiles a module. -/
def compileTask (p : Pipeline) (probes : Option Probes) : Task FileTree Subject ObjectFile :=
  fun s files =>
    let compiled := p.toolchain.compile probes s files
    match compiled.object with
    | .ok o => ({ messages := compiled.messages, outputs := [o] }, compiled.files)
    | .error e =>
        ({ messages := compiled.messages, ending := .failed (.compile e) }, compiled.files)

/-- Compile every module. -/
def compileAll (p : Pipeline) (label : String) (probes : Option Probes) :
    Run (List ObjectFile) := do
  let subjects := (← get).program.subjects
  let objects ← Run.stageOnFiles label p.workers (p.compileTask probes) subjects
  Run.ensureCount label subjects.length objects.length
  return objects

/-- Read libraries. One that cannot be read is left out with a warning. -/
def readLibraries (files : FileTree) : List String → List ObjectFile × List Message
  | [] => ([], [])
  | path :: paths =>
      let (objects, messages) := readLibraries files paths
      match ObjectFile.readFrom files path with
      | .ok o => (o :: objects, messages)
      | .error e =>
          (objects, ⟨.warning, s!"Cannot load dynamic library '{path}': {e.message}"⟩ :: messages)

/-- The functions that the tests reach, merged. -/
def coverage (p : Pipeline) (probes : Probes) (image : Image) (tests : List Test) :
    Run (List Candidate) := do
  let records ← Run.stage "Running original tests" p.testWorkers
    (Discovery.cover p.framework image probes p.sandbox p.originalTiming) tests
  return Candidate.merge records

/-- Drop candidates, one filter after the other. -/
def filterFunctions (p : Pipeline) (program : Program) :
    List FunctionFilter → List Candidate → Run (List Candidate)
  | [], cs => pure cs
  | filter :: filters, cs => do
      let kept ← Run.stage s!"Applying function filter: {filter.name}" p.workers
        (.keeping (Candidate.passes program filter)) cs
      p.filterFunctions program filters kept

/-- Select the instructions of candidates. -/
def selectInstructions (p : Pipeline) (program : Program) (cs : List Candidate) :
    Run (List Candidate) :=
  ExceptT.mk fun w =>
    let (outcome, log, selected) := Pool.executeInPlace "Instruction selection" p.workers
      (Discovery.selection program p.filters.instructions) cs w.log
    ((outcome.mapError .panicked).map fun _ => selected, { w with log })

/-- Search the points of candidates. -/
def searchPoints (p : Pipeline) (program : Program) (cs : List Candidate) : Run (List Point) :=
  ExceptT.mk fun w =>
    let (points, log) := Discovery.points program p.operators p.workers cs w.log
    (points.mapError .panicked, { w with log })

/-- The points of a program. Without tests there are none. -/
def findPoints (p : Pipeline) (probes : Probes) (instrumented libraries : List ObjectFile)
    (tests : List Test) : Run (List Point) := do
  if tests.isEmpty then
    Run.say .warning "No tests found, skipping mutation point discovery"
    return []
  let loaded ← Run.single "Preparing original test run" fun w =>
    (p.framework.load (instrumented ++ libraries ++ w.program.objects), [])
  match loaded with
  | .error e => throw (.link e)
  | .ok none => throw .notLoaded
  | .ok (some image) =>
      let program := (← get).program
      let covered ← p.coverage probes image tests
      let kept ← p.filterFunctions program p.filters.functions covered
      let selected ← p.selectInstructions program kept
      p.searchPoints program selected

/-- Drop points, one filter after the other. -/
def dropPoints (p : Pipeline) : List PointFilter → List Point → Run (List Point)
  | [], points => pure points
  | filter :: filters, points => do
      let kept ← Run.stage s!"Applying filter: {filter.name}" p.workers
        (.keeping fun point => !filter.skips point) points
      p.dropPoints filters kept

/-! ## From the points to their results -/

/-- Register points with their modules. -/
def registerAll (program : Program) : List Point → Except ApplicationError Unit × Program
  | [] => (.ok (), program)
  | point :: points =>
      match program.subject? point.module with
      | none => (.error (.foreignPoint point.id point.moduleName), program)
      | some s =>
          match s.register point with
          | (.error e, s) => (.error e, program.setSubject point.module s)
          | (.ok (), s) => registerAll (program.setSubject point.module s) points

/-- Register points with the modules of the run. -/
def registerPoints (points : List Point) : Run Unit :=
  ExceptT.mk fun w =>
    let ((outcome, program), log) :=
      Pool.single "Prepare mutations" (fun log => (registerAll w.program points, log)) w.log
    (outcome.mapError .application, { w with log, program })

/-- A step of applying mutations as work on a module. -/
def stepOf (outputs : Subject → α → List β) : Subject.Outcome α → Step β × Subject
  | (.ok x, s) => ({ outputs := outputs s x }, s)
  | (.error e, s) => ({ ending := .failed (.application e) }, s)

/-- The step that copies mutated functions and names them. -/
def cloneStep (s : Subject) : Step FunctionKey × Subject :=
  stepOf (fun s names => names.map fun name => ⟨s.id, name⟩) s.clone

/-- The step that cuts out the mutated functions. -/
def exciseStep (s : Subject) : Step Empty × Subject := stepOf (fun _ _ => []) s.excise

/-- The step that puts trampolines in their place. -/
def redirectStep (s : Subject) : Step Empty × Subject := stepOf (fun _ _ => []) s.redirect

/-- The task that mutates the copy of a point. -/
def applyTask : Task Program Point Point := fun point program =>
  match program.subject? point.module with
  | none => ({ ending := .failed (.unknownModule point.module) }, program)
  | some s =>
      let (step, s) := stepOf (fun _ _ => [point]) (s.apply point)
      (step, program.setSubject point.module s)

/-- Mutate the copies of points one after the other: those of one module share its code. -/
def applyPoints (points : List Point) : Run (List Point) :=
  ExceptT.mk fun w =>
    let (outputs, log, program) :=
      Pool.execute "Applying mutations" 1 applyTask points w.log w.program
    (outputs.mapError .panicked, { w with log, program })

/-- The functions that points mutate, each once. -/
def mutatedFunctions (points : List Point) : List FunctionKey :=
  (points.map fun point => ⟨point.module, point.function⟩).eraseDups

/-- Put all mutants into the program. -/
def applyMutations (p : Pipeline) (points : List Point) : Run Unit := do
  registerPoints points
  let cloning := "Cloning functions for mutation"
  let cloned ← Run.stageOnSubjects cloning p.workers cloneStep
  Run.ensureCount cloning (mutatedFunctions points).length cloned.length
  let removing := "Removing original functions"
  let _ ← Run.stageOnSubjects removing p.workers exciseStep
  Run.ensureStage removing .excised
  let redirecting := "Redirect mutated functions"
  let _ ← Run.stageOnSubjects redirecting p.workers redirectStep
  Run.ensureStage redirecting .redirected
  let applied ← applyPoints points
  Run.ensureCount "Applying mutations" points.length applied.length

/-- Compile and link the program with all its mutants. -/
def buildMutants (p : Pipeline) (libraries : List ObjectFile) : Run Image := do
  let objects ← p.compileAll "Compiling original code" none
  let linked ← Run.single "Linking mutants" fun w =>
    (Image.link (objects ++ libraries ++ w.program.objects), [])
  match linked with
  | .error e => throw (.link e)
  | .ok image => return image

/-- What decides about the mutant of a point. Time begins with its first test. -/
def decide (p : Pipeline) (image : Image) (tests : List Test) (point : Point) :
    Except Panic ExecutionResult :=
  let run := Execution.runMutant p.framework image p.sandbox (p.mutantTiming point) point
  (Execution.decide tests run point .zero).1

/-- Run the mutants of points. -/
def runMutants (p : Pipeline) (image : Image) (tests : List Test) (points : List Point) :
    Run (List MutationResult) :=
  ExceptT.mk fun w =>
    let (results, log, written) := Pool.execute "Running mutants" p.mutantWorkers
      (Execution.task (p.decide image tests) p.reporter) points w.log w.written
    (results.mapError .panicked, { w with log, written })

/-- Results in the order of the ids of their points. -/
def sortResults (results : List MutationResult) : List MutationResult :=
  results.mergeSort fun a b => !(b.point.id < a.point.id)

/-- Every point must have a result, and none may be inconsistent. -/
def checkResults (points : List Point) (results : List MutationResult) :
    Except PipelineError Unit :=
  if results.length ≠ points.length then
    .error (.missingResults points.length results.length)
  else
    match results.find? fun r => r.result.status = .invalid with
    | some r => .error (.invalidResult r.point.id r.result.stderr)
    | none => .ok ()

/-- The results of points, in the order of their ids. -/
def results (p : Pipeline) (libraries : List ObjectFile) (tests : List Test)
    (points : List Point) : Run (List MutationResult) := do
  if points.isEmpty then return []
  let found ←
    if p.configuration.dryRun then
      Run.stage "Running mutants (dry run)" p.mutantWorkers Execution.listing points
    else do
      p.applyMutations points
      let image ← p.buildMutants libraries
      p.runMutants image tests points
  let sorted := sortResults found
  match checkResults points sorted with
  | .error e => throw e
  | .ok () => return sorted

/-- The whole run. -/
def stages (p : Pipeline) : Run PipelineResult := do
  let probes := (← get).program.probes
  let instrumented ← p.compileAll "Compiling instrumented code" (some probes)
  let libraries ← Run.single "Loading dynamic libraries" fun w =>
    readLibraries w.files w.program.libraries
  let tests ← Run.single "Searching tests" fun w => p.framework.find w.program
  Run.say .info s!"Found {tests.length} tests with {p.framework.name}"
  let found ← p.findPoints probes instrumented libraries tests
  let points := Point.sortById (← p.dropPoints p.filters.points found)
  Run.say .info s!"{points.length} mutants survived filtering"
  let results ← p.results libraries tests points
  return { tests, results, points }

/-- Run the pipeline on a program. -/
def run (p : Pipeline) (w : Workspace) : Except PipelineError PipelineResult × Workspace :=
  p.stages.run.run w

end Pipeline

end MutationLab
