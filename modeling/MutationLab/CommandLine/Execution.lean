import MutationLab.CommandLine.Command
import MutationLab.Loading
import MutationLab.Pipeline

/-! # Carrying out commands

A command is carried out on a file tree. It leaves a text for the reader, lines beside it
and perhaps a failure; a failure and stages with errors give the exit code one. -/

namespace MutationLab.CommandLine

/-- What a command leaves. -/
structure Outcome where
  /-- The text for the reader. -/
  text : String := ""
  /-- What is written for editors. -/
  written : List String := []
  /-- The problems on the way. -/
  problems : List Message := []
  /-- The last line of a run. -/
  summary : Option String := none
  /-- Why the command failed. -/
  failure : Option String := none
  deriving DecidableEq, Repr

namespace Outcome

/-- Nothing but a failure. -/
def failed (text : String) : Outcome := { failure := some text }

/-- The exit code. -/
def exit (o : Outcome) : Nat := if o.failure.isSome then 1 else 0

end Outcome

namespace RunSettings

/-- The configuration of a run: that of the file, changed by what the settings say. -/
def configure (s : RunSettings) (c : Configuration) : Configuration :=
  let c := s.workers.elim c c.withWorkers
  let c := s.testWorkers.elim c c.withTestWorkers
  let c := s.mutantWorkers.elim c c.withMutantWorkers
  { c with
    dryRun := c.dryRun || s.dryRun
    editor := s.editor.getD c.editor
    millis := s.millis.getD c.millis
    cacheDirectory := s.cacheDirectory.or c.cacheDirectory }

/-- Load the configuration of a run. -/
def loadConfiguration (s : RunSettings) (files : FileTree) :
    Except ConfigurationError Configuration :=
  match s.configuration with
  | none => .ok (s.configure {})
  | some path => s.configure <$> Configuration.load files path

/-- The filters of a run: first for locations, then for names and distances. -/
def filters (s : RunSettings) : Filters :=
  let located := s.requireDebugInfo
  let excluding := !s.excludedFunctions.isEmpty
  let placed := !s.excludedPaths.isEmpty || !s.includedPaths.isEmpty
  { functions :=
      (if located then [.noDebugInfo] else [])
        ++ (if excluding then [.excludingNames s.excludedFunctions] else [])
        ++ (s.maxDistance.map fun limit => .maxDistance (UInt32.ofNat limit)).toList
    instructions := if located then [.debugInfo] else []
    points :=
      (if located then [.noDebugInfo] else [])
        ++ (if placed then [.paths s.includedPaths s.excludedPaths] else []) }

/-- The pipeline and the program of a run, or why they cannot be had. -/
def prepare (s : RunSettings) (files : FileTree) : Except String (Pipeline × Program) := do
  let configuration ← (s.loadConfiguration files).mapError ConfigurationError.message
  let operators ← (Operator.select s.operators).mapError SelectionError.message
  let program ←
    (Program.load files s.modules s.libraries s.objects).mapError LoadError.message
  return ({ Pipeline.ofConfiguration configuration with operators, filters := s.filters }, program)

/-- The failure of a run that has a result: some stage has reported errors. -/
def stageFailure (log : Log) : Option String :=
  if log.errors = 0 then none else some s!"{log.errors} stage errors reported"

/-- What is to be said about a run besides its result. -/
def problems (log : Log) : List Message :=
  log.messages.filter fun m => m.level = .warning || m.level = .error

/-- Run the pipeline. -/
def execute (s : RunSettings) (files : FileTree) : Outcome × FileTree :=
  match s.prepare files with
  | .error text => (.failed text, files)
  | .ok (pipeline, program) =>
      let (result, w) := pipeline.run { program, files }
      let said : Outcome := { written := w.written.reverse, problems := problems w.log }
      match result with
      | .error e => ({ said with failure := some e.message }, w.files)
      | .ok result =>
          let text := Report.render result (s.format.getD .markdown) ++ "\n"
          let summary := some (Summary.ofResult result).toText
          ({ said with text, summary, failure := stageFailure w.log }, w.files)

end RunSettings

/-- Compile a module into an object file. -/
def compileModule (module output : String) (files : FileTree) :
    Except String (String × FileTree) := do
  let m ← (Module.readFrom files module).mapError LoadError.message
  let o ← (Compilation.compile { mangling := .native } 0 m).mapError CompileError.message
  let files ← (o.writeTo files output).mapError ObjectError.message
  return (s!"wrote {output} ({o.functions.length} functions)\n", files)

/-- The list of operators. -/
def operatorList : String :=
  String.join (Operator.catalog.map fun operator => s!"{operator.id}\t{operator.description}\n")

/-- The files that a command names to be read. -/
def Command.inputs : Command → List String
  | .run s => s.configuration.toList ++ s.modules ++ s.libraries ++ s.objects
  | .compile module _ => [module]
  | .listOperators => []

/-- The file that a command names to be written. -/
def Command.output? : Command → Option String
  | .compile _ output => some output
  | _ => none

/-- The directory in which a command keeps object files. -/
def Command.cacheDirectory? (files : FileTree) : Command → Option String
  | .run s =>
      match s.loadConfiguration files with
      | .ok c => c.cacheDirectory
      | .error _ => none
  | _ => none

/-- Carry out a command. -/
def Command.execute : Command → FileTree → Outcome × FileTree
  | .run settings, files => settings.execute files
  | .compile module output, files =>
      match compileModule module output files with
      | .error text => (.failed text, files)
      | .ok (text, files) => ({ text }, files)
  | .listOperators, files => ({ text := operatorList }, files)

end MutationLab.CommandLine
