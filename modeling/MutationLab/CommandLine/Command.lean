import MutationLab.CommandLine.Arguments
import MutationLab.Editor
import MutationLab.Report

/-! # Commands

What can be asked for on the command line: a run of the pipeline, the compilation of one
module, or the list of operators. -/

namespace MutationLab.CommandLine

/-- The settings of a run; a path, fragment or name that may be given again keeps its
order. -/
structure RunSettings where
  modules : List String := []
  configuration : Option String := none
  workers : Option Nat := none
  testWorkers : Option Nat := none
  mutantWorkers : Option Nat := none
  dryRun : Bool := false
  operators : List String := []
  excludedFunctions : List String := []
  excludedPaths : List String := []
  includedPaths : List String := []
  maxDistance : Option Nat := none
  requireDebugInfo : Bool := false
  editor : Option EditorMode := none
  millis : Option Nat := none
  libraries : List String := []
  objects : List String := []
  cacheDirectory : Option String := none
  format : Option Report.Format := none
  deriving DecidableEq, Repr

/-- What is asked for. -/
inductive Command where
  /-- Run the pipeline on a program. -/
  | run (settings : RunSettings)
  /-- Compile a module into an object file. -/
  | compile (module output : String)
  /-- List the operators. -/
  | listOperators
  deriving DecidableEq, Repr

namespace RunSettings

/-- The modes that can be chosen for an editor. -/
def editorModes : List (String × EditorMode) :=
  EditorMode.names.filter fun (_, mode) => mode ≠ .none

/-- The forms of the report. -/
def formats : List (String × Report.Format) := [("md", .markdown), ("json", .json)]

/-- The size of a pool. -/
def readSize : String → Except Refusal Nat := readNat (UInt64.size - 1)

/-- The options of a run. -/
def option? : String → Option (Meaning RunSettings)
  | "config" => some (.value fun text s => do
      return { s with configuration := ← once s.configuration (readPath text) })
  | "workers" => some (.value fun text s => do
      return { s with workers := ← once s.workers (readSize text) })
  | "test-workers" => some (.value fun text s => do
      return { s with testWorkers := ← once s.testWorkers (readSize text) })
  | "mutant-workers" => some (.value fun text s => do
      return { s with mutantWorkers := ← once s.mutantWorkers (readSize text) })
  | "dry-run" => some (.flag fun s => do return { s with dryRun := ← switch s.dryRun })
  | "mutators" => some (.value fun text s =>
      .ok { s with operators := s.operators ++ readParts text })
  | "exclude-function" => some (.value fun text s =>
      .ok { s with excludedFunctions := s.excludedFunctions ++ [text] })
  | "exclude-path" => some (.value fun text s =>
      .ok { s with excludedPaths := s.excludedPaths ++ [text] })
  | "include-path" => some (.value fun text s =>
      .ok { s with includedPaths := s.includedPaths ++ [text] })
  | "max-distance" => some (.value fun text s => do
      return { s with maxDistance := ← once s.maxDistance (readMagnitude (UInt32.size - 1) text) })
  | "require-debug-info" => some (.flag fun s => do
      return { s with requireDebugInfo := ← switch s.requireDebugInfo })
  | "ide-reporter" => some (.value fun text s => do
      return { s with editor := ← once s.editor (readChoice editorModes text) })
  | "timeout-ms" => some (.value fun text s => do
      return { s with millis := ← once s.millis (readNat (UInt64.size - 1) text) })
  | "dylib" => some (.value fun text s => do
      return { s with libraries := s.libraries ++ [← readPath text] })
  | "object" => some (.value fun text s => do
      return { s with objects := s.objects ++ [← readPath text] })
  | "cache-dir" => some (.value fun text s => do
      return { s with cacheDirectory := ← once s.cacheDirectory (readPath text) })
  | "format" => some (.value fun text s => do
      return { s with format := ← once s.format (readChoice formats text) })
  | _ => none

/-- The arguments of a run: its plain words are the paths of modules. -/
def grammar : Grammar RunSettings :=
  { option?, word := fun text s => do return { s with modules := s.modules ++ [← readPath text] } }

end RunSettings

/-- The arguments of a compilation: the path of a module, and the one to write. -/
def compileGrammar : Grammar (Option String × Option String) :=
  { option? := fun
      | "output" => some (.value fun text (module, output) => do
          return (module, ← once output (readPath text)))
      | _ => none
    word := fun text (module, output) => do return (← once module (readPath text), output) }

/-- A command that takes no arguments. -/
def bareGrammar : Grammar Unit := { option? := fun _ => none, word := fun _ _ => .error .misuse }

namespace Command

/-- The names of the commands. -/
def names : List String := ["run", "compile", "mutators", "help"]

/-- The command with a name and its arguments. -/
def read : (name : String) → List String → Except Refusal Command
  | "run", arguments => do
      let settings ← RunSettings.grammar.take arguments {}
      if settings.modules.isEmpty then .error .misuse else .ok (.run settings)
  | "compile", arguments => do
      match ← compileGrammar.take arguments (none, none) with
      | (some module, some output) => .ok (.compile module output)
      | _ => .error .misuse
  | "mutators", arguments => do
      bareGrammar.take arguments ()
      return .listOperators
  | "help", arguments =>
      match arguments with
      | [] => .error .help
      | [name] => .error (if name ∈ names then .help else .misuse)
      | _ => .error .misuse
  | name, _ =>
      match Argument.of name with
      | .long "help" none | .short 'h' => .error .help
      | _ => .error .misuse

/-- The command of a command line. -/
def ofArguments : List String → Except Refusal Command
  | [] => .error .misuse
  | name :: arguments => read name arguments

end Command

end MutationLab.CommandLine
