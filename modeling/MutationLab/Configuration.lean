import MutationLab.Editor
import MutationLab.FileTree
import MutationLab.Json.Decoding
import MutationLab.Text.Utf8

/-! # Configurations

What a user chooses for a run. A configuration is read from a file in which everything
may be missing; a pool that is asked to have no worker has one. -/

namespace MutationLab

open Json

/-- The sizes of the pools of workers; one that is not chosen has the standard size. -/
structure Pools where
  /-- For compiling, filtering, searching and applying. -/
  workers : Option Nat := none
  /-- For running the tests before any mutant is made. -/
  testWorkers : Option Nat := none
  /-- For running mutants. -/
  mutantWorkers : Option Nat := none
  deriving DecidableEq, Repr

namespace Pools

/-- The size of a pool that is not chosen. -/
def standard : Nat := 4

/-- The size of a pool: at least one worker. -/
def size (choice : Option Nat) : Nat := max (choice.getD standard) 1

/-- The same size for every pool, but at least one worker. -/
def uniform (workers : Nat) : Pools :=
  let choice := some (max workers 1)
  { workers := choice, testWorkers := choice, mutantWorkers := choice }

/-- The pools with at least one worker each. -/
def normalized (p : Pools) : Pools :=
  { workers := p.workers.map (max · 1), testWorkers := p.testWorkers.map (max · 1),
    mutantWorkers := p.mutantWorkers.map (max · 1) }

end Pools

/-- What is chosen for a run. -/
structure Configuration where
  pools : Pools := {}
  /-- Whether mutants are only listed. -/
  dryRun : Bool := false
  /-- Which mutants an editor is told about. -/
  editor : EditorMode := .none
  /-- The limit of a test in milliseconds. -/
  millis : Nat := 3000
  /-- The directory in which object files are kept. -/
  cacheDirectory : Option String := none
  deriving DecidableEq, Repr

namespace Configuration

/-- The configuration with at least one worker in each pool. -/
def normalized (c : Configuration) : Configuration := { c with pools := c.pools.normalized }

/-- Choose the size of the general pool. -/
def withWorkers (c : Configuration) (workers : Nat) : Configuration :=
  { c with pools := { c.pools with workers := some (max workers 1) } }

/-- Choose the size of the pool for tests before any mutant is made. -/
def withTestWorkers (c : Configuration) (workers : Nat) : Configuration :=
  { c with pools := { c.pools with testWorkers := some (max workers 1) } }

/-- Choose the size of the pool for mutants. -/
def withMutantWorkers (c : Configuration) (workers : Nat) : Configuration :=
  { c with pools := { c.pools with mutantWorkers := some (max workers 1) } }

end Configuration

/-! ## Writing -/

/-- The size of a pool as a document; one that is not chosen is `default`. -/
def Pools.sizeToJson : Option Nat → Document
  | none => .ofText "default"
  | some size => .ofNat size

/-- The pools as a document. -/
def Pools.toJson (p : Pools) : Document :=
  .ofFields [("workers", sizeToJson p.workers),
    ("test_execution_workers", sizeToJson p.testWorkers),
    ("mutant_execution_workers", sizeToJson p.mutantWorkers)]

/-- The configuration as a document. -/
def Configuration.toJson (c : Configuration) : Document :=
  .ofFields [("parallelization", c.pools.toJson), ("dry_run_enabled", .bool c.dryRun),
    ("diagnostics", .ofText c.editor.name), ("timeout_ms", .ofNat c.millis),
    ("cache_directory", .ofOption .ofText c.cacheDirectory)]

/-! ## Reading -/

/-- The size of a pool. -/
def readSize : Reader (Option Nat) := fun levels d =>
  return some (← readUInt64 levels d).toNat

/-- The slots of pools that are being read. -/
structure Pools.Partial where
  workers : Option (Option Nat) := none
  testWorkers : Option (Option Nat) := none
  mutantWorkers : Option (Option Nat) := none

/-- Read pools. In a list, those at the end may be left off. -/
def Pools.ofJson : Reader Pools
  | levels, .object fields => do
      let levels ← enter levels
      let p ← fields.gather (fun
        | "workers" => some fun d p => do
            return { p with workers := ← fill p.workers readSize levels d }
        | "test_execution_workers" => some fun d p => do
            return { p with testWorkers := ← fill p.testWorkers readSize levels d }
        | "mutant_execution_workers" => some fun d p => do
            return { p with mutantWorkers := ← fill p.mutantWorkers readSize levels d }
        | _ => none) ({} : Partial)
      return { workers := p.workers.getD none, testWorkers := p.testWorkers.getD none,
               mutantWorkers := p.mutantWorkers.getD none }
  | levels, .array items => do
      let levels ← enter levels
      let (workers, items) ← items.nextOr none readSize levels
      let (testWorkers, items) ← items.nextOr none readSize levels
      let (mutantWorkers, items) ← items.nextOr none readSize levels
      items.finish
      return { workers, testWorkers, mutantWorkers }
  | _, document => .error document.refusal

namespace Configuration

/-- A limit in milliseconds. -/
def readMillis : Reader Nat := fun levels d => return (← readUInt64 levels d).toNat

/-- The slots of a configuration that is being read. -/
structure Partial where
  pools : Option Pools := none
  dryRun : Option Bool := none
  editor : Option EditorMode := none
  millis : Option Nat := none
  cacheDirectory : Option (Option String) := none

/-- Read a configuration. In a list, what comes at the end may be left off. -/
def ofJson : Reader Configuration
  | levels, .object fields => do
      let levels ← enter levels
      let p ← fields.gather (fun
        | "parallelization" => some fun d p => do
            return { p with pools := ← fill p.pools Pools.ofJson levels d }
        | "dry_run_enabled" => some fun d p => do
            return { p with dryRun := ← fill p.dryRun readBool levels d }
        | "diagnostics" => some fun d p => do
            return { p with editor := ← fill p.editor (readName EditorMode.names) levels d }
        | "timeout_ms" => some fun d p => do
            return { p with millis := ← fill p.millis readMillis levels d }
        | "cache_directory" => some fun d p => do
            let cacheDirectory ← fill p.cacheDirectory (readOption readString) levels d
            return { p with cacheDirectory }
        | _ => none) ({} : Partial)
      return { pools := p.pools.getD {}, dryRun := p.dryRun.getD false,
               editor := p.editor.getD .none, millis := p.millis.getD 3000,
               cacheDirectory := p.cacheDirectory.getD none }
  | levels, .array items => do
      let levels ← enter levels
      let (pools, items) ← items.nextOr {} Pools.ofJson levels
      let (dryRun, items) ← items.nextOr false readBool levels
      let (editor, items) ← items.nextOr .none (readName EditorMode.names) levels
      let (millis, items) ← items.nextOr 3000 readMillis levels
      let (cacheDirectory, items) ← items.nextOr none (readOption readString) levels
      items.finish
      return { pools, dryRun, editor, millis, cacheDirectory }
  | _, document => .error document.refusal

end Configuration

/-- Why a configuration cannot be loaded. -/
inductive ConfigurationError where
  /-- The file cannot be read as text. -/
  | unreadable (path : String)
  /-- The text is no configuration. -/
  | unparsable (path : String) (problem : Problem)
  deriving DecidableEq, Repr

/-- The text of an error. -/
def ConfigurationError.message : ConfigurationError → String
  | unreadable path => s!"cannot read config {path}: no text can be read"
  | unparsable path problem => s!"cannot parse config {path}: {problem.message}"

/-- Load a configuration from a file. -/
def Configuration.load (files : FileTree) (path : String) :
    Except ConfigurationError Configuration :=
  match (files.read path).bind Text.ofUtf8? with
  | none => .error (.unreadable path)
  | some text =>
      match Json.ofText Configuration.ofJson text with
      | .error problem => .error (.unparsable path problem)
      | .ok c => .ok c.normalized

end MutationLab
