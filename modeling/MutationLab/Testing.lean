import MutationLab.Log
import MutationLab.Program
import MutationLab.Sandbox
import MutationLab.Symbol

/-! # Test frameworks

A framework finds the tests of a program, loads the instrumented program and runs single
tests. The built-in one takes every function without parameters whose name begins with
`test_` for a test: zero passes, any other value fails, a trap crashes. -/

namespace MutationLab

/-- What is chosen for one run of a test. -/
structure TestContext where
  /-- The active mutant. -/
  selector : Option String := none
  watchdog : Watchdog := .never
  /-- Whether the functions that are reached are recorded. -/
  tracing : Bool := false
  deriving DecidableEq, Repr

/-- A convention for tests. -/
structure Framework where
  name : String
  /-- The tests in a fixed order, and what is to be said about functions passed over. -/
  find : Program → List Test × List Message
  /-- The image of the instrumented program; none if it is not loaded. -/
  load : List ObjectFile → Except LinkError (Option Image)
  /-- Run a test: its result and the probes that it passed. -/
  run : Image → Test → TestContext → ExecutionResult × Trace

namespace Testing

/-- What the names of tests begin with. -/
def marker : String := "test_"

/-- Whether a function has the name of a test. -/
def isMarked (f : Function) : Bool := marker.toList.isPrefixOf f.name.toList

/-- The tests among the functions of a module, numbered from `next` on. -/
def findIn (mangling : Mangling) (module : ModuleId) :
    (next : TestId) → List Function → List Test × List Message
  | _, [] => ([], [])
  | next, f :: fs =>
      if !isMarked f then findIn mangling module next fs
      else if f.params ≠ 0 then
        let (tests, messages) := findIn mangling module next fs
        (tests, ⟨.warning, s!"Skipping {f.name}: tests take no parameters"⟩ :: messages)
      else
        let (tests, messages) := findIn mangling module (next + 1) fs
        ({ id := next, name := f.name, symbol := mangling.mangle f.name, module,
           location := f.location } :: tests, messages)

/-- The tests of modules, numbered from `next` on. -/
def findAll (mangling : Mangling) : (next : TestId) → List Subject → List Test × List Message
  | _, [] => ([], [])
  | next, s :: ss =>
      let (tests, messages) := findIn mangling s.id next s.module.functions
      let (others, more) := findAll mangling (next + tests.length) ss
      (tests ++ others, messages ++ more)

/-- The verdict on the outcome of an entry function. A run that has used up its fuel has
taken too long. -/
def judge : Option (Except Trap Int64) → ExecutionResult
  | some (.ok value) =>
      { status := if value = 0 then .passed else .failed, exit := some value }
  | some (.error .timeout) | none => .timedOut
  | some (.error trap) => .crashed trap.message

/-- Run a test. -/
def run (image : Image) (test : Test) (context : TestContext) : ExecutionResult × Trace :=
  match image.index? test.symbol with
  | none => (.invalid s!"test symbol `{test.symbol}` not found", [])
  | some entry =>
      let setup : Setup :=
        { selector := context.selector, watchdog := context.watchdog, tracing := context.tracing }
      let (outcome, e) :=
        Machine.call image setup (Machine.fuelFor context.watchdog) entry [] {}
      ({ judge outcome with stdout := e.stdout }, e.trace)

/-- The built-in framework. -/
def simple (mangling : Mangling) : Framework :=
  { name := "simple"
    find := fun program => findAll mangling 0 program.subjects
    load := fun objects => (Image.link objects).map some
    run := run }

end Testing

end MutationLab
