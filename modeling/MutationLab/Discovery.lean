import MutationLab.Filter
import MutationLab.Operator.Catalog
import MutationLab.Pool
import MutationLab.Testing

/-! # Discovery

From tests to points: the tests are run on the instrumented program, the functions that
they reach become candidates, filters drop candidates, instructions are selected in the
others, and every operator that has a site in a selected instruction makes a point. -/

namespace MutationLab

namespace CoverageRecord

/-- The records of a run of a test. The function at depth zero is the test itself; a
probe outside the program belongs to an object file. -/
def ofTrace (probes : Probes) (test : TestId) (trace : Trace) : List CoverageRecord :=
  trace.filterMap fun (probe, depth) =>
    if depth = 0 then none
    else (probes.function? probe).map fun function => { function, test, distance := depth }

end CoverageRecord

namespace Candidate

/-- Whether a candidate is a function of the program that a filter lets through. -/
def passes (program : Program) (filter : FunctionFilter) (c : Candidate) : Bool :=
  match program.function? c.function with
  | none => false
  | some f => !filter.skips c f

/-- Whether an instruction may be mutated: it is no trampoline, and all filters accept it. -/
def isEligible (filters : List InstructionFilter) (i : Instruction) : Bool :=
  !i.operation.isDispatch && filters.all fun filter => filter.accepts i

/-- The eligible positions of a body that begins at position `first`. -/
def eligibleFrom (filters : List InstructionFilter) : (first : Nat) → List Instruction → List Nat
  | _, [] => []
  | first, i :: is =>
      let rest := eligibleFrom filters (first + 1) is
      if isEligible filters i then first :: rest else rest

/-- The candidate with its eligible positions selected. -/
def select (program : Program) (filters : List InstructionFilter) (c : Candidate) : Candidate :=
  match program.function? c.function with
  | none => { c with selected := [] }
  | some f => { c with selected := eligibleFrom filters 0 f.body }

/-- The points of a candidate at one position of its body. -/
def pointsAt (operators : List Operator) (moduleName : String) (body : List Instruction)
    (c : Candidate) (position : Nat) : List Point :=
  match body[position]? with
  | none => []
  | some i =>
      (operators.filter fun operator => operator.isSite i.operation).map fun operator =>
        { operator, module := c.function.module, moduleName, function := c.function.name,
          instruction := position, location := i.location, tests := c.tests,
          distance := c.distance }

/-- The points of a candidate: its positions in order, the operators in order at each.
A function that is gone has none. -/
def points (program : Program) (operators : List Operator) (c : Candidate) :
    Except TaskError (List Point) :=
  match program.subject? c.function.module with
  | none => .error (.unknownModule c.function.module)
  | some s =>
      match s.module.function? c.function.name with
      | none => .ok []
      | some f => .ok (c.selected.flatMap (c.pointsAt operators s.module.name f.body))

end Candidate

namespace Point

/-- Points in the order of their ids; points of one id keep their order. -/
def sortById (points : List Point) : List Point :=
  points.mergeSort fun p q => !(q.id < p.id)

end Point

/-- A task that keeps the inputs with a property. -/
def Task.keeping (property : α → Bool) : Task σ α α :=
  .stateless fun x => { outputs := if property x then [x] else [] }

namespace Discovery

/-- The task that runs a test on the instrumented program. Only a test that passes covers
anything; of any other the user is warned. -/
def cover (framework : Framework) (image : Image) (probes : Probes) (sandbox : Sandbox)
    (timing : Test → Timing .zero) : Task σ Test CoverageRecord :=
  .stateless fun test =>
    let job := fun watchdog => .ok (framework.run image test { watchdog, tracing := true })
    let (result, trace) := sandbox.run job (timing test)
    if result.status = .passed then
      { outputs := CoverageRecord.ofTrace probes test.id (trace.getD []) }
    else
      let verdict := result.status.name
      let text := s!"Original test '{test.name}' did not pass ({verdict}): {result.stderr}"
      { messages := [⟨.warning, text⟩] }

/-- The task that selects the instructions of a candidate in place. -/
def selection (program : Program) (filters : List InstructionFilter) (c : Candidate) :
    Step Empty × Candidate :=
  ({}, c.select program filters)

/-- The task that makes the points of a candidate. -/
def search (program : Program) (operators : List Operator) : Task σ Candidate Point :=
  .stateless fun c =>
    match c.points program operators with
    | .ok points => { outputs := points }
    | .error e => { ending := .failed e }

/-- Search the points of candidates, sorted by their ids. No worker counts as one. -/
def points (program : Program) (operators : List Operator) (workers : Nat)
    (candidates : List Candidate) (log : Log) : Except Panic (List Point) × Log :=
  let (found, log, _) := Pool.execute "Searching mutants across functions" (max workers 1)
    (search program operators) candidates log ()
  (found.map Point.sortById, log)

end Discovery

end MutationLab
