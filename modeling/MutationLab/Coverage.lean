import MutationLab.Point

/-! # Coverage

Records say that a test reached a function at some distance. Merging them gives each
function once, in order, with all its tests and its shortest distance, whatever the
order of the records. -/

namespace MutationLab

/-- A function of a program. -/
structure FunctionKey where
  module : ModuleId
  name : String
  deriving DecidableEq, Repr

namespace FunctionKey

/-- Modules in their order, functions of a module by name. -/
def lt (a b : FunctionKey) : Bool :=
  a.module < b.module || (a.module = b.module && a.name < b.name)

end FunctionKey

/-- A test reached a function so many calls below its entry. -/
structure CoverageRecord where
  function : FunctionKey
  test : TestId
  distance : UInt32
  deriving DecidableEq, Repr

/-- A function and the tests that reach it. -/
structure Candidate where
  function : FunctionKey
  /-- The tests in ascending order, each once. -/
  tests : List TestId := []
  /-- The shortest distance over the tests. -/
  distance : UInt32
  /-- The positions that may be mutated; none before they are selected. -/
  selected : List Nat := []
  deriving DecidableEq, Repr

/-- Add a number to an ascending list that holds it at most once. -/
def insertSorted (n : Nat) : List Nat → List Nat
  | [] => [n]
  | m :: ms => if n < m then n :: m :: ms else if n = m then m :: ms else m :: insertSorted n ms

namespace Candidate

/-- The candidate of one record. -/
def ofRecord (r : CoverageRecord) : Candidate :=
  { function := r.function, tests := [r.test], distance := r.distance }

/-- The candidate with one more record of its function. -/
def absorb (c : Candidate) (r : CoverageRecord) : Candidate :=
  { c with tests := insertSorted r.test c.tests, distance := min c.distance r.distance }

/-- Add a record to candidates in ascending order. -/
def insert (r : CoverageRecord) : List Candidate → List Candidate
  | [] => [ofRecord r]
  | c :: cs =>
      if r.function = c.function then c.absorb r :: cs
      else if r.function.lt c.function then ofRecord r :: c :: cs
      else c :: insert r cs

/-- The candidates of all records, in ascending order. -/
def merge (records : List CoverageRecord) : List Candidate :=
  records.foldl (fun cs r => insert r cs) []

end Candidate

end MutationLab
