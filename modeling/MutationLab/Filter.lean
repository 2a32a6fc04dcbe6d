import MutationLab.Code.Module
import MutationLab.Coverage
import MutationLab.Text.Fragment

/-! # Filters

Conditions that keep functions, instructions and points from being mutated. A filter is any
predicate under a name; the built-in ones look at locations, names, distances and paths. -/

namespace MutationLab

/-- A condition under which a function is not mutated. -/
structure FunctionFilter where
  name : String
  /-- Whether a function is left out. -/
  skips : Candidate → Function → Bool

namespace FunctionFilter

/-- A function without location is left out. -/
def noDebugInfo : FunctionFilter :=
  { name := "no debug info", skips := fun _ f => f.location.isNone }

/-- A function whose name holds one of the fragments is left out. -/
def excludingNames (fragments : List String) : FunctionFilter :=
  { name := "function name", skips := fun _ f => fragments.any (Text.holds f.name) }

/-- A function that is farther from every test than the limit is left out. -/
def maxDistance (limit : UInt32) : FunctionFilter :=
  { name := "distance", skips := fun c _ => limit < c.distance }

end FunctionFilter

/-- A condition that an instruction must meet to be mutated. -/
structure InstructionFilter where
  /-- Whether an instruction is accepted. -/
  accepts : Instruction → Bool

/-- An instruction must have a location and be no trampoline. -/
def InstructionFilter.debugInfo : InstructionFilter :=
  { accepts := fun i => i.location.isSome && !i.operation.isDispatch }

/-- A condition under which a point is dropped. -/
structure PointFilter where
  name : String
  /-- Whether a point is left out. -/
  skips : Point → Bool

namespace PointFilter

/-- A point without location is left out. -/
def noDebugInfo : PointFilter := { name := "no debug info", skips := fun p => p.location.isNone }

/-- The file of a point. A point without location has the name of its module for a file. -/
def path (p : Point) : String :=
  match p.location with
  | some l => l.file
  | none => p.moduleName

/-- A point is left out whose file holds an excluded fragment, or none of the included ones where
there are any. -/
def paths (included excluded : List String) : PointFilter :=
  { name := "file path"
    skips := fun p =>
      excluded.any (Text.holds (path p)) ||
        (!included.isEmpty && !included.any (Text.holds (path p))) }

end PointFilter

/-- The filters of a run, each kind in the order of application. -/
structure Filters where
  functions : List FunctionFilter := []
  instructions : List InstructionFilter := []
  points : List PointFilter := []

/-- Whether there is no filter at all. -/
def Filters.isEmpty (f : Filters) : Bool :=
  f.functions.isEmpty && f.instructions.isEmpty && f.points.isEmpty

end MutationLab
