import MutationLab.Code.Written
import MutationLab.Point

/-! # Applying mutations

All mutants of a module live in one module. Five steps lead there: points are
registered; every mutated function is copied once as it is and once for every point; the
functions themselves are cut out; trampolines take their names, which choose a copy while
the program runs; and every point mutates its own copy. A step that comes out of order or
cannot be done says why. -/

namespace MutationLab

/-- How far the mutations of a module have been applied. -/
inductive Stage where
  /-- No point is registered. -/
  | pristine
  /-- Points are registered, the code is as loaded. -/
  | registered
  /-- The copies exist. -/
  | cloned
  /-- The copied functions are cut out. -/
  | excised
  /-- The trampolines are in their place. -/
  | redirected
  /-- At least one copy has been mutated. -/
  | applied
  deriving DecidableEq, Repr

namespace Stage

/-- The name of a stage. -/
def name : Stage → String
  | pristine => "Pristine"
  | registered => "Registered"
  | cloned => "Cloned"
  | excised => "Excised"
  | redirected => "Redirected"
  | applied => "Applied"

/-- The position of a stage in their order. -/
def rank : Stage → Nat
  | pristine => 0
  | registered => 1
  | cloned => 2
  | excised => 3
  | redirected => 4
  | applied => 5

end Stage

/-- Why a step is refused. -/
inductive ApplicationError where
  /-- The step comes before the one that it needs, or too late. -/
  | outOfOrder (module step : String) (actual : Stage)
  /-- A function is missing. -/
  | missingFunction (module function : String)
  /-- The name for a copy is taken. -/
  | nameCollision (module name : String)
  /-- The operator has no site in the instruction of the point. -/
  | notApplicable (point : String)
  /-- The point belongs to another module. -/
  | foreignPoint (point module : String)
  deriving DecidableEq, Repr

/-- The text of an error. -/
def ApplicationError.message : ApplicationError → String
  | outOfOrder m step actual => s!"module `{m}`: cannot {step} while {actual.name}"
  | missingFunction m f => s!"module `{m}` has no function `{f}`"
  | nameCollision m name => s!"module `{m}` already defines `{name}`"
  | notApplicable point => s!"mutation `{point}` cannot be applied to its instruction"
  | foreignPoint point m => s!"mutation `{point}` does not belong to module `{m}`"

/-- Points by the name of their function: names ascending, each once, and the points of a
function in the order of their registration. -/
abbrev Pending := List (String × List Point)

/-- Add a point behind the others of its function. -/
def Pending.add (p : Point) : Pending → Pending
  | [] => [(p.function, [p])]
  | (name, points) :: rest =>
      if p.function = name then (name, points ++ [p]) :: rest
      else if p.function < name then (p.function, [p]) :: (name, points) :: rest
      else (name, points) :: Pending.add p rest

/-- A module of a program and the mutations that are pending in it. -/
structure Subject where
  id : ModuleId
  /-- The code as it is now. -/
  module : Module
  /-- The content hash of the code as it was loaded. -/
  loadedHash : String
  stage : Stage := .pristine
  pending : Pending := []
  deriving DecidableEq, Repr

namespace Subject

/-- A module as it is loaded. -/
def ofModule (id : ModuleId) (m : Module) : Subject :=
  { id, module := m, loadedHash := m.contentHash }

/-- The content hash of the code as it is now. -/
def currentHash (s : Subject) : String := s.module.contentHash

/-- What a step answers, and the subject behind it. -/
abbrev Outcome (α : Type) := Except ApplicationError α × Subject

/-- A step refused: the subject stays as it is. -/
def refuse (s : Subject) (e : ApplicationError) : Outcome α := (.error e, s)

/-- A step refused because of the stage. -/
def outOfOrder (s : Subject) (step : String) : Outcome α :=
  s.refuse (.outOfOrder s.module.name step s.stage)

/-! ## Registering -/

/-- Register a point. The code is not touched. -/
def register (s : Subject) (p : Point) : Outcome Unit :=
  if p.module ≠ s.id then s.refuse (.foreignPoint p.id s.module.name)
  else if Stage.registered.rank < s.stage.rank then s.outOfOrder "register a mutation"
  else (.ok (), { s with pending := Pending.add p s.pending, stage := .registered })

/-! ## Copying -/

/-- The copies of a function for points, behind others named `taken`. -/
def mutantCopies (m : Module) (source : Function) :
    (taken : List String) → List Point → Except ApplicationError (List Function)
  | _, [] => .ok []
  | taken, p :: ps =>
      let name := p.cloneName
      if m.defines name ∨ name ∈ taken then .error (.nameCollision m.name name)
      else (mutantCopies m source (taken ++ [name]) ps).map (source.named name :: ·)

/-- The copies of one function: the pristine one, then one for every point. -/
def copies (m : Module) (name : String) (points : List Point) :
    Except ApplicationError (List Function) :=
  match m.function? name with
  | none => .error (.missingFunction m.name name)
  | some source =>
      let pristine := pristineName name
      if m.defines pristine then .error (.nameCollision m.name pristine)
      else (mutantCopies m source [pristine] points).map (source.named pristine :: ·)

/-- The copies of all mutated functions. -/
def allCopies (m : Module) : Pending → Except ApplicationError (List Function)
  | [] => .ok []
  | (name, points) :: rest => do
      let first ← copies m name points
      let others ← allCopies m rest
      return first ++ others

/-- Copy the mutated functions; their names are the answer. -/
def clone (s : Subject) : Outcome (List String) :=
  if s.pending.isEmpty then (.ok [], s)
  else if s.stage ≠ .registered then s.outOfOrder "clone functions"
  else
    match allCopies s.module s.pending with
    | .error e => s.refuse e
    | .ok fs =>
        (.ok (s.pending.map Prod.fst), { s with module := s.module.append fs, stage := .cloned })

/-! ## Cutting out -/

/-- Remove functions by name, one after the other. -/
def removeAll (s : Subject) : List String → Outcome Unit
  | [] => (.ok (), s)
  | name :: names =>
      if s.module.defines name then
        removeAll { s with module := s.module.remove name } names
      else s.refuse (.missingFunction s.module.name name)

/-- Cut out the functions that have been copied. -/
def excise (s : Subject) : Outcome Unit :=
  if s.pending.isEmpty then (.ok (), s)
  else if s.stage ≠ .cloned then s.outOfOrder "delete original functions"
  else
    match s.removeAll (s.pending.map Prod.fst) with
    | (.ok (), s) => (.ok (), { s with stage := .excised })
    | failed => failed

/-! ## Redirecting -/

/-- The function that takes the place of a mutated one and chooses a copy. -/
def trampoline (name : String) (params : UInt32) (points : List Point) : Function :=
  let targets := points.map fun p => { mutant := p.id, callee := p.cloneName }
  { name, params, body := [{ operation := .dispatch (pristineName name) targets }] }

/-- The trampolines of all mutated functions. -/
def trampolines (m : Module) : Pending → Except ApplicationError (List Function)
  | [] => .ok []
  | (name, points) :: rest =>
      if m.defines name then .error (.nameCollision m.name name)
      else
        match m.function? (pristineName name) with
        | none => .error (.missingFunction m.name (pristineName name))
        | some pristine =>
            (trampolines m rest).map (trampoline name pristine.params points :: ·)

/-- Put trampolines in the place of the functions that were cut out. -/
def redirect (s : Subject) : Outcome Unit :=
  if s.pending.isEmpty then (.ok (), s)
  else if s.stage ≠ .excised then s.outOfOrder "insert trampolines"
  else
    match trampolines s.module s.pending with
    | .error e => s.refuse e
    | .ok fs => (.ok (), { s with module := s.module.append fs, stage := .redirected })

/-! ## Mutating -/

/-- A body with one instruction mutated by an operator, when it has a site there. -/
def mutateAt (operator : Operator) (position : Nat) (body : List Instruction) :
    Option (List Instruction) := do
  let instruction ← body[position]?
  let operation ← operator.mutate? instruction.operation
  return body.set position { instruction with operation }

/-- Mutate the copy of a point. -/
def apply (s : Subject) (p : Point) : Outcome Unit :=
  if p.module ≠ s.id then s.refuse (.foreignPoint p.id s.module.name)
  else if s.stage ≠ .redirected ∧ s.stage ≠ .applied then s.outOfOrder "apply a mutation"
  else
    match s.module.function? p.cloneName with
    | none => s.refuse (.missingFunction s.module.name p.cloneName)
    | some copy =>
        match mutateAt p.operator p.instruction copy.body with
        | none => s.refuse (.notApplicable p.id)
        | some body =>
            (.ok (), { s with
              module := s.module.modify p.cloneName fun f => { f with body }
              stage := .applied })

end Subject

end MutationLab
