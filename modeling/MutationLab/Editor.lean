import MutationLab.Point

/-! # Messages for editors

One line for a mutant in the notation of compilers, so that editors can show it in the
source. -/

namespace MutationLab

/-- Which mutants an editor is told about. -/
inductive EditorMode where
  /-- None. -/
  | none
  /-- The mutants that survived. -/
  | survived
  /-- The mutants that were killed. -/
  | killed
  /-- Every mutant. -/
  | all
  deriving DecidableEq, Repr

namespace EditorMode

/-- Every mode under its name. -/
def names : List (String × EditorMode) :=
  [("none", none), ("survived", survived), ("killed", killed), ("all", all)]

/-- The name of a mode. -/
def name : EditorMode → String
  | none => "none"
  | survived => "survived"
  | killed => "killed"
  | all => "all"

/-- Whether a mutant is reported that was killed or was not. -/
def wants : EditorMode → (isKilled : Bool) → Bool
  | none, _ => false
  | survived, isKilled => !isKilled
  | killed, isKilled => isKilled
  | all, _ => true

end EditorMode

namespace Editor

/-- The line about a mutant at a location. -/
def line (p : Point) (l : Location) (killed : Bool) : String :=
  let verdict := if killed then "Killed" else "Survived"
  s!"{l.toText}: warning: {verdict}: {p.operator.diagnostic} [{p.operator.id}]\n"

/-- What is written about a mutant; nothing when it has no location to be shown at. -/
def report (mode : EditorMode) (p : Point) (killed : Bool) : List String :=
  if mode.wants killed then (p.location.map fun l => line p l killed).toList else []

end Editor

end MutationLab
