import MutationLab.Operator.Basic

/-! # Mutation points

A point is an instruction of a function together with an operator: one mutant. Its id
joins the operator, the module, the function and the position; it also selects the
mutant while a program runs. -/

namespace MutationLab

/-- The number of a module in its program. -/
abbrev ModuleId := Nat

/-- The number of a test in the order of discovery. -/
abbrev TestId := Nat

/-- A place where an operator can be applied, and what is known about it. -/
structure Point where
  operator : Operator
  module : ModuleId
  moduleName : String
  function : String
  /-- The position of the instruction in the body of the function. -/
  instruction : Nat
  /-- The location of the instruction. -/
  location : Option Location := none
  /-- The tests that reach the function, in order. -/
  tests : List TestId := []
  /-- The shortest distance of the function from a test that reaches it. -/
  distance : UInt32 := 0
  deriving DecidableEq, Repr

namespace Point

/-- The id of the mutant. -/
def id (p : Point) : String :=
  s!"{p.operator.id}:{p.moduleName}:{p.function}:{p.instruction}"

/-- A letter or digit of ASCII as it is, anything else as an underscore. -/
def plain (c : Char) : Char := if c.isAlphanum then c else '_'

/-- The name of the function that holds the mutant: dollar signs keep it apart from the
names of a program. -/
def cloneName (p : Point) : String := s!"{p.function}$mut${p.id.map plain}"

/-- Points with one id in one module are the same mutant. -/
def same (p q : Point) : Bool := p.id = q.id && p.module = q.module

end Point

/-- The name of the unmutated copy of a function. -/
def pristineName (function : String) : String := s!"{function}$original"

end MutationLab
