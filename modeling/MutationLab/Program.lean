import MutationLab.Application
import MutationLab.Coverage
import MutationLab.Object.Basic
import MutationLab.Probes

/-! # Programs

A program under test: its modules in a fixed order, the libraries that are loaded before
its tests run, and object files that are linked with it. -/

namespace MutationLab

/-- A program under test. -/
structure Program where
  /-- The modules; the number of a module is its position. -/
  subjects : List Subject := []
  /-- The paths of the dynamic libraries. -/
  libraries : List String := []
  /-- Object files that join every link. -/
  objects : List ObjectFile := []
  deriving DecidableEq, Repr

namespace Program

/-- Modules as they are loaded, numbered from `first` on. -/
def numbered : (first : ModuleId) → List Module → List Subject
  | _, [] => []
  | first, m :: ms => .ofModule first m :: numbered (first + 1) ms

/-- A program of modules. -/
def ofModules (ms : List Module) : Program := { subjects := numbered 0 ms }

/-- The module of a number. -/
def subject? (p : Program) (id : ModuleId) : Option Subject := p.subjects[id]?

/-- The program with a module exchanged. -/
def setSubject (p : Program) (id : ModuleId) (s : Subject) : Program :=
  { p with subjects := p.subjects.set id s }

/-- The code of all modules as it is now. -/
def modules (p : Program) : List Module := p.subjects.map Subject.module

/-- The function of a key as it is now. -/
def function? (p : Program) (key : FunctionKey) : Option Function :=
  (p.subject? key.module).bind fun s => s.module.function? key.name

/-- The probes of the functions as they are now. -/
def probes (p : Program) : Probes := .ofModules p.modules

end Program

end MutationLab
