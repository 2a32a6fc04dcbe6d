import MutationLab.Code.Reading
import MutationLab.Object.Stored
import MutationLab.Program

/-! # Loading programs

A program is loaded from the files of its modules, in order, and of its object files. The
first file that cannot be taken decides. Dynamic libraries are only named. -/

namespace MutationLab

/-- Why a program cannot be loaded. -/
inductive LoadError where
  /-- The file of a module cannot be read as text. -/
  | unreadable (path : String)
  /-- The text is no module. -/
  | unparsable (path : String) (problem : Json.Problem)
  /-- An object file cannot be taken. -/
  | object (e : ObjectError)
  deriving DecidableEq, Repr

/-- The text of an error. -/
def LoadError.message : LoadError → String
  | unreadable path => s!"cannot read module {path}: no text can be read"
  | unparsable path problem => s!"cannot parse module {path}: {problem.message}"
  | object e => s!"object error: {e.message}"

namespace Module

/-- Read a module from a file. -/
def readFrom (files : FileTree) (path : String) : Except LoadError Module :=
  match (files.read path).bind Text.ofUtf8? with
  | none => .error (.unreadable path)
  | some text =>
      match Module.ofText text with
      | .error problem => .error (.unparsable path problem)
      | .ok m => .ok m

end Module

namespace Program

/-- The modules of files. -/
def readModules (files : FileTree) : List String → Except LoadError (List Module)
  | [] => .ok []
  | path :: paths => do
      let m ← Module.readFrom files path
      let ms ← readModules files paths
      return m :: ms

/-- The object files of paths. -/
def readObjects (files : FileTree) : List String → Except LoadError (List ObjectFile)
  | [] => .ok []
  | path :: paths =>
      match ObjectFile.readFrom files path with
      | .error e => .error (.object e)
      | .ok o => (readObjects files paths).map (o :: ·)

/-- Load a program. -/
def load (files : FileTree) (modules libraries objects : List String) :
    Except LoadError Program := do
  let modules ← readModules files modules
  let objects ← readObjects files objects
  return { ofModules modules with libraries, objects }

end Program

end MutationLab
