import MutationLab.Code.Operation

/-! # Functions and modules

A module is a named list of functions, the unit that is compiled and mutated. Names
need not be distinct here; every look-up by name means the first function of that
name. -/

namespace MutationLab

/-- An operation and the place it was made from; made-up code has none. -/
structure Instruction where
  operation : Operation
  location : Option Location := none
  deriving DecidableEq, Repr

/-- A function. Its arguments arrive in the first `params` registers. -/
structure Function where
  name : String
  params : UInt32 := 0
  body : List Instruction
  location : Option Location := none
  deriving DecidableEq, Repr

namespace Function

/-- The least number of registers that holds all parameters and all registers of the body. -/
def registerCount (f : Function) : UInt32 :=
  UInt32.ofNat <|
    (f.body.flatMap fun instruction => instruction.operation.registers).foldl
      (fun count register => max count (register.toNat + 1)) f.params.toNat

/-- The same function under another name. -/
def named (f : Function) (name : String) : Function := { f with name }

@[simp] theorem name_named (f : Function) (name : String) : (f.named name).name = name := rfl

@[simp] theorem body_named (f : Function) (name : String) : (f.named name).body = f.body := rfl

@[simp] theorem params_named (f : Function) (name : String) :
    (f.named name).params = f.params := rfl

end Function

/-- A named list of functions. -/
structure Module where
  name : String
  functions : List Function := []
  deriving DecidableEq, Repr

namespace Module

/-- The first function of a name. -/
def function? (m : Module) (name : String) : Option Function :=
  m.functions.find? (·.name = name)

/-- Whether some function has the name. -/
def defines (m : Module) (name : String) : Bool := m.functions.any (·.name = name)

theorem isSome_function? (m : Module) (name : String) :
    (m.function? name).isSome = m.defines name := by
  rw [Bool.eq_iff_iff]
  simp [function?, defines]

/-- The functions with one more at the end. -/
def add (m : Module) (f : Function) : Module := { m with functions := m.functions ++ [f] }

/-- The functions with more at the end. -/
def append (m : Module) (fs : List Function) : Module := { m with functions := m.functions ++ fs }

/-- The functions without the first one of a name. -/
def remove (m : Module) (name : String) : Module :=
  { m with functions := m.functions.eraseP (·.name = name) }

/-- Change the first function of a name in a list. -/
def modifyFirst (name : String) (change : Function → Function) : List Function → List Function
  | [] => []
  | f :: fs => if f.name = name then change f :: fs else f :: modifyFirst name change fs

/-- The functions with the first one of a name changed. -/
def modify (m : Module) (name : String) (change : Function → Function) : Module :=
  { m with functions := modifyFirst name change m.functions }

/-- The names of the functions in order. -/
def functionNames (m : Module) : List String := m.functions.map Function.name

@[simp] theorem functionNames_append (m : Module) (fs : List Function) :
    (m.append fs).functionNames = m.functionNames ++ fs.map Function.name := by
  simp [functionNames, append]

end Module

end MutationLab
