import MutationLab.Code.Operation

/-! # Object files

Compiled functions. Registers and positions are settled, but calls still name their
callee by its symbol. -/

namespace MutationLab

/-- A compiled instruction. -/
inductive ObjectOperation where
  /-- Put a number into a register. -/
  | const (dst : Register) (value : Int64)
  /-- Combine two registers. -/
  | binary (dst : Register) (kind : BinaryKind) (lhs rhs : Register)
  /-- Compare two registers. -/
  | compare (dst : Register) (predicate : Predicate) (lhs rhs : Register)
  /-- Call a symbol. -/
  | call (dst : Option Register) (symbol : String) (args : List Register)
  /-- Go on at a position. -/
  | jump (target : UInt64)
  /-- Go on at one of two positions. -/
  | branch (cond : Register) (thenTarget elseTarget : UInt64)
  /-- Leave the function. -/
  | return (value : Option Register)
  /-- Print a register. -/
  | print (value : Register)
  /-- Stop with a fault. -/
  | trap (message : String)
  /-- Do nothing. -/
  | nop
  /-- The symbol of the pristine body, and mutants with the symbols of theirs. -/
  | dispatch (pristine : String) (targets : List (String × String))
  deriving DecidableEq, Repr

/-- A compiled function. -/
structure CompiledFunction where
  symbol : String
  params : UInt32
  /-- The number of registers of a call. -/
  registers : UInt32
  /-- The coverage probe of an instrumented function. -/
  probe : Option UInt32
  code : List ObjectOperation
  deriving DecidableEq, Repr

/-- The outcome of compiling one module. -/
structure ObjectFile where
  /-- The name of the module. -/
  name : String
  /-- The content hash of the module. -/
  sourceHash : String
  /-- Whether the functions carry probes. -/
  instrumented : Bool
  functions : List CompiledFunction
  deriving DecidableEq, Repr

/-- The symbols that an object file defines, in order. -/
def ObjectFile.symbols (o : ObjectFile) : List String := o.functions.map CompiledFunction.symbol

end MutationLab
