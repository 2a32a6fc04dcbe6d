import MutationLab.Object.Basic

/-! # Images

An image is a program ready to run: the functions of several object files in one list,
where every call and every trampoline names its callee by position. Linking checks that
no symbol is defined twice, that every symbol used is defined, and that every callee
takes as many arguments as it is given. -/

namespace MutationLab

/-- An instruction of an image. -/
inductive Code where
  /-- Put a number into a register. -/
  | const (dst : Register) (value : Int64)
  /-- Combine two registers. -/
  | binary (dst : Register) (kind : BinaryKind) (lhs rhs : Register)
  /-- Compare two registers. -/
  | compare (dst : Register) (predicate : Predicate) (lhs rhs : Register)
  /-- Call the function at a position. -/
  | call (dst : Option Register) (callee : Nat) (args : List Register)
  /-- Go on at a position. -/
  | jump (target : Nat)
  /-- Go on at one of two positions. -/
  | branch (cond : Register) (thenTarget elseTarget : Nat)
  /-- Leave the function. -/
  | return (value : Option Register)
  /-- Print a register. -/
  | print (value : Register)
  /-- Stop with a fault. -/
  | trap (message : String)
  /-- Do nothing. -/
  | nop
  /-- Go on in the body of the active mutant, or in the pristine one. -/
  | dispatch (pristine : Nat) (targets : List (String × Nat))
  deriving DecidableEq, Repr

/-- A function of an image. -/
structure LinkedFunction where
  symbol : String
  params : UInt32
  /-- The number of registers of a call. -/
  registers : UInt32
  probe : Option UInt32
  code : Array Code
  deriving DecidableEq, Repr

/-- A linked program. -/
structure Image where
  functions : Array LinkedFunction := #[]
  deriving DecidableEq, Repr

namespace Image

/-- The position of the function with a symbol. -/
def index? (image : Image) (symbol : String) : Option Nat :=
  image.functions.findIdx? (·.symbol = symbol)

/-- The function at a position. -/
def function? (image : Image) (index : Nat) : Option LinkedFunction := image.functions[index]?

end Image

/-- Why object files do not link. -/
inductive LinkError where
  /-- A symbol is defined in two places. -/
  | duplicateSymbol (symbol first second : String)
  /-- A symbol is used but not defined. -/
  | undefinedSymbol (symbol user : String)
  /-- A callee takes another number of arguments. -/
  | arityMismatch (symbol user : String) (expected : UInt32) (given : Nat)
  deriving DecidableEq, Repr

/-- The text of an error. -/
def LinkError.message : LinkError → String
  | duplicateSymbol symbol first second => s!"duplicate symbol `{symbol}` in {first} and {second}"
  | undefinedSymbol symbol user => s!"undefined symbol `{symbol}` referenced from `{user}`"
  | arityMismatch symbol user expected given =>
      s!"`{user}` calls `{symbol}` with {given} arguments, it takes {expected.toNat}"

/-- A compiled function and the name of the object file that defines it. -/
structure Definition where
  object : String
  function : CompiledFunction
  deriving DecidableEq, Repr

namespace Definition

/-- The definitions of object files, in order. -/
def ofObjects (objects : List ObjectFile) : List Definition :=
  objects.flatMap fun o => o.functions.map fun f => ⟨o.name, f⟩

/-- The first definition of a symbol that an earlier one has, and the earlier one. -/
def clash? : (earlier : List Definition) → List Definition → Option (Definition × Definition)
  | _, [] => none
  | earlier, d :: ds =>
      match earlier.find? (·.function.symbol = d.function.symbol) with
      | some first => some (first, d)
      | none => clash? (earlier ++ [d]) ds

end Definition

namespace Image

/-- The position of the callee that `user` means by a symbol and gives `given` arguments. -/
def resolve (ds : List Definition) (user : String) (given : Nat) (symbol : String) :
    Except LinkError Nat :=
  match ds.findIdx? (·.function.symbol = symbol) with
  | none => .error (.undefinedSymbol symbol user)
  | some index =>
      match ds[index]? with
      | none => .error (.undefinedSymbol symbol user)
      | some d =>
          if d.function.params.toNat = given then .ok index
          else .error (.arityMismatch d.function.symbol user d.function.params given)

/-- The targets of a trampoline of `user`, in order. -/
def resolveTargets (ds : List Definition) (user : String) (given : Nat) :
    List (String × String) → Except LinkError (List (String × Nat))
  | [] => .ok []
  | (mutant, symbol) :: targets => do
      let index ← resolve ds user given symbol
      let rest ← resolveTargets ds user given targets
      return (mutant, index) :: rest

/-- An instruction of a function with its symbols resolved. -/
def linkOperation (ds : List Definition) (f : CompiledFunction) :
    ObjectOperation → Except LinkError Code
  | .const dst value => .ok (.const dst value)
  | .binary dst kind lhs rhs => .ok (.binary dst kind lhs rhs)
  | .compare dst predicate lhs rhs => .ok (.compare dst predicate lhs rhs)
  | .call dst symbol args => do
      return .call dst (← resolve ds f.symbol args.length symbol) args
  | .jump target => .ok (.jump target.toNat)
  | .branch cond thenTarget elseTarget => .ok (.branch cond thenTarget.toNat elseTarget.toNat)
  | .return value => .ok (.return value)
  | .print value => .ok (.print value)
  | .trap message => .ok (.trap message)
  | .nop => .ok .nop
  | .dispatch pristine targets => do
      let pristine ← resolve ds f.symbol f.params.toNat pristine
      return .dispatch pristine (← resolveTargets ds f.symbol f.params.toNat targets)

/-- The code of a function with its symbols resolved. -/
def linkCode (ds : List Definition) (f : CompiledFunction) :
    List ObjectOperation → Except LinkError (List Code)
  | [] => .ok []
  | operation :: operations => do
      let code ← linkOperation ds f operation
      let rest ← linkCode ds f operations
      return code :: rest

/-- The functions of definitions, all symbols resolved in `ds`. -/
def linkFunctions (ds : List Definition) :
    List Definition → Except LinkError (List LinkedFunction)
  | [] => .ok []
  | d :: rest => do
      let f := d.function
      let code ← linkCode ds f f.code
      let others ← linkFunctions ds rest
      return { symbol := f.symbol, params := f.params, registers := f.registers, probe := f.probe,
               code := code.toArray } :: others

/-- Link object files into an image. -/
def link (objects : List ObjectFile) : Except LinkError Image :=
  let ds := Definition.ofObjects objects
  match Definition.clash? [] ds with
  | some (first, second) =>
      .error (.duplicateSymbol second.function.symbol first.object second.object)
  | none => do return { functions := (← linkFunctions ds ds).toArray }

end Image

end MutationLab
