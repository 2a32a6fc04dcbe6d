import MutationLab.Code.Written
import MutationLab.Object.Basic
import MutationLab.Probes
import MutationLab.Symbol

/-! # Compilation

A module becomes an object file when its functions have distinct names, every body ends
with a terminator, and every jump stays inside its body. Then an operation is lowered by
putting symbols in the place of names. -/

namespace MutationLab

/-- Why a module does not compile. -/
inductive CompileError where
  /-- A function has no instruction. -/
  | emptyBody (module function : String)
  /-- The last instruction does not end the body. -/
  | missingTerminator (module function : String)
  /-- A jump leaves the body. -/
  | branchOutOfRange (module function : String) (instruction : Nat) (target : UInt64)
  /-- A name is defined a second time. -/
  | duplicateFunction (module function : String)
  deriving DecidableEq, Repr

/-- The text of an error. -/
def CompileError.message : CompileError → String
  | emptyBody m f => s!"{m}: function `{f}` has an empty body"
  | missingTerminator m f => s!"{m}: function `{f}` does not end with a terminator"
  | branchOutOfRange m f instruction target =>
      s!"{m}: function `{f}` instruction {instruction} jumps to {target.toNat}"
  | duplicateFunction m f => s!"{m}: function `{f}` is defined twice"

namespace Function

/-- The first jump out of a body of `size` instructions: its position and target. -/
def strayJump? (size : Nat) : (position : Nat) → List Instruction → Option (Nat × UInt64)
  | _, [] => none
  | position, i :: is =>
      match i.operation.targets.find? fun target => size ≤ target.toNat with
      | some target => some (position, target)
      | none => strayJump? size (position + 1) is

/-- What is wrong with a function on its own. -/
def fault? (module : String) (f : Function) : Option CompileError :=
  match f.body.getLast? with
  | none => some (.emptyBody module f.name)
  | some last =>
      if !last.operation.isTerminator then some (.missingTerminator module f.name)
      else
        (strayJump? f.body.length 0 f.body).map fun (position, target) =>
          .branchOutOfRange module f.name position target

end Function

namespace Operation

/-- The operation with symbols in the place of names. -/
def lower (mangling : Mangling) : Operation → ObjectOperation
  | const dst value => .const dst value
  | binary dst kind lhs rhs => .binary dst kind lhs rhs
  | compare dst predicate lhs rhs => .compare dst predicate lhs rhs
  | call dst callee args => .call dst (mangling.mangle callee) args
  | jump target => .jump target
  | branch cond thenTarget elseTarget => .branch cond thenTarget elseTarget
  | Operation.return value => .return value
  | print value => .print value
  | trap message => .trap message
  | nop => .nop
  | dispatch pristine targets =>
      .dispatch (mangling.mangle pristine)
        (targets.map fun target => (target.mutant, mangling.mangle target.callee))

end Operation

/-- How modules are compiled. -/
structure Compilation where
  mangling : Mangling
  /-- The probes of an instrumented build. -/
  probes : Option Probes := none
  deriving DecidableEq, Repr

namespace Compilation

/-- The compiled form of a function of module `id`. -/
def function (c : Compilation) (id : ModuleId) (f : Function) : CompiledFunction :=
  { symbol := c.mangling.mangle f.name, params := f.params, registers := f.registerCount,
    probe := c.probes.bind (·.probe? ⟨id, f.name⟩),
    code := f.body.map fun i => i.operation.lower c.mangling }

/-- The compiled forms of functions behind others with the names `seen`. The first
function with a fault decides the error. -/
def functions (c : Compilation) (id : ModuleId) (module : String) :
    (seen : List String) → List Function → Except CompileError (List CompiledFunction)
  | _, [] => .ok []
  | seen, f :: fs =>
      if f.name ∈ seen then .error (.duplicateFunction module f.name)
      else
        match f.fault? module with
        | some e => .error e
        | none => (c.functions id module (f.name :: seen) fs).map (c.function id f :: ·)

/-- The object file of module `id`. -/
def compile (c : Compilation) (id : ModuleId) (m : Module) : Except CompileError ObjectFile :=
  (c.functions id m.name [] m.functions).map fun functions =>
    { name := m.name, sourceHash := m.contentHash, instrumented := c.probes.isSome, functions }

end Compilation

end MutationLab
