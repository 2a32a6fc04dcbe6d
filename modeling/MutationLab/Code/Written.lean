import MutationLab.Code.Module
import MutationLab.Hash
import MutationLab.Json.Printing

/-! # The written form of code

Modules as documents: every field is written, in the order of the declaration, and
what is missing is `null`. The content hash of a module is taken over its compact
written form, so two modules share it when they are written alike. -/

namespace MutationLab

open Json (Document)

namespace Location

/-- The location as a document. -/
def toJson (l : Location) : Document :=
  .ofFields [("file", .ofText l.file), ("line", .ofNat l.line.toNat),
    ("column", .ofNat l.column.toNat)]

end Location

namespace Operation

/-- The name of the operation in code. -/
def name : Operation → String
  | const .. => "const"
  | binary .. => "binary"
  | compare .. => "compare"
  | call .. => "call"
  | jump .. => "jump"
  | branch .. => "branch"
  | Operation.return .. => "return"
  | print .. => "print"
  | trap .. => "trap"
  | nop => "nop"
  | dispatch .. => "dispatch"

/-- A register as a document. -/
def registerJson (r : Register) : Document := .ofNat r.toNat

/-- A trampoline's target as a document. -/
def targetJson (target : DispatchTarget) : Document :=
  .ofFields [("mutation_id", .ofText target.mutant), ("callee", .ofText target.callee)]

/-- The fields of the operation behind its name. -/
def fields : Operation → List (String × Document)
  | const dst value => [("dst", registerJson dst), ("value", .ofInt value.toInt)]
  | binary dst kind lhs rhs =>
      [("dst", registerJson dst), ("kind", .ofText kind.name), ("lhs", registerJson lhs),
        ("rhs", registerJson rhs)]
  | compare dst predicate lhs rhs =>
      [("dst", registerJson dst), ("pred", .ofText predicate.name), ("lhs", registerJson lhs),
        ("rhs", registerJson rhs)]
  | call dst callee args =>
      [("dst", .ofOption registerJson dst), ("callee", .ofText callee),
        ("args", .ofList (args.map registerJson))]
  | jump target => [("target", .ofNat target.toNat)]
  | branch cond thenTarget elseTarget =>
      [("cond", registerJson cond), ("then_target", .ofNat thenTarget.toNat),
        ("else_target", .ofNat elseTarget.toNat)]
  | Operation.return value => [("value", .ofOption registerJson value)]
  | print value => [("value", registerJson value)]
  | trap message => [("message", .ofText message)]
  | nop => []
  | dispatch pristine targets =>
      [("pristine", .ofText pristine), ("targets", .ofList (targets.map targetJson))]

/-- The operation alone as a document. -/
def toJson (operation : Operation) : Document :=
  .ofFields (("op", .ofText operation.name) :: operation.fields)

end Operation

/-- The instruction as a document: the fields of its operation, then the location. -/
def Instruction.toJson (i : Instruction) : Document :=
  .ofFields (("op", .ofText i.operation.name) :: i.operation.fields
    ++ [("location", .ofOption Location.toJson i.location)])

/-- The function as a document. -/
def Function.toJson (f : Function) : Document :=
  .ofFields [("name", .ofText f.name), ("params", .ofNat f.params.toNat),
    ("body", .ofList (f.body.map Instruction.toJson)),
    ("location", .ofOption Location.toJson f.location)]

namespace Module

/-- The module as a document. -/
def toJson (m : Module) : Document :=
  .ofFields [("name", .ofText m.name), ("functions", .ofList (m.functions.map Function.toJson))]

/-- The hash of the compact written form, as sixteen digits. -/
def contentHash (m : Module) : String := Text.hexWord (Hash.ofText m.toJson.toCompact)

end Module

end MutationLab
