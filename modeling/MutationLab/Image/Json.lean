import MutationLab.Image
import MutationLab.Json.Document

/-! # Images as documents

The form in which a linked program is shown: an instruction is a list of its name and its
fields, and a callee is its position. -/

namespace MutationLab

open Json (Document)

/-- The number of a register. -/
def registerJson (r : Register) : Document := .ofNat r.toNat

/-- The instruction as a document. -/
def Code.toJson (code : Code) : Document :=
  let (name, fields) : String × List Document := match code with
    | .const dst value => ("const", [registerJson dst, .ofInt value.toInt])
    | .binary dst kind lhs rhs =>
        ("binary", [registerJson dst, .ofText kind.name, registerJson lhs, registerJson rhs])
    | .compare dst predicate lhs rhs =>
        ("compare", [registerJson dst, .ofText predicate.name, registerJson lhs, registerJson rhs])
    | .call dst callee args =>
        ("call", [.ofOption registerJson dst, .ofNat callee, .ofList (args.map registerJson)])
    | .jump target => ("jump", [.ofNat target])
    | .branch cond thenTarget elseTarget =>
        ("branch", [registerJson cond, .ofNat thenTarget, .ofNat elseTarget])
    | .return value => ("return", [.ofOption registerJson value])
    | .print value => ("print", [registerJson value])
    | .trap message => ("trap", [.ofText message])
    | .nop => ("nop", [])
    | .dispatch pristine targets =>
        ("dispatch", [.ofNat pristine, .ofList (targets.map fun (mutant, callee) =>
          .ofList [.ofText mutant, .ofNat callee])])
  .ofList (.ofText name :: fields)

/-- The image as a document: its functions, with the position that each symbol stands for. -/
def Image.toJson (image : Image) : Document :=
  .ofList (image.functions.toList.map fun f => .ofFields [("symbol", .ofText f.symbol),
    ("params", .ofNat f.params.toNat), ("registers", .ofNat f.registers.toNat),
    ("probe", .ofOption (fun probe => .ofNat probe.toNat) f.probe),
    ("index", .ofOption .ofNat (image.index? f.symbol)),
    ("code", .ofList (f.code.toList.map Code.toJson))])

end MutationLab
