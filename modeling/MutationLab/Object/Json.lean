import MutationLab.Code.Reading
import MutationLab.Json.Printing
import MutationLab.Object.Basic

/-! # Object files as documents

An alternative of a choice is an object with its name as the only field, or only the
name when there is nothing to add; its content is an object if it has several parts.
Functions and object files are objects or lists of their fields. -/

namespace MutationLab

open Json (Document)
open Json.Document (text?)

namespace ObjectOperation

/-- An alternative with its content. -/
def alternative (name : String) (content : Document) : Document := .ofFields [(name, content)]

/-- A register or `null`. -/
def registerOrNull (r : Option Register) : Document := .ofOption (fun r => .ofNat r.toNat) r

/-- The instruction as a document. -/
def toJson : ObjectOperation → Document
  | const dst value =>
      alternative "Const" (.ofFields [("dst", .ofNat dst.toNat), ("value", .ofInt value.toInt)])
  | binary dst kind lhs rhs =>
      alternative "Binary" (.ofFields [("dst", .ofNat dst.toNat), ("kind", .ofText kind.name),
        ("lhs", .ofNat lhs.toNat), ("rhs", .ofNat rhs.toNat)])
  | compare dst predicate lhs rhs =>
      alternative "Compare" (.ofFields [("dst", .ofNat dst.toNat),
        ("pred", .ofText predicate.name), ("lhs", .ofNat lhs.toNat), ("rhs", .ofNat rhs.toNat)])
  | call dst symbol args =>
      alternative "Call" (.ofFields [("dst", registerOrNull dst), ("symbol", .ofText symbol),
        ("args", .ofList (args.map fun r => .ofNat r.toNat))])
  | jump target => alternative "Jump" (.ofNat target.toNat)
  | branch cond thenTarget elseTarget =>
      alternative "Branch" (.ofFields [("cond", .ofNat cond.toNat),
        ("then_target", .ofNat thenTarget.toNat), ("else_target", .ofNat elseTarget.toNat)])
  | ObjectOperation.return value => alternative "Return" (registerOrNull value)
  | print value => alternative "Print" (.ofNat value.toNat)
  | trap message => alternative "Trap" (.ofText message)
  | nop => .ofText "Nop"
  | dispatch pristine targets =>
      alternative "Dispatch" (.ofFields [("pristine", .ofText pristine),
        ("targets", .ofList (targets.map fun (mutant, symbol) =>
          .ofList [.ofText mutant, .ofText symbol]))])

end ObjectOperation

/-- The function as a document. -/
def CompiledFunction.toJson (f : CompiledFunction) : Document :=
  .ofFields [("symbol", .ofText f.symbol), ("params", .ofNat f.params.toNat),
    ("registers", .ofNat f.registers.toNat),
    ("probe", .ofOption (fun probe => .ofNat probe.toNat) f.probe),
    ("code", .ofList (f.code.map ObjectOperation.toJson))]

/-- The object file as a document. -/
def ObjectFile.toJson (o : ObjectFile) : Document :=
  .ofFields [("name", .ofText o.name), ("source_hash", .ofText o.sourceHash),
    ("instrumented", .bool o.instrumented),
    ("functions", .ofList (o.functions.map CompiledFunction.toJson))]

/-! ## Reading -/

namespace ObjectOperation

open Operation (register? position? value? registerOrNull? list?)

/-- The fields of a record that is an object, or a list of its fields in order, under
their names. -/
def record? (names : List String) : Document → Option Kept
  | .object fields => some fields.toList
  | .array items =>
      if items.toList.length = names.length then some (names.zip items.toList) else none
  | _ => none

/-- A name out of a fixed choice, alone or as the only name of an object with `null`. -/
def name? (names : List (String × α)) : Document → Option α
  | .text (some name) => names.lookup name
  | .object fields =>
      match fields.toList with
      | [(name, .null)] => names.lookup name
      | _ => none
  | _ => none

/-- A mutant and a symbol. -/
def target? : Document → Option (String × String)
  | .array items =>
      match items.toList with
      | [mutant, symbol] => do return (← text? mutant, ← text? symbol)
      | _ => none
  | _ => none

/-- The fields of the content of an alternative. -/
def parts? : Document → Option Kept
  | .object fields => some fields.toList
  | _ => none

/-- The instruction of an alternative. -/
def ofAlternative (content : Document) : (name : String) → Option ObjectOperation
  | "Const" => do
      let kept ← parts? content
      return .const (← kept.need "dst" register?) (← kept.need "value" value?)
  | "Binary" => do
      let kept ← parts? content
      return .binary (← kept.need "dst" register?) (← kept.need "kind" (name? BinaryKind.names))
        (← kept.need "lhs" register?) (← kept.need "rhs" register?)
  | "Compare" => do
      let kept ← parts? content
      return .compare (← kept.need "dst" register?) (← kept.need "pred" (name? Predicate.names))
        (← kept.need "lhs" register?) (← kept.need "rhs" register?)
  | "Call" => do
      let kept ← parts? content
      return .call (← kept.get "dst" none registerOrNull?) (← kept.need "symbol" text?)
        (← kept.need "args" (list? register?))
  | "Jump" => do return .jump (← position? content)
  | "Branch" => do
      let kept ← parts? content
      return .branch (← kept.need "cond" register?) (← kept.need "then_target" position?)
        (← kept.need "else_target" position?)
  | "Return" => do return .return (← registerOrNull? content)
  | "Print" => do return .print (← register? content)
  | "Trap" => do return .trap (← text? content)
  | "Nop" => match content with
      | .null => some .nop
      | _ => none
  | "Dispatch" => do
      let kept ← parts? content
      return .dispatch (← kept.need "pristine" text?) (← kept.need "targets" (list? target?))
  | _ => none

/-- The instruction of a document. -/
def ofJson : Document → Option ObjectOperation
  | .text (some "Nop") => some .nop
  | .object fields =>
      match fields.toList with
      | [(name, content)] => ofAlternative content name
      | _ => none
  | _ => none

end ObjectOperation

namespace CompiledFunction

open Operation (register? registerOrNull? list?)

/-- The function of a document. The probe may be missing. -/
def ofJson (d : Document) : Option CompiledFunction := do
  let kept ← ObjectOperation.record? ["symbol", "params", "registers", "probe", "code"] d
  return { symbol := ← kept.need "symbol" text?, params := ← kept.need "params" register?,
           registers := ← kept.need "registers" register?,
           probe := ← kept.get "probe" none registerOrNull?,
           code := ← kept.need "code" (list? ObjectOperation.ofJson) }

end CompiledFunction

namespace ObjectFile

open Operation (list?)

/-- A truth value. -/
def bool? : Document → Option Bool
  | .bool value => some value
  | _ => none

/-- The object file of a document. -/
def ofJson (d : Document) : Option ObjectFile := do
  let kept ← ObjectOperation.record? ["name", "source_hash", "instrumented", "functions"] d
  return { name := ← kept.need "name" text?, sourceHash := ← kept.need "source_hash" text?,
           instrumented := ← kept.need "instrumented" bool?,
           functions := ← kept.need "functions" (list? CompiledFunction.ofJson) }

end ObjectFile

end MutationLab
