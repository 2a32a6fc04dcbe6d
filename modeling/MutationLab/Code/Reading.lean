import MutationLab.Code.Module
import MutationLab.Json.Decoding

/-! # Reading code

Modules, functions and locations are records: objects with their fields in any order,
or lists of their fields. An instruction is always an object. Its location is read
where it stands; the other fields are kept until the object closes, because the one
that names the operation may come last. -/

namespace MutationLab

open Json
open Json.Document (text?)

namespace Location

/-- The slots of a location that is being read. -/
structure Partial where
  file : Option String := none
  line : Option UInt32 := none
  column : Option UInt32 := none

/-- Read a location. -/
def ofJson : Reader Location
  | levels, .object fields => do
      let levels ← enter levels
      let p ← fields.gather (fun
        | "file" => some fun d p => do return { p with file := ← fill p.file readString levels d }
        | "line" => some fun d p => do return { p with line := ← fill p.line readUInt32 levels d }
        | "column" => some fun d p => do
            return { p with column := ← fill p.column readUInt32 levels d }
        | _ => none) ({} : Partial)
      return { file := ← required p.file, line := ← required p.line, column := ← required p.column }
  | levels, .array items => do
      let levels ← enter levels
      let (file, items) ← items.next readString levels
      let (line, items) ← items.next readUInt32 levels
      let (column, items) ← items.next readUInt32 levels
      items.finish
      return { file, line, column }
  | _, document => .error document.refusal

end Location

/-! ## Operations -/

/-- The fields of an object that have been kept until it closed. -/
abbrev Kept := List (String × Document)

namespace Kept

/-- The value of a field that must not stand twice. -/
def only? (kept : Kept) (name : String) : Option (Option Document) :=
  match kept.filter (·.1 = name) with
  | [] => some none
  | [(_, value)] => some (some value)
  | _ => none

/-- Read a field that must be there. -/
def need (kept : Kept) (name : String) (read : Document → Option α) : Option α := do
  read (← (← kept.only? name))

/-- Read a field that may be missing. -/
def get (kept : Kept) (name : String) (missing : α) (read : Document → Option α) : Option α := do
  match ← kept.only? name with
  | none => some missing
  | some value => read value

end Kept

namespace Operation

/-- An integer between two bounds. -/
def integer? (low high : Int) (d : Document) : Option Int :=
  d.integer?.filter fun n => low ≤ n ∧ n ≤ high

/-- The number of a register. -/
def register? (d : Document) : Option Register :=
  (integer? 0 (UInt32.size - 1) d).map fun n => UInt32.ofNat n.toNat

/-- A position in a body. -/
def position? (d : Document) : Option UInt64 :=
  (integer? 0 (UInt64.size - 1) d).map fun n => UInt64.ofNat n.toNat

/-- A number for a register. -/
def value? (d : Document) : Option Int64 :=
  (integer? Int64.minValue.toInt Int64.maxValue.toInt d).map Int64.ofInt

/-- `null` or a register. -/
def registerOrNull? : Document → Option (Option Register)
  | .null => some none
  | d => some <$> register? d

/-- A list of values. -/
def list? (read : Document → Option α) : Document → Option (List α)
  | .array items => items.toList.mapM read
  | _ => none

/-- A name out of a fixed choice, alone or as the only name of an object that has nothing
to say about it. -/
def name? (names : List (String × α)) : Document → Option α
  | .text (some name) => names.lookup name
  | .object fields =>
      match fields.toList with
      | [(name, .null)] | [(name, .object .closed)] => names.lookup name
      | _ => none
  | _ => none

/-- A target of a trampoline. -/
def target? : Document → Option DispatchTarget
  | .object fields => do
      let kept : Kept := fields.toList
      let mutant ← kept.need "mutation_id" text?
      let callee ← kept.need "callee" text?
      return { mutant, callee }
  | .array items =>
      match items.toList with
      | [mutant, callee] => do return { mutant := ← text? mutant, callee := ← text? callee }
      | _ => none
  | _ => none

/-- The names of the operations, in the order that numbers them. -/
def names : List String :=
  ["const", "binary", "compare", "call", "jump", "branch", "return", "print", "trap", "nop",
    "dispatch"]

/-- The operation of a name, with its fields. Fields that it does not have are ignored. -/
def ofKept (kept : Kept) : (name : String) → Option Operation
  | "const" => do
      return .const (← kept.need "dst" register?) (← kept.need "value" value?)
  | "binary" => do
      return .binary (← kept.need "dst" register?) (← kept.need "kind" (name? BinaryKind.names))
        (← kept.need "lhs" register?) (← kept.need "rhs" register?)
  | "compare" => do
      return .compare (← kept.need "dst" register?) (← kept.need "pred" (name? Predicate.names))
        (← kept.need "lhs" register?) (← kept.need "rhs" register?)
  | "call" => do
      return .call (← kept.get "dst" none registerOrNull?) (← kept.need "callee" text?)
        (← kept.get "args" [] (list? register?))
  | "jump" => do return .jump (← kept.need "target" position?)
  | "branch" => do
      return .branch (← kept.need "cond" register?) (← kept.need "then_target" position?)
        (← kept.need "else_target" position?)
  | "return" => do return .return (← kept.get "value" none registerOrNull?)
  | "print" => do return .print (← kept.need "value" register?)
  | "trap" => do return .trap (← kept.need "message" text?)
  | "nop" => some .nop
  | "dispatch" => do
      return .dispatch (← kept.need "pristine" text?) (← kept.need "targets" (list? target?))
  | _ => none

/-- The operation of a name with its fields in order; what may be missing may be left off
at the end. -/
def ofOrdered (name : String) (values : List Document) : Option Operation :=
  match name, values with
  | "const", [dst, value] => do return .const (← register? dst) (← value? value)
  | "binary", [dst, kind, lhs, rhs] => do
      return .binary (← register? dst) (← name? BinaryKind.names kind) (← register? lhs)
        (← register? rhs)
  | "compare", [dst, pred, lhs, rhs] => do
      return .compare (← register? dst) (← name? Predicate.names pred) (← register? lhs)
        (← register? rhs)
  | "call", [dst, callee] => do return .call (← registerOrNull? dst) (← text? callee) []
  | "call", [dst, callee, args] => do
      return .call (← registerOrNull? dst) (← text? callee) (← list? register? args)
  | "jump", [target] => do return .jump (← position? target)
  | "branch", [cond, thenTarget, elseTarget] => do
      return .branch (← register? cond) (← position? thenTarget) (← position? elseTarget)
  | "return", [] => some (.return none)
  | "return", [value] => do return .return (← registerOrNull? value)
  | "print", [value] => do return .print (← register? value)
  | "trap", [message] => do return .trap (← text? message)
  | "nop", [] => some .nop
  | "dispatch", [pristine, targets] => do
      return .dispatch (← text? pristine) (← list? target? targets)
  | _, _ => none

/-- The name that the field `op` gives, by name or by number. -/
def nameOfTag? : Document → Option String
  | .text value => value
  | d => do names[(← position? d).toNat]?

/-- An operation among the kept fields of an instruction. -/
def ofInstruction (kept : Kept) : Option Operation := do
  ofKept kept (← nameOfTag? (← (← kept.only? "op")))

/-- An operation that stands alone: an object that names it, or a list of its name and its
fields. -/
def ofJson : Document → Option Operation
  | .object fields => do
      let kept : Kept := fields.toList
      ofKept kept (← kept.need "op" text?)
  | .array items =>
      match items.toList with
      | tag :: values => do ofOrdered (← text? tag) values
      | [] => none
  | _ => none

end Operation

namespace Instruction

/-- The location and the kept fields of an instruction that is being read. -/
structure Partial where
  location : Option (Option Location) := none
  kept : Kept := []

/-- Read the fields of an instruction: the location at once, the others later. -/
def gather (levels : Nat) : Fields → Partial → Except Problem Partial
  | .closed, p => .ok { p with kept := p.kept.reverse }
  | .unclosed fault, _ => .error fault.problem
  | .field none _ _, _ => .error .malformed
  | .field (some "location") value tail, p => do
      let location ← fill p.location (readOption Location.ofJson) levels value
      gather levels tail { p with location }
  | .field (some name) value tail, p => do
      value.keep levels
      gather levels tail { p with kept := (name, value) :: p.kept }

/-- Read an instruction. -/
def ofJson : Reader Instruction
  | levels, .object fields => do
      let p ← gather (← enter levels) fields {}
      match Operation.ofInstruction p.kept with
      | some operation => .ok { operation, location := p.location.getD none }
      | none => .error .mismatch
  | _, document => .error document.refusal

end Instruction

namespace Function

/-- The slots of a function that is being read. -/
structure Partial where
  name : Option String := none
  params : Option UInt32 := none
  body : Option (List Instruction) := none
  location : Option (Option Location) := none

/-- Read a function. Parameters and location may be missing; in a list only the location,
which comes last. -/
def ofJson : Reader Function
  | levels, .object fields => do
      let levels ← enter levels
      let p ← fields.gather (fun
        | "name" => some fun d p => do return { p with name := ← fill p.name readString levels d }
        | "params" => some fun d p => do
            return { p with params := ← fill p.params readUInt32 levels d }
        | "body" => some fun d p => do
            return { p with body := ← fill p.body (readList Instruction.ofJson) levels d }
        | "location" => some fun d p => do
            return { p with location := ← fill p.location (readOption Location.ofJson) levels d }
        | _ => none) ({} : Partial)
      return { name := ← required p.name, params := p.params.getD 0, body := ← required p.body,
               location := p.location.getD none }
  | levels, .array items => do
      let levels ← enter levels
      let (name, items) ← items.next readString levels
      let (params, items) ← items.nextOr 0 readUInt32 levels
      let (body, items) ← items.next (readList Instruction.ofJson) levels
      let (location, items) ← items.nextOr none (readOption Location.ofJson) levels
      items.finish
      return { name, params, body, location }
  | _, document => .error document.refusal

end Function

namespace Module

/-- The slots of a module that is being read. -/
structure Partial where
  name : Option String := none
  functions : Option (List Function) := none

/-- Read a module. -/
def ofJson : Reader Module
  | levels, .object fields => do
      let levels ← enter levels
      let p ← fields.gather (fun
        | "name" => some fun d p => do return { p with name := ← fill p.name readString levels d }
        | "functions" => some fun d p => do
            return { p with functions := ← fill p.functions (readList Function.ofJson) levels d }
        | _ => none) ({} : Partial)
      return { name := ← required p.name, functions := ← required p.functions }
  | levels, .array items => do
      let levels ← enter levels
      let (name, items) ← items.next readString levels
      let (functions, items) ← items.next (readList Function.ofJson) levels
      items.finish
      return { name, functions }
  | _, document => .error document.refusal

/-- Read a module from its text. -/
def ofText (text : String) : Except Problem Module := Json.ofText ofJson text

end Module

end MutationLab
