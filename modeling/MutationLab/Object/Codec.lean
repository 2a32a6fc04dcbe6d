import MutationLab.Object.Basic
import MutationLab.Text.Utf8

/-! # The byte form of object files

Numbers have a fixed width, the least byte first. A text or a list is its length in
eight bytes and then its content; a choice is its number in four bytes and then its
fields; a truth value and the presence of an optional value are one byte, zero or one.
What follows an object is not looked at. -/

namespace MutationLab.Codec

/-! ## Numbers -/

/-- The lowest `width` bytes of a number, the least first. -/
def putNat : (width : Nat) → Nat → List UInt8
  | 0, _ => []
  | width + 1, n => UInt8.ofNat (n % 256) :: putNat width (n / 256)

/-- Bytes that are taken from the front of a list. -/
abbrev Take (α : Type) := StateT (List UInt8) Option α

/-- The first byte. -/
def takeByte : Take UInt8
  | [] => none
  | b :: rest => some (b, rest)

/-- A number of `width` bytes. -/
def takeNat : (width : Nat) → Take Nat
  | 0 => pure 0
  | width + 1 => do
      let low ← takeByte
      let high ← takeNat width
      return low.toNat + 256 * high

/-- A register, a count of parameters or a probe. -/
def put32 (n : UInt32) : List UInt8 := putNat 4 n.toNat

/-- A number of four bytes. -/
def take32 : Take UInt32 := do return UInt32.ofNat (← takeNat 4)

/-- A position or a length. -/
def put64 (n : UInt64) : List UInt8 := putNat 8 n.toNat

/-- A number of eight bytes. -/
def take64 : Take UInt64 := do return UInt64.ofNat (← takeNat 8)

/-- A signed number in two's complement. -/
def putInt (n : Int64) : List UInt8 := put64 n.toUInt64

/-- A signed number. -/
def takeInt : Take Int64 := do return (← take64).toInt64

/-! ## Truth values, texts, lists -/

/-- One byte, zero or one. -/
def putBool (b : Bool) : List UInt8 := [if b then 1 else 0]

/-- A truth value; a byte above one is none. -/
def takeBool : Take Bool := do
  match ← takeByte with
  | 0 => return false
  | 1 => return true
  | _ => failure

/-- A truth value that says whether a value is there, and the value. -/
def putOption (put : α → List UInt8) : Option α → List UInt8
  | none => [0]
  | some x => 1 :: put x

/-- A value that may be missing. -/
def takeOption (take : Take α) : Take (Option α) := do
  if ← takeBool then return some (← take) else return none

/-- Exactly `n` bytes. -/
def takeBytes (n : Nat) : Take (List UInt8) := fun bytes =>
  let (front, rest) := bytes.splitAt n
  if front.length = n then some (front, rest) else none

/-- The number of bytes, and the bytes in UTF-8. -/
def putString (s : String) : List UInt8 :=
  let bytes := Text.utf8 s
  putNat 8 bytes.length ++ bytes

/-- A text; bytes that are not UTF-8 are none. -/
def takeString : Take String := do
  let bytes ← takeBytes (← takeNat 8)
  match Text.ofUtf8? bytes with
  | some s => return s
  | none => failure

/-- The number of values, and the values in order. -/
def putList (put : α → List UInt8) (xs : List α) : List UInt8 :=
  putNat 8 xs.length ++ xs.flatMap put

/-- Exactly `n` values. -/
def takeMany (take : Take α) : (n : Nat) → Take (List α)
  | 0 => pure []
  | n + 1 => do
      let x ← take
      let xs ← takeMany take n
      return x :: xs

/-- A list of values. -/
def takeList (take : Take α) : Take (List α) := do takeMany take (← takeNat 8)

/-! ## Choices -/

/-- The kinds of binary operations in the order that numbers them. -/
def kinds : List BinaryKind :=
  [.add, .sub, .mul, .sDiv, .sRem, .and, .or, .xor, .shl, .lShr, .aShr]

/-- The predicates in the order that numbers them. -/
def predicates : List Predicate := [.eq, .ne, .slt, .sle, .sgt, .sge]

/-- The number of an alternative. -/
def putChoice [DecidableEq α] (alternatives : List α) (x : α) : List UInt8 :=
  putNat 4 (alternatives.idxOf x)

/-- One of some alternatives, by its number. -/
def takeChoice (alternatives : List α) : Take α := do
  match alternatives[← takeNat 4]? with
  | some x => return x
  | none => failure

/-! ## Objects -/

/-- A mutant and the symbol of its body. -/
def putTarget (target : String × String) : List UInt8 := putString target.1 ++ putString target.2

/-- A mutant and the symbol of its body. -/
def takeTarget : Take (String × String) := do return (← takeString, ← takeString)

/-- The bytes of an instruction. -/
def putOperation : ObjectOperation → List UInt8
  | .const dst value => putNat 4 0 ++ put32 dst ++ putInt value
  | .binary dst kind lhs rhs =>
      putNat 4 1 ++ put32 dst ++ putChoice kinds kind ++ put32 lhs ++ put32 rhs
  | .compare dst predicate lhs rhs =>
      putNat 4 2 ++ put32 dst ++ putChoice predicates predicate ++ put32 lhs ++ put32 rhs
  | .call dst symbol args =>
      putNat 4 3 ++ putOption put32 dst ++ putString symbol ++ putList put32 args
  | .jump target => putNat 4 4 ++ put64 target
  | .branch cond thenTarget elseTarget =>
      putNat 4 5 ++ put32 cond ++ put64 thenTarget ++ put64 elseTarget
  | .return value => putNat 4 6 ++ putOption put32 value
  | .print value => putNat 4 7 ++ put32 value
  | .trap message => putNat 4 8 ++ putString message
  | .nop => putNat 4 9
  | .dispatch pristine targets => putNat 4 10 ++ putString pristine ++ putList putTarget targets

/-- An instruction. -/
def takeOperation : Take ObjectOperation := do
  match ← takeNat 4 with
  | 0 => return .const (← take32) (← takeInt)
  | 1 => return .binary (← take32) (← takeChoice kinds) (← take32) (← take32)
  | 2 => return .compare (← take32) (← takeChoice predicates) (← take32) (← take32)
  | 3 => return .call (← takeOption take32) (← takeString) (← takeList take32)
  | 4 => return .jump (← take64)
  | 5 => return .branch (← take32) (← take64) (← take64)
  | 6 => return .return (← takeOption take32)
  | 7 => return .print (← take32)
  | 8 => return .trap (← takeString)
  | 9 => return .nop
  | 10 => return .dispatch (← takeString) (← takeList takeTarget)
  | _ => failure

/-- The bytes of a compiled function. -/
def putFunction (f : CompiledFunction) : List UInt8 :=
  putString f.symbol ++ put32 f.params ++ put32 f.registers ++ putOption put32 f.probe
    ++ putList putOperation f.code

/-- A compiled function. -/
def takeFunction : Take CompiledFunction := do
  return { symbol := ← takeString, params := ← take32, registers := ← take32,
           probe := ← takeOption take32, code := ← takeList takeOperation }

/-- The bytes of an object file. -/
def putObject (o : ObjectFile) : List UInt8 :=
  putString o.name ++ putString o.sourceHash ++ putBool o.instrumented
    ++ putList putFunction o.functions

/-- An object file. -/
def takeObject : Take ObjectFile := do
  return { name := ← takeString, sourceHash := ← takeString, instrumented := ← takeBool,
           functions := ← takeList takeFunction }

end MutationLab.Codec

namespace MutationLab.ObjectFile

/-- The bytes of an object file. -/
def toBytes (o : ObjectFile) : List UInt8 := Codec.putObject o

/-- The object file that bytes begin with. -/
def ofBytes? (bytes : List UInt8) : Option ObjectFile := (Codec.takeObject.run bytes).map (·.1)

end MutationLab.ObjectFile
