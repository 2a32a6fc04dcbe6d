/-! # Operations

The instructions of register code. Every register holds a signed 64-bit number, and
jumps go to positions in the body of the function. -/

namespace MutationLab

/-- The number of a register. -/
abbrev Register := UInt32

/-- A position in the source text that the code was made from. -/
structure Location where
  file : String
  line : UInt32
  column : UInt32
  deriving DecidableEq, Repr

/-- The position in the notation of compilers. -/
def Location.toText (l : Location) : String := s!"{l.file}:{l.line}:{l.column}"

/-- An operation on two numbers. -/
inductive BinaryKind where
  /-- Sum modulo `2 ^ 64`. -/
  | add
  /-- Difference modulo `2 ^ 64`. -/
  | sub
  /-- Product modulo `2 ^ 64`. -/
  | mul
  /-- Signed quotient, truncated. -/
  | sDiv
  /-- Signed remainder. -/
  | sRem
  /-- Bitwise and. -/
  | and
  /-- Bitwise or. -/
  | or
  /-- Bitwise exclusive or. -/
  | xor
  /-- Shift to the left. -/
  | shl
  /-- Shift to the right with zeros. -/
  | lShr
  /-- Shift to the right with the sign. -/
  | aShr
  deriving DecidableEq, Repr

namespace BinaryKind

/-- Every kind under its name in code. -/
def names : List (String × BinaryKind) :=
  [("add", add), ("sub", sub), ("mul", mul), ("s_div", sDiv), ("s_rem", sRem), ("and", and),
    ("or", or), ("xor", xor), ("shl", shl), ("l_shr", lShr), ("a_shr", aShr)]

/-- The name in code. -/
def name : BinaryKind → String
  | add => "add"
  | sub => "sub"
  | mul => "mul"
  | sDiv => "s_div"
  | sRem => "s_rem"
  | and => "and"
  | or => "or"
  | xor => "xor"
  | shl => "shl"
  | lShr => "l_shr"
  | aShr => "a_shr"

theorem lookup_name (kind : BinaryKind) : names.lookup kind.name = some kind := by
  cases kind <;> decide

/-- The spelling in source text; both shifts to the right share one. -/
def symbol : BinaryKind → String
  | add => "+"
  | sub => "-"
  | mul => "*"
  | sDiv => "/"
  | sRem => "%"
  | and => "&"
  | or => "|"
  | xor => "^"
  | shl => "<<"
  | lShr | aShr => ">>"

end BinaryKind

/-- A signed comparison. -/
inductive Predicate where
  /-- Equal. -/
  | eq
  /-- Different. -/
  | ne
  /-- Less. -/
  | slt
  /-- Less or equal. -/
  | sle
  /-- Greater. -/
  | sgt
  /-- Greater or equal. -/
  | sge
  deriving DecidableEq, Repr

namespace Predicate

/-- Every predicate under its name in code. -/
def names : List (String × Predicate) :=
  [("eq", eq), ("ne", ne), ("slt", slt), ("sle", sle), ("sgt", sgt), ("sge", sge)]

/-- The name in code. -/
def name : Predicate → String
  | eq => "eq"
  | ne => "ne"
  | slt => "slt"
  | sle => "sle"
  | sgt => "sgt"
  | sge => "sge"

theorem lookup_name (predicate : Predicate) : names.lookup predicate.name = some predicate := by
  cases predicate <;> decide

/-- The predicate that holds exactly where this one does not. -/
def negated : Predicate → Predicate
  | eq => ne
  | ne => eq
  | slt => sge
  | sge => slt
  | sle => sgt
  | sgt => sle

@[simp] theorem negated_negated (predicate : Predicate) :
    predicate.negated.negated = predicate := by
  cases predicate <;> rfl

/-- The spelling in source text. -/
def symbol : Predicate → String
  | eq => "=="
  | ne => "!="
  | slt => "<"
  | sle => "<="
  | sgt => ">"
  | sge => ">="

end Predicate

/-- A body that a trampoline can choose, and the mutant that it belongs to. -/
structure DispatchTarget where
  mutant : String
  callee : String
  deriving DecidableEq, Repr

/-- What an instruction does. -/
inductive Operation where
  /-- Put a number into a register. -/
  | const (dst : Register) (value : Int64)
  /-- Combine two registers. -/
  | binary (dst : Register) (kind : BinaryKind) (lhs rhs : Register)
  /-- Compare two registers: one if the predicate holds, else zero. -/
  | compare (dst : Register) (predicate : Predicate) (lhs rhs : Register)
  /-- Call a function by name and keep its value if a register is given. -/
  | call (dst : Option Register) (callee : String) (args : List Register)
  /-- Go on at a position. -/
  | jump (target : UInt64)
  /-- Go on at the first position if the register is not zero, else at the second. -/
  | branch (cond : Register) (thenTarget elseTarget : UInt64)
  /-- Leave the function with the value of a register, or zero. -/
  | return (value : Option Register)
  /-- Print a register on a line of its own. -/
  | print (value : Register)
  /-- Stop the run with a fault. -/
  | trap (message : String)
  /-- Do nothing. -/
  | nop
  /-- Replace this call by a call of the body chosen by the active mutant, or of the
  pristine body. -/
  | dispatch (pristine : String) (targets : List DispatchTarget)
  deriving DecidableEq, Repr

namespace Operation

/-- Operations after which the next position is not reached, so that a body may end
with them. -/
def isTerminator : Operation → Bool
  | jump .. | branch .. | Operation.return .. | trap .. | dispatch .. => true
  | _ => false

/-- The trampoline operation. -/
def isDispatch : Operation → Bool
  | dispatch .. => true
  | _ => false

/-- The registers that are read or written, in the order of the fields. -/
def registers : Operation → List Register
  | const dst _ => [dst]
  | binary dst _ lhs rhs | compare dst _ lhs rhs => [dst, lhs, rhs]
  | call dst _ args => dst.toList ++ args
  | branch cond _ _ => [cond]
  | Operation.return value => value.toList
  | print value => [value]
  | jump _ | trap _ | nop | dispatch .. => []

/-- The positions that control may jump to. -/
def targets : Operation → List UInt64
  | jump target => [target]
  | branch _ thenTarget elseTarget => [thenTarget, elseTarget]
  | _ => []

/-- The functions that are called by name. -/
def callees : Operation → List String
  | call _ callee _ => [callee]
  | dispatch pristine targets => pristine :: targets.map DispatchTarget.callee
  | _ => []

end Operation

end MutationLab
