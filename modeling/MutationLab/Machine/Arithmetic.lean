import MutationLab.Code.Operation

/-! # Arithmetic of registers

Signed 64-bit numbers in two's complement. Sums, differences, products and quotients
wrap around; a shift takes its amount modulo 64. Only a division by zero has no value. -/

namespace MutationLab

/-- The amount of a shift: a number modulo 64, from zero on. -/
def shiftAmount (b : Int64) : UInt64 := b.toUInt64 % 64

namespace BinaryKind

/-- The value of an operation; none for a division by zero. -/
def eval? : BinaryKind → Int64 → Int64 → Option Int64
  | add, a, b => some (a + b)
  | sub, a, b => some (a - b)
  | mul, a, b => some (a * b)
  | sDiv, a, b => if b = 0 then none else some (a / b)
  | sRem, a, b => if b = 0 then none else some (a % b)
  | and, a, b => some (a &&& b)
  | or, a, b => some (a ||| b)
  | xor, a, b => some (a ^^^ b)
  | shl, a, b => some (a.toUInt64 <<< shiftAmount b).toInt64
  | lShr, a, b => some (a.toUInt64 >>> shiftAmount b).toInt64
  | aShr, a, b => some (a >>> (shiftAmount b).toInt64)

end BinaryKind

namespace Predicate

/-- Whether a comparison holds. -/
def holds : Predicate → Int64 → Int64 → Bool
  | eq, a, b => a = b
  | ne, a, b => a ≠ b
  | slt, a, b => a < b
  | sle, a, b => a ≤ b
  | sgt, a, b => b < a
  | sge, a, b => b ≤ a

/-- The value of a comparison: one if it holds, else zero. -/
def value (predicate : Predicate) (a b : Int64) : Int64 := if predicate.holds a b then 1 else 0

end Predicate

end MutationLab
