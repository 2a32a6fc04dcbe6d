/-! # Numerals of JSON

A numeral keeps its digits as written, so that `1`, `1.0` and `-0` stay apart.
`Numeral.integer?` says which numerals are integers of at most 64 bits and
`Numeral.tooLarge` which have no double-precision value. -/

namespace MutationLab.Json

/-- The written form of a number: sign, whole digits, digits behind the point
(none: no point) and exponent (its sign and digits). -/
structure Numeral where
  negative : Bool
  whole : List Char
  fraction : List Char
  exponent : Option (Bool × List Char)
  deriving DecidableEq, Repr

namespace Numeral

/-- The numeral of an integer. -/
def ofInt (value : Int) : Numeral :=
  { negative := value < 0, whole := (toString value.natAbs).toList, fraction := [],
    exponent := none }

/-- The number written by decimal digits. -/
def digitsValue (digits : List Char) : Nat :=
  digits.foldl (fun value c => 10 * value + (c.toNat - 48)) 0

/-- The text of a numeral. -/
def toText (n : Numeral) : List Char :=
  (if n.negative then ['-'] else []) ++ n.whole
    ++ (if n.fraction.isEmpty then [] else '.' :: n.fraction)
    ++ match n.exponent with
      | none => []
      | some (negative, digits) => 'e' :: (if negative then '-' :: digits else digits)

/-- The greatest unsigned 64-bit number. -/
def maxWord : Nat := UInt64.size - 1

/-- The value of a numeral without point and exponent, when a 64-bit word holds it:
unsigned from zero on, two's complement below. Negative zero is no integer. -/
def integer? (n : Numeral) : Option Int :=
  if n.fraction.isEmpty ∧ n.exponent.isNone then
    let magnitude := digitsValue n.whole
    if n.negative then
      if 0 < magnitude ∧ magnitude ≤ Nat.pow 2 63 then some (-magnitude) else none
    else if magnitude ≤ maxWord then some magnitude else none
  else none

/-- Whole digits gathered into a 64-bit significand. The first digit that does not
fit and all behind it are dropped, and each counts one power of ten. -/
def gatherWhole : List Char → (significand : Nat) → Nat × Nat
  | [], significand => (significand, 0)
  | c :: rest, significand =>
      let next := 10 * significand + (c.toNat - 48)
      if next ≤ maxWord then gatherWhole rest next else (significand, rest.length + 1)

/-- Digits behind the point gathered into the significand until one does not fit;
the second part counts the digits taken. -/
def gatherFraction : List Char → (significand taken : Nat) → Nat × Nat
  | [], significand, taken => (significand, taken)
  | c :: rest, significand, taken =>
      let next := 10 * significand + (c.toNat - 48)
      if next ≤ maxWord then gatherFraction rest next (taken + 1) else (significand, taken)

/-- The nearest number with at most 53 significant bits, a tie going to the even one. -/
def roundToDouble (n : Nat) : Nat :=
  if n < Nat.pow 2 53 then n
  else
    let unit := Nat.pow 2 (n.log2 - 52)
    let quotient := n / unit
    let rest := n % unit
    let up := 2 * rest > unit ∨ (2 * rest = unit ∧ quotient % 2 = 1)
    (if up then quotient + 1 else quotient) * unit

/-- Whether `significand * 10 ^ exponent` exceeds every double, when the factors are
first rounded to doubles. -/
def overflows (significand : Nat) (exponent : Int) : Bool :=
  significand ≠ 0 && 0 ≤ exponent &&
    (308 < exponent ||
      Nat.pow 2 1024 - Nat.pow 2 970 ≤
        roundToDouble significand * roundToDouble (Nat.pow 10 exponent.toNat))

/-- The greatest exponent that is read digit by digit. -/
def maxExponent : Nat := Nat.pow 2 31 - 1

/-- A numeral that no double can stand for. -/
def tooLarge (n : Numeral) : Bool :=
  if n.integer?.isSome then false
  else
    let (significand, dropped) := gatherWhole n.whole 0
    let (significand, taken) := gatherFraction n.fraction significand 0
    let scale : Int := dropped - taken
    match n.exponent with
    | none => overflows significand scale
    | some (negative, digits) =>
        let exponent := digitsValue digits
        if maxExponent < exponent then significand ≠ 0 && !negative
        else overflows significand (if negative then scale - exponent else scale + exponent)

end Numeral

end MutationLab.Json
