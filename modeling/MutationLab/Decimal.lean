/-! # Decimal texts of quotients

A quotient of two numbers is rounded to a double, and the double is written in decimal:
with the fewest places that read back to it, or with a fixed number of places. All of it
is exact arithmetic on natural numbers. -/

namespace MutationLab.Decimal

/-- The natural number nearest to a quotient; a tie goes to the even one. -/
def roundDiv (numerator denominator : Nat) : Nat :=
  let quotient := numerator / denominator
  let rest := numerator % denominator
  if 2 * rest > denominator ∨ (2 * rest = denominator ∧ quotient % 2 = 1) then quotient + 1
  else quotient

/-- The double `significand / 2 ^ scale`. -/
structure Double where
  significand : Nat
  scale : Nat
  deriving DecidableEq, Repr

namespace Double

/-- The double nearest to a quotient that is zero or between `2 ^ -900` and `2 ^ 52`. -/
def ofQuotient (numerator denominator : Nat) : Double :=
  if numerator = 0 then ⟨0, 0⟩
  else
    let guess := 52 + denominator.log2 - numerator.log2
    let scale :=
      if numerator * Nat.pow 2 guess < denominator * Nat.pow 2 52 then guess + 1 else guess
    ⟨roundDiv (numerator * Nat.pow 2 scale) denominator, scale⟩

/-- Whether `digits / 10 ^ places` rounds to the double: it lies between the midpoints to
the neighbours, which count when the significand is even. -/
def reads (d : Double) (digits places : Nat) : Bool :=
  let scaled := 4 * digits * Nat.pow 2 d.scale
  let low :=
    (4 * d.significand - (if d.significand = Nat.pow 2 52 then 1 else 2)) * Nat.pow 10 places
  let high := (4 * d.significand + 2) * Nat.pow 10 places
  if d.significand % 2 = 0 then low ≤ scaled && scaled ≤ high
  else low < scaled && scaled < high

/-- The nearest number of `places` places that reads back to the double, if there is one:
one of the two next to it. -/
def candidate? (d : Double) (places : Nat) : Option Nat :=
  let unit := Nat.pow 2 d.scale
  let scaled := d.significand * Nat.pow 10 places
  let below := scaled / unit
  match d.reads below places, d.reads (below + 1) places with
  | false, false => none
  | true, false => some below
  | false, true => some (below + 1)
  | true, true =>
      let rest := 2 * (scaled % unit)
      some (if rest < unit ∨ (rest = unit ∧ below % 2 = 0) then below else below + 1)

/-- The fewest places from `places` on with a number that reads back, and that number. -/
def shortestFrom (d : Double) : (fuel places : Nat) → Nat × Nat
  | 0, places => (d.significand * Nat.pow 10 places / Nat.pow 2 d.scale, places)
  | fuel + 1, places =>
      match d.candidate? places with
      | some digits => (digits, places)
      | none => d.shortestFrom fuel (places + 1)

/-- The fewest places that read back to the double, and the digits. A double with a scale
of `s` has at most `s` places. -/
def shortest (d : Double) : Nat × Nat := d.shortestFrom d.scale 0

/-- The number with a fixed number of places nearest to the double. -/
def fixed (d : Double) (places : Nat) : Nat :=
  roundDiv (d.significand * Nat.pow 10 places) (Nat.pow 2 d.scale)

end Double

/-- The digits in front of the point of `digits / 10 ^ places`. -/
def whole (digits places : Nat) : String := toString (digits / Nat.pow 10 places)

/-- The digits behind the point of `digits / 10 ^ places`; one zero if there are none. -/
def fraction (digits places : Nat) : String :=
  if places = 0 then "0"
  else
    let text := toString (digits % Nat.pow 10 places)
    String.ofList (List.replicate (places - text.length) '0') ++ text

/-- A decimal number with a point. -/
def toText (digits places : Nat) : String := s!"{whole digits places}.{fraction digits places}"

end MutationLab.Decimal
