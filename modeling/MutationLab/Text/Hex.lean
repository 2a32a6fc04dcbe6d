/-! # Hexadecimal text

Bytes and 64-bit words as lowercase hexadecimal digits, and the values of
hexadecimal digits of either case. -/

namespace MutationLab.Text

/-- The lowercase digit of a value below sixteen. -/
def hexDigit (value : Nat) : Char :=
  if value < 10 then Char.ofNat (48 + value) else Char.ofNat (87 + value)

/-- The value of a hexadecimal digit of either case. -/
def hexValue? (c : Char) : Option Nat :=
  if '0' ≤ c ∧ c ≤ '9' then some (c.toNat - 48)
  else if 'a' ≤ c ∧ c ≤ 'f' then some (c.toNat - 87)
  else if 'A' ≤ c ∧ c ≤ 'F' then some (c.toNat - 55)
  else none

/-- The last `width` hexadecimal digits of a number, most significant first. -/
def hexDigits : (width : Nat) → Nat → List Char
  | 0, _ => []
  | width + 1, n => hexDigits width (n / 16) ++ [hexDigit (n % 16)]

theorem length_hexDigits (width n : Nat) : (hexDigits width n).length = width := by
  induction width generalizing n with
  | zero => rfl
  | succ width ih => simp [hexDigits, ih]

/-- A 64-bit word as sixteen digits. -/
def hexWord (word : UInt64) : String := String.ofList (hexDigits 16 word.toNat)

/-- Two digits for every byte. -/
def hexBytes (bytes : List UInt8) : String :=
  String.ofList (bytes.flatMap fun byte => hexDigits 2 byte.toNat)

/-- The bytes written as pairs of digits; nothing when a digit is missing or foreign. -/
def bytesOfHexDigits? : List Char → Option (List UInt8)
  | [] => some []
  | [_] => none
  | high :: low :: rest => do
      let high ← hexValue? high
      let low ← hexValue? low
      let bytes ← bytesOfHexDigits? rest
      return UInt8.ofNat (16 * high + low) :: bytes

/-- The bytes that a hexadecimal text stands for. -/
def bytesOfHex? (text : String) : Option (List UInt8) := bytesOfHexDigits? text.toList

end MutationLab.Text
