import MutationLab.Json.Document
import MutationLab.Text.Hex

/-! # Reading documents

`read` turns a text into a document and what follows it. Nothing is refused here:
a text that is not JSON becomes a document with a fault at the place where the
grammar breaks, so that readers of the document meet the first problem first. -/

namespace MutationLab.Json

/-- The four blanks of JSON. -/
def isBlank (c : Char) : Bool := c = ' ' || c = '\t' || c = '\n' || c = '\r'

/-- A text without its leading blanks. -/
def skipBlanks (cs : List Char) : List Char := cs.dropWhile isBlank

/-- A decimal digit. -/
def isDigit (c : Char) : Bool := '0' ≤ c && c ≤ '9'

/-- The number of bytes of a text in UTF-8. -/
def byteCount (cs : List Char) : Nat := cs.foldr (fun c count => c.utf8Size + count) 0

/-- Four hexadecimal digits: their value and the rest. With fewer than four bytes left
the text has ended; otherwise a foreign character makes it malformed. -/
def readUnit (cs : List Char) : Except Problem (Nat × List Char) :=
  match cs with
  | a :: b :: c :: d :: rest =>
      match Text.hexValue? a, Text.hexValue? b, Text.hexValue? c, Text.hexValue? d with
      | some a, some b, some c, some d => .ok (4096 * a + 256 * b + 16 * c + d, rest)
      | _, _, _, _ => .error .malformed
  | _ => if byteCount cs < 4 then .error .truncated else .error .malformed

/-- The character that follows a backslash as itself or as a control character. -/
def unescape (c : Char) : Option Char :=
  if c = '"' ∨ c = '\\' ∨ c = '/' then some c
  else if c = 'b' then some '\x08'
  else if c = 'f' then some '\x0c'
  else if c = 'n' then some '\n'
  else if c = 'r' then some '\r'
  else if c = 't' then some '\t'
  else none

/-- The second half of a surrogate pair, the first being `high`. -/
def readLowHalf (high : Nat) : List Char → Except Problem (Char × List Char)
  | [] | ['\\'] => .error .truncated
  | '\\' :: 'u' :: rest =>
      match readUnit rest with
      | .error problem => .error problem
      | .ok (low, rest) =>
          if 0xDC00 ≤ low ∧ low ≤ 0xDFFF then
            .ok (Char.ofNat (0x10000 + 0x400 * (high - 0xD800) + (low - 0xDC00)), rest)
          else .error .malformed
  | _ => .error .malformed

/-- The character of a `\u` escape: one unit, or two that form a surrogate pair. -/
def readUnicode (cs : List Char) : Except Problem (Char × List Char) :=
  match readUnit cs with
  | .error problem => .error problem
  | .ok (unit, rest) =>
      if 0xDC00 ≤ unit ∧ unit ≤ 0xDFFF then .error .malformed
      else if 0xD800 ≤ unit ∧ unit ≤ 0xDBFF then readLowHalf unit rest
      else .ok (Char.ofNat unit, rest)

/-- What stands between the opening quote and the closing one, and the rest. -/
def readQuoted : (fuel : Nat) → List Char → Except Problem (List Char × List Char)
  | 0, _ | _, [] => .error .truncated
  | fuel + 1, c :: rest =>
      if c = '"' then .ok ([], rest)
      else if c = '\\' then
        match rest with
        | [] => .error .truncated
        | 'u' :: rest =>
            match readUnicode rest with
            | .error problem => .error problem
            | .ok (c, rest) => (readQuoted fuel rest).map fun (cs, rest) => (c :: cs, rest)
        | c :: rest =>
            match unescape c with
            | none => .error .malformed
            | some c => (readQuoted fuel rest).map fun (cs, rest) => (c :: cs, rest)
      else if c.toNat < 32 then .error .malformed
      else (readQuoted fuel rest).map fun (cs, rest) => (c :: cs, rest)

/-- The rest behind the closing quote, for a reader who does not need the text. -/
def skipQuoted : (fuel : Nat) → List Char → Except Problem (List Char)
  | 0, _ | _, [] => .error .truncated
  | fuel + 1, c :: rest =>
      if c = '"' then .ok rest
      else if c = '\\' then
        match rest with
        | [] => .error .truncated
        | 'u' :: rest =>
            match readUnit rest with
            | .error problem => .error problem
            | .ok (_, rest) => skipQuoted fuel rest
        | c :: rest => if (unescape c).isSome then skipQuoted fuel rest else .error .malformed
      else if c.toNat < 32 then .error .malformed
      else skipQuoted fuel rest

/-- A quoted text behind its opening quote, or its fault. -/
def readText (fuel : Nat) (cs : List Char) : Except Fault (Quoted × List Char) :=
  match readQuoted fuel cs with
  | .ok (text, rest) => .ok (some (String.ofList text), rest)
  | .error problem =>
      match skipQuoted fuel cs with
      | .ok rest => .ok (none, rest)
      | .error skipped => .error (.quoted problem skipped)

/-- The rest of a literal whose first letter has been read. -/
def readWord (value : Document) : (expected : List Char) → List Char → Document × List Char
  | [], rest => (value, rest)
  | _ :: _, [] => (.broken (.word .truncated), [])
  | e :: expected, c :: rest =>
      if e = c then readWord value expected rest else (.broken (.word .malformed), c :: rest)

/-- At least one digit, and the rest. -/
def readDigits (cs : List Char) : Except Fault (List Char × List Char) :=
  match cs with
  | [] => .error (.numeral .truncated)
  | c :: _ =>
      if isDigit c then .ok (cs.span isDigit) else .error (.numeral .malformed)

/-- The digits in front of a point: no zero leads others. -/
def readWhole (cs : List Char) : Except Fault (List Char × List Char) :=
  match cs with
  | '0' :: c :: rest =>
      if isDigit c then .error (.numeral .malformed) else .ok (['0'], c :: rest)
  | _ => readDigits cs

/-- The point and the digits behind it, if a point is next. -/
def readFraction (cs : List Char) : Except Fault (List Char × List Char) :=
  match cs with
  | '.' :: rest => readDigits rest
  | _ => .ok ([], cs)

/-- The exponent, if one is next. -/
def readExponent (cs : List Char) : Except Fault (Option (Bool × List Char) × List Char) :=
  match cs with
  | c :: rest =>
      if c = 'e' ∨ c = 'E' then
        let (negative, rest) := match rest with
          | '+' :: rest => (false, rest)
          | '-' :: rest => (true, rest)
          | rest => (false, rest)
        (readDigits rest).map fun (digits, rest) => (some (negative, digits), rest)
      else .ok (none, cs)
  | [] => .ok (none, [])

/-- A number whose minus sign, if any, has been read. -/
def readNumeral (negative : Bool) (cs : List Char) : Except Fault (Numeral × List Char) := do
  let (whole, rest) ← readWhole cs
  let (fraction, rest) ← readFraction rest
  let (exponent, rest) ← readExponent rest
  return ({ negative, whole, fraction, exponent }, rest)

/-- A document from the outcome of reading a part of one kind. -/
def orBroken (wrap : α → Document) : Except Fault (α × List Char) → Document × List Char
  | .ok (value, rest) => (wrap value, rest)
  | .error fault => (.broken fault, [])

mutual

/-- A value and what follows it. The fuel bounds the number of parts. -/
def readValue : (fuel : Nat) → List Char → Document × List Char
  | 0, _ => (.broken .absent, [])
  | fuel + 1, cs =>
      match skipBlanks cs with
      | [] => (.broken .absent, [])
      | c :: rest =>
          if c = 'n' then readWord .null ['u', 'l', 'l'] rest
          else if c = 't' then readWord (.bool true) ['r', 'u', 'e'] rest
          else if c = 'f' then readWord (.bool false) ['a', 'l', 's', 'e'] rest
          else if c = '"' then orBroken .text (readText fuel rest)
          else if c = '-' then orBroken .number (readNumeral true rest)
          else if isDigit c then orBroken .number (readNumeral false (c :: rest))
          else if c = '[' then
            let (items, rest) := readItems fuel true rest
            (.array items, rest)
          else if c = '\x7b' then
            let (fields, rest) := readFields fuel true rest
            (.object fields, rest)
          else (.broken .stray, c :: rest)

/-- The rest of a list, before its first value or behind one. -/
def readItems : (fuel : Nat) → (first : Bool) → List Char → Items × List Char
  | 0, _, _ => (.unclosed .absent, [])
  | fuel + 1, first, cs =>
      match skipBlanks cs with
      | [] => (.unclosed .absent, [])
      | c :: rest =>
          if c = ']' then (.closed, rest)
          else if !first && c ≠ ',' then (.unclosed .stray, c :: rest)
          else
            let (head, rest) := readValue fuel (if first then c :: rest else rest)
            let (tail, rest) := readItems fuel false rest
            (.item head tail, rest)

/-- The rest of an object, before its first field or behind one. -/
def readFields : (fuel : Nat) → (first : Bool) → List Char → Fields × List Char
  | 0, _, _ => (.unclosed .absent, [])
  | fuel + 1, first, cs =>
      match skipBlanks cs with
      | [] => (.unclosed .absent, [])
      | c :: rest =>
          if c = '\x7d' then (.closed, rest)
          else if !first && c ≠ ',' then (.unclosed .stray, c :: rest)
          else
            match skipBlanks (if first then c :: rest else rest) with
            | [] => (.unclosed .dangling, [])
            | c :: rest =>
                if c ≠ '"' then (.unclosed .stray, c :: rest)
                else
                  match readText fuel rest with
                  | .error fault => (.unclosed fault, [])
                  | .ok (name, rest) =>
                      let (value, rest) := match skipBlanks rest with
                        | [] => (.broken .absent, [])
                        | ':' :: rest => readValue fuel rest
                        | rest => (.broken .stray, rest)
                      let (tail, rest) := readFields fuel false rest
                      (.field name value tail, rest)

end

/-- The document that a text begins with, and what follows it. -/
def read (cs : List Char) : Document × List Char := readValue (2 * cs.length + 2) cs

end MutationLab.Json
