import MutationLab.Json.Document
import MutationLab.Text.Hex

/-! # Printing documents

Two layouts: compact, without any blank, and pretty, with one value a line and an
indentation of two blanks a level. Texts escape the quote, the backslash and the
control characters below the blank, nothing else. A fault prints as nothing. -/

namespace MutationLab.Json

/-- The characters that stand for `c` inside quotes. -/
def escape (c : Char) : List Char :=
  if c = '"' then ['\\', '"']
  else if c = '\\' then ['\\', '\\']
  else if c = '\n' then ['\\', 'n']
  else if c = '\r' then ['\\', 'r']
  else if c = '\t' then ['\\', 't']
  else if c.toNat = 8 then ['\\', 'b']
  else if c.toNat = 12 then ['\\', 'f']
  else if c.toNat < 32 then '\\' :: 'u' :: Text.hexDigits 4 c.toNat
  else [c]

/-- A text in quotes. -/
def quote (text : String) : List Char := '"' :: text.toList.flatMap escape ++ ['"']

/-- A text in quotes; one that cannot be read is empty. -/
def Quoted.print : Quoted → List Char
  | none => quote ""
  | some text => quote text

mutual

/-- The compact layout of a value. -/
def Document.compact : Document → List Char
  | .null => ['n', 'u', 'l', 'l']
  | .bool true => ['t', 'r', 'u', 'e']
  | .bool false => ['f', 'a', 'l', 's', 'e']
  | .number value => value.toText
  | .text value => value.print
  | .array items => '[' :: items.compact true
  | .object fields => '\x7b' :: fields.compact true
  | .broken _ => []

/-- The compact layout of the rest of a list. -/
def Items.compact (first : Bool) : Items → List Char
  | .closed => [']']
  | .unclosed _ => []
  | .item head tail => (if first then [] else [',']) ++ head.compact ++ tail.compact false

/-- The compact layout of the rest of an object. -/
def Fields.compact (first : Bool) : Fields → List Char
  | .closed => ['\x7d']
  | .unclosed _ => []
  | .field name value tail =>
      (if first then [] else [',']) ++ name.print ++ ':' :: value.compact ++ tail.compact false

end

/-- A new line indented by `level` steps of two blanks. -/
def newLine (level : Nat) : List Char := '\n' :: List.replicate (2 * level) ' '

mutual

/-- The pretty layout of a value that begins inside `level` open brackets. -/
def Document.prettyAt (level : Nat) : Document → List Char
  | .array items => '[' :: items.prettyAt level true
  | .object fields => '\x7b' :: fields.prettyAt level true
  | .null => ['n', 'u', 'l', 'l']
  | .bool true => ['t', 'r', 'u', 'e']
  | .bool false => ['f', 'a', 'l', 's', 'e']
  | .number value => value.toText
  | .text value => value.print
  | .broken _ => []

/-- The pretty layout of the rest of a list. -/
def Items.prettyAt (level : Nat) (first : Bool) : Items → List Char
  | .closed => if first then [']'] else newLine level ++ [']']
  | .unclosed _ => []
  | .item head tail =>
      (if first then [] else [',']) ++ newLine (level + 1) ++ head.prettyAt (level + 1)
        ++ tail.prettyAt level false

/-- The pretty layout of the rest of an object. -/
def Fields.prettyAt (level : Nat) (first : Bool) : Fields → List Char
  | .closed => if first then ['\x7d'] else newLine level ++ ['\x7d']
  | .unclosed _ => []
  | .field name value tail =>
      (if first then [] else [',']) ++ newLine (level + 1) ++ name.print ++ ':' :: ' '
        :: value.prettyAt (level + 1) ++ tail.prettyAt level false

end

/-- The compact text of a document. -/
def Document.toCompact (document : Document) : String := String.ofList document.compact

/-- The pretty text of a document. -/
def Document.toPretty (document : Document) : String := String.ofList (document.prettyAt 0)

end MutationLab.Json
