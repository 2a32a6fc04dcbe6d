import MutationLab.Json.Numeral

/-! # Documents

A document is what a text holds, read from left to right: a tree whose last branch
may end in the fault at which the text stopped being JSON. Reading a text never
fails; whoever walks the tree in order meets the fault where the text has it. So the
first problem of a text decides, whether the text or its meaning is wrong. -/

namespace MutationLab.Json

/-- What stops the reading of a text. -/
inductive Problem where
  /-- The text is not JSON. -/
  | malformed
  /-- The text ends early. -/
  | truncated
  /-- The text is JSON of an unexpected shape. -/
  | mismatch
  deriving DecidableEq, Repr

/-- The text of a problem. -/
def Problem.message : Problem → String
  | malformed => "not a JSON text"
  | truncated => "the text ends early"
  | mismatch => "not of the expected shape"

/-- A place at which a text stops being JSON. -/
inductive Fault where
  /-- The text ends where something is expected. -/
  | absent
  /-- A character that cannot stand here. -/
  | stray
  /-- The text ends behind a comma, where a name is expected. -/
  | dangling
  /-- A beginning of `null`, `true` or `false` that goes on differently. -/
  | word (problem : Problem)
  /-- A number that is not finished. -/
  | numeral (problem : Problem)
  /-- A quoted text that is not finished: the problem for a reader of the text, and
  for one who skips it and so does not look at surrogates. -/
  | quoted (read skipped : Problem)
  deriving DecidableEq, Repr

/-- The problem for a reader who needs the value. -/
def Fault.problem : Fault → Problem
  | .absent | .dangling => .truncated
  | .stray => .malformed
  | .word problem | .numeral problem | .quoted problem _ => problem

/-- The problem for a reader who skips the value: an unfinished number is then always
malformed. -/
def Fault.skipped : Fault → Problem
  | .numeral _ => .malformed
  | .quoted _ problem => problem
  | fault => fault.problem

/-- A quoted text; nothing when an escape in it names half of a surrogate pair. -/
abbrev Quoted := Option String

mutual

/-- A value, or the fault in its place. -/
inductive Document where
  /-- The literal `null`. -/
  | null
  /-- The literal `true` or `false`. -/
  | bool (value : Bool)
  /-- A number. -/
  | number (value : Numeral)
  /-- A quoted text. -/
  | text (value : Quoted)
  /-- A list of values. -/
  | array (items : Items)
  /-- A list of named values. -/
  | object (fields : Fields)
  /-- No value can be read here. -/
  | broken (fault : Fault)
  deriving DecidableEq, Repr

/-- The rest of a list. -/
inductive Items where
  /-- The closing bracket. -/
  | closed
  /-- The list goes wrong here. -/
  | unclosed (fault : Fault)
  /-- One more value. -/
  | item (head : Document) (tail : Items)
  deriving DecidableEq, Repr

/-- The rest of an object. -/
inductive Fields where
  /-- The closing brace. -/
  | closed
  /-- The object goes wrong here. -/
  | unclosed (fault : Fault)
  /-- One more named value. A missing colon is a fault in the place of the value. -/
  | field (name : Quoted) (value : Document) (tail : Fields)
  deriving DecidableEq, Repr

end

namespace Document

/-- The number `value`. -/
def ofInt (value : Int) : Document := .number (Numeral.ofInt value)

/-- The number `value`. -/
def ofNat (value : Nat) : Document := ofInt value

/-- A text without faults. -/
def ofText (value : String) : Document := .text (some value)

/-- A closed list. -/
def ofList (values : List Document) : Document := .array (values.foldr Items.item .closed)

/-- A closed object with its fields in order. -/
def ofFields (fields : List (String × Document)) : Document :=
  .object (fields.foldr (fun field => Fields.field (some field.1) field.2) .closed)

/-- The value, or `null`. -/
def ofOption (write : α → Document) : Option α → Document
  | none => .null
  | some value => write value

end Document

/-- The values before the end of a list, whatever the end is. -/
def Items.toList : Items → List Document
  | .closed | .unclosed _ => []
  | .item head tail => head :: tail.toList

/-- The named values before the end of an object, whatever the end is; a name that
cannot be read is left out with its value. -/
def Fields.toList : Fields → List (String × Document)
  | .closed | .unclosed _ => []
  | .field none _ tail => tail.toList
  | .field (some name) value tail => (name, value) :: tail.toList

namespace Document

/-- The text of a value. -/
def text? : Document → Option String
  | .text value => value
  | _ => none

/-- The integer of a value. -/
def integer? : Document → Option Int
  | .number value => value.integer?
  | _ => none

/-- The truth value of a value. -/
def bool? : Document → Option Bool
  | .bool value => some value
  | _ => none

/-- The values of a list; none for other values. -/
def items : Document → List Document
  | .array items => items.toList
  | _ => []

/-- The named values of an object; none for other values. -/
def fields : Document → List (String × Document)
  | .object fields => fields.toList
  | _ => []

/-- The problem of a document at a place where a value of another shape is expected:
its own fault if it has one at the start, else the shape. -/
def refusal : Document → Problem
  | .broken fault => fault.problem
  | .text none => .malformed
  | .number value => if value.tooLarge then .malformed else .mismatch
  | _ => .mismatch

/-- The value of a name in an object, unless it is `null`. -/
def field? (document : Document) (name : String) : Option Document :=
  (document.fields.lookup name).filter (· ≠ .null)

end Document

@[simp] theorem Items.toList_foldr (values : List Document) :
    Items.toList (values.foldr Items.item .closed) = values := by
  induction values with
  | nil => rfl
  | cons value values ih => simp [Items.toList, ih]

@[simp] theorem Fields.toList_foldr (fields : List (String × Document)) :
    Fields.toList (fields.foldr (fun field => Fields.field (some field.1) field.2) .closed)
      = fields := by
  induction fields with
  | nil => rfl
  | cons field fields ih => simp [Fields.toList, ih]

end MutationLab.Json
