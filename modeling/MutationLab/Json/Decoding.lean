import MutationLab.Json.Reading

/-! # Reading values out of documents

Readers walk a document in the order of its text and stop at the first problem. A
record is read from an object whose fields may stand in any order, or from a list of
its fields in order. Every list and object that is entered counts as a level, and
`maxLevels` of them may be nested. -/

namespace MutationLab.Json

/-- How many lists and objects may be nested in each other. -/
def maxLevels : Nat := 127

/-- The levels left inside a list or object, when one may be entered. -/
def enter : (levels : Nat) → Except Problem Nat
  | 0 => .error .malformed
  | levels + 1 => .ok levels

mutual

/-- Step over a value that nobody needs. -/
def Document.skip : Document → Except Problem Unit
  | .array items => items.skip
  | .object fields => fields.skip
  | .broken fault => .error fault.skipped
  | _ => .ok ()

/-- Step over the rest of a list. -/
def Items.skip : Items → Except Problem Unit
  | .closed => .ok ()
  | .unclosed fault => .error fault.skipped
  | .item head tail => do head.skip; tail.skip

/-- Step over the rest of an object. -/
def Fields.skip : Fields → Except Problem Unit
  | .closed => .ok ()
  | .unclosed fault => .error fault.skipped
  | .field _ value tail => do value.skip; tail.skip

end

mutual

/-- Check that a value can be kept for later: it has no fault, its numbers have
values, its texts are texts, and it is not nested too deep. -/
def Document.keep (levels : Nat) : Document → Except Problem Unit
  | .array items => do items.keep (← enter levels)
  | .object fields => do fields.keep (← enter levels)
  | .broken fault => .error fault.problem
  | .text none => .error .malformed
  | .number value => if value.tooLarge then .error .malformed else .ok ()
  | _ => .ok ()

/-- Check the rest of a list. -/
def Items.keep (levels : Nat) : Items → Except Problem Unit
  | .closed => .ok ()
  | .unclosed fault => .error fault.problem
  | .item head tail => do head.keep levels; tail.keep levels

/-- Check the rest of an object. -/
def Fields.keep (levels : Nat) : Fields → Except Problem Unit
  | .closed => .ok ()
  | .unclosed fault => .error fault.problem
  | .field none _ _ => .error .malformed
  | .field (some _) value tail => do value.keep levels; tail.keep levels

end

/-- A reader of a value inside a number of remaining levels. -/
abbrev Reader (α : Type) := (levels : Nat) → Document → Except Problem α

/-- A text. -/
def readString : Reader String
  | _, .text (some value) => .ok value
  | _, document => .error document.refusal

/-- A truth value. -/
def readBool : Reader Bool
  | _, .bool value => .ok value
  | _, document => .error document.refusal

/-- An integer between two bounds, both included. -/
def readInteger (low high : Int) : Reader Int
  | _, .number value =>
      match value.integer? with
      | some integer => if low ≤ integer ∧ integer ≤ high then .ok integer else .error .mismatch
      | none => .error (Document.refusal (.number value))
  | _, document => .error document.refusal

/-- A 32-bit unsigned number. -/
def readUInt32 : Reader UInt32 := fun levels document => do
  return UInt32.ofNat (← readInteger 0 (UInt32.size - 1) levels document).toNat

/-- A 64-bit unsigned number. -/
def readUInt64 : Reader UInt64 := fun levels document => do
  return UInt64.ofNat (← readInteger 0 (UInt64.size - 1) levels document).toNat

/-- A 64-bit signed number. -/
def readInt64 : Reader Int64 := fun levels document => do
  return Int64.ofInt
    (← readInteger Int64.minValue.toInt Int64.maxValue.toInt levels document)

/-- `null` or a value. -/
def readOption (reader : Reader α) : Reader (Option α)
  | _, .null => .ok none
  | levels, document => some <$> reader levels document

/-- The rest of a list of values. -/
def Items.readAll (reader : Reader α) (levels : Nat) : Items → Except Problem (List α)
  | .closed => .ok []
  | .unclosed fault => .error fault.problem
  | .item head tail => do
      let value ← reader levels head
      let values ← tail.readAll reader levels
      return value :: values

/-- A list of values. -/
def readList (reader : Reader α) : Reader (List α)
  | levels, .array items => do items.readAll reader (← enter levels)
  | _, document => .error document.refusal

/-- A name out of a fixed choice. It stands alone or as the only name of an object,
whose value is then `null`. -/
def readName (names : List (String × α)) : Reader α
  | _, .text (some name) =>
      match names.lookup name with
      | some value => .ok value
      | none => .error .mismatch
  | _, .text none => .error .malformed
  | levels, .object fields => do
      let _ ← enter levels
      match fields with
      | .closed => .error .malformed
      | .unclosed fault => .error fault.problem
      | .field none _ _ => .error .malformed
      | .field (some name) value tail =>
          match names.lookup name with
          | none => .error .mismatch
          | some found =>
              match value with
              | .null =>
                  match tail with
                  | .closed => .ok found
                  | .unclosed .absent => .error .truncated
                  | _ => .error .malformed
              | other => .error other.refusal
  | _, .broken .absent => .error .truncated
  | _, .broken (.quoted problem _) => .error problem
  | _, _ => .error .malformed

/-- Fill a slot of a record that is being read. A slot is filled once. -/
def fill (slot : Option α) (reader : Reader α) (levels : Nat) (document : Document) :
    Except Problem (Option α) :=
  match slot with
  | some _ => .error .mismatch
  | none => some <$> reader levels document

/-- The content of a slot that must have been filled. -/
def required : Option α → Except Problem α
  | some value => .ok value
  | none => .error .mismatch

/-- Read the fields of an object in order into a record. `known` says how a field of a
given name changes the record; the values of unknown fields are stepped over. -/
def Fields.gather (known : String → Option (Document → σ → Except Problem σ)) :
    Fields → σ → Except Problem σ
  | .closed, state => .ok state
  | .unclosed fault, _ => .error fault.problem
  | .field none _ _, _ => .error .malformed
  | .field (some name) value tail, state =>
      match known name with
      | some step => do
          let state ← step value state
          tail.gather known state
      | none => do
          value.skip
          tail.gather known state

/-- The next field of a record that is written as a list. -/
def Items.next (reader : Reader α) (levels : Nat) : Items → Except Problem (α × Items)
  | .closed => .error .mismatch
  | .unclosed fault => .error fault.problem
  | .item head tail => do return (← reader levels head, tail)

/-- The next field of a record that is written as a list and may end before it. -/
def Items.nextOr (missing : α) (reader : Reader α) (levels : Nat) :
    Items → Except Problem (α × Items)
  | .closed => .ok (missing, .closed)
  | items => items.next reader levels

/-- The end of a record that is written as a list: nothing more may follow. -/
def Items.finish : Items → Except Problem Unit
  | .closed => .ok ()
  | .unclosed fault => .error fault.problem
  | .item _ _ => .error .malformed

/-- A value that makes up a whole text, apart from blanks around it. -/
def ofText (reader : Reader α) (text : String) : Except Problem α :=
  let (document, rest) := read text.toList
  match reader maxLevels document with
  | .error problem => .error problem
  | .ok value => if (skipBlanks rest).isEmpty then .ok value else .error .malformed

end MutationLab.Json
