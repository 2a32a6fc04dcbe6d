/-! # Arguments

The arguments of a command are options, which begin with two dashes, and plain words. An
option may take a value: behind an equals sign, or as the next argument. After an argument
of two dashes only plain words follow. Arguments are taken from left to right, and the
first one that cannot be taken, or that asks for help, decides. -/

namespace MutationLab.CommandLine

/-- Why arguments are not taken. -/
inductive Refusal where
  /-- They ask for help. -/
  | help
  /-- They are not understood. -/
  | misuse
  deriving DecidableEq, Repr

/-- What an option does to the settings that are being read. -/
inductive Meaning (σ : Type) where
  /-- It stands alone. -/
  | flag (set : σ → Except Refusal σ)
  /-- It takes a value. -/
  | value (set : String → σ → Except Refusal σ)

/-- The arguments that a command takes. -/
structure Grammar (σ : Type) where
  /-- The options by name. -/
  option? : String → Option (Meaning σ)
  /-- What a plain word does. -/
  word : String → σ → Except Refusal σ

/-- The kinds of arguments. -/
inductive Argument where
  /-- Two dashes alone. -/
  | escape
  /-- A name behind two dashes, and what follows an equals sign. -/
  | long (name : String) (value : Option String)
  /-- Something behind one dash, with its first character. -/
  | short (first : Char)
  /-- Anything else, one dash alone included. -/
  | plain
  deriving DecidableEq, Repr

namespace Argument

/-- An option: what stands before the first equals sign, and what behind it. -/
def ofOption (cs : List Char) : Argument :=
  let name := cs.takeWhile (· ≠ '=')
  match cs.dropWhile (· ≠ '=') with
  | [] => .long (String.ofList name) none
  | _ :: value => .long (String.ofList name) (some (String.ofList value))

/-- The kind of an argument. -/
def of (argument : String) : Argument :=
  match argument.toList with
  | ['-', '-'] => escape
  | '-' :: '-' :: cs => ofOption cs
  | '-' :: c :: _ => short c
  | _ => plain

end Argument

namespace Grammar

/-- Take plain words only. -/
def takeWords (g : Grammar σ) : List String → σ → Except Refusal σ
  | [], s => .ok s
  | word :: words, s => do g.takeWords words (← g.word word s)

/-- Take arguments. -/
def take (g : Grammar σ) : List String → σ → Except Refusal σ
  | [], s => .ok s
  | argument :: arguments, s =>
      match Argument.of argument with
      | .escape => g.takeWords arguments s
      | .short first => .error (if first = 'h' then .help else .misuse)
      | .plain => do g.take arguments (← g.word argument s)
      | .long "help" none => .error .help
      | .long name (some value) =>
          match g.option? name with
          | some (.value set) => do g.take arguments (← set value s)
          | _ => .error .misuse
      | .long name none =>
          match g.option? name with
          | none => .error .misuse
          | some (.flag set) => do g.take arguments (← set s)
          | some (.value set) =>
              match arguments with
              | [] => .error .misuse
              | value :: arguments =>
                  if Argument.of value = .plain then do g.take arguments (← set value s)
                  else .error .misuse

end Grammar

/-! ## Values -/

/-- Fill a setting that may be chosen once. -/
def once (setting : Option α) (value : Except Refusal α) : Except Refusal (Option α) :=
  match setting with
  | some _ => .error .misuse
  | none => some <$> value

/-- Turn on a setting that may be turned on once. -/
def switch (setting : Bool) : Except Refusal Bool := if setting then .error .misuse else .ok true

/-- A path, which is not empty. -/
def readPath (text : String) : Except Refusal String :=
  if text.isEmpty then .error .misuse else .ok text

/-- The number of decimal digits, of which there must be one at least. -/
def readDigits (digits : List Char) : Except Refusal Nat :=
  if digits.isEmpty || !digits.all Char.isDigit then .error .misuse
  else .ok (digits.foldl (fun n c => 10 * n + (c.toNat - '0'.toNat)) 0)

/-- A number without a sign or with a plus, up to a bound. -/
def readNat (bound : Nat) (text : String) : Except Refusal Nat := do
  let n ← match text.toList with
    | '+' :: digits | digits => readDigits digits
  if n ≤ bound then .ok n else .error .misuse

/-- A number up to a bound; zero may also have a minus. -/
def readMagnitude (bound : Nat) (text : String) : Except Refusal Nat :=
  match text.toList with
  | '-' :: digits => do if (← readDigits digits) = 0 then .ok 0 else .error .misuse
  | _ => readNat bound text

/-- A name out of a fixed choice. -/
def readChoice (names : List (String × α)) (text : String) : Except Refusal α :=
  match names.lookup text with
  | some value => .ok value
  | none => .error .misuse

/-- The parts of a list that commas separate. -/
def splitCommas : List Char → List (List Char)
  | [] => [[]]
  | c :: cs =>
      if c = ',' then [] :: splitCommas cs
      else
        match splitCommas cs with
        | [] => [[c]]
        | part :: parts => (c :: part) :: parts

/-- The parts of a text that commas separate. -/
def readParts (text : String) : List String := (splitCommas text.toList).map String.ofList

end MutationLab.CommandLine
