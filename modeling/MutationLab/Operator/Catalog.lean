import MutationLab.Operator.Basic

/-! # The catalog of operators

The operators in their fixed order, the groups that name several of them, and the
selection of operators by ids and group names. -/

namespace MutationLab

namespace Operator

/-- An operator that swaps one spelling for another. -/
def swapping (id source replacement : String) (rules : List Rule) : Operator :=
  { id, description := s!"Replaces {source} with {replacement}", replacement,
    diagnostic := s!"Replaced {source} with {replacement}", rules }

/-- Every operator. -/
def catalog : List Operator :=
  [swapping "add_to_sub" "+" "-" [.swap .add .sub],
    swapping "sub_to_add" "-" "+" [.swap .sub .add],
    swapping "mul_to_div" "*" "/" [.swap .mul .sDiv],
    swapping "div_to_mul" "/" "*" [.swap .sDiv .mul],
    swapping "rem_to_div" "%" "/" [.swap .sRem .sDiv],
    swapping "lshift_to_rshift" "<<" ">>" [.swap .shl .lShr],
    swapping "rshift_to_lshift" ">>" "<<" [.swap .lShr .shl, .swap .aShr .shl],
    swapping "or_to_and" "|" "&" [.swap .or .and],
    swapping "and_to_or" "&" "|" [.swap .and .or],
    swapping "xor_to_or" "^" "|" [.swap .xor .or],
    { id := "negate_condition", description := "Negates a comparison", replacement := "!",
      diagnostic := "Negated comparison", rules := [.negate] },
    { id := "replace_scalar_call", description := "Replaces a call with the constant 42",
      replacement := "42", diagnostic := "Replaced call with 42", rules := [.replaceCall 42] },
    { id := "remove_void_call", description := "Removes a call whose result is unused",
      replacement := "", diagnostic := "Removed call", rules := [.removeCall] }]

/-- The operator of an id. -/
def byId? (id : String) : Option Operator := catalog.find? (·.id = id)

/-- The ids of the operators of a group. -/
def group? : String → Option (List String)
  | "arithmetic" => some ["add_to_sub", "sub_to_add", "mul_to_div", "div_to_mul", "rem_to_div"]
  | "bitwise" =>
      some ["lshift_to_rshift", "rshift_to_lshift", "or_to_and", "and_to_or", "xor_to_or"]
  | "comparison" => some ["negate_condition"]
  | "calls" => some ["replace_scalar_call", "remove_void_call"]
  | "default" => some ["add_to_sub", "sub_to_add", "negate_condition", "remove_void_call"]
  | "all" =>
      some ["add_to_sub", "sub_to_add", "mul_to_div", "div_to_mul", "rem_to_div",
        "lshift_to_rshift", "rshift_to_lshift", "or_to_and", "and_to_or", "xor_to_or",
        "negate_condition", "replace_scalar_call", "remove_void_call"]
  | _ => none

end Operator

/-- Why a selection of operators is refused. -/
inductive SelectionError where
  /-- A name that is neither an id nor a group. -/
  | unknown (name : String)
  deriving DecidableEq, Repr

/-- The text of a refused selection. -/
def SelectionError.message : SelectionError → String
  | unknown name => s!"unknown mutator or group `{name}`"

namespace Operator

/-- The ids that a name stands for: those of its group, or itself. -/
def expand (name : String) : List String := (group? name).getD [name]

/-- A list with every element only where it is first mentioned. -/
def firstMentions [DecidableEq α] (xs : List α) : List α :=
  xs.foldl (fun seen x => if x ∈ seen then seen else seen ++ [x]) []

/-- The operators of ids, in order. -/
def ofIds : List String → Except SelectionError (List Operator)
  | [] => .ok []
  | id :: ids =>
      match byId? id with
      | none => .error (.unknown id)
      | some operator => (ofIds ids).map (operator :: ·)

/-- The operators that ids and group names stand for, each once and in the order of first
mention. No name at all selects the default group. -/
def select (names : List String) : Except SelectionError (List Operator) :=
  ofIds (firstMentions ((if names.isEmpty then ["default"] else names).flatMap expand))

/-- The operators of the default group. -/
def defaults : List Operator :=
  match select [] with
  | .ok operators => operators
  | .error _ => []

end Operator

end MutationLab
