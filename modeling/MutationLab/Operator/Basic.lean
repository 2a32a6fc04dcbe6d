import MutationLab.Code.Operation

/-! # Mutation operators

An operator is a named list of rules that change an operation. Whether a rule has a
site in an operation and what it makes of it are defined apart from each other; the
first rule with a site is the one that is applied. -/

namespace MutationLab

/-- A rule that changes an operation. -/
inductive Rule where
  /-- Put one kind of binary operation in the place of another. -/
  | swap (source replacement : BinaryKind)
  /-- Negate any comparison. -/
  | negate
  /-- Put a constant in the place of a call whose value is used. -/
  | replaceCall (value : Int64)
  /-- Leave out a call whose value is not used. -/
  | removeCall
  deriving DecidableEq, Repr

namespace Rule

/-- Whether the rule can be applied to an operation. -/
def isSite : Rule → Operation → Bool
  | swap source _, .binary _ kind _ _ => kind = source
  | negate, .compare .. => true
  | replaceCall _, .call dst _ _ => dst.isSome
  | removeCall, .call dst _ _ => dst.isNone
  | _, _ => false

/-- What the rule makes of an operation, when it can be applied. -/
def mutate? : Rule → Operation → Option Operation
  | swap source replacement, .binary dst kind lhs rhs =>
      if kind = source then some (.binary dst replacement lhs rhs) else none
  | negate, .compare dst predicate lhs rhs => some (.compare dst predicate.negated lhs rhs)
  | replaceCall value, .call (some dst) _ _ => some (.const dst value)
  | removeCall, .call none _ _ => some .nop
  | _, _ => none

theorem isSome_mutate? (rule : Rule) (operation : Operation) :
    (rule.mutate? operation).isSome = rule.isSite operation := by
  cases rule <;> cases operation <;> simp [isSite, mutate?]
  case swap.binary => split <;> simp_all
  all_goals rename_i dst _ _; cases dst <;> rfl

end Rule

/-- A mutation operator. -/
structure Operator where
  /-- The name, which is part of the identity of every mutant. -/
  id : String
  /-- What the operator does. -/
  description : String
  /-- The text that it puts into the source. -/
  replacement : String
  /-- What is said about one of its mutants. -/
  diagnostic : String
  /-- Its rules; the first with a site is applied. -/
  rules : List Rule
  deriving DecidableEq, Repr

namespace Operator

/-- Whether the operator can be applied to an operation. -/
def isSite (operator : Operator) (operation : Operation) : Bool :=
  operator.rules.any (·.isSite operation)

/-- What the operator makes of an operation, when it can be applied. -/
def mutate? (operator : Operator) (operation : Operation) : Option Operation :=
  operator.rules.findSome? (·.mutate? operation)

theorem isSome_mutate? (operator : Operator) (operation : Operation) :
    (operator.mutate? operation).isSome = operator.isSite operation := by
  simp only [mutate?, isSite]
  induction operator.rules with
  | nil => rfl
  | cons rule rules ih =>
    rw [List.findSome?_cons, List.any_cons, ← rule.isSome_mutate? operation, ← ih]
    cases rule.mutate? operation <;> rfl

end Operator

end MutationLab
