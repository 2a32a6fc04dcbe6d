import MutationLab.Machine.Arithmetic
import MutationLab.Proofs.Application.Lasting
import MutationLab.Proofs.Mutation

/-! # What operators rewrite

An operator of the catalog rewrites an operation where it has a site and nowhere else, and what it
makes of the operation is close to it: `Operation.Replaces` says what the two have in common. No two
operators have a site in one operation, as their rules look for different kinds of operations
(`Rule.overlaps_of_isSite`, `Operator.eq_of_isSite`). -/

namespace MutationLab

/-! ## Comparisons -/

namespace Predicate

/-- A comparison holds exactly where its negation does not. -/
theorem holds_negated (predicate : Predicate) (a b : Int64) :
    predicate.negated.holds a b = !predicate.holds a b := by
  cases predicate <;> simp [negated, holds, ← Int64.not_lt]

/-- **A negated comparison** yields one less the value of the comparison. -/
theorem value_negated (predicate : Predicate) (a b : Int64) :
    predicate.negated.value a b = 1 - predicate.value a b := by
  rw [value, value, holds_negated]
  cases predicate.holds a b <;> rfl

end Predicate

/-! ## Sites -/

/-- Whether two rules look for the same kind of operations. -/
def Rule.overlaps : Rule → Rule → Bool
  | swap source _, swap other _ => source = other
  | negate, negate => true
  | replaceCall _, replaceCall _ => true
  | removeCall, removeCall => true
  | _, _ => false

/-- Rules with a site in one operation look for the same kind. -/
theorem Rule.overlaps_of_isSite {rule other : Rule} {operation : Operation}
    (h : rule.isSite operation = true) (h' : other.isSite operation = true) :
    rule.overlaps other = true := by
  cases rule with
  | swap source replacement =>
    cases operation with
    | binary dst kind lhs rhs =>
      cases other with
      | swap source' replacement' =>
        exact decide_eq_true ((of_decide_eq_true h).symm.trans (of_decide_eq_true h'))
      | _ => exact nomatch h'
    | _ => exact nomatch h
  | negate =>
    cases operation with
    | compare dst predicate lhs rhs =>
      cases other with
      | negate => rfl
      | _ => exact nomatch h'
    | _ => exact nomatch h
  -- One call is not both used and unused.
  | replaceCall value =>
    cases operation with
    | call dst callee args =>
      cases other with
      | replaceCall value' => rfl
      | removeCall =>
        cases dst with
        | none => exact nomatch h
        | some dst => exact nomatch h'
      | _ => exact nomatch h'
    | _ => exact nomatch h
  | removeCall =>
    cases operation with
    | call dst callee args =>
      cases other with
      | removeCall => rfl
      | replaceCall value =>
        cases dst with
        | none => exact nomatch h'
        | some dst => exact nomatch h
      | _ => exact nomatch h'
    | _ => exact nomatch h

/-! ## Replacements -/

/-- The register that an operation writes. -/
def Operation.destination? : Operation → Option Register
  | const dst _ | binary dst _ _ _ | compare dst _ _ _ => some dst
  | call dst _ _ => dst
  | _ => none

/-- One operation can stand in the place of another one. It is a different one, but control goes on
behind both of them; it writes the same register, or the other one is a call without a value that is
left out; it uses no new register and no new function; and a comparison is negated. -/
structure Operation.Replaces (new old : Operation) : Prop where
  ne : new ≠ old
  new_isTerminator : new.isTerminator = false
  old_isTerminator : old.isTerminator = false
  destination_eq : new.destination? = old.destination?
  removed : old.destination? = none → new = .nop ∧ ∃ callee args, old = .call none callee args
  registers_subset : new.registers ⊆ old.registers
  callees_subset : new.callees ⊆ old.callees
  negated : ∀ dst predicate lhs rhs, old = .compare dst predicate lhs rhs →
    ∃ other : Predicate, new = .compare dst other lhs rhs ∧
      ∀ a b, other.value a b = 1 - predicate.value a b

namespace Rule

variable {rule : Rule} {operation mutated : Operation}

/-- A rule keeps the register that is written. If there is none, it leaves a call out. -/
theorem destination_of_mutate? (h : rule.mutate? operation = some mutated) :
    mutated.destination? = operation.destination? ∧
      (operation.destination? = none →
        mutated = .nop ∧ ∃ callee args, operation = .call none callee args) := by
  unfold mutate? at h
  split at h
  · split at h
    · obtain rfl := Option.some.inj h
      exact ⟨rfl, nofun⟩
    · exact nomatch h
  · obtain rfl := Option.some.inj h
    exact ⟨rfl, nofun⟩
  · obtain rfl := Option.some.inj h
    exact ⟨rfl, nofun⟩
  · obtain rfl := Option.some.inj h
    exact ⟨rfl, fun _ => ⟨rfl, _, _, rfl⟩⟩
  · exact nomatch h

/-- The only thing that a rule makes of a comparison is its negation. -/
theorem eq_of_mutate?_compare {dst lhs rhs : Register} {predicate : Predicate}
    (h : rule.mutate? (.compare dst predicate lhs rhs) = some mutated) :
    mutated = .compare dst predicate.negated lhs rhs := by
  cases rule with
  | negate => exact (Option.some.inj h).symm
  | _ => exact nomatch h

end Rule

namespace Operator

/-- **What an operator of the catalog makes of an operation** can stand in its place. -/
theorem replaces_of_mutate? {operator : Operator} (h : operator ∈ catalog)
    {operation mutated : Operation} (hmutated : operator.mutate? operation = some mutated) :
    mutated.Replaces operation := by
  obtain ⟨rule, -, hrule⟩ := List.exists_of_findSome?_eq_some hmutated
  obtain ⟨hold, hnew, hcallees, hregisters⟩ := rule.of_mutate?_eq_some hrule
  obtain ⟨hdestination, hremoved⟩ := Rule.destination_of_mutate? hrule
  refine ⟨?_, hnew.isTerminator, hold.isTerminator, hdestination, hremoved, hregisters, ?_, ?_⟩
  · -- An operator that negates changes every comparison, and the others never return to one.
    obtain ⟨-, hsettles⟩ | ⟨-, hnegates⟩ := settles_or_negates h
    · exact hsettles.ne hmutated
    · exact (mutate?_mutate?_of_negates hnegates hmutated).2
  · rw [hcallees]
    exact List.nil_subset _
  · rintro dst predicate lhs rhs rfl
    exact ⟨_, Rule.eq_of_mutate?_compare hrule, predicate.value_negated⟩

/-- Operators of the catalog look for different kinds of operations. -/
theorem eq_of_overlaps {operator other : Operator} (h : operator ∈ catalog) (h' : other ∈ catalog)
    {rule rule' : Rule} (hrule : rule ∈ operator.rules) (hrule' : rule' ∈ other.rules)
    (hoverlaps : rule.overlaps rule' = true) : operator = other := by
  have hall : ∀ operator ∈ catalog, ∀ other ∈ catalog, ∀ rule ∈ operator.rules,
      ∀ rule' ∈ other.rules, rule.overlaps rule' = true → operator = other := by
    decide +kernel
  exact hall operator h other h' rule hrule rule' hrule' hoverlaps

/-- **At most one operator of the catalog** has a site in an operation. -/
theorem eq_of_isSite {operator other : Operator} (h : operator ∈ catalog) (h' : other ∈ catalog)
    {operation : Operation} (hsite : operator.isSite operation = true)
    (hsite' : other.isSite operation = true) : operator = other := by
  obtain ⟨rule, hrule, hsite⟩ := List.any_eq_true.mp hsite
  obtain ⟨rule', hrule', hsite'⟩ := List.any_eq_true.mp hsite'
  exact eq_of_overlaps h h' hrule hrule' (Rule.overlaps_of_isSite hsite hsite')

/-- **Operators rewrite their sites and nothing else.** An operator of the catalog that is handed an
operation says that it has rewritten it exactly where it has a site. Otherwise the operation is as
it was; and where it is rewritten, another one stands in its place that writes the same register,
needs nothing new and does not change where control goes on, and a comparison is negated. What is
left there is what mutating puts into a body. No two operators have a site in one operation. -/
theorem rewrites_only_sites (operation : Operation) :
    (∀ operator ∈ catalog,
      ((operator.rewrite operation).1 = true ↔ operator.isSite operation = true) ∧
      ((operator.rewrite operation).1 = false → (operator.rewrite operation).2 = operation) ∧
      ((operator.rewrite operation).1 = true →
        (operator.rewrite operation).2.Replaces operation ∧
          operator.mutate? operation = some (operator.rewrite operation).2)) ∧
    ∀ operator ∈ catalog, ∀ other ∈ catalog, operator.isSite operation = true →
      other.isSite operation = true → operator = other := by
  refine ⟨fun operator h => ?_, fun operator h other h' => eq_of_isSite h h'⟩
  rw [rewrite_eq, isSome_mutate?]
  dsimp only
  refine ⟨Iff.rfl, fun hsite => ?_, fun hsite => ?_⟩
  · rw [← isSome_mutate?, Option.isSome_eq_false_iff, Option.isNone_iff_eq_none] at hsite
    rw [hsite, Option.getD_none]
  · rw [← isSome_mutate?] at hsite
    obtain ⟨mutated, hmutated⟩ := Option.isSome_iff_exists.mp hsite
    rw [hmutated, Option.getD_some]
    exact ⟨replaces_of_mutate? h hmutated, rfl⟩

/-- `rewrites_only_sites` at a comparison, which one operator negates, and at an instruction that
the same operator leaves as it is. -/
theorem rewrites_only_sites_example :
    Example.comparison.operator.rewrite (.compare 2 .slt 0 1) = (true, .compare 2 .sge 0 1) ∧
    Operation.Replaces (.compare 2 .sge 0 1) (.compare 2 .slt 0 1) ∧
    (∀ operator ∈ catalog, operator.isSite (.compare 2 .slt 0 1) = true →
      operator = Example.comparison.operator) ∧
    (Example.comparison.operator.rewrite (.print 2)).2 = .print 2 := by
  have hoperator : Example.comparison.operator ∈ catalog := by decide +kernel
  have hrewrite : Example.comparison.operator.rewrite (.compare 2 .slt 0 1) =
      (true, .compare 2 .sge 0 1) := by decide +kernel
  obtain ⟨hrewrites, hunique⟩ := rewrites_only_sites (.compare 2 .slt 0 1)
  obtain ⟨hsite, -, hreplaces⟩ := hrewrites _ hoperator
  obtain ⟨-, hkept, -⟩ := (rewrites_only_sites (.print 2)).1 _ hoperator
  rw [hrewrite] at hsite hreplaces
  refine ⟨hrewrite, (hreplaces rfl).1, fun operator h h' => ?_, hkept (by decide +kernel)⟩
  exact hunique operator h _ hoperator h' (hsite.mp rfl)

end Operator

end MutationLab
