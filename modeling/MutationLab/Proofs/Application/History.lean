import MutationLab.Operator.Catalog
import MutationLab.Proofs.Application.Reachable

/-! # The history of a module decides its code

Whatever calls are made on a module, in any order and with any failures, what stands in it
afterwards is known from the points that were registered and applied: `module_after` gives the whole
module at every stage. -/

namespace MutationLab

namespace Example

/-- A module of two functions that are mutated and two that call them. -/
def arithmetic : Module where
  name := "arithmetic.c"
  functions := [
    { name := "sum"
      params := 2
      body := [
        { operation := .binary 2 .add 0 1 },
        { operation := .return (some 2) }] },
    { name := "difference"
      params := 2
      body := [
        { operation := .binary 2 .sub 0 1 },
        { operation := .return (some 2) }] },
    { name := "main"
      params := 0
      body := [
        { operation := .const 0 7 },
        { operation := .const 1 5 },
        { operation := .call (some 2) "sum" [0, 1] },
        { operation := .return (some 2) }] },
    { name := "test_difference"
      params := 0
      body := [
        { operation := .const 0 5 },
        { operation := .const 1 5 },
        { operation := .call (some 2) "difference" [0, 1] },
        { operation := .return (some 2) }] }]

/-- The addition in `sum` becomes a subtraction. -/
def addition : Point where
  operator := Operator.swapping "add_to_sub" "+" "-" [.swap .add .sub]
  module := 0
  moduleName := "arithmetic.c"
  function := "sum"
  instruction := 0

/-- The subtraction in `difference` becomes an addition. -/
def subtraction : Point where
  operator := Operator.swapping "sub_to_add" "-" "+" [.swap .sub .add]
  module := 0
  moduleName := "arithmetic.c"
  function := "difference"
  instruction := 0

/-- Calls of which some come too early and some too late. -/
def calls : List Call :=
  [.excise, .register addition, .register subtraction, .clone, .register addition, .excise,
    .redirect, .apply subtraction, .clone, .apply addition, .apply addition]

end Example

namespace Subject

/-- **The code of a module after any calls.** Start from a module whose functions have distinct
names, and make any calls that apply registered points only. The stage never goes back, and it is
the first one exactly when no point is registered. The code is the layout of the registered and
applied points at that stage, in which behind copying every mutated function is a loaded one and no
name stands twice. Nothing is applied before the last stage. The copy of a point differs from the
loaded function at the position of the point only, and each time it was applied the operator had a
site there. -/
theorem module_after (id : ModuleId) (loaded : Module) (hnames : loaded.functionNames.Nodup)
    (calls : List Call)
    (happlied : ∀ p ∈ (ofModule id loaded).applied calls,
      p ∈ (ofModule id loaded).registered calls) :
    let subject := (ofModule id loaded).after calls
    let registered := (ofModule id loaded).registered calls
    let applied := (ofModule id loaded).applied calls
    (∀ earlier later, calls = earlier ++ later →
      ((ofModule id loaded).after earlier).stage.rank ≤ subject.stage.rank) ∧
    (subject.stage = .pristine ↔ registered = []) ∧
    subject.module =
      { loaded with functions := Layout.functions loaded registered applied subject.stage } ∧
    (Stage.registered.rank < subject.stage.rank → Layout.Fresh loaded registered) ∧
    (subject.stage ≠ .applied → applied = []) ∧
    ∀ p ∈ registered, ∀ f, loaded.function? p.function = some f →
      (∀ count < applied.count p,
        (mutateAt p.operator p.instruction (p.mutate^[count] f).body).isSome) ∧
      ∀ position, position ≠ p.instruction →
        (p.mutate^[applied.count p] f).body[position]? = f.body[position]? := by
  intro subject registered applied
  have hreached : Reached id loaded registered applied subject :=
    (Reached.ofModule id loaded).after hnames happlied
  refine ⟨?_, hreached.stage_eq_pristine, hreached.module_eq, hreached.fresh,
    hreached.applied_eq_nil, ?_⟩
  · rintro earlier later hcalls
    have hafter : subject = ((ofModule id loaded).after earlier).after later := by
      rw [← after_append, ← hcalls]
    rw [hafter]
    exact rank_le_after _ later
  · intro p hp f hf
    exact ⟨hreached.sites p hp f hf, fun position hposition =>
      p.getElem?_body_iterate_mutate f _ hposition⟩

/-- `module_after` at a module that goes through all stages. -/
theorem module_after_example :
    ((ofModule 0 Example.arithmetic).after Example.calls).module =
      { Example.arithmetic with
        functions := Layout.functions Example.arithmetic [Example.addition, Example.subtraction]
          [Example.subtraction, Example.addition] .applied } := by
  have hstage : ((ofModule 0 Example.arithmetic).after Example.calls).stage = .applied := by
    decide +kernel
  have hregistered : (ofModule 0 Example.arithmetic).registered Example.calls =
      [Example.addition, Example.subtraction] := by
    decide +kernel
  have happlied : (ofModule 0 Example.arithmetic).applied Example.calls =
      [Example.subtraction, Example.addition] := by
    decide +kernel
  obtain ⟨-, -, hmodule, -⟩ := module_after 0 Example.arithmetic (by decide) Example.calls
    (by rw [hregistered, happlied]; decide +kernel)
  rw [hmodule, hstage, hregistered, happlied]

end Subject

end MutationLab
