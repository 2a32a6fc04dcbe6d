import Mathlib.Logic.Relation
import MutationLab.Proofs.Application.Layout
import MutationLab.Proofs.Compilation

/-! # Mutating a function

What mutating an instruction leaves as it is. Operators have sites in operations that fall through
only, and put other such operations in their place, which use no symbol and no other registers. So a
mutated function is still sound (`Point.sound_mutate`) and its compiled form uses no other symbols
than before (`Point.uses_mutate`). The same holds of a function that is mutated at any points, any
number of times (`Function.MutatesTo`). -/

namespace MutationLab

/-- Control goes on behind the operation, and nowhere else. -/
structure Operation.FallsThrough (operation : Operation) : Prop where
  isTerminator : operation.isTerminator = false
  targets : operation.targets = []

/-- A rule replaces an operation that falls through by another one that calls nothing and names no
new register. -/
theorem Rule.of_mutate?_eq_some {rule : Rule} {operation mutated : Operation}
    (h : rule.mutate? operation = some mutated) :
    operation.FallsThrough ∧ mutated.FallsThrough ∧ mutated.callees = [] ∧
      mutated.registers ⊆ operation.registers := by
  unfold mutate? at h
  split at h
  · split at h
    · obtain rfl := Option.some.inj h
      exact ⟨⟨rfl, rfl⟩, ⟨rfl, rfl⟩, rfl, List.Subset.refl _⟩
    · exact nomatch h
  · obtain rfl := Option.some.inj h
    exact ⟨⟨rfl, rfl⟩, ⟨rfl, rfl⟩, rfl, List.Subset.refl _⟩
  · obtain rfl := Option.some.inj h
    exact ⟨⟨rfl, rfl⟩, ⟨rfl, rfl⟩, rfl, by simp [Operation.registers]⟩
  · obtain rfl := Option.some.inj h
    exact ⟨⟨rfl, rfl⟩, ⟨rfl, rfl⟩, rfl, List.nil_subset _⟩
  · exact nomatch h

/-- So does an operator. -/
theorem Operator.of_mutate?_eq_some {operator : Operator} {operation mutated : Operation}
    (h : operator.mutate? operation = some mutated) :
    operation.FallsThrough ∧ mutated.FallsThrough ∧ mutated.callees = [] ∧
      mutated.registers ⊆ operation.registers := by
  obtain ⟨rule, -, hrule⟩ := List.exists_of_findSome?_eq_some h
  exact rule.of_mutate?_eq_some hrule

/-- An operation that calls nothing uses no symbol. -/
theorem Operation.uses_lower_of_callees_eq_nil {operation : Operation} (h : operation.callees = [])
    (mangling : Mangling) (params : Nat) : (operation.lower mangling).uses params = [] := by
  cases operation with
  | call | dispatch => exact nomatch h
  | _ => rfl

namespace Point

/-- **A mutated function is sound** if the function is. -/
theorem sound_mutate (p : Point) {f : Function} (h : f.Sound) : (p.mutate f).Sound := by
  rw [mutate]
  cases hmutated : Subject.mutateAt p.operator p.instruction f.body with
  | none => exact h
  | some body =>
    obtain ⟨i, operation, hi, hoperation, rfl⟩ := Subject.mutateAt_eq_some hmutated
    obtain ⟨hbefore, hafter, -⟩ := p.operator.of_mutate?_eq_some hoperation
    obtain ⟨last, hlast, hterminator⟩ := h.terminated
    rw [List.getLast?_eq_getElem?] at hlast
    -- The last instruction does not fall through, so it is not the one that is mutated.
    have hposition : p.instruction ≠ f.body.length - 1 := by
      intro heq
      rw [heq, hlast] at hi
      obtain rfl := Option.some.inj hi
      rw [hbefore.isTerminator] at hterminator
      exact Bool.false_ne_true hterminator
    constructor
    · refine ⟨last, ?_, hterminator⟩
      rw [Option.getD_some, List.getLast?_eq_getElem?, List.length_set,
        List.getElem?_set_ne hposition, hlast]
    · intro j hj target htarget
      rw [Option.getD_some] at hj ⊢
      rw [List.length_set]
      obtain hj | rfl := List.mem_or_eq_of_mem_set hj
      · exact h.inside j hj target htarget
      · dsimp only at htarget
        rw [hafter.targets] at htarget
        exact absurd htarget List.not_mem_nil

/-- **A mutated function uses no other symbols** than the function. -/
theorem uses_mutate (p : Point) (c : Compilation) (id : ModuleId) (f : Function) :
    (c.function id (p.mutate f)).uses ⊆ (c.function id f).uses := by
  rw [mutate]
  cases hmutated : Subject.mutateAt p.operator p.instruction f.body with
  | none => exact List.Subset.refl _
  | some body =>
    obtain ⟨i, operation, -, hoperation, rfl⟩ := Subject.mutateAt_eq_some hmutated
    obtain ⟨-, -, hcallees, -⟩ := p.operator.of_mutate?_eq_some hoperation
    intro use huse
    obtain ⟨compiled, hcompiled, huse⟩ := List.mem_flatMap.mp huse
    obtain ⟨j, hj, rfl⟩ := List.mem_map.mp hcompiled
    rw [Option.getD_some] at hj
    obtain hj | rfl := List.mem_or_eq_of_mem_set hj
    · exact List.mem_flatMap.mpr ⟨_, List.mem_map_of_mem hj, huse⟩
    · dsimp only at huse
      rw [Operation.uses_lower_of_callees_eq_nil hcallees] at huse
      exact absurd huse List.not_mem_nil

/-- A mutated function names no other registers than the function. -/
theorem exists_mem_registers_of_mutate (p : Point) {f : Function} {i : Instruction}
    (hi : i ∈ (p.mutate f).body) {r : Register} (hr : r ∈ i.operation.registers) :
    ∃ j ∈ f.body, r ∈ j.operation.registers := by
  rw [mutate] at hi
  cases hmutated : Subject.mutateAt p.operator p.instruction f.body with
  | none =>
    rw [hmutated] at hi
    exact ⟨i, hi, hr⟩
  | some body =>
    obtain ⟨j, operation, hj, hoperation, rfl⟩ := Subject.mutateAt_eq_some hmutated
    obtain ⟨-, -, -, hregisters⟩ := p.operator.of_mutate?_eq_some hoperation
    rw [hmutated, Option.getD_some] at hi
    rcases List.mem_or_eq_of_mem_set hi with hi | rfl
    · exact ⟨i, hi, hr⟩
    · exact ⟨j, List.mem_of_getElem? hj, hregisters hr⟩

end Point

/-! ## Mutating a function at several points -/

/-- One function comes from another one by mutating it at points, any number of times. -/
def Function.MutatesTo : Function → Function → Prop :=
  Relation.ReflTransGen fun f g => ∃ p : Point, g = p.mutate f

namespace Function.MutatesTo

variable {f g : Function}

/-- However often a function is mutated at one point. -/
theorem iterate_mutate (p : Point) (count : Nat) (f : Function) :
    f.MutatesTo (p.mutate^[count] f) := by
  induction count with
  | zero => exact .refl
  | succ count ih =>
    rw [Function.iterate_succ_apply']
    exact .tail ih ⟨p, rfl⟩

theorem name_eq (h : f.MutatesTo g) : g.name = f.name := by
  induction h with
  | refl => rfl
  | tail _ hstep ih =>
    obtain ⟨p, rfl⟩ := hstep
    exact ih

theorem params_eq (h : f.MutatesTo g) : g.params = f.params := by
  induction h with
  | refl => rfl
  | tail _ hstep ih =>
    obtain ⟨p, rfl⟩ := hstep
    exact ih

theorem sound (h : f.MutatesTo g) (hf : f.Sound) : g.Sound := by
  induction h with
  | refl => exact hf
  | tail _ hstep ih =>
    obtain ⟨p, rfl⟩ := hstep
    exact p.sound_mutate ih

theorem uses_subset (h : f.MutatesTo g) (c : Compilation) (id : ModuleId) :
    (c.function id g).uses ⊆ (c.function id f).uses := by
  induction h with
  | refl => exact List.Subset.refl _
  | tail _ hstep ih =>
    obtain ⟨p, rfl⟩ := hstep
    exact List.Subset.trans (p.uses_mutate c id _) ih

theorem exists_mem_registers (h : f.MutatesTo g) {i : Instruction} (hi : i ∈ g.body) {r : Register}
    (hr : r ∈ i.operation.registers) : ∃ j ∈ f.body, r ∈ j.operation.registers := by
  induction h generalizing i with
  | refl => exact ⟨i, hi, hr⟩
  | tail _ hstep ih =>
    obtain ⟨p, rfl⟩ := hstep
    obtain ⟨j, hj, hr⟩ := p.exists_mem_registers_of_mutate hi hr
    exact ih hj hr

end Function.MutatesTo

end MutationLab
