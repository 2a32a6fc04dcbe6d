import MutationLab.Proofs.Building.Resolving
import MutationLab.Proofs.Compilation

/-! # Jumps out of a built function

A label stands for the next instruction, and there may be none: a label that is bound behind the
last instruction counts as bound, and the function is built with a jump out of its body. This is the
only way to such a jump (`Builder.dangles_iff_bound_behind_body`), and compiling finds it when
the body ends with a terminator. -/

namespace MutationLab

namespace Function

/-- A jump out of the body is what is wrong with a function whose body ends as it should. -/
theorem exists_branchOutOfRange_iff {f : Function} {module : String} :
    (∃ position target,
      f.fault? module = some (.branchOutOfRange module f.name position target)) ↔
      (∃ last, f.body.getLast? = some last ∧ last.operation.isTerminator = true) ∧
        ∃ i ∈ f.body, ∃ target ∈ i.operation.targets, f.body.length ≤ target.toNat := by
  rw [fault?]
  cases hlast : f.body.getLast? with
  | none => simp
  | some last =>
    by_cases hterminator : last.operation.isTerminator = true
    · have hstray : strayJump? f.body.length 0 f.body ≠ none ↔
          ∃ i ∈ f.body, ∃ target ∈ i.operation.targets, f.body.length ≤ target.toNat := by
        rw [ne_eq, strayJump?_eq_none_iff]
        simp only [not_forall, Nat.not_lt, exists_prop]
      rw [← hstray]
      cases strayJump? f.body.length 0 f.body <;> simp [hterminator]
    · simp [hterminator]

end Function

open Building

namespace BuilderCall

/-- An instruction jumps where its labels stand. -/
theorem targets_instructions (c : BuilderCall) (fresh : Register) (position : Label → UInt64)
    (location : Option Location) :
    (c.instructions fresh position location).flatMap (·.operation.targets) =
      c.references.map position := by
  cases c <;> rfl

end BuilderCall

namespace Building

variable {calls : List BuilderCall} {l : Label}

/-- **The jumps of a body, in order.** -/
theorem targets_emittedFrom (params : UInt32) (position : Label → UInt64)
    (before calls : List BuilderCall) :
    (emittedFrom params position before calls).flatMap (·.operation.targets) =
      (references calls).map position := by
  induction calls generalizing before with
  | nil => rfl
  | cons c cs ih =>
    rw [emittedFrom, List.flatMap_append, c.targets_instructions, ih, references, references,
      List.flatMap_cons, List.map_append]

/-- A label is bound behind at most all instructions. -/
theorem boundAt_le {count : Nat} (h : boundAt calls l = some count) :
    count ≤ instructionCount calls := by
  rw [boundAt, Option.ite_none_right_eq_some, Option.some.injEq] at h
  rw [← h.2]
  exact (List.takeWhile_sublist _).countP_le

/-- The position of a label, in a body that is not too long. -/
theorem toNat_position (hsize : instructionCount calls < 2 ^ 64) {count : Nat}
    (h : boundAt calls l = some count) : (position calls l).toNat = count := by
  rw [position, h, Option.getD_some]
  exact UInt64.toNat_ofNat_of_lt' (Nat.lt_of_le_of_lt (boundAt_le h) hsize)

end Building

namespace Builder

/-- What is built jumps to bound labels. -/
theorem targets_of_finish {name : String} {params : UInt32} {calls : List BuilderCall}
    (hown : OwnLabels calls) {f : Function}
    (hf : ((new name params).after calls).finish = .ok f) :
    f.body.length = instructionCount calls ∧
      f.body.flatMap (·.operation.targets) = (references calls).map (position calls) ∧
      ∀ l ∈ references calls, .bind l ∈ calls := by
  rw [finish_eq name params hown] at hf
  cases hfirst : firstUnbound? calls with
  | some l =>
    rw [hfirst] at hf
    exact nomatch hf
  | none =>
    rw [hfirst] at hf
    obtain rfl := Except.ok.inj hf
    refine ⟨length_emittedFrom .., targets_emittedFrom .., fun l hl => ?_⟩
    simpa using List.find?_eq_none.mp hfirst l hl

/-- **A built function jumps out of its body exactly when a label that it jumps to is bound behind
its last instruction.** The jump is then to the end of the body. Compiling finds it as long as the
body ends with a terminator. -/
theorem dangles_iff_bound_behind_body (name : String) (params : UInt32) (calls : List BuilderCall)
    (hown : OwnLabels calls) (hsize : instructionCount calls < 2 ^ 64) (f : Function)
    (hf : ((new name params).after calls).finish = .ok f) :
    (∀ i ∈ f.body, ∀ target ∈ i.operation.targets, target.toNat ≤ f.body.length) ∧
    ((∃ i ∈ f.body, ∃ target ∈ i.operation.targets, f.body.length ≤ target.toNat) ↔
      ∃ l ∈ references calls, boundAt calls l = some (instructionCount calls)) ∧
    ∀ module, (∃ position target,
      f.fault? module = some (.branchOutOfRange module f.name position target)) ↔
        (∃ last, f.body.getLast? = some last ∧ last.operation.isTerminator = true) ∧
          ∃ l ∈ references calls, boundAt calls l = some (instructionCount calls) := by
  obtain ⟨hlength, htargets, hbound⟩ := targets_of_finish hown hf
  -- The targets are the positions of the labels that are jumped to.
  have htarget : ∀ target, (∃ i ∈ f.body, target ∈ i.operation.targets) ↔
      ∃ l ∈ references calls, position calls l = target := by
    intro target
    rw [← List.mem_flatMap, htargets, List.mem_map]
  have hdangles : (∃ i ∈ f.body, ∃ target ∈ i.operation.targets, f.body.length ≤ target.toNat) ↔
      ∃ l ∈ references calls, boundAt calls l = some (instructionCount calls) := by
    constructor
    · rintro ⟨i, hi, target, hmem, hle⟩
      obtain ⟨l, hl, rfl⟩ := (htarget target).mp ⟨i, hi, hmem⟩
      obtain ⟨count, hcount⟩ := exists_boundAt (hbound l hl)
      rw [toNat_position hsize hcount, hlength] at hle
      exact ⟨l, hl, hcount.trans (congrArg some (Nat.le_antisymm (boundAt_le hcount) hle))⟩
    · rintro ⟨l, hl, hcount⟩
      obtain ⟨i, hi, hmem⟩ := (htarget _).mpr ⟨l, hl, rfl⟩
      refine ⟨i, hi, position calls l, hmem, ?_⟩
      rw [hlength, toNat_position hsize hcount]
  refine ⟨?_, hdangles, fun module => ?_⟩
  · intro i hi target hmem
    obtain ⟨l, hl, rfl⟩ := (htarget target).mp ⟨i, hi, hmem⟩
    obtain ⟨count, hcount⟩ := exists_boundAt (hbound l hl)
    rw [toNat_position hsize hcount, hlength]
    exact boundAt_le hcount
  · rw [Function.exists_branchOutOfRange_iff, hdangles]

/-- A jump to a label that is bound behind it, and nothing else. -/
def Example.jumpOff : List BuilderCall := [.label, .jump 0, .bind 0]

theorem dangles_iff_bound_behind_body_example :
    ∃ f, ((new "f" 0).after Example.jumpOff).finish = .ok f ∧
      ∃ position target,
        f.fault? "m" = some (.branchOutOfRange "m" f.name position target) := by
  have hfinish : ((new "f" 0).after Example.jumpOff).finish =
      .ok { name := "f", params := 0, body := [{ operation := .jump 1 }] } := by decide
  refine ⟨_, hfinish, ?_⟩
  have h := dangles_iff_bound_behind_body "f" 0 Example.jumpOff (by decide) (by decide) _ hfinish
  exact (h.2.2 "m").mpr ⟨⟨_, rfl, rfl⟩, 0, by decide⟩

/-- A label with no instruction behind it passes for bound, and the function does not compile. -/
theorem finishes_with_dangling_jump :
    OwnLabels Example.jumpOff ∧
    ∃ f, ((new "f" 0).after Example.jumpOff).finish = .ok f ∧
      (∃ i ∈ f.body, ∃ target ∈ i.operation.targets, ¬target.toNat < f.body.length) ∧
      f.fault? "m" = some (.branchOutOfRange "m" "f" 0 1) := by
  refine ⟨by decide, { name := "f", params := 0, body := [{ operation := .jump 1 }] }, ?_⟩
  decide

end Builder

end MutationLab
