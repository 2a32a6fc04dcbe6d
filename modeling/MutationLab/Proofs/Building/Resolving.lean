import Mathlib.Algebra.Group.Nat.Defs
import Mathlib.Data.List.Nodup
import Mathlib.Data.List.Range
import MutationLab.Proofs.Building.History

/-! # Labels and registers of a built function

A builder leaves the targets of jumps open and fills them in at the end. The result does not show
any of that (`Builder.finish_eq`): the body is what the calls emit when every label already stands
for the position it is bound to, wherever it is bound. A label that is never bound is reported, the
first one in the order of the instructions. -/

namespace MutationLab

open Building

/-- Filling in a field of the instruction behind `done`. -/
theorem Fixup.fill?_append (done rest : List Instruction) (i : Instruction) (l : Label)
    (slot : Slot) (position : UInt64) :
    (⟨done.length, l, slot⟩ : Fixup).fill? position (done ++ i :: rest) =
      (i.operation.fill? slot position).map fun operation =>
        done ++ { i with operation } :: rest := by
  rw [fill?, List.getElem?_append_right (Nat.le_refl _), Nat.sub_self, List.getElem?_cons_zero]
  cases h : i.operation.fill? slot position with
  | none => simp [h]
  | some operation => simp [h]

namespace Builder

/-! ## Registers -/

/-- A call that takes a register is handed the next one. -/
theorem register?_perform (b : Builder) (call : BuilderCall) :
    (b.perform call).1.register? = if call.takesRegister then some b.nextRegister else none := by
  cases call with
  | bind l =>
    rw [perform]
    cases b.bind l <;> rfl
  | _ => rfl

/-- **Registers are handed out one after the other.** -/
theorem handedOut_eq (b : Builder) (calls : List BuilderCall) :
    b.handedOut calls =
      (List.range (registerCount calls)).map fun k => b.nextRegister + UInt32.ofNat k := by
  induction calls generalizing b with
  | nil => rfl
  | cons call calls ih =>
    have ih := ih (b.perform call).2
    rw [nextRegister_perform] at ih
    rw [handedOut, answers, List.filterMap_cons, register?_perform]
    -- A call that takes a register leaves the one behind it to the calls that follow.
    cases htakes : call.takesRegister with
    | false =>
      rw [htakes] at ih
      rw [registerCount, List.countP_cons_of_neg (by simp [htakes])]
      exact ih
    | true =>
      rw [htakes] at ih
      rw [registerCount, List.countP_cons_of_pos (by simp [htakes]), List.range_succ_eq_map,
        List.map_cons, List.map_map]
      refine congrArg₂ List.cons (UInt32.add_zero _).symm (ih.trans ?_)
      refine List.map_congr_left fun k _ => ?_
      show b.nextRegister + 1 + UInt32.ofNat k = b.nextRegister + UInt32.ofNat (k + 1)
      rw [UInt32.ofNat_add, UInt32.add_assoc, UInt32.add_comm 1]
      rfl

/-- As long as they last, the registers from the next one on are handed out in order. -/
theorem toNat_handedOut {b : Builder} {calls : List BuilderCall}
    (h : b.nextRegister.toNat + registerCount calls ≤ 2 ^ 32) :
    (b.handedOut calls).map UInt32.toNat =
      List.range' b.nextRegister.toNat (registerCount calls) := by
  rw [handedOut_eq, List.map_map, List.range'_eq_map_range]
  refine List.map_congr_left fun k hk => ?_
  have hlt : b.nextRegister.toNat + k < 2 ^ 32 := by
    have := List.mem_range.mp hk
    omega
  rw [Function.comp_apply, UInt32.toNat_add, UInt32.toNat_ofNat', Nat.add_mod_mod,
    Nat.mod_eq_of_lt hlt]

/-- A register that is handed out is none of a parameter. -/
theorem param?_ne_of_mem_handedOut {name : String} {params : UInt32} {calls : List BuilderCall}
    (h : params.toNat + registerCount calls ≤ 2 ^ 32) {r : Register}
    (hr : r ∈ (new name params).handedOut calls) (index : UInt32) :
    (new name params).param? index ≠ some r := by
  intro hparam
  have hmem : r.toNat ∈ List.range' params.toNat (registerCount calls) :=
    toNat_handedOut (b := new name params) h ▸ List.mem_map_of_mem hr
  have hle : params.toNat ≤ r.toNat := (List.mem_range'_1.mp hmem).1
  rw [param?, Option.ite_none_right_eq_some] at hparam
  obtain ⟨hlt, rfl⟩ : index < params ∧ index = r := by simpa [new] using hparam
  exact absurd (UInt32.lt_iff_toNat_lt.mp hlt) (Nat.not_lt.mpr hle)

/-! ## Filling in -/

namespace Follows

variable {name : String} {params : UInt32} {all : List BuilderCall} {b : Builder}

/-- A field of the instruction behind `done` gets the position of its label, if that is bound. -/
theorem settle?_field (h : Follows name params all b) {l : Label} (hl : l < labelCount all)
    {i : Instruction} {slot : Slot} {filled : UInt64 → Operation}
    (hfilled : ∀ position, i.operation.fill? slot position = some (filled position))
    (done rest : List Instruction) (more : List Fixup) :
    b.settle? (⟨done.length, l, slot⟩ :: more) (done ++ i :: rest) =
      if .bind l ∈ all then
        b.settle? more (done ++ { i with operation := filled (position all l) } :: rest)
      else some (.error (.unboundLabel name l)) := by
  have hlabel := h.getElem?_labels hl
  rw [settle?, position]
  by_cases hmem : .bind l ∈ all
  · obtain ⟨count, hcount⟩ := exists_boundAt hmem
    rw [hcount] at hlabel ⊢
    simp only [hlabel, Fixup.fill?_append, hfilled, if_pos hmem]
    rfl
  · rw [boundAt_of_notMem all hmem] at hlabel
    simp only [hlabel, if_neg hmem, h.name_eq]

/-- The fields that one call left open. -/
theorem settle?_call (h : Follows name params all b) {c : BuilderCall}
    (hc : ∀ l ∈ c.references, l < labelCount all) (fresh : Register) (location : Option Location)
    (done rest : List Instruction) (more : List Fixup) :
    b.settle? (c.fields.map (fun field => ⟨done.length, field.2, field.1⟩) ++ more)
        (done ++ (c.instructions fresh (fun _ => 0) location ++ rest)) =
      match c.references.find? fun l => .bind l ∉ all with
      | some l => some (.error (.unboundLabel name l))
      | none =>
          b.settle? more (done ++ (c.instructions fresh (position all) location ++ rest)) := by
  cases c with
  | jump target =>
    have htarget : target < labelCount all := hc target (List.mem_singleton_self _)
    refine (h.settle?_field htarget (fun _ => rfl) done rest more).trans ?_
    by_cases hmem : .bind target ∈ all <;>
      simp [hmem, BuilderCall.references, BuilderCall.fields, BuilderCall.instructions,
        BuilderCall.operation?]
  | branch cond thenTarget elseTarget =>
    have hthen : thenTarget < labelCount all := hc thenTarget List.mem_cons_self
    have helse : elseTarget < labelCount all :=
      hc elseTarget (List.mem_cons_of_mem _ (List.mem_singleton_self _))
    -- The field of the first target comes first.
    refine (h.settle?_field hthen (fun _ => rfl) done rest _).trans ?_
    by_cases hmem : .bind thenTarget ∈ all
    · rw [if_pos hmem]
      refine (h.settle?_field helse (fun _ => rfl) done rest more).trans ?_
      by_cases hmem' : .bind elseTarget ∈ all <;>
        simp [hmem, hmem', BuilderCall.references, BuilderCall.fields, BuilderCall.instructions,
          BuilderCall.operation?]
    · simp [hmem, BuilderCall.references, BuilderCall.fields]
  | _ => rfl

/-- **Filling in the fields that calls left open** gives the instructions with every label at its
position, or the first label that is not bound. -/
theorem settle?_awaitedFrom (h : Follows name params all b) {calls : List BuilderCall}
    (hcalls : ∀ c ∈ calls, ∀ l ∈ c.references, l < labelCount all) (before : List BuilderCall)
    {done : List Instruction} (hdone : done.length = instructionCount before) :
    b.settle? (awaitedFrom before calls)
        (done ++ emittedFrom params (fun _ => 0) before calls) =
      some (match (references calls).find? fun l => .bind l ∉ all with
        | some l => .error (.unboundLabel name l)
        | none => .ok (done ++ emittedFrom params (position all) before calls)) := by
  induction calls generalizing before done with
  | nil => rfl
  | cons c cs ih =>
    rw [List.forall_mem_cons] at hcalls
    rw [awaitedFrom, emittedFrom, ← hdone, h.settle?_call hcalls.1, references, List.flatMap_cons,
      List.find?_append]
    cases hfind : c.references.find? fun l => .bind l ∉ all with
    | some l => rfl
    | none =>
      have hdone' : (done ++ c.instructions (Building.nextRegister params before) (position all)
          (inForce before)).length = instructionCount (before ++ [c]) := by
        rw [List.length_append, hdone, c.length_instructions, instructionCount_append_singleton]
      rw [Option.none_or, emittedFrom, ← List.append_assoc, ← List.append_assoc]
      exact ih hcalls.2 (before ++ [c]) hdone'

end Follows

/-- What comes of filling in the fields. -/
theorem finish_of_settle? {b : Builder} {filled : Except BuildError (List Instruction)}
    (h : b.settle? b.fixups b.body = some filled) :
    b.finish = filled.map fun body =>
      { name := b.name, params := b.params, body, location := b.declaredAt } := by
  have hfilled : (b.settle? b.fixups b.body).get (b.isSome_settle? b.fits) = filled :=
    Option.get_of_eq_some _ h
  rw [finish, hfilled]
  cases filled <;> rfl

/-- **The function that calls build**, or the first label that is jumped to and never bound. -/
theorem finish_eq (name : String) (params : UInt32) {calls : List BuilderCall}
    (hown : OwnLabels calls) :
    ((new name params).after calls).finish =
      match firstUnbound? calls with
      | some l => .error (.unboundLabel name l)
      | none => .ok
          { name, params
            body := emitted params (position calls) calls
            location := Building.declaredAt calls } := by
  have h := follows_after name params hown
  have hcalls : ∀ c ∈ calls, ∀ l ∈ c.references, l < labelCount calls :=
    fun c hc l hl => hown.lt_of_mem hc (c.references_subset_labels hl)
  have hnone : ([] : List Instruction).length = instructionCount [] := rfl
  have hsettle := h.settle?_awaitedFrom hcalls [] hnone
  rw [List.nil_append, List.nil_append, ← emitted, ← emitted, ← h.body_eq, ← h.fixups_eq] at hsettle
  rw [finish_of_settle? hsettle, h.name_eq, h.params_eq, h.declaredAt_eq, firstUnbound?]
  cases (references calls).find? fun l => .bind l ∉ calls <;> rfl

/-- A function cannot be built exactly when a label is jumped to and never bound. -/
theorem exists_finish_eq_error_iff (name : String) (params : UInt32) {calls : List BuilderCall}
    (hown : OwnLabels calls) :
    (∃ e, ((new name params).after calls).finish = .error e) ↔
      ∃ l ∈ references calls, .bind l ∉ calls := by
  rw [finish_eq name params hown]
  cases hfirst : firstUnbound? calls with
  | none =>
    have hbound := List.find?_eq_none.mp hfirst
    simp only [reduceCtorEq, exists_false, false_iff]
    rintro ⟨l, hl, hmem⟩
    exact hbound l hl (decide_eq_true hmem)
  | some l =>
    have hl := List.mem_of_find?_eq_some hfirst
    have hmem := List.find?_some hfirst
    exact ⟨fun _ => ⟨l, hl, of_decide_eq_true hmem⟩, fun _ => ⟨_, rfl⟩⟩

/-! ## Labels -/

section Labels

variable (name : String) (params : UInt32) {before : List BuilderCall} {l : Label}

/-- The labels are given out in order. -/
theorem perform_label (hown : OwnLabels before) :
    (((new name params).after before).perform .label).1 = .label (labelCount before) := by
  have h := (follows_after name params hown).labels_eq
  show BuilderAnswer.label ((new name params).after before).labels.length = _
  rw [h, List.length_map, List.length_range]

/-- A label is bound once. -/
theorem perform_bind {later : List BuilderCall} (hown : OwnLabels (before ++ .bind l :: later)) :
    ((new name params).after before).perform (.bind l) =
      if .bind l ∈ before then
        (.refused (.labelRebound name l), (new name params).after before)
      else (.done, (new name params).after (before ++ [.bind l])) := by
  have h := follows_after name params hown.of_append
  have hlabel := h.getElem?_labels (hown.lt_of_append_cons (List.mem_singleton_self l))
  split
  · rename_i hmem
    obtain ⟨count, hcount⟩ := exists_boundAt hmem
    rw [perform_bind_of_bound (hlabel.trans (congrArg some hcount)), h.name_eq]
  · rename_i hmem
    rw [boundAt_of_notMem before hmem] at hlabel
    rw [after_append, after, after, perform_bind_of_unbound hlabel]

end Labels

/-- **A builder resolves labels and registers.** -/
theorem resolves_labels_and_registers (name : String) (params : UInt32) (calls : List BuilderCall)
    (hown : OwnLabels calls) :
    -- Registers are handed out in order behind the parameters, as long as they last.
    (params.toNat + registerCount calls ≤ 2 ^ 32 →
      ((new name params).handedOut calls).map UInt32.toNat =
        List.range' params.toNat (registerCount calls) ∧
      ((new name params).handedOut calls).Nodup ∧
      ∀ r ∈ (new name params).handedOut calls, ∀ index, (new name params).param? index ≠ some r) ∧
    -- Labels are given out in order.
    (∀ before later, calls = before ++ .label :: later →
      (((new name params).after before).perform .label).1 = .label (labelCount before)) ∧
    -- Binding fails on a label that is bound, and only then, and changes nothing.
    (∀ before l later, calls = before ++ .bind l :: later →
      (.bind l ∈ before → ((new name params).after before).perform (.bind l) =
        (.refused (.labelRebound name l), (new name params).after before)) ∧
      (.bind l ∉ before → (((new name params).after before).perform (.bind l)).1 = .done ∧
        position calls l = UInt64.ofNat (instructionCount before))) ∧
    -- A label that is jumped to and never bound makes the function fail, and nothing else does.
    ((∃ e, ((new name params).after calls).finish = .error e) ↔
      ∃ l ∈ references calls, .bind l ∉ calls) ∧
    ((new name params).after calls).finish =
      match firstUnbound? calls with
      | some l => .error (.unboundLabel name l)
      | none => .ok
          { name, params
            body := emitted params (position calls) calls
            location := Building.declaredAt calls } := by
  refine ⟨fun hlast => ?_, ?_, ?_, exists_finish_eq_error_iff name params hown,
    finish_eq name params hown⟩
  · have hregisters := toNat_handedOut (b := new name params) hlast
    refine ⟨hregisters, List.Nodup.of_map UInt32.toNat ?_, fun r hr => ?_⟩
    · rw [hregisters]
      exact List.nodup_range'
    · exact param?_ne_of_mem_handedOut hlast hr
  · rintro before later rfl
    exact perform_label name params hown.of_append
  · rintro before l later rfl
    rw [perform_bind name params hown, position]
    refine ⟨fun hmem => if_pos hmem, fun hmem => ?_⟩
    rw [if_neg hmem, boundAt_append_cons hmem]
    exact ⟨rfl, rfl⟩

/-- A loop with a label bound before its jump and two that are bound behind theirs. -/
def Example.countdown : List BuilderCall :=
  [.label, .label, .label, .setLocation ⟨"count.c", 3, 1⟩, .constant 0, .bind 0,
    .compare .sgt 0 1, .branch 2 2 1, .bind 2, .clearLocation, .jump 0, .bind 0, .bind 1,
    .ret (some 1)]

theorem resolves_labels_and_registers_example :
    OwnLabels Example.countdown ∧
    ((new "count" 1).handedOut Example.countdown).map UInt32.toNat = [1, 2] ∧
    ((new "count" 1).after Example.countdown).finish = .ok
      { name := "count", params := 1
        body := [
          { operation := .const 1 0, location := some ⟨"count.c", 3, 1⟩ },
          { operation := .compare 2 .sgt 0 1, location := some ⟨"count.c", 3, 1⟩ },
          { operation := .branch 2 3 4, location := some ⟨"count.c", 3, 1⟩ },
          { operation := .jump 1 },
          { operation := .return (some 1) }]
        location := some ⟨"count.c", 3, 1⟩ } := by
  have hown : OwnLabels Example.countdown := by decide
  have h := resolves_labels_and_registers "count" 1 Example.countdown hown
  refine ⟨hown, (h.1 (by decide)).1, ?_⟩
  rw [h.2.2.2.2]
  decide

end Builder

end MutationLab
