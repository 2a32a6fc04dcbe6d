import MutationLab.Proofs.Application.History
import MutationLab.Proofs.Lookup

/-! # A refused call changes nothing

Two steps write before they know that they will be done. Cutting out removes functions one after
the other and may miss one; mutating hands the instruction of a copy to an operator, which changes
it where it stands and says afterwards whether it had a site. Neither leaves a trace when it is
refused: an operator without a site writes nothing (`Operator.rewrite_eq`, `applyInPlace_eq`), and
once the functions are copied every pending name can be removed (`Removable.exists_removeAll`). So
`refused_calls_change_nothing` holds after any calls on any module, also on one whose functions
share names. -/

namespace MutationLab

/-- A module in which every name is defined twice. -/
def Example.doubled : Module :=
  { arithmetic with functions := arithmetic.functions ++ arithmetic.functions }

/-! ## Rewriting an instruction where it stands -/

/-- Change an operation in place; the answer says whether the rule had a site. -/
def Rule.rewrite (rule : Rule) (operation : Operation) : Bool × Operation :=
  if rule.isSite operation then
    match rule, operation with
    | swap _ replacement, .binary dst _ lhs rhs => (true, .binary dst replacement lhs rhs)
    | negate, .compare dst predicate lhs rhs => (true, .compare dst predicate.negated lhs rhs)
    | replaceCall value, .call (some dst) _ _ => (true, .const dst value)
    | replaceCall _, .call none callee args => (true, .call none callee args)
    | removeCall, .call .. => (true, .nop)
    | _, _ => (false, operation)
  else (false, operation)

/-- Try rules in place, one after the other, until one had a site. -/
def Rule.rewriteFirst : List Rule → Operation → Bool × Operation
  | [], operation => (false, operation)
  | rule :: rules, operation =>
      match rule.rewrite operation with
      | (true, operation) => (true, operation)
      | (false, operation) => rewriteFirst rules operation

/-- Change an operation in place; the answer says whether the operator had a site. -/
def Operator.rewrite (operator : Operator) (operation : Operation) : Bool × Operation :=
  Rule.rewriteFirst operator.rules operation

/-- A rule writes exactly where it has a site. -/
theorem Rule.rewrite_eq (rule : Rule) (operation : Operation) :
    rule.rewrite operation =
      ((rule.mutate? operation).isSome, (rule.mutate? operation).getD operation) := by
  rw [isSome_mutate?]
  unfold rewrite
  cases hsite : rule.isSite operation with
  | false =>
    have hnone : rule.mutate? operation = none := by
      rw [← Option.not_isSome_iff_eq_none, isSome_mutate?, hsite]
      exact Bool.false_ne_true
    rw [hnone]
    rfl
  | true =>
    rw [if_pos rfl]
    unfold isSite at hsite
    split at hsite
    · obtain rfl := of_decide_eq_true hsite
      simp [mutate?]
    · rfl
    · rename_i dst _ _
      obtain ⟨register, rfl⟩ := Option.isSome_iff_exists.mp hsite
      rfl
    · rename_i dst _ _
      obtain rfl := Option.isNone_iff_eq_none.mp hsite
      rfl
    · exact absurd hsite Bool.false_ne_true

/-- **An operator writes exactly where it has a site.** Where it has none, the operation is as it
was. -/
theorem Operator.rewrite_eq (operator : Operator) (operation : Operation) :
    operator.rewrite operation =
      ((operator.mutate? operation).isSome, (operator.mutate? operation).getD operation) := by
  rw [rewrite, mutate?]
  induction operator.rules with
  | nil => rfl
  | cons rule rules ih =>
    rw [Rule.rewriteFirst, rule.rewrite_eq, List.findSome?_cons]
    cases hrule : rule.mutate? operation with
    | none => exact ih
    | some mutated => rfl

/-- Changing the first function of a name to itself changes nothing. -/
theorem Module.modify_eq_self {m : Module} {name : String} {f : Function}
    {change : Function → Function} (hf : m.function? name = some f) (hchange : change f = f) :
    m.modify name change = m := by
  obtain ⟨title, fs⟩ := m
  rw [function?] at hf
  rw [modify, Module.mk.injEq]
  refine ⟨rfl, ?_⟩
  dsimp only at hf ⊢
  induction fs with
  | nil => rfl
  | cons g fs ih =>
    rw [modifyFirst]
    by_cases hname : g.name = name
    · rw [List.find?_cons_of_pos (by simpa using hname)] at hf
      obtain rfl := Option.some.inj hf
      rw [if_pos hname, hchange]
    · rw [List.find?_cons_of_neg (by simpa using hname)] at hf
      rw [if_neg hname, ih hf]

namespace Subject

/-- Change one instruction of a body in place; the answer says whether there was a site. -/
def rewriteAt (operator : Operator) (position : Nat) (body : List Instruction) :
    Bool × List Instruction :=
  match body[position]? with
  | none => (false, body)
  | some instruction =>
      let (applied, operation) := operator.rewrite instruction.operation
      (applied, body.set position { instruction with operation })

/-- Mutate the copy of a point in place, and only then see whether there was a site. -/
def applyInPlace (s : Subject) (p : Point) : Outcome Unit :=
  if p.module ≠ s.id then s.refuse (.foreignPoint p.id s.module.name)
  else if s.stage ≠ .redirected ∧ s.stage ≠ .applied then s.outOfOrder "apply a mutation"
  else
    match s.module.function? p.cloneName with
    | none => s.refuse (.missingFunction s.module.name p.cloneName)
    | some copy =>
        let (applied, body) := rewriteAt p.operator p.instruction copy.body
        let written :=
          { s with module := s.module.modify p.cloneName fun f => { f with body } }
        if applied then (.ok (), { written with stage := .applied })
        else written.refuse (.notApplicable p.id)

/-- A body is written exactly where it can be mutated. -/
theorem rewriteAt_eq (operator : Operator) (position : Nat) (body : List Instruction) :
    rewriteAt operator position body =
      ((mutateAt operator position body).isSome, (mutateAt operator position body).getD body) := by
  rw [rewriteAt, mutateAt]
  cases hinstruction : body[position]? with
  | none => rfl
  | some instruction =>
    dsimp only
    rw [operator.rewrite_eq, Option.bind_eq_bind, Option.bind_some]
    cases operator.mutate? instruction.operation with
    | some operation => rfl
    | none =>
      -- The instruction is put back as it was.
      obtain ⟨hlt, hget⟩ := List.getElem?_eq_some_iff.mp hinstruction
      have hset : body.set position instruction = body := by rw [← hget, List.set_getElem_self]
      exact Prod.ext rfl hset

/-- **Mutating in place is mutating.** What is written before a refusal is what stood there. -/
theorem applyInPlace_eq (s : Subject) (p : Point) : s.applyInPlace p = s.apply p := by
  rw [applyInPlace, apply]
  refine if_congr Iff.rfl rfl (if_congr Iff.rfl rfl ?_)
  cases hcopy : s.module.function? p.cloneName with
  | none => rfl
  | some copy =>
    dsimp only
    rw [rewriteAt_eq]
    cases mutateAt p.operator p.instruction copy.body with
    | some body => rfl
    | none =>
      have hmodule : s.module.modify p.cloneName (fun f => { f with body := copy.body }) =
          s.module := Module.modify_eq_self hcopy rfl
      dsimp only [Option.isSome_none, Option.getD_none]
      rw [hmodule]
      rfl

/-! ## Cutting out -/

/-- A function stays when a function of another name is removed. -/
theorem mem_functionNames_remove {m : Module} {name other : String} (hne : name ≠ other)
    (h : name ∈ m.functionNames) : name ∈ (m.remove other).functionNames := by
  obtain ⟨f, hf, rfl⟩ := List.mem_map.mp h
  refine List.mem_map_of_mem ((List.mem_eraseP_of_neg ?_).mpr hf)
  rwa [decide_eq_true_iff]

/-- Distinct names that are all defined can be removed one after the other, however often a module
defines them. -/
theorem exists_removeAll_eq_ok (s : Subject) {names : List String} (hnodup : names.Nodup)
    (hdefined : ∀ name ∈ names, name ∈ s.module.functionNames) :
    ∃ t, s.removeAll names = (.ok (), t) := by
  induction names generalizing s with
  | nil => exact ⟨s, rfl⟩
  | cons name names ih =>
    rw [List.nodup_cons] at hnodup
    rw [List.forall_mem_cons] at hdefined
    rw [removeAll, if_pos (Module.defines_iff.mpr hdefined.1)]
    exact ih _ hnodup.2 fun other hother =>
      mem_functionNames_remove (fun heq => hnodup.1 (heq ▸ hother)) (hdefined.2 other hother)

/-- Only functions that are there are copied. -/
theorem mem_functionNames_of_allCopies_eq_ok {m : Module} {pending : Pending}
    {fs : List Function} (h : allCopies m pending = .ok fs) :
    ∀ name ∈ pending.map Prod.fst, name ∈ m.functionNames := by
  induction pending generalizing fs with
  | nil => exact fun name hname => absurd hname List.not_mem_nil
  | cons entry rest ih =>
    obtain ⟨first, hfirst, h⟩ := bind_eq_ok_iff.mp h
    obtain ⟨others, hothers, -⟩ := bind_eq_ok_iff.mp h
    rw [List.map_cons, List.forall_mem_cons]
    refine ⟨?_, ih hothers⟩
    rw [copies] at hfirst
    split at hfirst
    · cases hfirst
    · rename_i source hsource
      obtain ⟨hmem, hname⟩ := Module.mem_of_function?_eq_some hsource
      rw [← hname]
      exact List.mem_map_of_mem hmem

/-- Names are pending once each, ascending, and just behind copying they are all defined. -/
structure Removable (s : Subject) : Prop where
  ascending : (s.pending.map Prod.fst).Pairwise (· < ·)
  defined : s.stage = .cloned → ∀ name ∈ s.pending.map Prod.fst, name ∈ s.module.functionNames

namespace Removable

variable {s : Subject}

/-- Nothing is pending in a module as it is loaded. -/
theorem ofModule (id : ModuleId) (loaded : Module) : Removable (.ofModule id loaded) :=
  ⟨List.Pairwise.nil, fun hstage => nomatch hstage⟩

/-- Just behind copying, the pending names can be removed. -/
theorem exists_removeAll (h : s.Removable) (hstage : s.stage = .cloned) :
    ∃ t, s.removeAll (s.pending.map Prod.fst) = (.ok (), t) :=
  s.exists_removeAll_eq_ok (h.ascending.imp fun hlt => ne_of_lt hlt) (h.defined hstage)

/-- A refused call changes nothing. -/
theorem perform_eq_error (h : s.Removable) {call : Call} {e : ApplicationError} {t : Subject}
    (hcall : s.perform call = (.error e, t)) : t = s := by
  obtain hsame | ⟨-, hstage, hfailed⟩ := Subject.perform_eq_error hcall
  · exact hsame
  · obtain ⟨u, hu⟩ := h.exists_removeAll hstage
    rw [hu, Prod.mk.injEq] at hfailed
    exact nomatch hfailed.1

/-- Every call keeps the pending names removable. -/
theorem perform (h : s.Removable) (call : Call) : (s.perform call).2.Removable := by
  rcases hanswer : s.perform call with ⟨answer | ⟨⟩, t⟩
  · rwa [h.perform_eq_error hanswer]
  · -- Only registering changes what is pending, and only cutting out removes functions.
    cases call with
    | register p =>
      obtain ⟨-, -, rfl⟩ := register_eq_ok hanswer
      have hkey : ∀ entry : String × List Point, (entry.1, entry.2 ++ [p]).1 = entry.1 :=
        fun _ => rfl
      refine ⟨?_, fun hstage => nomatch hstage⟩
      dsimp only
      rw [Pending.add_eq_upsert]
      exact pairwise_map_key_upsert hkey h.ascending
    | clone =>
      obtain ⟨names, hclone⟩ := of_perform_clone_eq_ok hanswer
      obtain ⟨-, rfl⟩ | ⟨-, -, fs, hfs, rfl⟩ := clone_eq_ok hclone
      · exact h
      · refine ⟨h.ascending, fun _ name hname => ?_⟩
        rw [Module.functionNames_append]
        exact List.mem_append_left _ (mem_functionNames_of_allCopies_eq_ok hfs name hname)
    | excise =>
      obtain ⟨-, rfl⟩ | ⟨-, -, u, hu, rfl⟩ := excise_eq_ok hanswer
      · exact h
      · obtain ⟨fs, rfl⟩ := of_removeAll_eq hu
        exact ⟨h.ascending, fun hstage => nomatch hstage⟩
    | redirect =>
      obtain ⟨-, rfl⟩ | ⟨-, -, fs, -, rfl⟩ := redirect_eq_ok hanswer
      · exact h
      · exact ⟨h.ascending, fun hstage => nomatch hstage⟩
    | apply p =>
      obtain ⟨-, -, copy, body, -, -, rfl⟩ := apply_eq_ok hanswer
      exact ⟨h.ascending, fun hstage => nomatch hstage⟩

/-- So do any calls. -/
theorem after (h : s.Removable) (calls : List Call) : (s.after calls).Removable := by
  induction calls generalizing s with
  | nil => exact h
  | cons call calls ih => exact ih (h.perform call)

/-- Refused calls can be left out. -/
theorem after_accepted (h : s.Removable) (calls : List Call) :
    s.after (s.accepted calls) = s.after calls := by
  induction calls generalizing s with
  | nil => rfl
  | cons call calls ih =>
    rw [accepted_cons, after_cons, ← ih (h.perform call)]
    rcases hanswer : s.perform call with ⟨answer | ⟨⟩, t⟩
    · obtain rfl := h.perform_eq_error hanswer
      rfl
    · simp only [Except.isOk, Except.toBool, if_true]
      rw [after_cons, hanswer]

/-- Cutting out is refused only for its stage, before anything is removed. -/
theorem excise_eq_error_iff (h : s.Removable) {e : ApplicationError} {t : Subject} :
    s.excise = (.error e, t) ↔ s.pending ≠ [] ∧ s.stage ≠ .cloned ∧ t = s ∧
      e = .outOfOrder s.module.name "delete original functions" s.stage := by
  rw [excise]
  by_cases hpending : s.pending = []
  · simp [hpending]
  · rw [if_neg (by rwa [List.isEmpty_iff])]
    by_cases hstage : s.stage = .cloned
    · obtain ⟨u, hu⟩ := h.exists_removeAll hstage
      rw [if_neg (not_not.mpr hstage), hu]
      simp [hstage]
    · rw [if_pos hstage, outOfOrder, refuse, Prod.mk.injEq, Except.error.injEq]
      constructor
      · rintro ⟨rfl, rfl⟩
        exact ⟨hpending, hstage, rfl, rfl⟩
      · rintro ⟨-, -, rfl, rfl⟩
        exact ⟨rfl, rfl⟩

end Removable

/-- **Refused calls change nothing.** Make any calls on a module as it is loaded, in any order and
with any points. Whatever call is then refused, also mutating in place, leaves the code, the stage
and the pending points as they were. Cutting out is refused exactly when points are pending and the
functions are not just copied, so never after a function has been removed. The refused calls among
those made can be left out. -/
theorem refused_calls_change_nothing (id : ModuleId) (loaded : Module) (calls : List Call) :
    let subject := (ofModule id loaded).after calls
    (∀ call e t, subject.perform call = (.error e, t) → t = subject) ∧
    (∀ p e t, subject.applyInPlace p = (.error e, t) → t = subject) ∧
    (∀ e t, subject.excise = (.error e, t) ↔ subject.pending ≠ [] ∧ subject.stage ≠ .cloned ∧
      t = subject ∧
      e = .outOfOrder subject.module.name "delete original functions" subject.stage) ∧
    subject = (ofModule id loaded).after ((ofModule id loaded).accepted calls) := by
  intro subject
  have hloaded : (ofModule id loaded).Removable := Removable.ofModule id loaded
  have hremovable : subject.Removable := hloaded.after calls
  refine ⟨fun call e t hcall => hremovable.perform_eq_error hcall, fun p e t hcall => ?_,
    fun e t => hremovable.excise_eq_error_iff, (hloaded.after_accepted calls).symm⟩
  rw [applyInPlace_eq] at hcall
  have hperform : subject.perform (.apply p) = (.error e, t) := hcall
  exact hremovable.perform_eq_error hperform

/-- `refused_calls_change_nothing` where the name of a function that was cut out is still defined,
so that redirecting is refused. -/
theorem refused_calls_change_nothing_example :
    let subject := (ofModule 0 Example.doubled).after [.register Example.addition, .clone, .excise]
    subject.perform .redirect = (.error (.nameCollision "arithmetic.c" "sum"), subject) := by
  intro subject
  have hanswer : (subject.perform .redirect).1 =
      .error (.nameCollision "arithmetic.c" "sum") := by
    decide +kernel
  obtain ⟨hrefused, -⟩ := refused_calls_change_nothing 0 Example.doubled
    [.register Example.addition, .clone, .excise]
  exact Prod.ext hanswer (hrefused .redirect _ _ (Prod.ext hanswer rfl))

end Subject

end MutationLab
