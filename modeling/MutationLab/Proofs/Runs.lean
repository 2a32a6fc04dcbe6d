import MutationLab.Pipeline
import MutationLab.Proofs.Pools

/-! # What parts of a run come to

A part of a run comes to an answer, or it fails for a reason (`Run.Comes`). This says what it does
for its caller and leaves out everything that depends on how work is dealt out: the messages that
are no errors, the counts in the text of an error, and whether a worker was torn down or lost its
items. Parts are chained by `Run.Comes.bind`. A stage in which nothing goes wrong comes to the
outputs of all inputs; if items get lost it fails its count, however many workers there are. -/

namespace MutationLab

/-- Why a run fails, as far as this does not depend on how work is dealt out. -/
inductive Failure where
  /-- Object files do not link. -/
  | link (e : LinkError)
  /-- A point cannot be registered. -/
  | application (e : ApplicationError)
  /-- A stage has lost items. -/
  | incomplete (label : String)
  /-- The framework has not loaded the instrumented program. -/
  | notLoaded
  /-- Some points have no result. -/
  | noResults
  /-- The result of a mutant is inconsistent. -/
  | invalidResult (point reason : String)
  deriving DecidableEq, Repr

/-- The reason behind an error. Of the stages only the one that runs mutants can be torn down, and
then some points have no result. -/
def PipelineError.failure : PipelineError → Failure
  | link e => .link e
  | application e => .application e
  | stageIncomplete label _ _ => .incomplete label
  | notLoaded => .notLoaded
  | missingResults .. | panicked _ => .noResults
  | invalidResult point reason => .invalidResult point reason

/-- What a part of a run leaves: a program, the files as they were, and a log with so many errors
more. -/
structure Workspace.Leaves (earlier : Workspace) (program : Program) (errors : Nat)
    (later : Workspace) : Prop where
  program_eq : later.program = program
  files_eq : later.files = earlier.files
  errors_eq : later.log.errors = earlier.log.errors + errors

/-- What two parts of a run leave, one after the other. -/
theorem Workspace.Leaves.trans {first second third : Workspace} {program program' : Program}
    {errors errors' : Nat} (h : first.Leaves program errors second)
    (h' : second.Leaves program' errors' third) : first.Leaves program' (errors + errors') third :=
  ⟨h'.program_eq, h'.files_eq.trans h.files_eq,
    by rw [h'.errors_eq, h.errors_eq, Nat.add_assoc]⟩

/-- A part of a run that leaves the program as it is and says no error can be passed over. -/
theorem Workspace.Leaves.same {first second third : Workspace} {program : Program} {errors : Nat}
    (h : first.Leaves program errors second) (h' : second.Leaves second.program 0 third) :
    first.Leaves program errors third := by
  obtain rfl := h.program_eq
  exact h.trans h'

/-- Every pool has a worker. -/
theorem Pools.size_ne_zero (choice : Option Nat) : size choice ≠ 0 := by
  rw [size]
  omega

namespace Run

/-- A part of a run comes to an answer and leaves a workspace with a property, or it fails for a
reason. -/
def Comes (x : Run α) (w : Workspace) (answer : Except Failure α) (After : Workspace → Prop) :
    Prop :=
  match answer with
  | .ok a => ∃ later, x.run.run w = (.ok a, later) ∧ After later
  | .error failure => ∃ e later, x.run.run w = (.error e, later) ∧ e.failure = failure

section

variable {x : Run α} {w : Workspace} {answer : Except Failure α} {After After' : Workspace → Prop}

/-- What holds behind a part of a run may be weakened. -/
theorem Comes.imp (h : x.Comes w answer After) (hafter : ∀ later, After later → After' later) :
    x.Comes w answer After' := by
  cases answer with
  | error failure => exact h
  | ok a =>
    obtain ⟨later, hrun, hlater⟩ := h
    exact ⟨later, hrun, hafter later hlater⟩

/-- A part of a run that has an answer comes to it. -/
theorem Comes.eq_ok (h : x.Comes w answer After) {a : α} {later : Workspace}
    (hrun : x.run.run w = (.ok a, later)) : answer = .ok a := by
  cases answer with
  | error failure =>
    obtain ⟨e, other, hfailed, -⟩ := h
    rw [hrun] at hfailed
    exact nomatch (Prod.mk.inj hfailed).1
  | ok b =>
    obtain ⟨other, hother, -⟩ := h
    rw [hrun] at hother
    rw [Except.ok.inj (Prod.mk.inj hother).1]

/-- **Parts of a run are chained**: the later part works on what the earlier one has left. -/
theorem Comes.bind {f : α → Run β} {g : α → Except Failure β} (h : x.Comes w answer After)
    (hg : ∀ a, answer = .ok a → ∀ between, After between → (f a).Comes between (g a) After') :
    (x >>= f).Comes w (answer >>= g) After' := by
  cases answer with
  | error failure =>
    obtain ⟨e, later, hrun, hfailure⟩ := h
    refine ⟨e, later, ?_, hfailure⟩
    rw [ExceptT.run_bind, StateT.run_bind, hrun]
    rfl
  | ok a =>
    obtain ⟨between, hrun, hbetween⟩ := h
    have hbind : (x >>= f).run.run w = (f a).run.run between := by
      rw [ExceptT.run_bind, StateT.run_bind, hrun]
      rfl
    have hcomes := hg a rfl between hbetween
    show (x >>= f).Comes w (g a) After'
    unfold Comes at hcomes ⊢
    rwa [hbind]

/-- A part that has an answer is followed by the next one. -/
theorem Comes.andThen {a : α} {f : α → Run β} {answer : Except Failure β}
    (h : x.Comes w (.ok a) After)
    (hf : ∀ between, After between → (f a).Comes between answer After') :
    (x >>= f).Comes w answer After' := by
  have hchain : (x >>= f).Comes w (.ok a >>= fun _ => answer) After' :=
    h.bind fun b hb between hbetween => by
      obtain rfl := Except.ok.inj hb
      exact hf between hbetween
  exact hchain

/-- A part that fails is the last one. -/
theorem Comes.fails {f : α → Run β} {failure : Failure} (h : x.Comes w (.error failure) After) :
    (x >>= f).Comes w (.error failure) After' :=
  h.bind (g := fun _ => .error failure) fun _ hok => by cases hok

/-- Two parts of a run, one after the other, have an answer when both of them have one. -/
theorem bind_run_eq_ok_iff {f : α → Run β} {b : β} {later : Workspace} :
    (x >>= f).run.run w = (.ok b, later) ↔
      ∃ a between, x.run.run w = (.ok a, between) ∧ (f a).run.run between = (.ok b, later) := by
  rw [ExceptT.run_bind, StateT.run_bind]
  rcases x.run.run w with ⟨e | a, between⟩
  · refine iff_of_false (fun h => nomatch (Prod.mk.inj h).1) ?_
    rintro ⟨a, other, h, -⟩
    exact nomatch (Prod.mk.inj h).1
  · constructor
    · exact fun h => ⟨a, between, rfl, h⟩
    · rintro ⟨other, otherBetween, h, hf⟩
      obtain ⟨ha, rfl⟩ := Prod.mk.inj h
      obtain rfl := Except.ok.inj ha
      exact hf

/-- An answer is come to at once. -/
theorem comes_pure (a : α) : (pure a : Run α).Comes w (.ok a) (w.Leaves w.program 0) :=
  ⟨w, rfl, rfl, rfl, rfl⟩

/-- An answer may be changed. -/
theorem Comes.map (h : x.Comes w answer After) (f : α → β) :
    (x >>= fun a => pure (f a)).Comes w (answer.map f) After := by
  have hchain : (x >>= fun a => pure (f a)).Comes w (answer >>= fun a => .ok (f a)) After :=
    h.bind fun a _ between hbetween => ⟨between, rfl, hbetween⟩
  cases answer with
  | error failure => exact hchain
  | ok a => exact hchain

/-- What is thrown is a failure. -/
theorem comes_throw (e : PipelineError) : (throw e : Run α).Comes w (.error e.failure) After :=
  ⟨e, w, rfl, rfl⟩

/-- The workspace can be looked at. -/
theorem comes_get_bind {f : Workspace → Run α} (h : (f w).Comes w answer After) :
    (get >>= f).Comes w answer After := h

/-- What is said can be passed over, as long as it is no error. -/
theorem comes_say {level : Level} (h : level ≠ .error) (text : String) :
    (say level text).Comes w (.ok ()) (w.Leaves w.program 0) := by
  refine ⟨{ w with log := w.log.add ⟨level, text⟩ }, rfl, rfl, rfl, ?_⟩
  exact (Log.errors_add w.log _).trans (if_neg h)

/-- A step of one worker comes to what its job does, and says no other errors. -/
theorem comes_single (label : String) (job : Workspace → α × List Message) :
    (single label job).Comes w (.ok (job w).1)
      (w.Leaves w.program ((job w).2.countP (·.level = .error))) := by
  refine ⟨_, rfl, rfl, rfl, ?_⟩
  show (((w.log.debug label).addAll (job w).2).progress label 1 1 |>.debug _).errors = _
  rw [Log.errors_debug, Log.errors_progress, Log.errors_addAll, Log.errors_debug]

/-- A count that is right is passed. -/
theorem comes_ensureCount (label : String) {expected actual : Nat} (h : expected = actual) :
    (ensureCount label expected actual).Comes w (.ok ()) (w.Leaves w.program 0) := by
  rw [ensureCount, if_pos h]
  exact comes_pure ()

/-- A count that is wrong is not passed. -/
theorem comes_ensureCount_of_ne (label : String) {expected actual : Nat} (h : expected ≠ actual) :
    (ensureCount label expected actual).Comes w (.error (.incomplete label)) After := by
  rw [ensureCount, if_neg h]
  exact comes_throw _

/-- Modules with mutations that are all at a stage pass the check for it. -/
theorem comes_ensureStage (label : String) {stage : Stage}
    (h : ∀ s ∈ w.program.subjects, s.pending ≠ [] → s.stage = stage) :
    (ensureStage label stage).Comes w (.ok ()) (w.Leaves w.program 0) := by
  let mutated := w.program.subjects.filter fun s => !s.pending.isEmpty
  have hall : (mutated.filter fun s => s.stage = stage) = mutated := by
    refine List.filter_eq_self.mpr fun s hs => ?_
    obtain ⟨hs, hpending⟩ := List.mem_filter.mp hs
    exact decide_eq_true (h s hs (by simpa using hpending))
  exact comes_get_bind (comes_ensureCount label (congrArg List.length hall).symm)

end

/-! ## Stages in which nothing goes wrong -/

/-- A stage is one of a pool, whose log is that of the run. -/
theorem run_stage (label : String) (workers : Nat) (task : Task Unit α β) (inputs : List α)
    (w : Workspace) :
    (stage label workers task inputs).run.run w =
      ((Pool.execute label workers task inputs w.log ()).1.mapError .panicked,
        { w with log := (Pool.execute label workers task inputs w.log ()).2.1 }) := rfl

/-- So is one that uses the files, which are the state of its tasks. -/
theorem run_stageOnFiles (label : String) (workers : Nat) (task : Task FileTree α β)
    (inputs : List α) (w : Workspace) :
    (stageOnFiles label workers task inputs).run.run w =
      ((Pool.execute label workers task inputs w.log w.files).1.mapError .panicked,
        { w with log := (Pool.execute label workers task inputs w.log w.files).2.1
                 files := (Pool.execute label workers task inputs w.log w.files).2.2 }) := rfl

/-- So is one that changes the modules in place. -/
theorem run_stageOnSubjects (label : String) (workers : Nat) (work : Subject → Step β × Subject)
    (w : Workspace) :
    (stageOnSubjects label workers work).run.run w =
      ((Pool.executeInPlace label workers work w.program.subjects w.log).1.mapError .panicked,
        { w with
          log := (Pool.executeInPlace label workers work w.program.subjects w.log).2.1
          program.subjects :=
            (Pool.executeInPlace label workers work w.program.subjects w.log).2.2 }) := rfl

section

variable {w : Workspace} (label : String) {workers : Nat} (hworkers : workers ≠ 0)

include hworkers

/-- A stage whose tasks keep no state comes to the outputs of all inputs. -/
theorem comes_stage {task : Task Unit α β} {step : α → Step β} {inputs : List α}
    (htask : ∀ x s, (task x s).1 = step x) (hclean : ∀ x ∈ inputs, (step x).Clean) :
    (stage label workers task inputs).Comes w (.ok (inputs.flatMap fun x => (step x).outputs))
      (w.Leaves w.program 0) := by
  have hready : (fun (_ : List α) (_ : Unit) => True) inputs () := trivial
  obtain ⟨log, hexecute, herrors⟩ := Pool.execute_of_clean label (Task.foreseen_of_forall htask)
    hworkers w.log hready hclean
  refine ⟨{ w with log }, ?_, rfl, rfl, herrors⟩
  rw [run_stage, hexecute]
  rfl

/-- A stage that sorts out inputs comes to those that are kept. -/
theorem comes_stage_keeping (property : α → Bool) (inputs : List α) :
    (stage label workers (.keeping property) inputs).Comes w (.ok (inputs.filter property))
      (w.Leaves w.program 0) := by
  let step := fun x => ({ outputs := if property x then [x] else [] } : Step α)
  have hclean : ∀ x ∈ inputs, (step x).Clean := fun _ _ => Step.clean_outputs _
  have houtputs : (inputs.flatMap fun x => (step x).outputs) = inputs.filter property := by
    clear hclean
    induction inputs with
    | nil => rfl
    | cons x xs ih =>
      rw [List.flatMap_cons, ih]
      cases h : property x <;> simp [step, h]
  have hcomes : (stage label workers (.keeping property) inputs).Comes w
      (.ok (inputs.flatMap fun x => (step x).outputs)) (w.Leaves w.program 0) :=
    comes_stage label hworkers (fun _ _ => rfl) hclean
  rwa [houtputs] at hcomes

/-- **Stages one behind the other, each for a filter,** come to what all filters keep. -/
theorem comes_chain {chain : List φ → List α → Run (List α)} {name : φ → String}
    {keeps : φ → α → Bool} (hnil : ∀ xs, chain [] xs = pure xs)
    (hcons : ∀ filter filters xs, chain (filter :: filters) xs =
      stage (name filter) workers (.keeping (keeps filter)) xs >>= chain filters)
    (filters : List φ) (xs : List α) :
    (chain filters xs).Comes w
      (.ok (xs.filter fun x => filters.all fun filter => keeps filter x))
      (w.Leaves w.program 0) := by
  induction filters generalizing w xs with
  | nil =>
    have hall : (xs.filter fun x => ([] : List φ).all fun filter => keeps filter x) = xs :=
      List.filter_true xs
    rw [hnil, hall]
    exact comes_pure xs
  | cons filter filters ih =>
    have hall : (xs.filter fun x => (filter :: filters).all fun filter => keeps filter x) =
        (xs.filter (keeps filter)).filter fun x => filters.all fun filter => keeps filter x := by
      rw [List.filter_filter]
      simp only [List.all_cons, Bool.and_comm]
    rw [hcons, hall]
    refine (comes_stage_keeping _ hworkers _ xs).andThen fun between hbetween => ?_
    exact (ih _).imp fun _ => hbetween.same

/-- A stage whose tasks leave the files alone comes to the outputs of all inputs. -/
theorem comes_stageOnFiles {task : Task FileTree α β} {step : α → Step β} {inputs : List α}
    (htask : ∀ x files, task x files = (step x, files)) (hclean : ∀ x ∈ inputs, (step x).Clean) :
    (stageOnFiles label workers task inputs).Comes w
      (.ok (inputs.flatMap fun x => (step x).outputs)) (w.Leaves w.program 0) := by
  have hready : (fun (_ : List α) (_ : FileTree) => True) inputs w.files := trivial
  have hforeseen : task.Foreseen step fun _ _ => True :=
    Task.foreseen_of_forall fun x files => congrArg Prod.fst (htask x files)
  obtain ⟨log, hexecute, herrors⟩ :=
    Pool.execute_of_clean label hforeseen hworkers w.log hready hclean
  have hfiles : inputs.foldl (fun files x => (task x files).2) w.files = w.files := by
    simp only [htask]
    exact List.foldl_fixed' (fun _ => rfl) inputs
  rw [hfiles] at hexecute
  refine ⟨{ w with log }, ?_, rfl, rfl, herrors⟩
  rw [run_stageOnFiles, hexecute]
  rfl

/-- A stage that changes the modules in place comes to the outputs for all of them. -/
theorem comes_stageOnSubjects {work : Subject → Step β × Subject}
    (hclean : ∀ s ∈ w.program.subjects, (work s).1.Clean) :
    (stageOnSubjects label workers work).Comes w
      (.ok (w.program.subjects.flatMap fun s => (work s).1.outputs))
      (w.Leaves { w.program with subjects := w.program.subjects.map fun s => (work s).2 } 0) := by
  obtain ⟨log, hexecute, herrors⟩ :=
    Pool.executeInPlace_of_clean label hworkers w.log hclean
  refine ⟨{ w with
    log, program := { w.program with subjects := w.program.subjects.map fun s => (work s).2 } },
    ?_, rfl, rfl, herrors⟩
  rw [run_stageOnSubjects, hexecute]
  rfl

/-! ## Stages that lose items -/

omit hworkers in
/-- A part of a run that answers with too few items fails its count. -/
theorem comes_of_short {x : Run (List β)} {ys : List β} {f : List β → Run γ} {expected : Nat}
    {After : Workspace → Prop} (hx : (x.run.run w).1 = .ok ys) (hshort : ys.length < expected) :
    (x >>= fun ys => ensureCount label expected ys.length >>= fun _ => f ys).Comes w
      (.error (.incomplete label)) After := by
  have hanswer : x.Comes w (.ok ys) fun _ => True := ⟨(x.run.run w).2, Prod.ext hx rfl, trivial⟩
  have hne : expected ≠ ys.length := by omega
  refine hanswer.andThen fun between _ => ?_
  have hcount : (ensureCount label expected ys.length).Comes between (.error (.incomplete label))
      After := comes_ensureCount_of_ne label hne
  exact hcount.fails

/-- A stage in which no task panics, but the tasks have too few outputs, fails its count. -/
theorem comes_stageOnFiles_of_short {task : Task FileTree α β} {step : α → Step β}
    {inputs : List α} {f : List β → Run γ} {expected : Nat} {After : Workspace → Prop}
    (htask : ∀ x files, task x files = (step x, files))
    (hcalm : ∀ x ∈ inputs, ∀ p, (step x).ending ≠ .panicked p)
    (hshort : (inputs.flatMap fun x => (step x).outputs).length < expected) :
    (stageOnFiles label workers task inputs >>= fun ys =>
      ensureCount label expected ys.length >>= fun _ => f ys).Comes w
        (.error (.incomplete label)) After := by
  have hready : (fun (_ : List α) (_ : FileTree) => True) inputs w.files := trivial
  have hforeseen : task.Foreseen step fun _ _ => True :=
    Task.foreseen_of_forall fun x files => congrArg Prod.fst (htask x files)
  obtain ⟨ys, hys⟩ : ∃ ys, (Pool.execute label workers task inputs w.log w.files).1 = .ok ys :=
    Pool.exists_execute_eq_ok label hforeseen (fun {_ _ _} _ => trivial) hworkers hready hcalm
  have hsublist := Pool.sublist_of_execute label hforeseen (fun {_ _ _} _ => trivial) hworkers
    hready hys
  refine comes_of_short label ?_ (Nat.lt_of_le_of_lt hsublist.length_le hshort)
  rw [run_stageOnFiles, hys]
  rfl

/-- So does a stage in place. -/
theorem comes_stageOnSubjects_of_short {work : Subject → Step β × Subject} {f : List β → Run γ}
    {expected : Nat} {After : Workspace → Prop}
    (hcalm : ∀ s ∈ w.program.subjects, ∀ p, (work s).1.ending ≠ .panicked p)
    (hshort : (w.program.subjects.flatMap fun s => (work s).1.outputs).length < expected) :
    (stageOnSubjects label workers work >>= fun ys =>
      ensureCount label expected ys.length >>= fun _ => f ys).Comes w
        (.error (.incomplete label)) After := by
  obtain ⟨ys, hys⟩ : ∃ ys,
      (Pool.executeInPlace label workers work w.program.subjects w.log).1 = .ok ys :=
    Pool.exists_executeInPlace_eq_ok label hworkers hcalm
  have hlength := Pool.length_le_of_executeInPlace hworkers hys
  refine comes_of_short label ?_ (Nat.lt_of_le_of_lt hlength hshort)
  rw [run_stageOnSubjects, hys]
  rfl

end

end Run

end MutationLab
