import MutationLab.Proofs.Lockstep
import MutationLab.Proofs.Probing.Bare

/-! # Probes are transparent

A traced image and the bare image run in lockstep (`Machine.bareLockstep`), so their runs end alike.
A program that is built with probes therefore does what the program built without them does
(`Compilation.probes_transparent`). -/

namespace MutationLab

/-- What a run leaves behind apart from its trace. -/
def Effects.untraced (e : Effects) : Effects := { e with trace := [] }

/-- The same choices without tracing. -/
def Setup.untraced (s : Setup) : Setup := { s with tracing := false }

/-- Entering a function leaves behind nothing but its probe. -/
theorem Effects.untraced_pass (setup : Setup) (f : LinkedFunction) (depth : Nat) (e : Effects) :
    (e.pass setup f depth).untraced = e.untraced := by
  rw [pass]
  split <;> rfl

namespace Machine

/-! ## Running a bare image -/

/-- The bare image has the bare functions. -/
theorem function?_bare (image : Image) (index : Nat) :
    image.bare.function? index = (image.function? index).map LinkedFunction.bare :=
  Array.getElem?_map ..

/-- They have the same symbols. -/
theorem index?_bare (image : Image) (symbol : String) :
    image.bare.index? symbol = image.index? symbol :=
  Array.findIdx?_map ..

/-- **The bare image runs in lockstep** with the image that is traced. -/
def bareLockstep (image : Image) (setup : Setup) : Lockstep where
  source := image
  target := image.bare
  sourceSetup := setup
  targetSetup := setup.untraced
  function := LinkedFunction.bare
  position := id
  effects := Effects.untraced
  symbol_function _ := rfl
  params_function _ := rfl
  registers_function _ := rfl
  code_function f index := by
    rw [Code.relocate_id, Option.map_id]
    rfl
  function?_position := function?_bare image
  position_of_none index _ := id_eq index
  agrees := ⟨rfl, rfl⟩
  stopsAt_iff _ := Iff.rfl
  tick_effects _ := rfl
  print_effects _ _ := rfl
  pass_effects f depth e := (Effects.untraced_pass setup f depth e).symm

variable {image : Image} {setup : Setup}

/-- A call of a symbol ends alike in the bare image. -/
theorem callSymbol_bare (fuel : Nat) (symbol : String) (arguments : List Int64) (e : Effects) :
    callSymbol image.bare setup.untraced fuel symbol arguments e.untraced =
      Prod.map id Effects.untraced (callSymbol image setup fuel symbol arguments e) := by
  have hindex : image.bare.index? symbol = (image.index? symbol).map id := by
    rw [index?_bare, Option.map_id]
    rfl
  exact (bareLockstep image setup).callSymbol_eq hindex fuel arguments e

/-! ## Ends of runs -/

/-- A call of a symbol ends with a reply, with so much printed, and after so many steps. -/
def Finishes (image : Image) (setup : Setup) (symbol : String) (arguments : List Int64)
    (e : Effects) (reply : Except Trap Int64) (stdout : String) (steps : Nat) : Prop :=
  ∃ fuel e', callSymbol image setup fuel symbol arguments e = (some reply, e') ∧
    e'.stdout = stdout ∧ e'.steps = steps

/-- A call of a symbol never ends. -/
def Diverges (image : Image) (setup : Setup) (symbol : String) (arguments : List Int64)
    (e : Effects) : Prop :=
  ∀ fuel, (callSymbol image setup fuel symbol arguments e).1 = none

/-- Images that are the same without probes run alike, whether they are traced or not. -/
theorem callSymbol_of_bare_eq {image other : Image} (hbare : image.bare = other.bare)
    {traced plain : Setup} (hsetup : traced.untraced = plain.untraced) (fuel : Nat)
    (symbol : String) (arguments : List Int64) (e : Effects) :
    Prod.map id Effects.untraced (callSymbol image traced fuel symbol arguments e) =
      Prod.map id Effects.untraced (callSymbol other plain fuel symbol arguments e) := by
  rw [← callSymbol_bare, ← callSymbol_bare, hbare, hsetup]

/-- So they end alike, or neither of them ends. -/
theorem finishes_or_diverges {image other : Image} (hbare : image.bare = other.bare)
    {traced plain : Setup} (hsetup : traced.untraced = plain.untraced) (symbol : String)
    (arguments : List Int64) (e : Effects) :
    (∃ reply stdout steps, Finishes image traced symbol arguments e reply stdout steps ∧
        Finishes other plain symbol arguments e reply stdout steps) ∨
      Diverges image traced symbol arguments e ∧ Diverges other plain symbol arguments e := by
  -- With the same fuel both runs reply the same, or neither of them does.
  have hsame := fun fuel => callSymbol_of_bare_eq hbare hsetup fuel symbol arguments e
  by_cases hends : ∃ fuel reply, (callSymbol image traced fuel symbol arguments e).1 = some reply
  · obtain ⟨fuel, reply, hreply⟩ := hends
    obtain ⟨hreplies, heffects⟩ := Prod.mk.inj (hsame fuel)
    refine .inl ⟨reply, _, _, ⟨fuel, _, Prod.ext hreply rfl, rfl, rfl⟩,
      ⟨fuel, _, Prod.ext (hreplies.symm.trans hreply) rfl, ?_, ?_⟩⟩
    · exact (congrArg Effects.stdout heffects).symm
    · exact (congrArg Effects.steps heffects).symm
  · have hnone : Diverges image traced symbol arguments e := fun fuel =>
      Option.eq_none_iff_forall_ne_some.mpr fun reply hreply => hends ⟨fuel, reply, hreply⟩
    refine .inr ⟨hnone, fun fuel => ?_⟩
    exact (congrArg Prod.fst (hsame fuel)).symm.trans (hnone fuel)

end Machine

/-! ## Programs -/

/-- Two results are alike: both are there and they are related, or neither is, for one reason. -/
def Alike (related : α → β → Prop) : Except ε α → Except ε β → Prop
  | .ok a, .ok b => related a b
  | .error e, .error e' => e = e'
  | _, _ => False

/-- Results with the same image under some functions are alike. -/
theorem alike_of_map_eq {related : α → β → Prop} {f : α → γ} {g : β → γ} {x : Except ε α}
    {y : Except ε β} (h : x.map f = y.map g) (hrelated : ∀ a b, f a = g b → related a b) :
    Alike related x y := by
  cases x with
  | error e =>
    cases y with
    | error e' => exact Except.error.inj h
    | ok b => exact nomatch h
  | ok a =>
    cases y with
    | error e' => exact nomatch h
    | ok b => exact hrelated a b (Except.ok.inj h)

/-- **Probes are transparent.** A program compiles with probes as it compiles without them, and with
the same object files added both builds link or fail alike. Their images differ in probes only.
Every call of a symbol ends in the same way in both, with the same text printed and after as many
steps, or it ends in neither, although only the one with probes is traced. -/
theorem Compilation.probes_transparent (mangling : Mangling) (ms : List Module)
    (extra : List ObjectFile) :
    Alike
      (fun probed plain => Alike
        (fun image other => image.bare = other.bare ∧
          ∀ symbol arguments selector maxDepth e,
            (∃ reply stdout steps,
              Machine.Finishes image { selector, maxDepth, tracing := true } symbol arguments e
                reply stdout steps ∧
              Machine.Finishes other { selector, maxDepth } symbol arguments e
                reply stdout steps) ∨
            Machine.Diverges image { selector, maxDepth, tracing := true } symbol arguments e ∧
              Machine.Diverges other { selector, maxDepth } symbol arguments e)
        (Image.link (probed ++ extra)) (Image.link (plain ++ extra)))
      (compileAll { mangling, probes := some (.ofModules ms) } 0 ms)
      (compileAll { mangling } 0 ms) := by
  refine alike_of_map_eq
    ((compileAll_bare _ 0 ms).symm.trans (compileAll_bare { mangling } 0 ms)) ?_
  intro probed plain hobjects
  refine alike_of_map_eq (f := Image.bare) (g := Image.bare) ?_ ?_
  · rw [← Image.link_bare, ← Image.link_bare, List.map_append, List.map_append, hobjects]
  · intro image other hbare
    refine ⟨hbare, fun symbol arguments selector maxDepth e => ?_⟩
    have hsetup : Setup.untraced { selector, maxDepth, tracing := true } =
        Setup.untraced { selector, maxDepth } := rfl
    exact Machine.finishes_or_diverges hbare hsetup symbol arguments e

end MutationLab
