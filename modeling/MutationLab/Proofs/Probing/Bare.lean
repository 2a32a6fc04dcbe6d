import MutationLab.Proofs.Recasting

/-! # Building without probes

Object files and images are made bare by taking their probes away. This commutes with every step of
building: bare object files are what compiling without probes gives (`Compilation.compileAll_bare`),
and they link to the bare image, or fail with the same error (`Image.link_bare`). Both are cases of
recasting, with the symbols as they are. -/

namespace MutationLab

/-- The function without its probe. -/
def CompiledFunction.bare (f : CompiledFunction) : CompiledFunction := { f with probe := none }

/-- The object file without probes. -/
def ObjectFile.bare (o : ObjectFile) : ObjectFile :=
  { o with instrumented := false, functions := o.functions.map CompiledFunction.bare }

/-- The function without its probe. -/
def LinkedFunction.bare (f : LinkedFunction) : LinkedFunction := { f with probe := none }

/-- The image without probes. -/
def Image.bare (image : Image) : Image :=
  { functions := image.functions.map LinkedFunction.bare }

/-! ## Compiling -/

/-- The same compilation without probes. -/
def Compilation.bare (c : Compilation) : Compilation := { c with probes := none }

/-- **A program compiles alike with probes and without.** -/
theorem Compilation.compileAll_bare (c : Compilation) (first : ModuleId) (ms : List Module) :
    c.bare.compileAll first ms = (c.compileAll first ms).map (List.map ObjectFile.bare) :=
  compileAll_recompiled (c := c) (d := c.bare) (fun _ _ => rfl) first ms

/-! ## Linking -/

/-- Symbols stay and probes go. -/
def Recasting.unprobed : Recasting where
  symbol := id
  injective := Function.injective_id
  probe _ := none

namespace Recasting

/-- An operation with the same symbols is the same. -/
theorem operation_unprobed (operation : ObjectOperation) :
    unprobed.operation operation = operation := by
  cases operation with
  | dispatch pristine targets => exact congrArg (ObjectOperation.dispatch pristine) (List.map_id' _)
  | _ => rfl

/-- A function that is recast in this way is bare. -/
theorem function_unprobed : unprobed.function = CompiledFunction.bare := by
  funext f
  have hcode : f.code.map unprobed.operation = f.code := by
    rw [List.map_congr_left fun operation _ => operation_unprobed operation, List.map_id']
  rw [function, hcode]
  rfl

/-- A link error that names the same symbols is the same. -/
theorem error_unprobed : unprobed.error = id := by
  funext e
  cases e <;> rfl

end Recasting

/-- **Bare object files link to the bare image, or fail alike.** -/
theorem Image.link_bare (objects : List ObjectFile) :
    link (objects.map ObjectFile.bare) = (link objects).map bare := by
  have hdefinitions : Definition.ofObjects (objects.map ObjectFile.bare) =
      (Definition.ofObjects objects).map Recasting.unprobed.definition := by
    rw [← Recasting.unprobed.ofObjects_recompiled false, Recasting.function_unprobed]
    rfl
  rw [Recasting.unprobed.link_map hdefinitions, Recasting.error_unprobed]
  cases link objects <;> rfl

end MutationLab
