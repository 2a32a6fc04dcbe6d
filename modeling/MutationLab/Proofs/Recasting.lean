import MutationLab.Proofs.Compilation

/-! # Functions under other symbols

A program can be built with other symbols or with other probes. A `Recasting` says what becomes of
both; symbols that differ must go on to differ. Recasting commutes with every step of building. A
compiler that recasts each function recasts the whole program and finds the same faults
(`Compilation.compileAll_recompiled`), and recast object files link to the recast image, or fail
with the error that names the new symbols (`Recasting.link_map`). -/

namespace MutationLab

/-! ## Compiling -/

/-- The object file with its functions changed. -/
def ObjectFile.recompiled (change : CompiledFunction → CompiledFunction) (instrumented : Bool)
    (o : ObjectFile) : ObjectFile :=
  { o with instrumented, functions := o.functions.map change }

namespace Compilation

variable {c d : Compilation} {change : CompiledFunction → CompiledFunction}
  (hchange : ∀ id f, d.function id f = change (c.function id f))

include hchange

/-- Functions are changed one by one. -/
theorem functions_recompiled (id : ModuleId) (module : String) (seen : List String)
    (fs : List Function) :
    d.functions id module seen fs = (c.functions id module seen fs).map (List.map change) := by
  -- Names and faults are looked at before anything is compiled, so errors are the same.
  induction fs generalizing seen with
  | nil => rfl
  | cons f fs ih =>
    rw [functions, functions]
    split_ifs
    · rfl
    · cases f.fault? module with
      | some e => rfl
      | none =>
        dsimp only
        rw [ih, hchange]
        cases c.functions id module (f.name :: seen) fs <;> rfl

/-- **A module compiles with its functions changed**, or fails alike. -/
theorem compile_recompiled (id : ModuleId) (m : Module) :
    d.compile id m =
      (c.compile id m).map (ObjectFile.recompiled change d.probes.isSome) := by
  rw [compile, compile, functions_recompiled hchange]
  cases c.functions id m.name [] m.functions <;> rfl

/-- So does a program. -/
theorem compileAll_recompiled (first : ModuleId) (ms : List Module) :
    d.compileAll first ms =
      (c.compileAll first ms).map (List.map (ObjectFile.recompiled change d.probes.isSome)) := by
  induction ms generalizing first with
  | nil => rfl
  | cons m ms ih =>
    rw [compileAll, compileAll, compile_recompiled hchange, ih]
    cases c.compile first m with
    | error e => rfl
    | ok o => cases c.compileAll (first + 1) ms <;> rfl

end Compilation

/-! ## Recasting -/

/-- What becomes of the symbols and probes of a program. -/
structure Recasting where
  symbol : String → String
  injective : Function.Injective symbol
  probe : Option UInt32 → Option UInt32

namespace Recasting

variable (R : Recasting)

/-- The operation with its symbols recast. -/
def operation : ObjectOperation → ObjectOperation
  | .call dst callee args => .call dst (R.symbol callee) args
  | .dispatch pristine targets =>
      .dispatch (R.symbol pristine) (targets.map fun target => (target.1, R.symbol target.2))
  | operation => operation

/-- The compiled function recast. -/
def function (f : CompiledFunction) : CompiledFunction :=
  { f with symbol := R.symbol f.symbol, probe := R.probe f.probe, code := f.code.map R.operation }

/-- The definition with its function recast. -/
def definition (d : Definition) : Definition := { d with function := R.function d.function }

/-- The function of an image recast. Positions need not be. -/
def linked (f : LinkedFunction) : LinkedFunction :=
  { f with symbol := R.symbol f.symbol, probe := R.probe f.probe }

/-- The image with its functions recast. -/
def image (image : Image) : Image := { functions := image.functions.map R.linked }

/-- The link error that names other symbols. -/
def error : LinkError → LinkError
  | .duplicateSymbol symbol first second => .duplicateSymbol (R.symbol symbol) first second
  | .undefinedSymbol symbol user => .undefinedSymbol (R.symbol symbol) (R.symbol user)
  | .arityMismatch symbol user expected given =>
      .arityMismatch (R.symbol symbol) (R.symbol user) expected given

/-- The definitions of object files with recast functions. -/
theorem ofObjects_recompiled (instrumented : Bool) (objects : List ObjectFile) :
    Definition.ofObjects (objects.map (ObjectFile.recompiled R.function instrumented)) =
      (Definition.ofObjects objects).map R.definition := by
  rw [Definition.ofObjects, Definition.ofObjects, List.flatMap_map, List.map_flatMap]
  refine List.flatMap_congr fun o _ => ?_
  rw [ObjectFile.recompiled, List.map_map, List.map_map]
  rfl

/-! ## Linking -/

/-- A definition has a recast symbol if it is recast from one with the symbol. -/
theorem hasSymbol_definition (symbol : String) :
    (fun d : Definition => decide (d.function.symbol = R.symbol symbol)) ∘ R.definition =
      fun d => decide (d.function.symbol = symbol) := by
  funext d
  exact decide_eq_decide.mpr R.injective.eq_iff

/-- Symbols clash alike. -/
theorem clash?_map (earlier ds : List Definition) :
    Definition.clash? (earlier.map R.definition) (ds.map R.definition) =
      (Definition.clash? earlier ds).map fun (first, second) =>
        (R.definition first, R.definition second) := by
  induction ds generalizing earlier with
  | nil => rfl
  | cons d ds ih =>
    have hfind : (earlier.map R.definition).find?
          (·.function.symbol = (R.definition d).function.symbol) =
        (earlier.find? (·.function.symbol = d.function.symbol)).map R.definition := by
      rw [List.find?_map]
      exact congrArg (fun p => (earlier.find? p).map R.definition)
        (R.hasSymbol_definition d.function.symbol)
    rw [List.map_cons, Definition.clash?, Definition.clash?, hfind]
    cases earlier.find? (·.function.symbol = d.function.symbol) with
    | some first => rfl
    | none =>
      have hmore : earlier.map R.definition ++ [R.definition d] =
          (earlier ++ [d]).map R.definition := by
        rw [List.map_append, List.map_singleton]
      dsimp only [Option.map_none]
      rw [hmore, ih]

variable (ds : List Definition)

/-- Symbols are resolved alike. -/
theorem resolve_map (user : String) (given : Nat) (symbol : String) :
    Image.resolve (ds.map R.definition) (R.symbol user) given (R.symbol symbol) =
      (Image.resolve ds user given symbol).mapError R.error := by
  have hindex : (ds.map R.definition).findIdx? (·.function.symbol = R.symbol symbol) =
      ds.findIdx? (·.function.symbol = symbol) := by
    rw [List.findIdx?_map, hasSymbol_definition]
  rw [Image.resolve, Image.resolve, hindex]
  cases ds.findIdx? (·.function.symbol = symbol) with
  | none => rfl
  | some index =>
    dsimp only
    rw [List.getElem?_map]
    cases ds[index]? with
    | none => rfl
    | some d =>
      -- A callee takes as many arguments as before.
      have hparams : (R.definition d).function.params = d.function.params := rfl
      dsimp only [Option.map_some]
      rw [hparams]
      split <;> rfl

/-- So are targets of trampolines. -/
theorem resolveTargets_map (user : String) (given : Nat) (targets : List (String × String)) :
    Image.resolveTargets (ds.map R.definition) (R.symbol user) given
        (targets.map fun target => (target.1, R.symbol target.2)) =
      (Image.resolveTargets ds user given targets).mapError R.error := by
  induction targets with
  | nil => rfl
  | cons target targets ih =>
    obtain ⟨mutant, symbol⟩ := target
    rw [List.map_cons, Image.resolveTargets, Image.resolveTargets, resolve_map, ih]
    cases Image.resolve ds user given symbol with
    | error e => rfl
    | ok index => cases Image.resolveTargets ds user given targets <;> rfl

/-- Operations are linked alike. -/
theorem linkOperation_map (f : CompiledFunction) (operation : ObjectOperation) :
    Image.linkOperation (ds.map R.definition) (R.function f) (R.operation operation) =
      (Image.linkOperation ds f operation).mapError R.error := by
  have hsymbol : (R.function f).symbol = R.symbol f.symbol := rfl
  have hparams : (R.function f).params = f.params := rfl
  cases operation with
  | call dst symbol args =>
    rw [Recasting.operation, Image.linkOperation, Image.linkOperation, hsymbol, resolve_map]
    cases Image.resolve ds f.symbol args.length symbol <;> rfl
  | dispatch pristine targets =>
    rw [Recasting.operation, Image.linkOperation, Image.linkOperation, hsymbol, hparams,
      resolve_map, resolveTargets_map]
    cases Image.resolve ds f.symbol f.params.toNat pristine with
    | error e => rfl
    | ok index => cases Image.resolveTargets ds f.symbol f.params.toNat targets <;> rfl
  | _ => rfl

/-- So is code. -/
theorem linkCode_map (f : CompiledFunction) (operations : List ObjectOperation) :
    Image.linkCode (ds.map R.definition) (R.function f) (operations.map R.operation) =
      (Image.linkCode ds f operations).mapError R.error := by
  induction operations with
  | nil => rfl
  | cons operation operations ih =>
    rw [List.map_cons, Image.linkCode, Image.linkCode, linkOperation_map, ih]
    cases Image.linkOperation ds f operation with
    | error e => rfl
    | ok code => cases Image.linkCode ds f operations <;> rfl

/-- So are functions. -/
theorem linkFunctions_map (rest : List Definition) :
    Image.linkFunctions (ds.map R.definition) (rest.map R.definition) =
      ((Image.linkFunctions ds rest).map (List.map R.linked)).mapError R.error := by
  -- Symbols are looked up among all definitions, whichever are left to be linked.
  induction rest with
  | nil => rfl
  | cons d rest ih =>
    have hcode : Image.linkCode (ds.map R.definition) (R.definition d).function
        (R.definition d).function.code =
        (Image.linkCode ds d.function d.function.code).mapError R.error :=
      R.linkCode_map ds d.function _
    rw [List.map_cons, Image.linkFunctions, Image.linkFunctions]
    rw [hcode, ih]
    cases Image.linkCode ds d.function d.function.code with
    | error e => rfl
    | ok code => cases Image.linkFunctions ds rest <;> rfl

/-- **Recast definitions link to the recast image**, or fail with the recast error. -/
theorem link_map {objects others : List ObjectFile}
    (h : Definition.ofObjects others = (Definition.ofObjects objects).map R.definition) :
    Image.link others = ((Image.link objects).map R.image).mapError R.error := by
  have hclash := R.clash?_map [] (Definition.ofObjects objects)
  rw [List.map_nil] at hclash
  rw [Image.link, Image.link, h, hclash]
  cases Definition.clash? [] (Definition.ofObjects objects) with
  | some definitions => rfl
  | none =>
    dsimp only [Option.map_none]
    rw [linkFunctions_map]
    cases Image.linkFunctions (Definition.ofObjects objects) (Definition.ofObjects objects) with
    | error e => rfl
    | ok linked =>
      show Except.ok _ = Except.ok _
      rw [image, List.map_toArray]

end Recasting

end MutationLab
