import Mathlib.Data.List.Nodup
import MutationLab.Image
import MutationLab.Proofs.Success

/-! # What linking does

Linking puts positions in the place of symbols and changes nothing else. `Image.Holds` says what an
image holds in terms of compiled functions and their symbols, and object files link to an image
exactly when it holds their functions (`Image.link_eq_ok_iff`). Later files know images through
`Image.Holds` only. -/

namespace MutationLab

namespace ObjectOperation

/-- The symbols that an operation of a function with `params` parameters uses, each with the number
of arguments that it is given. -/
def uses (params : Nat) : ObjectOperation → List (String × Nat)
  | call _ symbol args => [(symbol, args.length)]
  | dispatch pristine targets => (pristine, params) :: targets.map fun target => (target.2, params)
  | _ => []

/-- The operation with positions in the place of symbols. -/
def locate (position : String → Nat) : ObjectOperation → Code
  | const dst value => .const dst value
  | binary dst kind lhs rhs => .binary dst kind lhs rhs
  | compare dst predicate lhs rhs => .compare dst predicate lhs rhs
  | call dst symbol args => .call dst (position symbol) args
  | jump target => .jump target.toNat
  | branch cond thenTarget elseTarget => .branch cond thenTarget.toNat elseTarget.toNat
  | ObjectOperation.return value => .return value
  | print value => .print value
  | trap message => .trap message
  | nop => .nop
  | dispatch pristine targets =>
      .dispatch (position pristine) (targets.map fun target => (target.1, position target.2))

end ObjectOperation

namespace CompiledFunction

/-- The symbols that a function uses, each with the number of arguments that it is given. -/
def uses (f : CompiledFunction) : List (String × Nat) :=
  f.code.flatMap (ObjectOperation.uses f.params.toNat)

/-- The function with positions in the place of symbols. -/
def locate (position : String → Nat) (f : CompiledFunction) : LinkedFunction :=
  { symbol := f.symbol, params := f.params, registers := f.registers, probe := f.probe,
    code := (f.code.map (ObjectOperation.locate position)).toArray }

@[simp] theorem symbol_locate (position : String → Nat) (f : CompiledFunction) :
    (f.locate position).symbol = f.symbol := rfl

@[simp] theorem params_locate (position : String → Nat) (f : CompiledFunction) :
    (f.locate position).params = f.params := rfl

/-- Locating a function locates each of its instructions. -/
theorem getElem?_code_locate (position : String → Nat) (f : CompiledFunction) (index : Nat) :
    (f.locate position).code[index]? = f.code[index]?.map (ObjectOperation.locate position) := by
  rw [locate, List.getElem?_toArray, List.getElem?_map]

end CompiledFunction

/-- Some function has a symbol and takes so many arguments. -/
def Provides (fs : List CompiledFunction) (use : String × Nat) : Prop :=
  ∃ f ∈ fs, f.symbol = use.1 ∧ f.params.toNat = use.2

instance (fs : List CompiledFunction) (use : String × Nat) : Decidable (Provides fs use) :=
  inferInstanceAs (Decidable (∃ f ∈ fs, _))

namespace Definition

/-- The functions of definitions. -/
def functions (ds : List Definition) : List CompiledFunction := ds.map Definition.function

/-- The functions of object files, in order. -/
theorem functions_ofObjects (objects : List ObjectFile) :
    functions (ofObjects objects) = objects.flatMap ObjectFile.functions := by
  rw [functions, ofObjects, List.map_flatMap]
  congr 1
  funext o
  rw [List.map_map]
  exact List.map_id _

/-- The position of the first definition of a symbol. -/
def position (ds : List Definition) (symbol : String) : Nat :=
  ds.findIdx (·.function.symbol = symbol)

/-- The position of a symbol among definitions is that among their functions. -/
theorem position_eq (ds : List Definition) :
    position ds = fun symbol => (functions ds).findIdx (·.symbol = symbol) := by
  funext symbol
  rw [position, functions, List.findIdx_map]
  rfl

/-- No definition clashes exactly when no symbol is defined twice, neither among the definitions nor
with an earlier one. -/
theorem clash?_eq_none_iff {earlier ds : List Definition} :
    clash? earlier ds = none ↔
      ((functions ds).map CompiledFunction.symbol).Nodup ∧
        ∀ d ∈ ds, ∀ e ∈ earlier, e.function.symbol ≠ d.function.symbol := by
  induction ds generalizing earlier with
  | nil => simp [clash?, functions]
  | cons d ds ih =>
    rw [clash?]
    cases hfound : earlier.find? (·.function.symbol = d.function.symbol) with
    | some e =>
      have he := List.mem_of_find?_eq_some hfound
      have hsymbol := List.find?_some hfound
      refine iff_of_false (fun h => nomatch h) ?_
      rintro ⟨-, hdistinct⟩
      exact hdistinct d List.mem_cons_self e he (of_decide_eq_true hsymbol)
    | none =>
      have hnone : ∀ e ∈ earlier, e.function.symbol ≠ d.function.symbol := fun e he =>
        of_decide_eq_false (eq_false_of_ne_true (List.find?_eq_none.mp hfound e he))
      dsimp only
      rw [ih, functions, functions, List.map_cons, List.map_cons, List.nodup_cons]
      -- The definition moves from the later ones to the earlier ones.
      constructor
      · rintro ⟨hnodup, hearlier⟩
        refine ⟨⟨?_, hnodup⟩, ?_⟩
        · intro hmem
          obtain ⟨f, hf, hsymbol⟩ := List.mem_map.mp hmem
          obtain ⟨c, hc, rfl⟩ := List.mem_map.mp hf
          exact hearlier c hc d (List.mem_append_right _ (List.mem_singleton_self d)) hsymbol.symm
        · intro c hc e he
          obtain rfl | hc := List.mem_cons.mp hc
          · exact hnone e he
          · exact hearlier c hc e (List.mem_append_left _ he)
      · rintro ⟨⟨hfresh, hnodup⟩, hearlier⟩
        refine ⟨hnodup, ?_⟩
        intro c hc e he
        obtain he | he := List.mem_append.mp he
        · exact hearlier c (List.mem_cons_of_mem _ hc) e he
        · obtain rfl := List.mem_singleton.mp he
          intro hsymbol
          exact hfresh (List.mem_map.mpr ⟨c.function, List.mem_map.mpr ⟨c, hc, rfl⟩, hsymbol.symm⟩)

/-- A clash is that of a symbol which is defined twice. -/
theorem two_le_count_of_clash?_eq_some {earlier ds : List Definition} {first second : Definition}
    (h : clash? earlier ds = some (first, second)) :
    2 ≤ ((functions (earlier ++ ds)).map CompiledFunction.symbol).count second.function.symbol := by
  induction ds generalizing earlier with
  | nil => exact nomatch h
  | cons d ds ih =>
    rw [clash?] at h
    cases hfound : earlier.find? (·.function.symbol = d.function.symbol) with
    | some e =>
      rw [hfound] at h
      obtain ⟨rfl, rfl⟩ := Prod.mk.inj (Option.some.inj h)
      have hsymbol := List.find?_some hfound
      rw [decide_eq_true_eq] at hsymbol
      -- One of the two stands among the earlier definitions, the other one behind them.
      have hearlier : d.function.symbol ∈ (functions earlier).map CompiledFunction.symbol :=
        hsymbol ▸ List.mem_map_of_mem (List.mem_map_of_mem (List.mem_of_find?_eq_some hfound))
      have hlater : d.function.symbol ∈ (functions (d :: ds)).map CompiledFunction.symbol :=
        List.mem_cons_self
      have hone := List.count_pos_iff.mpr hearlier
      have hother := List.count_pos_iff.mpr hlater
      rw [functions, List.map_append, List.map_append, List.count_append]
      exact Nat.add_le_add hone hother
    | none =>
      rw [hfound] at h
      have hcount := ih h
      rwa [List.append_assoc, List.singleton_append] at hcount

end Definition

namespace Image

section

variable {ds : List Definition} (hdistinct : (ds.map (·.function.symbol)).Nodup)

include hdistinct

/-- A symbol is resolved to its position when some definition provides it. -/
theorem resolve_eq_ok_iff {user symbol : String} {given index : Nat} :
    resolve ds user given symbol = .ok index ↔
      Provides (Definition.functions ds) (symbol, given) ∧
        Definition.position ds symbol = index := by
  rw [resolve]
  cases hfound : ds.findIdx? (·.function.symbol = symbol) with
  | none =>
    refine iff_of_false (fun h => nomatch h) ?_
    rintro ⟨⟨f, hf, hsymbol, -⟩, -⟩
    obtain ⟨d, hd, rfl⟩ := List.mem_map.mp hf
    have hother := List.findIdx?_eq_none_iff.mp hfound d hd
    exact of_decide_eq_false hother hsymbol
  | some position =>
    have hposition : Definition.position ds symbol = position :=
      (List.findIdx?_eq_some_iff_findIdx_eq.mp hfound).2
    obtain ⟨hlt, hsymbol, -⟩ := List.findIdx?_eq_some_iff_getElem.mp hfound
    have hsymbol : ds[position].function.symbol = symbol := of_decide_eq_true hsymbol
    -- The provider is the definition at the position, as no other one has the symbol.
    have hprovides : Provides (Definition.functions ds) (symbol, given) ↔
        ds[position].function.params.toNat = given := by
      constructor
      · rintro ⟨f, hf, hfsymbol, hparams⟩
        obtain ⟨d, hd, rfl⟩ := List.mem_map.mp hf
        obtain rfl : d = ds[position] :=
          List.inj_on_of_nodup_map hdistinct hd (List.getElem_mem hlt)
            (hfsymbol.trans hsymbol.symm)
        exact hparams
      · intro hparams
        exact ⟨_, List.mem_map.mpr ⟨_, List.getElem_mem hlt, rfl⟩, hsymbol, hparams⟩
    dsimp only
    rw [List.getElem?_eq_getElem hlt, hprovides, hposition]
    dsimp only
    split
    · rename_i hparams
      rw [Except.ok.injEq]
      exact (and_iff_right hparams).symm
    · rename_i hparams
      exact iff_of_false (fun h => nomatch h) fun h => hparams h.1

/-- The targets of a trampoline are resolved when all of them are provided. -/
theorem resolveTargets_eq_ok_iff {user : String} {given : Nat} {targets : List (String × String)}
    {linked : List (String × Nat)} :
    resolveTargets ds user given targets = .ok linked ↔
      (∀ target ∈ targets, Provides (Definition.functions ds) (target.2, given)) ∧
        targets.map (fun target => (target.1, Definition.position ds target.2)) = linked := by
  induction targets generalizing linked with
  | nil => simp [resolveTargets]
  | cons target targets ih =>
    obtain ⟨mutant, symbol⟩ := target
    rw [resolveTargets, both_eq_ok_iff, List.forall_mem_cons, List.map_cons]
    constructor
    · rintro ⟨index, rest, hindex, hrest, rfl⟩
      obtain ⟨hprovides, rfl⟩ := (resolve_eq_ok_iff hdistinct).mp hindex
      obtain ⟨hothers, rfl⟩ := ih.mp hrest
      exact ⟨⟨hprovides, hothers⟩, rfl⟩
    · rintro ⟨⟨hprovides, hothers⟩, rfl⟩
      exact ⟨_, _, (resolve_eq_ok_iff hdistinct).mpr ⟨hprovides, rfl⟩,
        ih.mpr ⟨hothers, rfl⟩, rfl⟩

/-- An operation is linked when everything that it uses is provided. -/
theorem linkOperation_eq_ok_iff {f : CompiledFunction} {operation : ObjectOperation} {code : Code} :
    linkOperation ds f operation = .ok code ↔
      (∀ use ∈ operation.uses f.params.toNat, Provides (Definition.functions ds) use) ∧
        operation.locate (Definition.position ds) = code := by
  cases operation with
  | call dst symbol args =>
    rw [linkOperation, bind_eq_ok_iff, ObjectOperation.uses, List.forall_mem_singleton]
    constructor
    · rintro ⟨index, hindex, hcode⟩
      obtain ⟨hprovides, rfl⟩ := (resolve_eq_ok_iff hdistinct).mp hindex
      exact ⟨hprovides, Except.ok.inj hcode⟩
    · rintro ⟨hprovides, rfl⟩
      exact ⟨_, (resolve_eq_ok_iff hdistinct).mpr ⟨hprovides, rfl⟩, rfl⟩
  | dispatch pristine targets =>
    rw [linkOperation, both_eq_ok_iff, ObjectOperation.uses, List.forall_mem_cons,
      List.forall_mem_map]
    constructor
    · rintro ⟨index, linked, hindex, hlinked, rfl⟩
      obtain ⟨hpristine, rfl⟩ := (resolve_eq_ok_iff hdistinct).mp hindex
      obtain ⟨htargets, rfl⟩ := (resolveTargets_eq_ok_iff hdistinct).mp hlinked
      exact ⟨⟨hpristine, htargets⟩, rfl⟩
    · rintro ⟨⟨hpristine, htargets⟩, rfl⟩
      exact ⟨_, _, (resolve_eq_ok_iff hdistinct).mpr ⟨hpristine, rfl⟩,
        (resolveTargets_eq_ok_iff hdistinct).mpr ⟨htargets, rfl⟩, rfl⟩
  | _ => simp [linkOperation, ObjectOperation.uses, ObjectOperation.locate]

/-- Code is linked when everything that it uses is provided. -/
theorem linkCode_eq_ok_iff {f : CompiledFunction} {operations : List ObjectOperation}
    {codes : List Code} :
    linkCode ds f operations = .ok codes ↔
      (∀ use ∈ operations.flatMap (ObjectOperation.uses f.params.toNat),
        Provides (Definition.functions ds) use) ∧
      operations.map (ObjectOperation.locate (Definition.position ds)) = codes := by
  induction operations generalizing codes with
  | nil => simp [linkCode]
  | cons operation operations ih =>
    rw [linkCode, both_eq_ok_iff, List.flatMap_cons, List.forall_mem_append, List.map_cons]
    constructor
    · rintro ⟨code, rest, hcode, hrest, rfl⟩
      obtain ⟨hprovides, rfl⟩ := (linkOperation_eq_ok_iff hdistinct).mp hcode
      obtain ⟨hothers, rfl⟩ := ih.mp hrest
      exact ⟨⟨hprovides, hothers⟩, rfl⟩
    · rintro ⟨⟨hprovides, hothers⟩, rfl⟩
      exact ⟨_, _, (linkOperation_eq_ok_iff hdistinct).mpr ⟨hprovides, rfl⟩,
        ih.mpr ⟨hothers, rfl⟩, rfl⟩

/-- Functions are linked when everything that they use is provided. -/
theorem linkFunctions_eq_ok_iff {some : List Definition} {linked : List LinkedFunction} :
    linkFunctions ds some = .ok linked ↔
      (∀ f ∈ Definition.functions some, ∀ use ∈ f.uses,
        Provides (Definition.functions ds) use) ∧
      (Definition.functions some).map (CompiledFunction.locate (Definition.position ds)) =
        linked := by
  induction some generalizing linked with
  | nil => simp [linkFunctions, Definition.functions]
  | cons d others ih =>
    rw [linkFunctions, Definition.functions, List.map_cons, List.forall_mem_cons, List.map_cons,
      both_eq_ok_iff]
    constructor
    · rintro ⟨codes, rest, hcodes, hrest, rfl⟩
      obtain ⟨hprovides, rfl⟩ := (linkCode_eq_ok_iff hdistinct).mp hcodes
      obtain ⟨hothers, rfl⟩ := ih.mp hrest
      exact ⟨⟨hprovides, hothers⟩, rfl⟩
    · rintro ⟨⟨hprovides, hothers⟩, rfl⟩
      exact ⟨_, _, (linkCode_eq_ok_iff hdistinct).mpr ⟨hprovides, rfl⟩,
        ih.mpr ⟨hothers, rfl⟩, rfl⟩

end

/-! ## Images by symbol -/

/-- The position of the function with a symbol. -/
def position (image : Image) (symbol : String) : Nat :=
  image.functions.toList.findIdx (·.symbol = symbol)

/-- An image holds functions when they stand in it with positions in the place of symbols, no
symbol is defined twice, and everything that they use is provided among them. -/
structure Holds (image : Image) (fs : List CompiledFunction) : Prop where
  functions_eq : image.functions.toList = fs.map (CompiledFunction.locate image.position)
  nodup : (fs.map CompiledFunction.symbol).Nodup
  provided : ∀ f ∈ fs, ∀ use ∈ f.uses, Provides fs use

/-- The image of functions. -/
def ofFunctions (fs : List CompiledFunction) : Image :=
  { functions := (fs.map (CompiledFunction.locate fun symbol =>
      fs.findIdx (·.symbol = symbol))).toArray }

/-- Locating functions does not move them. -/
theorem position_mk_map_locate (position : String → Nat) (fs : List CompiledFunction) :
    Image.position ⟨(fs.map (CompiledFunction.locate position)).toArray⟩ =
      fun symbol => fs.findIdx (·.symbol = symbol) := by
  funext symbol
  rw [Image.position, List.findIdx_map]
  rfl

/-- The image of functions holds them if their symbols are distinct and what they use is provided
among them. -/
theorem holds_ofFunctions {fs : List CompiledFunction}
    (hnodup : (fs.map CompiledFunction.symbol).Nodup)
    (hprovided : ∀ f ∈ fs, ∀ use ∈ f.uses, Provides fs use) : (ofFunctions fs).Holds fs := by
  refine ⟨?_, hnodup, hprovided⟩
  rw [ofFunctions, position_mk_map_locate]

/-- **Object files link exactly to the image that holds their functions.** -/
theorem link_eq_ok_iff {objects : List ObjectFile} {image : Image} :
    link objects = .ok image ↔ image.Holds (objects.flatMap ObjectFile.functions) := by
  rw [← Definition.functions_ofObjects, link]
  generalize Definition.ofObjects objects = ds
  cases hclash : Definition.clash? [] ds with
  | some definitions =>
    refine iff_of_false (fun h => nomatch h) ?_
    intro h
    have hnone := Definition.clash?_eq_none_iff.mpr
      ⟨h.nodup, fun _ _ _ he => absurd he List.not_mem_nil⟩
    rw [hclash] at hnone
    exact nomatch hnone
  | none =>
    have hnodup := (Definition.clash?_eq_none_iff.mp hclash).1
    have hdistinct : (ds.map (·.function.symbol)).Nodup := by
      rw [Definition.functions, List.map_map] at hnodup
      exact hnodup
    dsimp only
    rw [bind_eq_ok_iff]
    constructor
    · rintro ⟨linked, hlinked, himage⟩
      obtain rfl := Except.ok.inj himage
      obtain ⟨hprovided, rfl⟩ := (linkFunctions_eq_ok_iff hdistinct).mp hlinked
      refine ⟨?_, hnodup, hprovided⟩
      rw [position_mk_map_locate, Definition.position_eq]
    · intro h
      -- The image has the functions in order, so a position in it is one among the definitions.
      have hposition : image.position = Definition.position ds := by
        rw [Definition.position_eq, ← position_mk_map_locate image.position, ← h.functions_eq]
      refine ⟨_, (linkFunctions_eq_ok_iff hdistinct).mpr ⟨h.provided, rfl⟩, ?_⟩
      rw [← hposition, ← h.functions_eq]
      rfl

/-- **If everything that is used is provided, linking fails for a symbol only that is defined
twice.** -/
theorem link_eq_error_of_provided {objects : List ObjectFile} {e : LinkError}
    (hprovided : ∀ f ∈ objects.flatMap ObjectFile.functions, ∀ use ∈ f.uses,
      Provides (objects.flatMap ObjectFile.functions) use)
    (h : link objects = .error e) :
    ∃ symbol first second, e = .duplicateSymbol symbol first second ∧
      2 ≤ ((objects.flatMap ObjectFile.functions).map CompiledFunction.symbol).count symbol := by
  have hlink := h
  rw [link] at h
  cases hclash : Definition.clash? [] (Definition.ofObjects objects) with
  | some definitions =>
    obtain ⟨first, second⟩ := definitions
    rw [hclash] at h
    refine ⟨_, _, _, (Except.error.inj h).symm, ?_⟩
    rw [← Definition.functions_ofObjects]
    exact Definition.two_le_count_of_clash?_eq_some hclash
  | none =>
    have hnodup := (Definition.clash?_eq_none_iff.mp hclash).1
    rw [Definition.functions_ofObjects] at hnodup
    have hok := link_eq_ok_iff.mpr (holds_ofFunctions hnodup hprovided)
    rw [hok] at hlink
    exact nomatch hlink

namespace Holds

variable {image : Image} {fs : List CompiledFunction}

/-- A function stands at the position of its symbol. -/
theorem function?_position (h : image.Holds fs) {f : CompiledFunction} (hf : f ∈ fs) :
    image.function? (image.position f.symbol) = some (f.locate image.position) := by
  have hmem : f.locate image.position ∈ image.functions.toList := by
    rw [h.functions_eq]
    exact List.mem_map_of_mem hf
  have hlt : image.position f.symbol < image.functions.toList.length :=
    List.findIdx_lt_length_of_exists ⟨_, hmem, decide_eq_true rfl⟩
  have hsymbol : (image.functions.toList[image.position f.symbol]).symbol = f.symbol :=
    of_decide_eq_true (List.findIdx_getElem (w := hlt))
  have hnodup : (image.functions.toList.map LinkedFunction.symbol).Nodup := by
    rw [h.functions_eq, List.map_map]
    exact h.nodup
  rw [function?, ← Array.getElem?_toList, List.getElem?_eq_getElem hlt]
  exact congrArg some (List.inj_on_of_nodup_map hnodup (List.getElem_mem hlt) hmem hsymbol)

/-- A function is found under its symbol. -/
theorem index?_eq_some (h : image.Holds fs) {f : CompiledFunction} (hf : f ∈ fs) :
    image.index? f.symbol = some (image.position f.symbol) := by
  have hmem : f.locate image.position ∈ image.functions.toList := by
    rw [h.functions_eq]
    exact List.mem_map_of_mem hf
  have hindex : image.index? f.symbol = image.functions.toList.findIdx? (·.symbol = f.symbol) := by
    rw [index?, ← List.findIdx?_toArray, Array.toArray_toList]
  rw [hindex, List.findIdx?_eq_some_iff_findIdx_eq]
  exact ⟨List.findIdx_lt_length_of_exists ⟨_, hmem, decide_eq_true rfl⟩, rfl⟩

/-- The symbols of an image are those of its functions. -/
theorem isSome_index? (h : image.Holds fs) {symbol : String} :
    (image.index? symbol).isSome ↔ symbol ∈ fs.map CompiledFunction.symbol := by
  constructor
  · intro hsome
    obtain ⟨index, hindex⟩ := Option.isSome_iff_exists.mp hsome
    obtain ⟨hlt, hsymbol, -⟩ := Array.findIdx?_eq_some_iff_getElem.mp hindex
    have hmem : image.functions[index] ∈ image.functions.toList :=
      Array.mem_toList_iff.mpr (Array.getElem_mem hlt)
    rw [h.functions_eq] at hmem
    obtain ⟨f, hf, hlocated⟩ := List.mem_map.mp hmem
    rw [← hlocated, decide_eq_true_eq] at hsymbol
    exact List.mem_map.mpr ⟨f, hf, hsymbol⟩
  · intro hmem
    obtain ⟨f, hf, rfl⟩ := List.mem_map.mp hmem
    rw [h.index?_eq_some hf]
    rfl

/-- A symbol stands for one function only. -/
theorem eq_of_symbol_eq (h : image.Holds fs) {f g : CompiledFunction} (hf : f ∈ fs) (hg : g ∈ fs)
    (hsymbol : f.symbol = g.symbol) : f = g :=
  List.inj_on_of_nodup_map h.nodup hf hg hsymbol

end Holds

end Image

end MutationLab
