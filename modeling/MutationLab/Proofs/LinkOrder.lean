import MutationLab.Proofs.Lockstep
import MutationLab.Proofs.Resolution

/-! # The order of object files

Object files link in every order or in none, as nothing that linking asks of their functions has to
do with their order (`Linkable.of_perm`). In another order the functions stand at other positions.
Which position belongs to which is known from the symbols (`Image.positionIn`), and two images of
the same functions run in lockstep along it (`Image.Holds.lockstep`); so they do the same. -/

namespace MutationLab

namespace Example

/-- The image of the same object files in reverse order. -/
def relinked : Image := .ofFunctions (objects.reverse.flatMap ObjectFile.functions)

end Example

/-! ## Linking -/

/-- Functions that fit together fit together in every order. -/
theorem Linkable.of_perm {fs gs : List CompiledFunction} (h : Linkable fs) (hperm : fs.Perm gs) :
    Linkable gs := by
  have hsymbols := hperm.map CompiledFunction.symbol
  refine ⟨hsymbols.nodup_iff.mp h.distinct, fun f hf use huse => ?_, fun f hf use huse g hg => ?_⟩
  · exact hsymbols.mem_iff.mp (h.defined f (hperm.mem_iff.mpr hf) use huse)
  · exact h.arity f (hperm.mem_iff.mpr hf) use huse g (hperm.mem_iff.mpr hg)

/-! ## Positions -/

/-- Locating an operation and then moving the functions locates it where they are moved to. -/
theorem ObjectOperation.relocate_locate (position : String → Nat) (move : Nat → Nat)
    (operation : ObjectOperation) :
    (operation.locate position).relocate move =
      operation.locate fun symbol => move (position symbol) := by
  cases operation with
  | dispatch pristine targets =>
    rw [locate, locate, Code.relocate, List.map_map]
    rfl
  | _ => rfl

/-- The function with the functions that it enters at other positions. -/
def LinkedFunction.relocate (position : Nat → Nat) (f : LinkedFunction) : LinkedFunction :=
  { f with code := f.code.map (Code.relocate position) }

/-- Locating a function and then moving all functions locates it where they are moved to. -/
theorem CompiledFunction.relocate_locate (position : String → Nat) (move : Nat → Nat)
    (f : CompiledFunction) :
    (f.locate position).relocate move = f.locate fun symbol => move (position symbol) := by
  have hcode : (f.locate position).code.map (Code.relocate move) =
      (f.locate fun symbol => move (position symbol)).code := by
    rw [locate, locate, List.map_toArray, List.map_map]
    exact congrArg List.toArray (List.map_congr_left fun operation _ =>
      operation.relocate_locate position move)
  rw [LinkedFunction.relocate, hcode]
  rfl

namespace Image

/-- Where the function at a position of one image stands in another one. Positions at which no
function stands stay as they are. -/
def positionIn (other image : Image) (index : Nat) : Nat :=
  ((image.function? index).map fun f => other.position f.symbol).getD index

namespace Holds

variable {image other : Image} {fs gs : List CompiledFunction} (h : image.Holds fs)
  (h' : other.Holds gs) (hperm : fs.Perm gs)

include h in
/-- An image has as many functions as it holds. -/
theorem size_functions : image.functions.size = fs.length := by
  rw [← Array.length_toList, h.functions_eq, List.length_map]

include h in
/-- A symbol that no function has is looked for behind all of them. -/
theorem position_of_notMem {symbol : String} (hsymbol : symbol ∉ fs.map CompiledFunction.symbol) :
    image.position symbol = fs.length := by
  rw [position, h.functions_eq, List.findIdx_map, List.findIdx_eq_length_of_false]
  intro f hf
  rw [Function.comp_apply, decide_eq_false_iff_not]
  exact fun heq => hsymbol (heq ▸ List.mem_map_of_mem hf)

include h h' hperm in
/-- **Positions belong together along the symbols**, whether a function has the symbol or not. -/
theorem positionIn_position (symbol : String) :
    other.positionIn image (image.position symbol) = other.position symbol := by
  by_cases hsymbol : symbol ∈ fs.map CompiledFunction.symbol
  · obtain ⟨f, hf, rfl⟩ := List.mem_map.mp hsymbol
    rw [positionIn, h.function?_position hf]
    rfl
  · have hother : symbol ∉ gs.map CompiledFunction.symbol :=
      fun hmem => hsymbol ((hperm.map CompiledFunction.symbol).mem_iff.mpr hmem)
    -- Nothing stands behind the functions, so this position stays, and there are as many functions.
    have hnone : image.function? fs.length = none :=
      Array.getElem?_eq_none h.size_functions.le
    rw [h.position_of_notMem hsymbol, positionIn, hnone, h'.position_of_notMem hother,
      hperm.length_eq]
    rfl

include h h' hperm in
/-- At the position that belongs to a position stands the same function. -/
theorem function?_positionIn (index : Nat) :
    other.function? (other.positionIn image index) =
      (image.function? index).map (LinkedFunction.relocate (other.positionIn image)) := by
  cases hfunction : image.function? index with
  | none =>
    have hsize : other.functions.size ≤ index := by
      rw [h'.size_functions, ← hperm.length_eq, ← h.size_functions]
      exact Array.getElem?_eq_none_iff.mp hfunction
    rw [positionIn, hfunction]
    exact Array.getElem?_eq_none hsize
  | some linked =>
    have hmem := hfunction
    rw [h.function?_eq, Option.map_eq_some_iff] at hmem
    obtain ⟨f, hf, rfl⟩ := hmem
    have hmoved : (f.locate image.position).relocate (other.positionIn image) =
        f.locate other.position := by
      rw [f.relocate_locate]
      exact congrArg (f.locate ·) (funext (h.positionIn_position h' hperm))
    have hg : f ∈ gs := hperm.mem_iff.mp (List.mem_of_getElem? hf)
    rw [Option.map_some, hmoved, positionIn, hfunction, Option.map_some, Option.getD_some,
      CompiledFunction.symbol_locate]
    exact h'.function?_position hg

include h h' hperm in
/-- A symbol is found in both images, at positions that belong together, or in none. -/
theorem index?_positionIn (symbol : String) :
    other.index? symbol = (image.index? symbol).map (other.positionIn image) := by
  by_cases hsymbol : symbol ∈ fs.map CompiledFunction.symbol
  · obtain ⟨f, hf, rfl⟩ := List.mem_map.mp hsymbol
    rw [h.index?_eq_some hf, h'.index?_eq_some (hperm.mem_iff.mp hf), Option.map_some,
      h.positionIn_position h' hperm]
  · have hother : symbol ∉ gs.map CompiledFunction.symbol :=
      fun hmem => hsymbol ((hperm.map CompiledFunction.symbol).mem_iff.mpr hmem)
    rw [← h.isSome_index?, Option.not_isSome_iff_eq_none] at hsymbol
    rw [← h'.isSome_index?, Option.not_isSome_iff_eq_none] at hother
    rw [hsymbol, hother, Option.map_none]

/-- **Images of the same functions run in lockstep**, in whatever order the functions stand. -/
def lockstep (setup : Setup) : Lockstep where
  source := image
  target := other
  sourceSetup := setup
  targetSetup := setup
  function := LinkedFunction.relocate (other.positionIn image)
  position := other.positionIn image
  effects := id
  symbol_function _ := rfl
  params_function _ := rfl
  registers_function _ := rfl
  code_function _ _ := Array.getElem?_map ..
  function?_position := h.function?_positionIn h' hperm
  position_of_none index hnone := by
    rw [positionIn, hnone]
    rfl
  agrees := .refl setup
  stopsAt_iff _ := Iff.rfl
  tick_effects _ := rfl
  print_effects _ _ := rfl
  pass_effects _ _ _ := rfl

end Holds

/-- **The order of object files does not matter.** They link in one order exactly when they link in
any other, and then the images cannot be told apart by calling symbols: under every setup and for
all arguments, at every moment of the two calls either both are over, with the same value or trap,
or none of them is; and both have made the same number of steps, printed the same text and passed
the same probes at the same depths. So both calls end alike, or both go on for ever. -/
theorem link_perm {objects others : List ObjectFile} (hperm : objects.Perm others) :
    ((∃ image, link objects = .ok image) ↔ ∃ other, link others = .ok other) ∧
    ∀ image other, link objects = .ok image → link others = .ok other →
      ∀ setup fuel symbol arguments e,
        Machine.callSymbol other setup fuel symbol arguments e =
          Machine.callSymbol image setup fuel symbol arguments e := by
  have hfunctions : (objects.flatMap ObjectFile.functions).Perm
      (others.flatMap ObjectFile.functions) := hperm.flatMap_right ObjectFile.functions
  constructor
  · rw [exists_link_iff, exists_link_iff]
    exact ⟨fun h => h.of_perm hfunctions, fun h => h.of_perm hfunctions.symm⟩
  · intro image other himage hother setup fuel symbol arguments e
    have hholds : image.Holds _ := link_eq_ok_iff.mp himage
    have hholds' : other.Holds _ := link_eq_ok_iff.mp hother
    exact (hholds.lockstep hholds' hfunctions setup).callSymbol_eq
      (hholds.index?_positionIn hholds' hfunctions symbol) fuel arguments e

/-- `link_perm` for two object files in both orders: each function stands elsewhere, and a mutant is
called alike. -/
theorem link_perm_example :
    Example.objects.Perm Example.objects.reverse ∧
    Example.linked.index? "main" = some 0 ∧ Example.relinked.index? "main" = some 3 ∧
    ∀ fuel, Machine.callSymbol Example.relinked { selector := some "swapped" } fuel "main" [] {} =
      Machine.callSymbol Example.linked { selector := some "swapped" } fuel "main" [] {} := by
  have hperm : Example.objects.Perm Example.objects.reverse := Example.objects.reverse_perm.symm
  have hlinked : link Example.objects = .ok Example.linked := by rfl
  have hrelinked : link Example.objects.reverse = .ok Example.relinked := by rfl
  refine ⟨hperm, by decide +kernel, by decide +kernel, fun fuel => ?_⟩
  exact (link_perm hperm).2 _ _ hlinked hrelinked _ fuel "main" [] {}

end Image

end MutationLab
