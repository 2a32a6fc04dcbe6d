import MutationLab.Proofs.Safety

/-! # Linking resolves every symbol

Object files may come from anywhere: they need not be compiled from modules, control may leave the
code of a function, and a function may declare fewer registers than it has parameters. Linking still
accepts exactly the object files whose symbols fit together (`Linkable`, `Image.exists_link_iff`);
the image that it makes reads back as the functions that were linked, symbol for symbol
(`Image.Holds.map_unlink?`); and a run of the image never wants a callee, because every active call
has a register for each parameter of its function (`Frame.Supplied`, `Machine.resolved_step`). The
three are put together in `Image.link_resolves`. -/

namespace MutationLab

namespace Example

/-- Two object files, one of which calls the other; the functions of the second declare fewer
registers than they have parameters. -/
def objects : List ObjectFile :=
  [{ name := "main.o"
     sourceHash := ""
     instrumented := false
     functions := [
       { symbol := "main", params := 0, registers := 1, probe := none,
         code := [.const 0 7, .call (some 0) "pick" [0, 0], .return (some 0)] }] },
   { name := "pick.o"
     sourceHash := ""
     instrumented := false
     functions := [
       { symbol := "pick", params := 2, registers := 0, probe := none,
         code := [.dispatch "first" [("swapped", "second")]] },
       { symbol := "first", params := 2, registers := 0, probe := none,
         code := [.return (some 0)] },
       { symbol := "second", params := 2, registers := 1, probe := none,
         code := [.return (some 1)] }] }]

/-- The image of the two. -/
def linked : Image := .ofFunctions (objects.flatMap ObjectFile.functions)

end Example

/-! ## What links -/

/-- Functions fit together: no symbol is defined twice, every symbol that one of them calls or
dispatches to is defined, and takes as many arguments as it is given there. -/
structure Linkable (fs : List CompiledFunction) : Prop where
  distinct : (fs.map CompiledFunction.symbol).Nodup
  defined : ∀ f ∈ fs, ∀ use ∈ f.uses, use.1 ∈ fs.map CompiledFunction.symbol
  arity : ∀ f ∈ fs, ∀ use ∈ f.uses, ∀ g ∈ fs, g.symbol = use.1 → g.params.toNat = use.2

namespace Image

/-- **Object files link exactly when their functions fit together.** -/
theorem exists_link_iff {objects : List ObjectFile} :
    (∃ image, link objects = .ok image) ↔ Linkable (objects.flatMap ObjectFile.functions) := by
  simp only [link_eq_ok_iff]
  generalize objects.flatMap ObjectFile.functions = fs
  constructor
  · rintro ⟨image, himage⟩
    refine ⟨himage.nodup, fun f hf use huse => ?_, fun f hf use huse g hg hsymbol => ?_⟩
    · obtain ⟨g, hg, hsymbol, -⟩ := himage.provided f hf use huse
      exact List.mem_map.mpr ⟨g, hg, hsymbol⟩
    · -- The provider is the only function with the symbol.
      obtain ⟨provider, hprovider, hprovides, hparams⟩ := himage.provided f hf use huse
      rw [himage.eq_of_symbol_eq hg hprovider (hsymbol.trans hprovides.symm)]
      exact hparams
  · intro h
    have hprovided : ∀ f ∈ fs, ∀ use ∈ f.uses, Provides fs use := fun f hf use huse => by
      obtain ⟨g, hg, hsymbol⟩ := List.mem_map.mp (h.defined f hf use huse)
      exact ⟨g, hg, hsymbol, h.arity f hf use huse g hg hsymbol⟩
    exact ⟨ofFunctions fs, holds_ofFunctions h.distinct hprovided⟩

/-! ## What is linked -/

/-- The symbol of the function at a position. -/
def symbolAt? (image : Image) (index : Nat) : Option String :=
  (image.function? index).map LinkedFunction.symbol

/-- An instruction with symbols in the place of positions again, if a function stands at each. -/
def unlinkCode? (image : Image) : Code → Option ObjectOperation
  | .const dst value => some (.const dst value)
  | .binary dst kind lhs rhs => some (.binary dst kind lhs rhs)
  | .compare dst predicate lhs rhs => some (.compare dst predicate lhs rhs)
  | .call dst callee args => do return .call dst (← image.symbolAt? callee) args
  | .jump target => some (.jump (.ofNat target))
  | .branch cond thenTarget elseTarget =>
      some (.branch cond (.ofNat thenTarget) (.ofNat elseTarget))
  | .return value => some (.return value)
  | .print value => some (.print value)
  | .trap message => some (.trap message)
  | .nop => some .nop
  | .dispatch pristine targets => do
      let pristine ← image.symbolAt? pristine
      let targets ← targets.mapM fun target => do return (target.1, ← image.symbolAt? target.2)
      return .dispatch pristine targets

/-- A function with symbols in the place of positions again. -/
def unlink? (image : Image) (f : LinkedFunction) : Option CompiledFunction := do
  let code ← f.code.toList.mapM image.unlinkCode?
  return {
    symbol := f.symbol, params := f.params, registers := f.registers, probe := f.probe, code }

end Image

/-- What is read back element by element is read back as a list. -/
theorem mapM_map_eq_some {α β : Type} {xs : List α} {put : α → β} {get : β → Option α}
    (h : ∀ x ∈ xs, get (put x) = some x) : (xs.map put).mapM get = some xs := by
  induction xs with
  | nil => rfl
  | cons x xs ih =>
    rw [List.forall_mem_cons] at h
    rw [List.map_cons, List.mapM_cons, h.1, ih h.2]
    rfl

namespace Image.Holds

variable {image : Image} {fs : List CompiledFunction} (h : image.Holds fs)

include h

/-- The functions stand in the image in their order. -/
theorem function?_eq (index : Nat) :
    image.function? index = fs[index]?.map (CompiledFunction.locate image.position) := by
  rw [function?, ← Array.getElem?_toList, h.functions_eq, List.getElem?_map]

/-- A symbol is found at the position of its function, and only there. -/
theorem index?_eq_some_iff {symbol : String} {index : Nat} :
    image.index? symbol = some index ↔ ∃ f, fs[index]? = some f ∧ f.symbol = symbol := by
  have hsymbol : ∀ {i : Nat} (hi : i < image.functions.size), ∃ f, fs[i]? = some f ∧
      image.functions[i].symbol = f.symbol := fun {i} hi => by
    have hfunction : image.function? i = some image.functions[i] := Array.getElem?_eq_getElem hi
    rw [h.function?_eq, Option.map_eq_some_iff] at hfunction
    obtain ⟨f, hf, hlocated⟩ := hfunction
    exact ⟨f, hf, by rw [← hlocated, CompiledFunction.symbol_locate]⟩
  rw [index?, Array.findIdx?_eq_some_iff_getElem]
  constructor
  · rintro ⟨hlt, hfound, -⟩
    obtain ⟨f, hf, hfsymbol⟩ := hsymbol hlt
    exact ⟨f, hf, hfsymbol ▸ of_decide_eq_true hfound⟩
  · rintro ⟨f, hf, rfl⟩
    have hlt : index < image.functions.size := by
      have hfunction := h.function?_eq index
      rw [hf] at hfunction
      exact (Array.getElem?_eq_some_iff.mp hfunction).1
    refine ⟨hlt, ?_, fun earlier hearlier => ?_⟩
    · obtain ⟨g, hg, hgsymbol⟩ := hsymbol hlt
      obtain rfl := Option.some.inj (hf.symm.trans hg)
      exact decide_eq_true hgsymbol
    · -- The symbol of an earlier function is another one.
      obtain ⟨g, hg, hgsymbol⟩ := hsymbol (hearlier.trans hlt)
      rw [decide_eq_true_iff, hgsymbol]
      intro heq
      have hsame : (fs.map CompiledFunction.symbol)[earlier]? =
          (fs.map CompiledFunction.symbol)[index]? := by
        rw [List.getElem?_map, List.getElem?_map, hg, hf, Option.map_some, Option.map_some, heq]
      have hlength : earlier < (fs.map CompiledFunction.symbol).length := by
        rw [List.length_map]
        exact (List.getElem?_eq_some_iff.mp hg).1
      exact hearlier.ne ((List.getElem?_inj hlength h.nodup).mp hsame)

/-- At the position of a symbol that is used stands the function with the symbol. -/
theorem symbolAt?_position {f : CompiledFunction} (hf : f ∈ fs) {use : String × Nat}
    (huse : use ∈ f.uses) : image.symbolAt? (image.position use.1) = some use.1 := by
  obtain ⟨g, hg, hsymbol, -⟩ := h.provided f hf use huse
  rw [← hsymbol, symbolAt?, h.function?_position hg, Option.map_some,
    CompiledFunction.symbol_locate]

/-- An instruction of the image reads back as the operation that was linked. -/
theorem unlinkCode?_locate {f : CompiledFunction} (hf : f ∈ fs) {operation : ObjectOperation}
    (hoperation : operation ∈ f.code) :
    image.unlinkCode? (operation.locate image.position) = some operation := by
  have hsymbol : ∀ use ∈ operation.uses f.params.toNat,
      image.symbolAt? (image.position use.1) = some use.1 := fun use huse =>
    h.symbolAt?_position hf (List.mem_flatMap.mpr ⟨operation, hoperation, huse⟩)
  cases operation with
  | call dst symbol args =>
    rw [ObjectOperation.locate, unlinkCode?,
      hsymbol (symbol, args.length) (List.mem_singleton_self _)]
    rfl
  | dispatch pristine targets =>
    rw [ObjectOperation.uses, List.forall_mem_cons, List.forall_mem_map] at hsymbol
    rw [ObjectOperation.locate, unlinkCode?, hsymbol.1, Option.bind_eq_bind, Option.bind_some,
      mapM_map_eq_some fun target htarget => ?_]
    · rfl
    · rw [hsymbol.2 target htarget]
      rfl
  | jump target => rw [ObjectOperation.locate, unlinkCode?, UInt64.ofNat_toNat]
  | branch cond thenTarget elseTarget =>
    rw [ObjectOperation.locate, unlinkCode?, UInt64.ofNat_toNat, UInt64.ofNat_toNat]
  | _ => rfl

/-- **The image reads back as the functions that were linked**, in their order. -/
theorem map_unlink? : image.functions.toList.map image.unlink? = fs.map some := by
  rw [h.functions_eq, List.map_map]
  refine List.map_congr_left fun f hf => ?_
  rw [Function.comp_apply, unlink?, CompiledFunction.locate,
    mapM_map_eq_some fun operation hoperation => h.unlinkCode?_locate hf hoperation]
  rfl

end Image.Holds

/-! ## What a run never wants -/

/-- Whatever functions of an image use is there and takes as many arguments as it is given. -/
def Image.Closed (image : Image) : Prop :=
  ∀ index f, image.function? index = some f → ∀ code ∈ f.code, ∀ use ∈ code.uses f.params.toNat,
    ∃ g, image.function? use.1 = some g ∧ g.params.toNat = use.2

/-- An image that holds functions is closed. -/
theorem Image.Holds.closed {image : Image} {fs : List CompiledFunction} (h : image.Holds fs) :
    image.Closed := by
  intro index linked hlinked code hcode use huse
  rw [h.function?_eq, Option.map_eq_some_iff] at hlinked
  obtain ⟨f, hf, rfl⟩ := hlinked
  exact h.exists_of_mem_uses (List.mem_of_getElem? hf) hcode huse

/-- The fault is that of a callee which is not there or is given a wrong number of arguments. -/
def Trap.isUnresolved : Trap → Bool
  | arityMismatch .. | undefinedSymbol _ => true
  | _ => false

/-- A call of a function of an image that has a register for each parameter. -/
structure Frame.Supplied (image : Image) (frame : Frame) : Prop where
  loaded : ∃ index, image.function? index = some frame.function
  params_le : frame.function.params.toNat ≤ frame.registers.size

/-- A supplied call stays so when it goes on at another position. -/
theorem Frame.Supplied.moveTo {image : Image} {frame : Frame} (h : frame.Supplied image)
    (position : Nat) : Supplied image { frame with position } :=
  ⟨h.loaded, h.params_le⟩

namespace Machine

/-- A result with a property, or a fault that is not for want of a callee. -/
inductive Settled {α : Type} (P : α → Prop) : Except Trap α → Prop where
  /-- There is a result. -/
  | ok {a : α} (h : P a) : Settled P (.ok a)
  /-- There is a fault. -/
  | error {trap : Trap} (h : trap.isUnresolved = false) : Settled P (.error trap)

/-- What is made of a settled result is settled. -/
theorem Settled.bind {α β : Type} {P : α → Prop} {Q : β → Prop} {x : Except Trap α}
    {f : α → Except Trap β} (hx : Settled P x) (hf : ∀ a, P a → Settled Q (f a)) :
    Settled Q (x >>= f) := by
  cases hx with
  | ok h => exact hf _ h
  | error h => exact .error h

/-- Reading a register is settled. -/
theorem settled_get (frame : Frame) (r : Register) : Settled (fun _ => True) (frame.get r) := by
  rw [Frame.get]
  split
  · exact .ok trivial
  · exact .error rfl

/-- Reading registers is settled, and gives one value each. -/
theorem settled_getAll (frame : Frame) (rs : List Register) :
    Settled (fun values => values.length = rs.length) (frame.getAll rs) := by
  induction rs with
  | nil => exact .ok rfl
  | cons r rs ih =>
    refine (settled_get frame r).bind fun value _ => ih.bind fun values hvalues => .ok ?_
    rw [List.length_cons, List.length_cons, hvalues]

/-- Writing a register is settled, and leaves the call supplied. -/
theorem settled_set {image : Image} {frame : Frame} (h : frame.Supplied image) (r : Register)
    (value : Int64) : Settled (Frame.Supplied image) (frame.set r value) := by
  by_cases hr : r.toNat < frame.registers.size
  · obtain ⟨registers, hset, hsize⟩ := Frame.exists_set hr value
    rw [hset]
    exact .ok ⟨h.loaded, hsize ▸ h.params_le⟩
  · have hnone : frame.registers.set? r.toNat value = none := by
      rw [Registers.set?, if_neg hr]
    rw [Frame.set, hnone]
    exact .error rfl

/-- A state behind a step in which all active calls are supplied, or in which the run has ended, and
not for want of a callee. -/
inductive Resolved (image : Image) : Next → Prop where
  /-- The run goes on. -/
  | go {top : Frame} {below : List Frame} (h : ∀ frame ∈ top :: below, frame.Supplied image) :
      Resolved image (.go top below)
  /-- The run is over. -/
  | stop {reply : Except Trap Int64} (h : Settled (fun _ => True) reply) :
      Resolved image (.stop reply)

section

variable {image : Image} {setup : Setup} {below : List Frame}
  (hbelow : ∀ frame ∈ below, frame.Supplied image)

include hbelow

/-- Going on with a supplied call is resolved. -/
theorem resolved_resume {x : Except Trap Frame} (hx : Settled (Frame.Supplied image) x)
    (e : Effects) : Resolved image (resume below e x).1 := by
  cases hx with
  | ok h => exact .go (List.forall_mem_cons.mpr ⟨h, hbelow⟩)
  | error h => exact .stop (.error h)

/-- Entering a function that is there with as many arguments as it takes is resolved, whatever
number of registers it declares. -/
theorem resolved_enter {index : Nat} {f : LinkedFunction} (hf : image.function? index = some f)
    {arguments : List Int64} (harity : f.params.toNat = arguments.length)
    (result : Option Register) (depth : Nat) (e : Effects) :
    Resolved image (proceed below (enter image setup index arguments result depth e)).1 := by
  by_cases hdepth : setup.maxDepth ≤ depth
  · rw [enter_of_le hf hdepth]
    exact .stop (.error rfl)
  · rw [enter_of_eq hf hdepth harity]
    refine .go (List.forall_mem_cons.mpr ⟨⟨⟨index, hf⟩, ?_⟩, hbelow⟩)
    exact harity ▸ Nat.le_max_right _ _

/-- Leaving a call is resolved. -/
theorem resolved_leave (result : Option Register) (value : Int64) (e : Effects) :
    Resolved image (leave result value below e).1 := by
  cases below with
  | nil => exact .stop (.ok trivial)
  | cons caller below =>
    cases result with
    | none => exact .go hbelow
    | some dst =>
      rw [List.forall_mem_cons] at hbelow
      exact resolved_resume hbelow.2 (settled_set hbelow.1 dst value) e

end

section

variable {image : Image} {setup : Setup} (hclosed : image.Closed) {top : Frame}
  {below : List Frame}

include hclosed

/-- **An instruction executed in a supplied call** leads to a resolved state. -/
theorem resolved_execute (htop : top.Supplied image)
    (hbelow : ∀ frame ∈ below, frame.Supplied image) {code : Code}
    (hcode : code ∈ top.function.code) (e : Effects) :
    Resolved image (execute image setup code top below e).1 := by
  obtain ⟨index, hindex⟩ := htop.loaded
  have huses := hclosed index _ hindex code hcode
  -- Only calls and trampolines enter functions; all else goes on in the same call or leaves it.
  cases code with
  | const dst value => exact resolved_resume hbelow (settled_set htop dst value) e
  | binary dst kind lhs rhs =>
    refine resolved_resume hbelow ((settled_get top lhs).bind fun a _ =>
      (settled_get top rhs).bind fun b _ => ?_) e
    split
    · exact settled_set htop dst _
    · exact .error rfl
  | compare dst predicate lhs rhs =>
    exact resolved_resume hbelow ((settled_get top lhs).bind fun a _ =>
      (settled_get top rhs).bind fun b _ => settled_set htop dst _) e
  | call dst callee args =>
    obtain ⟨g, hg, harity⟩ := huses (callee, args.length) (List.mem_singleton_self _)
    have hvalues := settled_getAll top args
    rw [execute]
    generalize top.getAll args = values at hvalues ⊢
    cases hvalues with
    | ok hlength =>
      exact resolved_enter (List.forall_mem_cons.mpr ⟨htop, hbelow⟩) hg
        (harity.trans hlength.symm) dst _ e
    | error h => exact .stop (.error h)
  | jump target => exact .go (List.forall_mem_cons.mpr ⟨htop.moveTo target, hbelow⟩)
  | branch cond thenTarget elseTarget =>
    exact resolved_resume hbelow ((settled_get top cond).bind fun value _ =>
      .ok (htop.moveTo _)) e
  | «return» value =>
    cases value with
    | none => exact resolved_leave hbelow top.result 0 e
    | some r =>
      have hvalue := settled_get top r
      rw [execute]
      generalize top.get r = value at hvalue ⊢
      cases hvalue with
      | ok => exact resolved_leave hbelow top.result _ e
      | error h => exact .stop (.error h)
  | print r =>
    have hvalue := settled_get top r
    rw [execute]
    generalize top.get r = value at hvalue ⊢
    cases hvalue with
    | ok => exact .go (List.forall_mem_cons.mpr ⟨htop, hbelow⟩)
    | error h => exact .stop (.error h)
  | trap message => exact .stop (.error rfl)
  | nop => exact .go (List.forall_mem_cons.mpr ⟨htop, hbelow⟩)
  | dispatch pristine targets =>
    obtain ⟨g, hg, harity⟩ := huses (choose setup.selector pristine targets,
      top.function.params.toNat) (mem_uses_dispatch _ _ _ _)
    exact resolved_enter hbelow hg (harity.trans (by simp [Registers.take])) top.result _ e

/-- **A step from supplied calls** leads to a resolved state. -/
theorem resolved_step (h : ∀ frame ∈ top :: below, frame.Supplied image) (e : Effects) :
    Resolved image (step image setup top below e).1 := by
  obtain ⟨htop, hbelow⟩ := List.forall_mem_cons.mp h
  rw [step]
  dsimp only
  split
  · exact .stop (.error rfl)
  · split
    · exact .stop (.error rfl)
    · rename_i code hcode
      exact resolved_execute hclosed (htop.moveTo (top.position + 1)) hbelow
        (Array.mem_of_getElem? hcode) _

/-- **A run from a resolved state** stays among resolved states. -/
theorem resolved_iterate {next : Next × Effects} (h : Resolved image next.1) (steps : Nat) :
    Resolved image ((advance image setup)^[steps] next).1 := by
  refine iterate_of_step (fun top below e hresolved => ?_) h steps
  cases hresolved with
  | go hsupplied => exact resolved_step hclosed hsupplied e

end

end Machine

/-- **Linking is sound and complete.** Object files link exactly when their functions fit together.
Then the image reads back as their functions in order, symbols in the place of positions, and a
symbol is found at the position of its function and only there. Call a function of the image with as
many arguments as it takes, under any setup: at every moment of the run every active call has a
register for each parameter of its function, so what a trampoline hands on is there; and no run ends
for want of a callee. -/
theorem Image.link_resolves (objects : List ObjectFile) :
    ((∃ image, link objects = .ok image) ↔ Linkable (objects.flatMap ObjectFile.functions)) ∧
    ∀ image, link objects = .ok image →
      image.functions.toList.map image.unlink? =
        (objects.flatMap ObjectFile.functions).map some ∧
      (∀ symbol index, image.index? symbol = some index ↔
        ∃ f, (objects.flatMap ObjectFile.functions)[index]? = some f ∧ f.symbol = symbol) ∧
      ∀ index f, image.function? index = some f →
        ∀ arguments : List Int64, arguments.length = f.params.toNat → ∀ setup e,
          (∀ steps top below e', (Machine.advance image setup)^[steps]
              (Machine.proceed [] (Machine.enter image setup index arguments none 0 e)) =
                (.go top below, e') →
            ∀ frame ∈ top :: below, frame.function.params.toNat ≤ frame.registers.size) ∧
          ∀ fuel trap, (Machine.call image setup fuel index arguments e).1 =
            some (.error trap) → trap.isUnresolved = false := by
  refine ⟨exists_link_iff, fun image himage => ?_⟩
  have hholds : image.Holds _ := link_eq_ok_iff.mp himage
  refine ⟨hholds.map_unlink?, fun symbol index => hholds.index?_eq_some_iff, ?_⟩
  intro index f hf arguments harity setup e
  have hentered : Machine.Resolved image
      (Machine.proceed [] (Machine.enter image setup index arguments none 0 e)).1 :=
    Machine.resolved_enter (fun _ h => absurd h List.not_mem_nil) hf harity.symm none 0 e
  have hresolved : ∀ steps, Machine.Resolved image ((Machine.advance image setup)^[steps]
      (Machine.proceed [] (Machine.enter image setup index arguments none 0 e))).1 :=
    Machine.resolved_iterate hholds.closed hentered
  refine ⟨fun steps top below e' hstate => ?_, fun fuel trap htrap => ?_⟩
  · have hsupplied := hresolved steps
    rw [hstate] at hsupplied
    cases hsupplied with
    | go h => exact fun frame hframe => (h frame hframe).params_le
  · rw [Machine.call_eq, Machine.runFrom_eq_iterate] at htrap
    have hend := hresolved fuel
    split at htrap
    · exact nomatch htrap
    · rename_i hstate
      rw [hstate] at hend
      obtain rfl := Option.some.inj htrap
      cases hend with
      | stop h =>
        cases h with
        | error h => exact h

/-- `link_resolves` at a trampoline that hands on more arguments than it declares registers. -/
theorem Image.link_resolves_example :
    Linkable (Example.objects.flatMap ObjectFile.functions) ∧
    Example.linked.index? "pick" = some 1 ∧
    ∀ fuel trap, (Machine.call Example.linked { selector := some "swapped" } fuel 1 [3, 4] {}).1 =
      some (.error trap) → trap.isUnresolved = false := by
  have hlinked : link Example.objects = .ok Example.linked := by rfl
  have hpick : (Example.linked.function? 1).map LinkedFunction.params = some 2 := by decide +kernel
  obtain ⟨pick, hpick, hparams⟩ := Option.map_eq_some_iff.mp hpick
  obtain ⟨hlinks, hresolves⟩ := link_resolves Example.objects
  obtain ⟨-, hindex, hruns⟩ := hresolves _ hlinked
  refine ⟨hlinks.mp ⟨_, hlinked⟩, (hindex _ _).mpr ⟨_, rfl, rfl⟩, ?_⟩
  exact (hruns 1 pick hpick [3, 4] (by rw [hparams]; rfl) _ _).2

end MutationLab
