import MutationLab.Proofs.Compilation
import MutationLab.Proofs.Mutants.Selection
import MutationLab.Proofs.Running

/-! # Compiled code never goes wrong

A module that compiles and links is run without faults of its own making: whatever is called with as
many arguments as it takes, the run looks up nothing that is not there, and it ends, if it ends at
all, with a value or a fault that the code asks for (`Compilation.Builds.regular_of_call`).

The argument is one of type soundness. Functions of an image built from modules are `WellFormed`;
active calls of such functions form a `Stacked` list, in which each call stands at an instruction of
its function and has all the registers that it may name; and a step from such a list leads to such a
list or to a regular end (`Stacked.step`). -/

namespace MutationLab

/-! ## Registers of functions -/

/-- The registers of a module can be counted: none has the last of all numbers. -/
def Module.Countable (m : Module) : Prop :=
  ∀ f ∈ m.functions, ∀ i ∈ f.body, ∀ r ∈ i.operation.registers, r ≠ 4294967295

instance (m : Module) : Decidable m.Countable :=
  -- The registers are finite too, but there are too many of them to go through.
  letI (rs : List Register) : Decidable (∀ r ∈ rs, r ≠ 4294967295) := List.decidableBAll _ rs
  inferInstanceAs (Decidable (∀ f ∈ m.functions, ∀ i ∈ f.body, _))

/-- Counting registers on from `count` goes no further than it must. -/
theorem foldl_max_register_lt {rs : List Register} (h : ∀ r ∈ rs, r ≠ 4294967295) {count : Nat}
    (hcount : count < 4294967296) :
    rs.foldl (fun count register => max count (register.toNat + 1)) count < 4294967296 := by
  induction rs generalizing count with
  | nil => exact hcount
  | cons r rs ih =>
    rw [List.forall_mem_cons] at h
    refine ih h.2 ?_
    have hne : r.toNat ≠ 4294967295 := fun heq => h.1 (UInt32.toNat_inj.mp heq)
    have hlt : r.toNat < 4294967296 := r.toNat_lt
    show max count (r.toNat + 1) < 4294967296
    omega

/-- Counting registers starts from `count` and comes behind all of them. -/
theorem le_foldl_max_register (rs : List Register) (count : Nat) :
    count ≤ rs.foldl (fun count register => max count (register.toNat + 1)) count ∧
      ∀ r ∈ rs,
        r.toNat < rs.foldl (fun count register => max count (register.toNat + 1)) count := by
  induction rs generalizing count with
  | nil => simp
  | cons r rs ih =>
    obtain ⟨hcount, hall⟩ := ih (max count (r.toNat + 1))
    rw [List.foldl_cons, List.forall_mem_cons]
    exact ⟨by omega, by omega, hall⟩

namespace Function

variable {f : Function}
  (h : ∀ i ∈ f.body, ∀ r ∈ i.operation.registers, r ≠ 4294967295)

include h

/-- The register count is the number that counting ends with. -/
theorem toNat_registerCount :
    f.registerCount.toNat =
      (f.body.flatMap fun instruction => instruction.operation.registers).foldl
        (fun count register => max count (register.toNat + 1)) f.params.toNat := by
  rw [registerCount, UInt32.toNat_ofNat']
  refine Nat.mod_eq_of_lt (foldl_max_register_lt ?_ f.params.toNat_lt)
  intro r hr
  obtain ⟨i, hi, hr⟩ := List.mem_flatMap.mp hr
  exact h i hi r hr

/-- A function has a register for each parameter. -/
theorem params_le_registerCount : f.params.toNat ≤ f.registerCount.toNat := by
  rw [toNat_registerCount h]
  exact (le_foldl_max_register _ _).1

/-- A function has every register that it names. -/
theorem lt_registerCount {i : Instruction} (hi : i ∈ f.body) {r : Register}
    (hr : r ∈ i.operation.registers) : r.toNat < f.registerCount.toNat := by
  rw [toNat_registerCount h]
  exact (le_foldl_max_register _ _).2 r (List.mem_flatMap.mpr ⟨i, hi, hr⟩)

end Function

/-! ## Well-formed images -/

namespace Code

/-- The registers that are read or written. -/
def registers : Code → List Register
  | const dst _ => [dst]
  | binary dst _ lhs rhs | compare dst _ lhs rhs => [dst, lhs, rhs]
  | call dst _ args => dst.toList ++ args
  | branch cond _ _ => [cond]
  | Code.return value => value.toList
  | print value => [value]
  | jump _ | trap _ | nop | dispatch .. => []

/-- The functions that an instruction of a function with `params` parameters may enter, each with
the number of arguments that it is given. -/
def uses (params : Nat) : Code → List (Nat × Nat)
  | call _ callee args => [(callee, args.length)]
  | dispatch pristine targets => (pristine, params) :: targets.map fun target => (target.2, params)
  | _ => []

/-- The positions in the same function at which control may go on behind an instruction. -/
def successors (position : Nat) : Code → List Nat
  | jump target => [target]
  | branch _ thenTarget elseTarget => [thenTarget, elseTarget]
  | Code.return _ | trap _ | dispatch .. => []
  | _ => [position + 1]

/-- Locating a compiled operation keeps its registers. -/
theorem registers_locate (mangling : Mangling) (position : String → Nat) (operation : Operation) :
    ((operation.lower mangling).locate position).registers = operation.registers := by
  cases operation <;> rfl

/-- Locating an operation locates what it uses. -/
theorem uses_locate (params : Nat) (position : String → Nat) (operation : ObjectOperation) :
    (operation.locate position).uses params =
      (operation.uses params).map fun use => (position use.1, use.2) := by
  cases operation with
  | dispatch pristine targets =>
    rw [ObjectOperation.locate, uses, ObjectOperation.uses, List.map_cons, List.map_map,
      List.map_map]
    rfl
  | _ => rfl

/-- Control goes on behind an operation that does not end the body, or at one of its targets. -/
theorem of_mem_successors_locate {mangling : Mangling} {position : String → Nat}
    {operation : Operation} {here next : Nat}
    (h : next ∈ ((operation.lower mangling).locate position).successors here) :
    operation.isTerminator = false ∧ next = here + 1 ∨
      ∃ target ∈ operation.targets, next = target.toNat := by
  cases operation <;>
    simp_all [Operation.lower, ObjectOperation.locate, successors, Operation.isTerminator,
      Operation.targets]

end Code

/-- A function of an image keeps to itself: it has all the registers that it names, control stays
inside its code, and what it enters is there and takes as many arguments as it is given. -/
structure LinkedFunction.WellFormed (image : Image) (f : LinkedFunction) : Prop where
  params_le : f.params.toNat ≤ f.registers.toNat
  code_ne_nil : 0 < f.code.size
  registers_lt : ∀ code ∈ f.code, ∀ r ∈ code.registers, r.toNat < f.registers.toNat
  successors_lt : ∀ position (code : Code), f.code[position]? = some code →
    ∀ next ∈ code.successors position, next < f.code.size
  uses : ∀ code ∈ f.code, ∀ use ∈ code.uses f.params.toNat,
    ∃ g, image.function? use.1 = some g ∧ g.params.toNat = use.2

/-- All functions of an image are well formed. -/
def Image.WellFormed (image : Image) : Prop :=
  ∀ index f, image.function? index = some f → f.WellFormed image

/-- What a function of an image uses is there and takes as many arguments as it is given. -/
theorem Image.Holds.exists_of_mem_uses {image : Image} {fs : List CompiledFunction}
    (h : image.Holds fs) {f : CompiledFunction} (hf : f ∈ fs) {code : Code}
    (hcode : code ∈ (f.locate image.position).code) {use : Nat × Nat}
    (huse : use ∈ code.uses f.params.toNat) :
    ∃ g, image.function? use.1 = some g ∧ g.params.toNat = use.2 := by
  rw [CompiledFunction.locate, List.mem_toArray, List.mem_map] at hcode
  obtain ⟨operation, hoperation, rfl⟩ := hcode
  rw [Code.uses_locate, List.mem_map] at huse
  obtain ⟨use, huse, rfl⟩ := huse
  obtain ⟨g, hg, hsymbol, hparams⟩ :=
    h.provided _ hf use (List.mem_flatMap.mpr ⟨operation, hoperation, huse⟩)
  exact ⟨g.locate image.position, hsymbol ▸ h.function?_position hg, hparams⟩

/-- Behind an instruction that does not end a sound body stands another one. -/
theorem Function.Sound.succ_lt {f : Function} (h : f.Sound) {position : Nat} {i : Instruction}
    (hi : f.body[position]? = some i) (hgoes : i.operation.isTerminator = false) :
    position + 1 < f.body.length := by
  obtain ⟨last, hlast, hends⟩ := h.terminated
  have hlt : position < f.body.length := (List.getElem?_eq_some_iff.mp hi).1
  by_contra hle
  obtain rfl : position = f.body.length - 1 := by omega
  rw [List.getLast?_eq_getElem?, hi, Option.some.injEq] at hlast
  rw [← hlast, hgoes] at hends
  exact nomatch hends

namespace Compilation

variable {c : Compilation} {ms : List Module} {image : Image}

/-- **A sound function is compiled to a well-formed one**, in every image that holds what it
uses. -/
theorem wellFormed_locate {fs : List CompiledFunction} (hholds : image.Holds fs) {id : ModuleId}
    {f : Function} (hsound : f.Sound)
    (hcountable : ∀ i ∈ f.body, ∀ r ∈ i.operation.registers, r ≠ 4294967295)
    (hmem : c.function id f ∈ fs) :
    ((c.function id f).locate image.position).WellFormed image := by
  have hcode : ((c.function id f).locate image.position).code =
      (f.body.map fun i => (i.operation.lower c.mangling).locate image.position).toArray := by
    simp [CompiledFunction.locate, function, Function.comp_def]
  have hsize : ((c.function id f).locate image.position).code.size = f.body.length := by
    simp [hcode]
  refine ⟨Function.params_le_registerCount hcountable, ?_, ?_, ?_, ?_⟩
  · obtain ⟨last, hlast, -⟩ := hsound.terminated
    rw [hsize, List.length_pos_iff]
    rintro hnil
    rw [hnil] at hlast
    cases hlast
  · intro code hmem r hr
    rw [hcode, List.mem_toArray, List.mem_map] at hmem
    obtain ⟨i, hi, rfl⟩ := hmem
    rw [Code.registers_locate] at hr
    exact Function.lt_registerCount hcountable hi hr
  · intro position code hposition next hnext
    rw [hcode, List.getElem?_toArray, List.getElem?_map, Option.map_eq_some_iff] at hposition
    obtain ⟨i, hi, rfl⟩ := hposition
    rw [hsize]
    obtain ⟨hgoes, rfl⟩ | ⟨target, htarget, rfl⟩ := Code.of_mem_successors_locate hnext
    · exact hsound.succ_lt hi hgoes
    · exact hsound.inside i (List.mem_of_getElem? hi) target htarget
  · exact fun code hcodemem use huse => hholds.exists_of_mem_uses hmem hcodemem huse

/-- **An image built from modules alone is well formed.** -/
theorem Builds.wellFormed (h : c.Builds ms [] image) (hcountable : ∀ m ∈ ms, m.Countable) :
    image.WellFormed := by
  obtain ⟨hsound, hholds⟩ := builds_iff.mp h
  intro index linked hlinked
  have hmem : linked ∈ image.functions.toList := by
    rw [Image.function?] at hlinked
    exact Array.mem_toList_iff.mpr (Array.mem_of_getElem? hlinked)
  rw [hholds.functions_eq, List.mem_map] at hmem
  obtain ⟨g, hg, rfl⟩ := hmem
  obtain ⟨id, m, hm, f, hf, rfl⟩ | ⟨o, ho, -⟩ := mem_programFunctions.mp hg
  · have hm := List.mem_of_getElem? hm
    exact wellFormed_locate hholds ((hsound m hm).functions f hf) (hcountable m hm f hf) hg
  · cases ho

end Compilation

/-! ## Well-formed calls -/

/-- The call underneath, if there is one, has the register that receives a value. -/
def Receives (result : Option Register) : List Frame → Prop
  | [] => True
  | caller :: _ => ∀ dst ∈ result, dst.toNat < caller.registers.size

namespace Frame

/-- A call of a function of an image that has all the registers that the function may name. -/
structure Equipped (image : Image) (frame : Frame) : Prop where
  loaded : ∃ index, image.function? index = some frame.function
  registers_le : frame.function.registers.toNat ≤ frame.registers.size

/-- An equipped call that stands at an instruction. -/
structure WellFormed (image : Image) (frame : Frame) : Prop extends frame.Equipped image where
  position_lt : frame.position < frame.function.code.size

/-- Well-formed calls one upon the other, the innermost first. -/
inductive Stacked (image : Image) : List Frame → Prop where
  /-- No call is active. -/
  | nil : Stacked image []
  /-- A call and those below it. -/
  | cons {frame : Frame} {below : List Frame} (h : frame.WellFormed image)
      (hresult : Receives frame.result below) (hbelow : Stacked image below) :
      Stacked image (frame :: below)

/-- A register that is there can be written, which adds none. -/
theorem exists_set {frame : Frame} {r : Register} (hr : r.toNat < frame.registers.size)
    (value : Int64) : ∃ registers, frame.set r value = .ok { frame with registers } ∧
      registers.size = frame.registers.size := by
  obtain ⟨registers, hset⟩ :=
    Option.isSome_iff_exists.mp ((frame.registers.isSome_set? r.toNat value).mpr hr)
  refine ⟨registers, by rw [set, hset], ?_⟩
  rw [Registers.set?, if_pos hr, Option.some.injEq] at hset
  subst hset
  split <;> rfl

namespace Equipped

variable {image : Image} {frame : Frame} (h : frame.Equipped image)

include h

/-- An equipped call stays so when it goes on at another position. -/
theorem moveTo (position : Nat) : Equipped image { frame with position } :=
  ⟨h.loaded, h.registers_le⟩

variable (hwf : image.WellFormed) {code : Code} (hcode : code ∈ frame.function.code)

include hwf hcode

/-- A call has the registers of each instruction of its function. -/
theorem lt_size {r : Register} (hr : r ∈ code.registers) : r.toNat < frame.registers.size := by
  obtain ⟨index, hindex⟩ := h.loaded
  exact ((hwf index _ hindex).registers_lt code hcode r hr).trans_le h.registers_le

/-- A register of an instruction can be read. -/
theorem exists_get {r : Register} (hr : r ∈ code.registers) : ∃ value, frame.get r = .ok value := by
  have hlt := (frame.registers.isSome_get? r.toNat).mpr (h.lt_size hwf hcode hr)
  obtain ⟨value, hvalue⟩ := Option.isSome_iff_exists.mp hlt
  exact ⟨value, by rw [get, hvalue]⟩

/-- Registers of an instruction can be read, and give one value each. -/
theorem exists_getAll (rs : List Register) (hrs : ∀ r ∈ rs, r ∈ code.registers) :
    ∃ values, frame.getAll rs = .ok values ∧ values.length = rs.length := by
  induction rs with
  | nil => exact ⟨[], rfl, rfl⟩
  | cons r rs ih =>
    rw [List.forall_mem_cons] at hrs
    obtain ⟨value, hvalue⟩ := h.exists_get hwf hcode hrs.1
    obtain ⟨values, hvalues, hlength⟩ := ih hrs.2
    refine ⟨value :: values, ?_, by rw [List.length_cons, List.length_cons, hlength]⟩
    rw [getAll, hvalue, hvalues]
    rfl

end Equipped

end Frame

namespace Machine

/-- A trampoline enters its pristine function or that of a target. -/
theorem mem_uses_dispatch (params : Nat) (selector : Option String) (pristine : Nat)
    (targets : List (String × Nat)) :
    (choose selector pristine targets, params) ∈ (Code.dispatch pristine targets).uses params := by
  have huses : (Code.dispatch pristine targets).uses params =
      (pristine :: targets.map Prod.snd).map fun callee => (callee, params) := by
    simp [Code.uses, Function.comp_def]
  rw [huses]
  exact List.mem_map_of_mem (getD_lookup_mem selector pristine targets)

/-- How compiled code may end: with a value, or with a fault that it asks for or that comes from the
limits of the run. -/
inductive RegularEnd (image : Image) (setup : Setup) : Except Trap Int64 → Prop where
  /-- It returns. -/
  | value (value : Int64) : RegularEnd image setup (.ok value)
  /-- One of its functions divides by zero. -/
  | divisionByZero {index : Nat} {f : LinkedFunction} (h : image.function? index = some f) :
      RegularEnd image setup (.error (.divisionByZero f.symbol))
  /-- One of its functions has a trap instruction. -/
  | explicit {index : Nat} {f : LinkedFunction} (h : image.function? index = some f)
      (message : String) : RegularEnd image setup (.error (.explicit f.symbol message))
  /-- Too many calls are active. -/
  | stackOverflow : RegularEnd image setup (.error (.stackOverflow setup.maxDepth))
  /-- There is a watchdog and it has expired. -/
  | timeout (h : setup.watchdog ≠ .never) : RegularEnd image setup (.error .timeout)

/-- A state behind a step in which the run goes on with well-formed calls or has ended as compiled
code may. -/
inductive Regular (image : Image) (setup : Setup) : Next → Prop where
  /-- The run goes on. -/
  | go {top : Frame} {below : List Frame} (h : Frame.Stacked image (top :: below)) :
      Regular image setup (.go top below)
  /-- The run is over. -/
  | stop {reply : Except Trap Int64} (h : RegularEnd image setup reply) :
      Regular image setup (.stop reply)

section

variable {image : Image} {setup : Setup} {below : List Frame} {e : Effects}
  (hbelow : Frame.Stacked image below)

include hbelow

/-- Entering a function of the image with as many arguments as it takes is regular. -/
theorem regular_enter (hwf : image.WellFormed) {callee : Nat} {g : LinkedFunction}
    (hg : image.function? callee = some g) {arguments : List Int64}
    (harity : g.params.toNat = arguments.length) {result : Option Register}
    (hresult : Receives result below) (depth : Nat) :
    Regular image setup
      (proceed below (enter image setup callee arguments result depth e)).1 := by
  by_cases hdepth : setup.maxDepth ≤ depth
  · rw [enter_of_le hg hdepth]
    exact .stop .stackOverflow
  · rw [enter_of_eq hg hdepth harity]
    refine .go (.cons ⟨⟨⟨callee, hg⟩, ?_⟩, ?_⟩ hresult hbelow)
    · exact Nat.le_max_left _ _
    · exact (hwf callee g hg).code_ne_nil

/-- Leaving a call is regular when its value is received. -/
theorem regular_leave {result : Option Register} (hresult : Receives result below)
    (value : Int64) : Regular image setup (leave result value below e).1 := by
  cases hbelow with
  | nil => exact .stop (.value value)
  | @cons caller below hcaller hresult' hbelow =>
    cases result with
    | none => exact .go (.cons hcaller hresult' hbelow)
    | some dst =>
      obtain ⟨registers, hset, hsize⟩ := Frame.exists_set (hresult dst rfl) value
      rw [leave, hset]
      have hcaller : Frame.WellFormed image { caller with registers } :=
        ⟨⟨hcaller.loaded, hsize ▸ hcaller.registers_le⟩, hcaller.position_lt⟩
      exact .go (.cons hcaller hresult' hbelow)

variable {top : Frame} (htop : top.Equipped image) (hresult : Receives top.result below)
  (hlt : top.position < top.function.code.size)

include htop hresult hlt

/-- Going on at an instruction of the same call is regular. -/
theorem regular_go : Regular image setup (.go top below) :=
  .go (.cons ⟨htop, hlt⟩ hresult hbelow)

/-- Going on at an instruction of the same call is regular, also behind writing a register. -/
theorem regular_set {dst : Register} (hdst : dst.toNat < top.registers.size) (value : Int64) :
    Regular image setup (resume below e (top.set dst value)).1 := by
  obtain ⟨registers, hset, hsize⟩ := Frame.exists_set hdst value
  rw [hset]
  exact .go (.cons ⟨⟨htop.loaded, hsize ▸ htop.registers_le⟩, hlt⟩ hresult hbelow)

end

section

variable {image : Image} {setup : Setup} (hwf : image.WellFormed) {top : Frame} {below : List Frame}

include hwf

/-- **An instruction executed in a well-formed call** leads to a regular state. -/
theorem regular_execute (h : Frame.Stacked image (top :: below)) {code : Code}
    (hcode : top.function.code[top.position]? = some code) (e : Effects) :
    Regular image setup
      (execute image setup code { top with position := top.position + 1 } below e).1 := by
  obtain _ | ⟨htop, hresult, hbelow⟩ := h
  obtain ⟨index, hindex⟩ := htop.loaded
  have hmem : code ∈ top.function.code := Array.mem_of_getElem? hcode
  have hnext := (hwf index _ hindex).successors_lt top.position code hcode
  have huses := (hwf index _ hindex).uses code hmem
  have here := htop.toEquipped.moveTo (top.position + 1)
  have hsize := fun {r} => here.lt_size hwf hmem (r := r)
  have hget := fun {r} => here.exists_get hwf hmem (r := r)
  -- Each register that an instruction names is there, and each position that it can go on at lies
  -- in the code; so no call is found to be malformed.
  cases code with
  | const dst value =>
    refine regular_set hbelow here hresult (hnext _ (by simp [Code.successors])) (hsize ?_) value
    simp [Code.registers]
  | binary dst kind lhs rhs =>
    obtain ⟨a, ha⟩ := hget (r := lhs) (by simp [Code.registers])
    obtain ⟨b, hb⟩ := hget (r := rhs) (by simp [Code.registers])
    rw [execute, ha, hb]
    dsimp only [bind, Except.bind]
    split
    · refine regular_set hbelow here hresult (hnext _ (by simp [Code.successors])) (hsize ?_) _
      simp [Code.registers]
    · exact .stop (.divisionByZero hindex)
  | compare dst predicate lhs rhs =>
    obtain ⟨a, ha⟩ := hget (r := lhs) (by simp [Code.registers])
    obtain ⟨b, hb⟩ := hget (r := rhs) (by simp [Code.registers])
    rw [execute, ha, hb]
    refine regular_set hbelow here hresult (hnext _ (by simp [Code.successors])) (hsize ?_) _
    simp [Code.registers]
  | call dst callee args =>
    obtain ⟨values, hvalues, hlength⟩ := here.exists_getAll hwf hmem args
      (by simp +contextual [Code.registers])
    obtain ⟨g, hg, harity⟩ := huses (callee, args.length) (by simp [Code.uses])
    rw [execute, hvalues]
    refine regular_enter ?_ hwf hg (harity.trans hlength.symm) ?_ _
    · exact .cons ⟨here, hnext _ (by simp [Code.successors])⟩ hresult hbelow
    · intro r hr
      exact hsize (by simp_all [Code.registers])
  | jump target =>
    exact regular_go hbelow (here.moveTo target) hresult (hnext _ (by simp [Code.successors]))
  | branch cond thenTarget elseTarget =>
    obtain ⟨value, hvalue⟩ := hget (r := cond) (by simp [Code.registers])
    rw [execute, hvalue]
    refine regular_go hbelow (here.moveTo _) hresult (hnext _ ?_)
    split <;> simp [Code.successors]
  | «return» value =>
    cases value with
    | none => exact regular_leave hbelow hresult 0
    | some r =>
      obtain ⟨value, hvalue⟩ := hget (r := r) (by simp [Code.registers])
      rw [execute, hvalue]
      exact regular_leave hbelow hresult value
  | print r =>
    obtain ⟨value, hvalue⟩ := hget (r := r) (by simp [Code.registers])
    rw [execute, hvalue]
    exact regular_go hbelow here hresult (hnext _ (by simp [Code.successors]))
  | trap message => exact .stop (.explicit hindex message)
  | nop => exact regular_go hbelow here hresult (hnext _ (by simp [Code.successors]))
  | dispatch pristine targets =>
    obtain ⟨g, hg, harity⟩ := huses (choose setup.selector pristine targets,
      top.function.params.toNat) (mem_uses_dispatch _ _ _ _)
    exact regular_enter hbelow hwf hg (harity.trans (by simp [Registers.take])) hresult _

/-- **A step from well-formed calls** leads to a regular state. -/
theorem regular_step (h : Frame.Stacked image (top :: below)) (e : Effects) :
    Regular image setup (step image setup top below e).1 := by
  rw [step]
  dsimp only
  split
  · rename_i hexpired
    refine .stop (.timeout ?_)
    intro hnever
    rw [hnever] at hexpired
    exact Bool.false_ne_true hexpired.2
  · obtain _ | ⟨⟨-, hlt⟩, -, -⟩ := id h
    rw [Array.getElem?_eq_getElem hlt]
    exact regular_execute hwf h (Array.getElem?_eq_getElem hlt) _

end

/-! ## Whole calls -/

/-- **A run from a regular state** stays among regular states. -/
theorem regular_iterate {image : Image} {setup : Setup} (hwf : image.WellFormed) (steps : Nat)
    {next : Next × Effects} (h : Regular image setup next.1) :
    Regular image setup ((advance image setup)^[steps] next).1 := by
  refine iterate_of_step (fun top below e hregular => ?_) h steps
  cases hregular with
  | go hstacked => exact regular_step hwf hstacked e

/-- Everything that the next step of a call looks up is there: an instruction with its registers and
the functions that it may enter, the registers that a trampoline hands on, and the register of the
call underneath that receives the value. -/
structure InRange (image : Image) (top : Frame) (below : List Frame) : Prop where
  instruction : ∃ code, top.function.code[top.position]? = some code ∧
    (∀ r ∈ code.registers, r.toNat < top.registers.size) ∧
    ∀ use ∈ code.uses top.function.params.toNat, use.1 < image.functions.size
  forwarded : top.function.params.toNat ≤ top.registers.size
  result : Receives top.result below

end Machine

/-- What well-formed calls look up is there. -/
theorem Frame.Stacked.inRange {image : Image} (hwf : image.WellFormed) {top : Frame}
    {below : List Frame} (h : Frame.Stacked image (top :: below)) :
    Machine.InRange image top below := by
  obtain _ | ⟨htop, hresult, -⟩ := h
  obtain ⟨index, hindex⟩ := htop.loaded
  have hcode := Array.getElem?_eq_getElem htop.position_lt
  have hmem := Array.mem_of_getElem? hcode
  refine ⟨⟨_, hcode, fun r => htop.lt_size hwf hmem, ?_⟩, ?_, hresult⟩
  · intro use huse
    obtain ⟨g, hg, -⟩ := (hwf index _ hindex).uses _ hmem use huse
    exact (Array.getElem?_eq_some_iff.mp hg).1
  · exact (hwf index _ hindex).params_le.trans htop.registers_le

/-- **Code that compiles and links never goes wrong.** Take modules that are built into an image
with no further object files, with or without probes, and call a function of the image with as
many arguments as it takes, under any setup. At every moment of the run, what the next step looks
up is there; and if the run ends, then with a value, a division by zero, a trap instruction, a
stack overflow or a timeout. -/
theorem Compilation.Builds.regular_of_call {c : Compilation} {ms : List Module} {image : Image}
    (h : c.Builds ms [] image) (hcountable : ∀ m ∈ ms, m.Countable) {index : Nat}
    {f : LinkedFunction} (hf : image.function? index = some f) {arguments : List Int64}
    (harity : arguments.length = f.params.toNat) (setup : Setup) (e : Effects) :
    (∀ steps top below e', (Machine.advance image setup)^[steps]
        (Machine.proceed [] (Machine.enter image setup index arguments none 0 e)) =
          (.go top below, e') → Machine.InRange image top below) ∧
      ∀ fuel reply, (Machine.call image setup fuel index arguments e).1 = some reply →
        Machine.RegularEnd image setup reply := by
  have hwf := h.wellFormed hcountable
  have hentered : Machine.Regular image setup
      (Machine.proceed [] (Machine.enter image setup index arguments none 0 e)).1 :=
    Machine.regular_enter .nil hwf hf harity.symm trivial 0
  have hregular := fun steps => Machine.regular_iterate hwf steps hentered
  refine ⟨?_, ?_⟩
  · intro steps top below e' hstate
    have hstacked := hregular steps
    rw [hstate] at hstacked
    cases hstacked with
    | go hstacked => exact hstacked.inRange hwf
  · intro fuel reply hreply
    rw [Machine.call_eq, Machine.runFrom_eq_iterate] at hreply
    have hend := hregular fuel
    split at hreply
    · exact nomatch hreply
    · rename_i hstate
      obtain rfl := Option.some.inj hreply
      rw [hstate] at hend
      cases hend with
      | stop hend => exact hend

/-- `regular_of_call` at a run through a trampoline with one of its mutants active, once with room
for all calls and once without. -/
theorem Compilation.Builds.regular_of_call_example :
    Machine.RegularEnd Example.image { selector := some Example.addition.id } (.ok 2) ∧
      Machine.RegularEnd Example.image { selector := some Example.addition.id, maxDepth := 1 }
        (.error (.stackOverflow 1)) := by
  have hcountable : ∀ m ∈ [Example.mutated], m.Countable := by decide +kernel
  have hmain : (Example.image.function? 0).map LinkedFunction.params = some 0 := by decide +kernel
  obtain ⟨main, hmain, hparams⟩ := Option.map_eq_some_iff.mp hmain
  have harity : ([] : List Int64).length = main.params.toNat := by rw [hparams]; rfl
  exact ⟨(Example.builds_image.regular_of_call hcountable hmain harity _ {}).2 7 _
      (by decide +kernel),
    (Example.builds_image.regular_of_call hcountable hmain harity _ {}).2 3 _ (by decide +kernel)⟩

end MutationLab
