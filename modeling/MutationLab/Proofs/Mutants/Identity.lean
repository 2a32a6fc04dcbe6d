import MutationLab.Operator.Catalog
import MutationLab.Proofs.Discovery
import MutationLab.Proofs.Mutants.Selection

/-! # The ids of mutants

An id joins its parts with colons, and the names of modules and functions may have colons in them.
So a text between two colons can belong to the function of one point and to the module of another
(`Point.Overlaps`), and the two points then have one id. Nothing else makes ids of different points
equal, and nothing else lets a selector match more than one target
(`Discovery.ids_identify_unless_collides`). -/

namespace MutationLab

/-! ## Parts of ids -/

namespace Operator

/-- The ids of operators have no colons. -/
theorem colon_notMem_id {operator : Operator} (h : operator ∈ catalog) :
    ':' ∉ operator.id.toList := by
  have hcatalog : ∀ operator ∈ catalog, ':' ∉ operator.id.toList := by decide +kernel
  exact hcatalog operator h

/-- Operators of one id are one operator. -/
theorem eq_of_id_eq {a b : Operator} (ha : a ∈ catalog) (hb : b ∈ catalog) (h : a.id = b.id) :
    a = b := by
  have hids : (catalog.map Operator.id).Nodup := by decide +kernel
  exact List.inj_on_of_nodup_map hids ha hb h

end Operator

namespace Point

/-- Points of one operator on one instruction. -/
def SameSite (p q : Point) : Prop :=
  p.operator = q.operator ∧ p.module = q.module ∧ p.function = q.function ∧
    p.instruction = q.instruction

instance (p q : Point) : Decidable (p.SameSite q) :=
  inferInstanceAs (Decidable (_ ∧ _))

/-- A text in front of the function of one point is behind the module of the other. -/
def Overlaps (p q : Point) : Prop :=
  ∃ rest : String, p.function = s!"{rest}:{q.function}" ∧ q.moduleName = s!"{p.moduleName}:{rest}"

/-- Points that differ in their modules and functions and have one id. -/
def Collides (p q : Point) : Prop :=
  p.operator = q.operator ∧ p.instruction = q.instruction ∧ (p.Overlaps q ∨ q.Overlaps p)

variable {p q : Point}

/-- An overlap in terms of characters. -/
theorem overlaps_iff : p.Overlaps q ↔ ∃ rest,
    q.moduleName.toList = p.moduleName.toList ++ ':' :: rest ∧
      p.function.toList = rest ++ ':' :: q.function.toList := by
  constructor
  · rintro ⟨rest, hfunction, hmodule⟩
    refine ⟨rest.toList, ?_, ?_⟩
    · rw [hmodule, toList_joined]
    · rw [hfunction, toList_joined]
  · rintro ⟨rest, hmodule, hfunction⟩
    refine ⟨String.ofList rest, ?_, ?_⟩
    · rw [← String.toList_inj, toList_joined, String.toList_ofList, hfunction]
    · rw [← String.toList_inj, toList_joined, String.toList_ofList, hmodule]

/-- Points that overlap are on functions of different names. -/
theorem Overlaps.function_ne (h : p.Overlaps q) : p.function ≠ q.function := by
  obtain ⟨rest, -, hfunction⟩ := overlaps_iff.mp h
  intro heq
  have hlength := congrArg List.length hfunction
  rw [heq, List.length_append, List.length_cons] at hlength
  omega

theorem Collides.function_ne (h : p.Collides q) : p.function ≠ q.function := by
  obtain ⟨-, -, hoverlap | hoverlap⟩ := h
  · exact hoverlap.function_ne
  · exact hoverlap.function_ne.symm

/-- Ids are equal when all their parts are or the texts between colons overlap. -/
theorem id_eq_iff (hp : ':' ∉ p.operator.id.toList) (hq : ':' ∉ q.operator.id.toList) :
    p.id = q.id ↔ p.operator.id = q.operator.id ∧ p.instruction = q.instruction ∧
      ((p.moduleName = q.moduleName ∧ p.function = q.function) ∨ p.Overlaps q ∨
        q.Overlaps p) := by
  have hmiddle : p.moduleName.toList ++ ':' :: p.function.toList =
      q.moduleName.toList ++ ':' :: q.function.toList ↔
        (p.moduleName = q.moduleName ∧ p.function = q.function) ∨ p.Overlaps q ∨
          q.Overlaps p := by
    rw [append_cons_eq_append_cons_iff, overlaps_iff, overlaps_iff, String.toList_inj,
      String.toList_inj]
  have hparts : ∀ r : Point, r.id.toList = r.operator.id.toList ++
      ':' :: ((r.moduleName.toList ++ ':' :: r.function.toList) ++
        ':' :: Nat.toDigits 10 r.instruction) := by
    intro r
    rw [toList_id, List.append_assoc, List.cons_append]
  rw [← hmiddle, ← String.toList_inj, hparts, hparts]
  constructor
  · intro h
    -- The operator ends at the first colon, and the position begins at the last one.
    obtain ⟨hoperator, hrest⟩ := append_cons_inj_of_notMem_left hp hq h
    obtain ⟨hnames, hdigits⟩ := append_cons_inj_of_notMem_right (colon_notMem_toDigits _)
      (colon_notMem_toDigits _) hrest
    exact ⟨String.toList_inj.mp hoperator, toDigits_injective hdigits, hnames⟩
  · rintro ⟨hoperator, hinstruction, hnames⟩
    rw [hoperator, hinstruction, hnames]

end Point

/-! ## Found points -/

/-- **When ids of found points are equal**: they are of one operator on one instruction, or they
collide. -/
theorem Discovery.Found.id_eq_iff {c : Compilation} {ms : List Module} {extra : List ObjectFile}
    {operators : List Operator} {p q : Point} (hp : Found ms operators p)
    (hq : Found ms operators q) (hoperators : operators ⊆ Operator.catalog)
    (hdistinct : ((c.programFunctions ms extra).map CompiledFunction.symbol).Nodup) :
    p.id = q.id ↔ p.SameSite q ∨ p.Collides q := by
  have hpcatalog := hoperators hp.operator_mem
  have hqcatalog := hoperators hq.operator_mem
  obtain ⟨m, f, hm, hmname, hf, hfname⟩ := hp.placed
  obtain ⟨n, g, hn, hnname, hg, hgname⟩ := hq.placed
  rw [Point.id_eq_iff (Operator.colon_notMem_id hpcatalog) (Operator.colon_notMem_id hqcatalog)]
  constructor
  · rintro ⟨hoperator, hinstruction, ⟨-, hfunction⟩ | hoverlap⟩
    · -- A function is defined in one module only.
      have hmodule : p.module = q.module :=
        Compilation.id_eq_of_name_eq hdistinct hn hg hm hf
          (hfname.trans (hfunction.trans hgname.symm))
      exact .inl ⟨Operator.eq_of_id_eq hpcatalog hqcatalog hoperator, hmodule, hfunction,
        hinstruction⟩
    · exact .inr ⟨Operator.eq_of_id_eq hpcatalog hqcatalog hoperator, hinstruction, hoverlap⟩
  · rintro (⟨hoperator, hmodule, hfunction, hinstruction⟩ | ⟨hoperator, hinstruction, hoverlap⟩)
    · rw [hmodule, hn] at hm
      obtain rfl := Option.some.inj hm
      exact ⟨congrArg Operator.id hoperator, hinstruction,
        .inl ⟨hmname.symm.trans hnname, hfunction⟩⟩
    · exact ⟨congrArg Operator.id hoperator, hinstruction, .inr hoverlap⟩

/-! ## Matching targets -/

/-- A selector matches the target at a position of a trampoline. -/
def Image.Matches (image : Image) (selector symbol : String) (position : Nat) : Prop :=
  ∃ f ∈ image.functions.toList, f.symbol = symbol ∧ ∃ pristine targets target,
    f.code = #[.dispatch pristine targets] ∧ targets[position]? = some (selector, target)

namespace Image.Holds

/-- A selector matches a target when the trampoline was compiled with one of this mutant. -/
theorem matches_iff {image : Image} {fs : List CompiledFunction} (h : image.Holds fs)
    {f : CompiledFunction} (hf : f ∈ fs) {pristine : String} {targets : List (String × String)}
    (hcode : f.code = [.dispatch pristine targets]) {selector : String} {position : Nat} :
    image.Matches selector f.symbol position ↔
      ∃ target, targets[position]? = some (selector, target) := by
  have hlocated : (f.locate image.position).code = #[.dispatch (image.position pristine)
      (targets.map fun target => (target.1, image.position target.2))] := by
    rw [CompiledFunction.locate, hcode]
    rfl
  constructor
  · rintro ⟨g, hg, hsymbol, pristine', targets', target, hgcode, hselector⟩
    rw [h.functions_eq] at hg
    obtain ⟨f', hf', rfl⟩ := List.mem_map.mp hg
    -- No other function has the symbol, so the trampoline that was found is this one.
    obtain rfl := h.eq_of_symbol_eq hf' hf hsymbol
    rw [hlocated] at hgcode
    obtain ⟨-, rfl⟩ : _ ∧ _ = targets' := by simpa using hgcode
    rw [List.getElem?_map] at hselector
    obtain ⟨⟨mutant, callee⟩, hmutant, heq⟩ := Option.map_eq_some_iff.mp hselector
    obtain ⟨rfl, -⟩ := Prod.mk.inj heq
    exact ⟨callee, hmutant⟩
  · rintro ⟨target, htarget⟩
    refine ⟨f.locate image.position, ?_, rfl, _, _, image.position target, hlocated, ?_⟩
    · rw [h.functions_eq]
      exact List.mem_map_of_mem hf
    · rw [List.getElem?_map, htarget]
      rfl

end Image.Holds

/-- A selector matches a target in the trampolines of points, and no other one. -/
def Image.MatchesOne (image : Image) (mangling : Mangling) (points : List Point)
    (selector : String) : Prop :=
  ∃! matched : String × Nat, (∃ q ∈ points, mangling.mangle q.function = matched.1) ∧
    image.Matches selector matched.1 matched.2

namespace Installed

variable {c d : Compilation} {ms mutated : List Module} {points : List Point}
  {extra : List ObjectFile} {image : Image} (h : Installed ms points mutated)
  (hsound : ∀ m ∈ ms, m.Sound)
  (hdistinct : ((c.programFunctions ms extra).map CompiledFunction.symbol).Nodup)
  (himage : d.Builds mutated extra image) {p : Point} (hp : p ∈ points)

include h hsound hdistinct himage hp

/-- **The trampoline of a point in an image**: its targets are the points on the same function, each
of them once. -/
theorem exists_matches_iff :
    ∃ targets : List DispatchTarget, targets.Nodup ∧
      (∀ target, target ∈ targets ↔ ∃ q ∈ points,
        q.module = p.module ∧ q.function = p.function ∧ ⟨q.id, q.cloneName⟩ = target) ∧
      ∀ selector position, image.Matches selector (d.mangling.mangle p.function) position ↔
        ∃ target, targets[position]? = some target ∧ target.mutant = selector := by
  obtain ⟨m, f, hm, hf, hname⟩ := h.exists_function hsound hp
  rw [← hname]
  obtain ⟨n, hn, targets, hnodup, htargets, ht⟩ :=
    h.exists_trampoline hsound hdistinct hm hf ⟨p, hp, congrArg _ hname.symm⟩
  refine ⟨targets, hnodup, htargets, ?_⟩
  intro selector position
  have hcompiled : d.function p.module _ ∈ d.programFunctions mutated extra :=
    Compilation.mem_programFunctions.mpr (.inl ⟨p.module, n, hn, _, ht, rfl⟩)
  refine ((Compilation.builds_iff.mp himage).2.matches_iff hcompiled rfl).trans ?_
  rw [List.getElem?_map]
  constructor
  · rintro ⟨callee, hselector⟩
    obtain ⟨target, htarget, heq⟩ := Option.map_eq_some_iff.mp hselector
    exact ⟨target, htarget, (Prod.mk.inj heq).1⟩
  · rintro ⟨target, htarget, rfl⟩
    exact ⟨_, congrArg (Option.map _) htarget⟩

/-- The id of a point matches in the trampoline of the point. -/
theorem exists_matches :
    ∃ position, image.Matches p.id (d.mangling.mangle p.function) position := by
  obtain ⟨targets, -, htargets, hmatches⟩ := h.exists_matches_iff hsound hdistinct himage hp
  obtain ⟨position, hposition⟩ := List.mem_iff_getElem?.mp
    ((htargets ⟨p.id, p.cloneName⟩).mpr ⟨p, hp, rfl, rfl, rfl⟩)
  exact ⟨position, (hmatches p.id position).mpr ⟨_, hposition, rfl⟩⟩

/-- What matches in the trampoline of a point is the id of a point on the same function. -/
theorem exists_of_matches {selector : String} {position : Nat}
    (hmatched : image.Matches selector (d.mangling.mangle p.function) position) :
    ∃ q ∈ points, q.function = p.function ∧ q.id = selector := by
  obtain ⟨targets, -, htargets, hmatches⟩ := h.exists_matches_iff hsound hdistinct himage hp
  obtain ⟨target, htarget, hselector⟩ := (hmatches selector position).mp hmatched
  obtain ⟨q, hq, -, hfunction, rfl⟩ := (htargets target).mp (List.mem_of_getElem? htarget)
  exact ⟨q, hq, hfunction, hselector⟩

/-- In one trampoline a selector matches at one position only, as ids decide the names of the
copies. -/
theorem position_eq_of_matches {selector : String} {i j : Nat}
    (hi : image.Matches selector (d.mangling.mangle p.function) i)
    (hj : image.Matches selector (d.mangling.mangle p.function) j) : i = j := by
  obtain ⟨targets, hnodup, htargets, hmatches⟩ :=
    h.exists_matches_iff hsound hdistinct himage hp
  obtain ⟨a, ha, hselectora⟩ := (hmatches selector i).mp hi
  obtain ⟨b, hb, hselectorb⟩ := (hmatches selector j).mp hj
  obtain ⟨q, -, -, hqname, rfl⟩ := (htargets a).mp (List.mem_of_getElem? ha)
  obtain ⟨r, -, -, hrname, rfl⟩ := (htargets b).mp (List.mem_of_getElem? hb)
  have hid : q.id = r.id := hselectora.trans hselectorb.symm
  have hname : q.cloneName = r.cloneName := Point.cloneName_eq (hqname.trans hrname.symm) hid
  have hlt : i < targets.length := (List.getElem?_eq_some_iff.mp ha).1
  refine (List.getElem?_inj hlt hnodup).mp ?_
  rw [ha, hb, hid, hname]

/-- **An id matches one target** exactly when all points that have it are on one function. -/
theorem matchesOne_iff :
    image.MatchesOne d.mangling points p.id ↔
      ∀ q ∈ points, q.id = p.id → q.function = p.function := by
  obtain ⟨position, hposition⟩ := h.exists_matches hsound hdistinct himage hp
  constructor
  · rintro ⟨matched, -, hunique⟩ q hq hid
    obtain ⟨position', hposition'⟩ := h.exists_matches hsound hdistinct himage hq
    rw [hid] at hposition'
    have hleft := hunique (_, position) ⟨⟨p, hp, rfl⟩, hposition⟩
    have hright := hunique (_, position') ⟨⟨q, hq, rfl⟩, hposition'⟩
    exact d.mangling.mangle_injective (congrArg Prod.fst (hright.trans hleft.symm))
  · intro hsame
    refine ⟨(d.mangling.mangle p.function, position), ⟨⟨p, hp, rfl⟩, hposition⟩, ?_⟩
    rintro ⟨_, position'⟩ ⟨⟨q, hq, rfl⟩, hmatched⟩
    dsimp only at hmatched
    -- A second match would be that of a point with this id, which is on the same function.
    obtain ⟨r, hr, hrq, hid⟩ := h.exists_of_matches hsound hdistinct himage hq hmatched
    have hqp : q.function = p.function := hrq.symm.trans (hsame r hr hid)
    rw [hqp] at hmatched ⊢
    rw [h.position_eq_of_matches hsound hdistinct himage hp hmatched hposition]

end Installed

/-- **Ids identify mutants unless points collide.** Take modules that are built with further object
files, and search them for points of operators from the catalog. Ids of found points are equal
exactly when the points are of one operator on one instruction or collide. Put any of the points
into the modules, and build the result: the id of a point matches one target of one trampoline, and
no other, exactly when no point collides with it. -/
theorem Discovery.ids_identify_unless_collides {c d : Compilation} {ms : List Module}
    {libraries : List String} {objects extra : List ObjectFile} {original : Image}
    {operators : List Operator} {workers : Nat} {candidates : List Candidate} {log : Log}
    {found : List Point} (horiginal : c.Builds ms extra original)
    (hoperators : operators ⊆ Operator.catalog)
    (hfound : (points { Program.ofModules ms with libraries, objects } operators workers candidates
      log).1 = .ok found) :
    (∀ p ∈ found, ∀ q ∈ found, p.id = q.id ↔ p.SameSite q ∨ p.Collides q) ∧
      ∀ points ⊆ found, ∀ (mutated : List Module) (image : Image),
        Installed ms points mutated → d.Builds mutated extra image →
        ∀ p ∈ points, image.MatchesOne d.mangling points p.id ↔ ∀ q ∈ points, ¬ p.Collides q := by
  obtain ⟨hsound, hholds⟩ := Compilation.builds_iff.mp horiginal
  have hids : ∀ p ∈ found, ∀ q ∈ found, p.id = q.id ↔ p.SameSite q ∨ p.Collides q :=
    fun p hp q hq => (found_of_mem_points rfl hfound hp).id_eq_iff
      (found_of_mem_points rfl hfound hq) hoperators hholds.nodup
  refine ⟨hids, ?_⟩
  intro points hpoints mutated image h himage p hp
  rw [h.matchesOne_iff hsound hholds.nodup himage hp]
  refine forall₂_congr fun q hq => ?_
  rw [eq_comm, hids p (hpoints hp) q (hpoints hq)]
  constructor
  · intro hsame hcollides
    exact hcollides.function_ne (hsame (.inr hcollides)).symm
  · rintro hnone (⟨-, -, hfunction, -⟩ | hcollides)
    · exact hfunction.symm
    · exact absurd hcollides hnone

namespace Example

/-- The functions that `calls` mutates, with their first instructions selected. -/
def candidates : List Candidate :=
  [{ function := ⟨0, "sum"⟩, distance := 0, selected := [0] },
    { function := ⟨0, "difference"⟩, distance := 0, selected := [0] }]

end Example

/-- `ids_identify_unless_collides` at the two points of the example. -/
theorem Discovery.ids_identify_unless_collides_example :
    Example.addition.id ≠ Example.subtraction.id ∧
      Example.image.MatchesOne .native [Example.addition, Example.subtraction]
        Example.addition.id := by
  have hfound : (points (Program.ofModules [Example.arithmetic]) Operator.catalog 1
      Example.candidates {}).1 =
        .ok (Point.sortById [Example.addition, Example.subtraction]) := rfl
  have hmem : [Example.addition, Example.subtraction] ⊆
      Point.sortById [Example.addition, Example.subtraction] := fun p hp =>
    List.mem_mergeSort.mpr hp
  obtain ⟨hids, hmatches⟩ := ids_identify_unless_collides (d := Example.compilation)
    Example.builds_original (List.Subset.refl _) hfound
  have haddition : Example.addition ∈ [Example.addition, Example.subtraction] :=
    List.mem_cons_self
  have hsubtraction : Example.subtraction ∈ [Example.addition, Example.subtraction] :=
    List.mem_cons_of_mem _ (List.mem_singleton_self _)
  have hnone : ∀ q ∈ [Example.addition, Example.subtraction], ¬ Example.addition.Collides q := by
    intro q hq hcollides
    obtain rfl | hq := List.mem_cons.mp hq
    · exact hcollides.function_ne rfl
    · obtain rfl := List.mem_singleton.mp hq
      exact absurd hcollides.1 (by decide)
  refine ⟨?_, (hmatches _ hmem _ _ Example.installed Example.builds_image _ haddition).mpr hnone⟩
  rw [ne_eq, hids _ (hmem haddition) _ (hmem hsubtraction), not_or]
  exact ⟨by decide, hnone _ hsubtraction⟩

namespace Example

/-- A function that adds its arguments. -/
def adder (name : String) : Function where
  name := name
  params := 2
  body := [
    { operation := .binary 2 .add 0 1 },
    { operation := .return (some 2) }]

/-- A module whose function has a colon in its name. -/
def outer : Module := { name := "m", functions := [adder "a:f"] }

/-- A module that has a colon in its own name. -/
def inner : Module := { name := "m:a", functions := [adder "f"] }

/-- The addition in `outer` becomes a subtraction. -/
def outerPoint : Point :=
  { addition with module := 0, moduleName := "m", function := "a:f" }

/-- The addition in `inner` becomes a subtraction. -/
def innerPoint : Point :=
  { addition with module := 1, moduleName := "m:a", function := "f" }

/-- The functions of both modules, with their first instructions selected. -/
def colliding : List Candidate :=
  [{ function := ⟨0, "a:f"⟩, distance := 0, selected := [0] },
    { function := ⟨1, "f"⟩, distance := 0, selected := [0] }]

/-- The calls that put one point into a module. -/
def putting (p : Point) : List Call := [.register p, .clone, .excise, .redirect, .apply p]

/-- Both modules with their points in them. -/
def collided : List Module :=
  [((Subject.ofModule 0 outer).after (putting outerPoint)).module,
    ((Subject.ofModule 1 inner).after (putting innerPoint)).module]

/-- The image with both mutants. -/
def collidedImage : Image := .ofFunctions (compilation.programFunctions collided [])

theorem installed_collided : Installed [outer, inner] [outerPoint, innerPoint] collided where
  length_eq := rfl
  module_lt := by decide
  calls := by
    rintro id m hm
    match id with
    | 0 =>
      obtain rfl := Option.some.inj hm
      exact ⟨putting outerPoint, by decide +kernel, by decide +kernel, rfl⟩
    | 1 =>
      obtain rfl := Option.some.inj hm
      exact ⟨putting innerPoint, by decide +kernel, by decide +kernel, rfl⟩
    | id + 2 => exact nomatch hm

theorem builds_outer_inner : compilation.Builds [outer, inner] []
    (.ofFunctions (compilation.programFunctions [outer, inner] [])) :=
  Compilation.builds_ofFunctions (by decide +kernel) (by decide +kernel) (by decide +kernel)

theorem builds_collided : compilation.Builds collided [] collidedImage :=
  Compilation.builds_ofFunctions (by decide +kernel) (by decide +kernel) (by decide +kernel)

end Example

/-- Modules that compile and link can have points of one id on different functions, and this id then
matches in the trampolines of both. -/
theorem Discovery.exists_collision :
    Example.compilation.Builds [Example.outer, Example.inner] []
      (.ofFunctions (Example.compilation.programFunctions [Example.outer, Example.inner] [])) ∧
    (points (Program.ofModules [Example.outer, Example.inner]) Operator.catalog 1 Example.colliding
      {}).1 = .ok (Point.sortById [Example.outerPoint, Example.innerPoint]) ∧
    ¬ Example.outerPoint.SameSite Example.innerPoint ∧
    Example.outerPoint.id = Example.innerPoint.id ∧
    Installed [Example.outer, Example.inner] [Example.outerPoint, Example.innerPoint]
      Example.collided ∧
    Example.compilation.Builds Example.collided [] Example.collidedImage ∧
    ¬ Example.collidedImage.MatchesOne .native [Example.outerPoint, Example.innerPoint]
      Example.outerPoint.id := by
  refine ⟨Example.builds_outer_inner, rfl, by decide, by decide +kernel,
    Example.installed_collided, Example.builds_collided, ?_⟩
  obtain ⟨hsound, hholds⟩ := Compilation.builds_iff.mp Example.builds_outer_inner
  have hmatches := Example.installed_collided.matchesOne_iff hsound hholds.nodup
    Example.builds_collided List.mem_cons_self
  intro hone
  have hsame := hmatches.mp hone Example.innerPoint
    (List.mem_cons_of_mem _ (List.mem_singleton_self _)) (by decide +kernel)
  exact absurd hsame (by decide)

end MutationLab
