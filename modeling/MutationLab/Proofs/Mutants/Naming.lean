import MutationLab.Proofs.Mutants.Identity
import MutationLab.Proofs.Mutants.Installing
import MutationLab.Proofs.Selecting

/-! # When derived names are fresh

The name of a mutant's copy tells what the mutant is on the function: the position of the
instruction stands behind the last underscore, and the operators of the catalog have ids that are
taken over unchanged. So points on different sites never share a name for their copies
(`Point.sameSite_of_cloneName_eq`), and a derived name that is not fresh is one that the module
defines already (`Layout.exists_taken_of_not_fresh`). -/

namespace MutationLab

/-! ## Ids of operators -/

namespace Operator

/-- The ids of operators are taken over unchanged into the names of copies. -/
theorem map_plain_id {operator : Operator} (h : operator ∈ catalog) :
    operator.id.toList.map Point.plain = operator.id.toList := by
  have hcatalog : ∀ operator ∈ catalog,
      operator.id.toList.map Point.plain = operator.id.toList := by decide +kernel
  exact hcatalog operator h

end Operator

/-! ## Sites from names -/

/-- Digits are taken over unchanged. -/
theorem map_plain_toDigits (n : Nat) :
    (Nat.toDigits 10 n).map Point.plain = Nat.toDigits 10 n := by
  have hplain : ∀ c ∈ Nat.toDigits 10 n, Point.plain c = c := by
    intro c hc
    have hdigit : c.isDigit = true := Nat.isDigit_of_mem_toDigits (by decide) (by decide) hc
    rw [Point.plain, if_pos]
    rw [Char.isAlphanum, hdigit, Bool.or_true]
  rw [List.map_congr_left hplain, List.map_id']

theorem underscore_notMem_toDigits (n : Nat) : '_' ∉ Nat.toDigits 10 n := by
  intro h
  exact absurd (Nat.isDigit_of_mem_toDigits (by decide) (by decide) h) (by decide)

namespace Point

variable {p q : Point}

/-- The part of the name of a copy that is made from the id. -/
theorem map_plain_id (h : p.operator ∈ Operator.catalog) :
    p.id.toList.map plain =
      (p.operator.id.toList ++ '_' :: (p.moduleName.toList.map plain ++
        '_' :: p.function.toList.map plain)) ++ '_' :: Nat.toDigits 10 p.instruction := by
  have hcolon : plain ':' = '_' := by decide
  rw [toList_id]
  simp only [List.map_append, List.map_cons, hcolon, Operator.map_plain_id h, map_plain_toDigits,
    List.append_assoc, List.cons_append]

/-- **Names of copies tell the mutants of a module apart**, by operator, function and position. -/
theorem cloneName_eq_iff (hp : p.operator ∈ Operator.catalog) (hq : q.operator ∈ Operator.catalog)
    (hmoduleName : p.moduleName = q.moduleName) :
    p.cloneName = q.cloneName ↔
      p.operator = q.operator ∧ p.function = q.function ∧ p.instruction = q.instruction := by
  constructor
  · intro h
    have hfunction := function_eq_of_cloneName_eq h
    have hlist := congrArg String.toList h
    rw [toList_cloneName, toList_cloneName] at hlist
    obtain ⟨-, hid⟩ := append_cons_inj_of_notMem_right (dollar_notMem_map_plain _)
      (dollar_notMem_map_plain _) hlist
    rw [map_plain_id hp, map_plain_id hq, hmoduleName, hfunction] at hid
    -- The last underscore stands before the position.
    obtain ⟨hfront, hdigits⟩ := append_cons_inj_of_notMem_right (underscore_notMem_toDigits _)
      (underscore_notMem_toDigits _) hid
    have hoperator : p.operator.id = q.operator.id :=
      String.toList_inj.mp (List.append_cancel_right hfront)
    exact ⟨Operator.eq_of_id_eq hp hq hoperator, hfunction, toDigits_injective hdigits⟩
  · rintro ⟨hoperator, hfunction, hinstruction⟩
    apply cloneName_eq hfunction
    rw [id, id, hoperator, hmoduleName, hfunction, hinstruction]

/-- **Copies of one name in one module** are of mutants on one site. -/
theorem sameSite_of_cloneName_eq (hp : p.operator ∈ Operator.catalog)
    (hq : q.operator ∈ Operator.catalog) (hmodule : p.module = q.module)
    (hmoduleName : p.moduleName = q.moduleName) (h : p.cloneName = q.cloneName) : p.SameSite q := by
  obtain ⟨hoperator, hfunction, hinstruction⟩ := (cloneName_eq_iff hp hq hmoduleName).mp h
  exact ⟨hoperator, hmodule, hfunction, hinstruction⟩

/-- Being on different sites is mutual. -/
theorem not_sameSite_symm (h : ¬ p.SameSite q) : ¬ q.SameSite p :=
  fun hsame => h ⟨hsame.1.symm, hsame.2.1.symm, hsame.2.2.1.symm, hsame.2.2.2.symm⟩

instance : Std.Symm fun p q : Point => ¬ p.SameSite q := ⟨fun _ _ => not_sameSite_symm⟩

/-- Points are on different sites. -/
def Apart (points : List Point) : Prop := points.Pairwise fun p q => ¬ p.SameSite q

namespace Apart

variable {points : List Point}

/-- The order of the points does not matter. -/
theorem perm {other : List Point} (h : Apart points) (hperm : points.Perm other) : Apart other :=
  hperm.pairwise h not_sameSite_symm

/-- Points on one site are one point. -/
theorem eq_of_sameSite (h : Apart points) (hp : p ∈ points) (hq : q ∈ points)
    (hsite : p.SameSite q) : p = q := by
  by_contra hne
  exact h.forall hp hq hne hsite

/-- No point stands twice. -/
theorem nodup (h : Apart points) : points.Nodup := by
  refine List.Pairwise.imp (fun {p q} hdifferent heq => ?_) h
  subst heq
  exact hdifferent ⟨rfl, rfl, rfl, rfl⟩

/-- **Found points of one module with one name for their copies** are one point. -/
theorem eq_of_cloneName_eq {ms : List Module} {operators : List Operator} (h : Apart points)
    (hoperators : operators ⊆ Operator.catalog)
    (hfound : ∀ p ∈ points, Discovery.Found ms operators p) (hp : p ∈ points) (hq : q ∈ points)
    (hmodule : p.module = q.module) (hname : p.cloneName = q.cloneName) : p = q := by
  obtain ⟨m, f, hm, hmname, -⟩ := (hfound p hp).placed
  obtain ⟨n, g, hn, hnname, -⟩ := (hfound q hq).placed
  have hmoduleName : p.moduleName = q.moduleName := by
    rw [hmodule, hn] at hm
    obtain rfl := Option.some.inj hm
    exact hmname.symm.trans hnname
  exact h.eq_of_sameSite hp hq (sameSite_of_cloneName_eq (hoperators (hfound p hp).operator_mem)
    (hoperators (hfound q hq).operator_mem) hmodule hmoduleName hname)

end Apart

end Point

/-! ## Names that are taken -/

/-- If no two points have one name for their copies, no two derived names are equal. -/
theorem nodup_allDerivedNames {points : List Point} (hnodup : points.Nodup)
    (hdistinct : ∀ p ∈ points, ∀ q ∈ points, p.cloneName = q.cloneName → p = q) :
    (allDerivedNames points).Nodup := by
  refine List.nodup_flatMap.mpr ⟨fun name _ => ?_, ?_⟩
  · -- On one function: the unmutated copy, and one for each point.
    refine List.nodup_cons.mpr ⟨?_, ?_⟩
    · intro hmem
      obtain ⟨p, -, hp⟩ := List.mem_map.mp hmem
      exact p.cloneName_ne_pristineName name hp
    · refine (hnodup.filter _).map_on fun p hp q hq heq => ?_
      exact hdistinct p (List.mem_of_mem_filter hp) q (List.mem_of_mem_filter hq) heq
  · refine (nodup_mutatedNames points).imp fun {a b} hne derived ha hb => hne ?_
    exact eq_of_mem_derivedNames (fun p hp => (mem_pointsOn.mp hp).2)
      (fun q hq => (mem_pointsOn.mp hq).2) ha hb

/-- A name that is derived from a point is derived from the points of its function. -/
theorem mem_allDerivedNames_of_mem {points : List Point} {p : Point} {derived : String}
    (hp : p ∈ points) (h : derived ∈ derivedNames p.function [p]) :
    derived ∈ allDerivedNames points := by
  refine List.mem_flatMap.mpr ⟨p.function, mem_mutatedNames.mpr ⟨p, hp, rfl⟩, ?_⟩
  rw [mem_derivedNames] at h ⊢
  rcases h with rfl | ⟨q, hq, rfl⟩
  · exact .inl rfl
  · rcases List.mem_singleton.mp hq with rfl
    exact .inr ⟨q, mem_pointsOn.mpr ⟨hp, rfl⟩, rfl⟩

/-- A derived name belongs to a point. -/
theorem exists_of_mem_allDerivedNames {points : List Point} {derived : String}
    (h : derived ∈ allDerivedNames points) :
    ∃ p ∈ points, derived ∈ derivedNames p.function [p] := by
  obtain ⟨name, hname, hderived⟩ := List.mem_flatMap.mp h
  rw [mem_derivedNames] at hderived
  obtain rfl | ⟨p, hp, rfl⟩ := hderived
  · obtain ⟨p, hp, rfl⟩ := mem_mutatedNames.mp hname
    exact ⟨p, hp, mem_derivedNames.mpr (.inl rfl)⟩
  · exact ⟨p, (mem_pointsOn.mp hp).1,
      mem_derivedNames.mpr (.inr ⟨p, List.mem_singleton_self p, rfl⟩)⟩

/-- **If derived names are not fresh, one of them is defined already.** -/
theorem exists_taken_of_not_freshNames {ms : List Module} {points : List Point}
    {operators : List Operator} (hnames : ∀ m ∈ ms, m.functionNames.Nodup)
    (hoperators : operators ⊆ Operator.catalog)
    (hfound : ∀ p ∈ points, Discovery.Found ms operators p) (hapart : Point.Apart points)
    (h : ¬ FreshNames ms points) :
    ∃ p ∈ points, ∃ m, ms[p.module]? = some m ∧
      ∃ derived ∈ derivedNames p.function [p], derived ∈ m.functionNames := by
  rw [FreshNames, not_forall] at h
  obtain ⟨⟨m, id⟩, hentry⟩ := h
  rw [Classical.not_imp] at hentry
  obtain ⟨hmem, hstale⟩ := hentry
  have hm := List.mem_zipIdx_iff_getElem?.mp hmem
  have hdefined : ∀ p ∈ pointsIn points id, p.function ∈ m.functionNames := by
    intro p hp
    obtain ⟨hpoint, rfl⟩ := mem_pointsIn.mp hp
    obtain ⟨n, f, hn, -, hf, hname⟩ := (hfound p hpoint).placed
    obtain rfl := Option.some.inj (hm.symm.trans hn)
    exact hname ▸ List.mem_map_of_mem hf
  have hderived : (allDerivedNames (pointsIn points id)).Nodup := by
    refine nodup_allDerivedNames (hapart.nodup.filter _) fun p hp q hq heq => ?_
    obtain ⟨hp, hpid⟩ := mem_pointsIn.mp hp
    obtain ⟨hq, hqid⟩ := mem_pointsIn.mp hq
    exact hapart.eq_of_cloneName_eq hoperators hfound hp hq (hpid.trans hqid.symm) heq
  -- So it can only be that some derived name is the name of a loaded function.
  obtain ⟨derived, hmem, htaken⟩ : ∃ derived ∈ allDerivedNames (pointsIn points id),
      derived ∈ m.functionNames := by
    by_contra hnone
    refine hstale ⟨hdefined, List.nodup_append.mpr
      ⟨hnames m (List.mem_of_getElem? hm), hderived, ?_⟩⟩
    rintro name hname _ hmem rfl
    exact hnone ⟨name, hmem, hname⟩
  obtain ⟨p, hp, hown⟩ := exists_of_mem_allDerivedNames hmem
  obtain ⟨hpoint, rfl⟩ := mem_pointsIn.mp hp
  exact ⟨p, hpoint, m, hm, derived, hown, htaken⟩

end MutationLab
