import Mathlib.Data.List.Basic
import MutationLab.FileTree

/-! # Files that are written

Writing a file changes what stands at one place and makes no directory, so every path leads where it
led before. The file is read back, and every other file is read as before. A directory that exists
needs no creating (`FileTree.createDirectories_of_isDirectory`), and the path of a name in it leads
to the name (`FileTree.resolve_join`). -/

namespace MutationLab

namespace FileTree

/-! ## Places -/

/-- What is put at a place that is no directory stands there. -/
theorem entry?_put_self {t : FileTree} {place : Place} (h : t.isDirectory place = false)
    (entry : Entry) : FileTree.entry? (t.put place entry) place = some entry := by
  rw [isDirectory, decide_eq_false_iff_not] at h
  unfold entry? at h ⊢
  split at h
  · exact absurd rfl h
  · exact absurd rfl h
  · exact absurd rfl h
  · rw [put, List.lookup_cons, beq_self_eq_true]

/-- Leaving out the entries of one place does not change what is found at another. -/
theorem lookup_filter_ne {place other : Place} (h : other ≠ place)
    (entries : List (Place × Entry)) :
    (entries.filter (·.1 ≠ place)).lookup other = entries.lookup other := by
  induction entries with
  | nil => rfl
  | cons entry entries ih =>
    by_cases hentry : entry.1 = place
    · have hother : (other == entry.1) = false := beq_false_of_ne (hentry ▸ h)
      rw [List.filter_cons_of_neg (by simpa using hentry), ih, List.lookup_cons, hother]
    · rw [List.filter_cons_of_pos (by simpa using hentry), List.lookup_cons, List.lookup_cons, ih]

/-- What stands at other places stays. -/
theorem entry?_put_of_ne {place other : Place} (h : other ≠ place) (t : FileTree) (entry : Entry) :
    FileTree.entry? (t.put place entry) other = t.entry? other := by
  have hother : (other == place) = false := beq_false_of_ne h
  unfold entry?
  split
  · rfl
  · rfl
  · rfl
  · rw [put, List.lookup_cons, hother, lookup_filter_ne h]

/-! ## Writing and reading -/

/-- A file is written where the path leads, if no directory stands there. -/
theorem write_eq_some_iff {t t' : FileTree} {path : String} {content : List UInt8} :
    t.write path content = some t' ↔ ∃ place, t.resolve path = some place ∧
      t.isDirectory place = false ∧ t.put place (.file content) = t' := by
  rw [write]
  cases t.resolve path with
  | none => exact iff_of_false nofun nofun
  | some place =>
    by_cases h : t.isDirectory place = true
    · simp [h]
    · simp [h]

/-- **Writing a file changes no directory.** -/
theorem isDirectory_write {t t' : FileTree} {path : String} {content : List UInt8}
    (h : t.write path content = some t') (place : Place) :
    t'.isDirectory place = t.isDirectory place := by
  obtain ⟨target, -, hfile, rfl⟩ := write_eq_some_iff.mp h
  by_cases heq : place = target
  · subst heq
    rw [hfile, isDirectory, entry?_put_self hfile]
    rfl
  · rw [isDirectory, isDirectory, entry?_put_of_ne heq]

/-- The same directories, the same walk. -/
theorem walk_congr {t t' : FileTree} (h : ∀ place, t'.isDirectory place = t.isDirectory place)
    (place : Place) (names : List String) : t'.walk place names = t.walk place names := by
  induction names generalizing place with
  | nil => rfl
  | cons name names ih => rw [walk, walk, h, ih]

/-- Where the same directories stand, paths lead to the same places. -/
theorem resolve_congr {t t' : FileTree} (h : ∀ place, t'.isDirectory place = t.isDirectory place)
    (path : String) : t'.resolve path = t.resolve path := by
  rw [resolve, resolve, walk_congr h]

/-- **A file that was written is read back.** -/
theorem read_write {t t' : FileTree} {path : String} {content : List UInt8}
    (h : t.write path content = some t') : t'.read path = some content := by
  have hresolve := resolve_congr (isDirectory_write h) path
  obtain ⟨place, hplace, hfile, rfl⟩ := write_eq_some_iff.mp h
  rw [read, hresolve, hplace, Option.bind_some, entry?_put_self hfile]

/-- **A path that leads elsewhere is read as before.** -/
theorem read_write_of_resolve_ne {t t' : FileTree} {path other : String} {content : List UInt8}
    (h : t.write path content = some t') (hne : t.resolve other ≠ t.resolve path) :
    t'.read other = t.read other := by
  have hresolve := resolve_congr (isDirectory_write h) other
  obtain ⟨place, hplace, -, rfl⟩ := write_eq_some_iff.mp h
  rw [read, read, hresolve]
  cases hother : t.resolve other with
  | none => rfl
  | some otherPlace =>
    have hplaces : otherPlace ≠ place := by
      rintro rfl
      exact hne (hother.trans hplace.symm)
    rw [Option.bind_some, Option.bind_some, entry?_put_of_ne hplaces]

/-! ## Walking -/

/-- The first name of a walk leads from a directory, and the walk goes on behind it. -/
theorem walk_cons_eq_some_iff {t : FileTree} {place target : Place} {name : String}
    {names : List String} : t.walk place (name :: names) = some target ↔
      (t.isDirectory place = true ∧ Path.fits name = true) ∧
        t.walk (place.enter name) names = some target := by
  rw [walk, ← Bool.and_eq_true_iff]
  split
  · rename_i h
    exact (and_iff_right h).symm
  · rename_i h
    exact iff_of_false nofun fun hwalk => h hwalk.1

/-- A walk along two lists of names is two walks. -/
theorem walk_append (t : FileTree) (place : Place) (front back : List String) :
    t.walk place (front ++ back) = (t.walk place front).bind (t.walk · back) := by
  induction front generalizing place with
  | nil => rfl
  | cons name front ih =>
    rw [List.cons_append, walk, walk]
    split
    · exact ih _
    · rfl

/-- A walk that ends in a directory begins in one. -/
theorem isDirectory_of_walk {t : FileTree} {place target : Place} {names : List String}
    (h : t.walk place names = some target) (htarget : t.isDirectory target = true) :
    t.isDirectory place = true := by
  cases names with
  | nil =>
    obtain rfl := Option.some.inj h
    exact htarget
  | cons name names => exact (walk_cons_eq_some_iff.mp h).1.1

/-- Empty names do not matter to a walk. -/
theorem walk_filter {t : FileTree} {place target : Place} {names : List String}
    (h : t.walk place names = some target) :
    t.walk place (names.filter (· ≠ "")) = some target := by
  induction names generalizing place with
  | nil => exact h
  | cons name names ih =>
    obtain ⟨hplace, hrest⟩ := walk_cons_eq_some_iff.mp h
    by_cases hname : name = ""
    · -- The empty name leads to where it is used.
      subst hname
      rw [List.filter_cons_of_neg (by simp)]
      exact ih hrest
    · rw [List.filter_cons_of_pos (by simpa using hname)]
      exact walk_cons_eq_some_iff.mpr ⟨hplace, ih hrest⟩

/-- Where directories stand all along a walk, none is created. -/
theorem build_of_walk {t : FileTree} {place target : Place} {names : List String}
    (h : t.walk place names = some target) (htarget : t.isDirectory target = true) :
    t.build place names = (true, t) := by
  induction names generalizing place with
  | nil => rfl
  | cons name names ih =>
    obtain ⟨⟨-, hname⟩, hrest⟩ := walk_cons_eq_some_iff.mp h
    have hnext : t.entry? (place.enter name) = some .directory :=
      of_decide_eq_true (isDirectory_of_walk hrest htarget)
    rw [build, hname]
    simp only [Bool.not_true, Bool.false_eq_true, if_false, hnext]
    exact ih hrest

/-- What a path leads to, and that it can be walked. -/
theorem resolve_eq_some_iff {t : FileTree} {path : String} {place : Place} :
    t.resolve path = some place ↔
      Path.isUsable path = true ∧ t.walk (Place.start path) (Path.names path) = some place := by
  rw [resolve]
  split
  · rename_i h
    exact (and_iff_right h).symm
  · rename_i h
    exact iff_of_false nofun fun hwalk => h hwalk.1

/-- **A directory that exists needs no creating.** -/
theorem createDirectories_of_isDirectory {t : FileTree} {path : String} {place : Place}
    (h : t.resolve path = some place) (hplace : t.isDirectory place = true) :
    t.createDirectories path = (true, t) := by
  obtain ⟨husable, hwalk⟩ := resolve_eq_some_iff.mp h
  have hfilter := walk_filter hwalk
  rw [createDirectories]
  split
  · rfl
  · rw [husable]
    simp only [Bool.not_true, Bool.false_eq_true, if_false]
    set names := (Path.names path).filter (· ≠ "") with hnames
    split
    · -- The names above the last dots are the beginning of all names.
      have hfront : (names.reverse.dropWhile (· = ".")).tail.reverse <+: names := by
        rw [← List.reverse_suffix, List.reverse_reverse]
        exact (List.tail_suffix _).trans (List.dropWhile_suffix _)
      obtain ⟨back, hback⟩ := hfront
      rw [← hback, walk_append, Option.bind_eq_some_iff] at hfilter
      obtain ⟨middle, hmiddle, hend⟩ := hfilter
      rw [build_of_walk hmiddle (isDirectory_of_walk hend hplace)]
      simp only [h, Option.any_some, hplace]
    · exact build_of_walk hfilter hplace

end FileTree

/-! ## Names of paths -/

namespace Path

/-- A path has at least one name. -/
theorem split_ne_nil (cs : List Char) : split cs ≠ [] := by
  cases cs with
  | nil => exact nofun
  | cons c cs =>
    rw [split]
    split_ifs
    · exact nofun
    · split <;> exact nofun

/-- A slash separates names. -/
theorem split_append_slash (front back : List Char) :
    split (front ++ '/' :: back) = split front ++ split back := by
  induction front with
  | nil => rfl
  | cons c front ih =>
    rw [List.cons_append, split, split]
    split_ifs with h
    · rw [ih]
      rfl
    · obtain ⟨name, names, hfront⟩ := List.exists_cons_of_ne_nil (split_ne_nil front)
      rw [ih, hfront]
      rfl

/-- A path without slashes is one name. -/
theorem split_of_not_mem {cs : List Char} (h : '/' ∉ cs) : split cs = [cs] := by
  induction cs with
  | nil => rfl
  | cons c cs ih =>
    rw [List.mem_cons, not_or] at h
    rw [split, if_neg (Ne.symm h.1), ih h.2]

/-- What a name is, for an entry of a directory: it is not one of the names with a meaning, has no
slash and no zero character, and is not too long. -/
structure IsEntryName (name : String) : Prop where
  ne_empty : name ≠ ""
  ne_dot : name ≠ "."
  ne_dots : name ≠ ".."
  no_slash : '/' ∉ name.toList
  no_zero : '\x00' ∉ name.toList
  fits : Path.fits name = true

namespace IsEntryName

variable {name : String} (h : IsEntryName name)

include h

/-- Such a name does not begin at the root. -/
theorem isAbsolute_eq_false : isAbsolute name = false := by
  rw [isAbsolute, decide_eq_false_iff_not]
  intro hhead
  exact h.no_slash (List.mem_of_mem_head? hhead)

/-- It leads to an entry of its own. -/
theorem enter (place : Place) : place.enter name = name :: place := by
  unfold Place.enter
  split
  · exact absurd rfl h.ne_empty
  · exact absurd rfl h.ne_dot
  · exact absurd rfl h.ne_dots
  · rfl

/-- The names of a path to an entry are those of the directory, apart from an empty one at the end,
and the name of the entry. -/
theorem exists_names_join {directory : String} (hdirectory : directory ≠ "") :
    ∃ front, names (join directory name) = front ++ [name] ∧
      (names directory = front ∨ names directory = front ++ [""]) := by
  have hempty : directory.isEmpty = false := by simpa using hdirectory
  rw [join, hempty, h.isAbsolute_eq_false, Bool.or_self, if_neg Bool.false_ne_true]
  split_ifs with hlast
  · obtain ⟨front, hfront⟩ := List.getLast?_eq_some_iff.mp hlast
    have hsplit : split (directory ++ name).toList = split front ++ [name.toList] := by
      rw [String.toList_append, hfront, List.append_assoc, List.singleton_append,
        split_append_slash, split_of_not_mem h.no_slash]
    refine ⟨(split front).map String.ofList, ?_, .inr ?_⟩
    · rw [names, hsplit, List.map_append, List.map_singleton, String.ofList_toList]
    · rw [names, hfront, split_append_slash, List.map_append]
      rfl
  · have hsplit : split (directory ++ "/" ++ name).toList =
        split directory.toList ++ [name.toList] := by
      rw [String.toList_append, String.toList_append, List.append_assoc]
      show split (directory.toList ++ '/' :: name.toList) = _
      rw [split_append_slash, split_of_not_mem h.no_slash]
    refine ⟨names directory, ?_, .inl rfl⟩
    rw [names, hsplit, List.map_append, List.map_singleton, String.ofList_toList, names]

/-- The path to an entry begins where that of the directory begins. -/
theorem start_join {directory : String} (hdirectory : directory ≠ "") :
    Place.start (join directory name) = Place.start directory := by
  have hempty : directory.isEmpty = false := by simpa using hdirectory
  have hne : directory.toList ≠ [] := by simpa using hdirectory
  have hhead : ∀ behind, (directory.toList ++ behind).head? = directory.toList.head? :=
    fun behind => List.head?_append_of_ne_nil _ hne
  rw [Place.start, Place.start, isAbsolute, isAbsolute, join, hempty, h.isAbsolute_eq_false,
    Bool.or_self, if_neg Bool.false_ne_true]
  congr 1
  split_ifs
  · rw [String.toList_append, hhead]
  · rw [String.toList_append, String.toList_append, List.append_assoc, hhead]

/-- The path to an entry can be walked, if it is not too long. -/
theorem isUsable_join {directory : String} (hzero : '\x00' ∉ directory.toList)
    (hsize : directory.utf8ByteSize + name.utf8ByteSize + 1 < 4096) :
    isUsable (join directory name) = true := by
  have hne := h.ne_empty
  have hname := h.no_zero
  have hslash : "/".utf8ByteSize = 1 := rfl
  rw [join, h.isAbsolute_eq_false, Bool.or_false]
  split_ifs with hempty hlast
  · simp [isUsable, hne, hname]
    omega
  · simp [isUsable, hne, hname, hzero]
    omega
  · simp [isUsable, hne, hname, hzero]
    omega

end IsEntryName

end Path

namespace FileTree

/-- The place of a directory; the empty path stands for the working directory. -/
def directory? (t : FileTree) (directory : String) : Option Place :=
  if directory.isEmpty then some [] else t.resolve directory

/-- Where the same directories stand, the path of a directory leads to the same place. -/
theorem directory?_congr {t t' : FileTree}
    (h : ∀ place, t'.isDirectory place = t.isDirectory place) (directory : String) :
    t'.directory? directory = t.directory? directory := by
  rw [directory?, directory?, resolve_congr h]

/-- A directory that exists needs no creating, under the empty path either. -/
theorem createDirectories_of_directory? {t : FileTree} {directory : String} {place : Place}
    (h : t.directory? directory = some place) (hplace : t.isDirectory place = true) :
    t.createDirectories directory = (true, t) := by
  rw [directory?] at h
  split_ifs at h with hempty
  · rw [createDirectories, if_pos hempty]
  · exact createDirectories_of_isDirectory h hplace

/-- **The path of a name in a directory leads to the name there**, if it is not too long. -/
theorem resolve_join {t : FileTree} {directory name : String} {place : Place}
    (h : t.directory? directory = some place) (hplace : t.isDirectory place = true)
    (hname : Path.IsEntryName name)
    (hsize : directory.utf8ByteSize + name.utf8ByteSize + 1 < 4096) :
    t.resolve (Path.join directory name) = some (name :: place) := by
  have hlast : t.walk place [name] = some (name :: place) :=
    walk_cons_eq_some_iff.mpr ⟨⟨hplace, hname.fits⟩, congrArg some (hname.enter place)⟩
  rw [directory?] at h
  split_ifs at h with hempty
  · obtain rfl := Option.some.inj h
    obtain rfl : directory = "" := by simpa using hempty
    refine resolve_eq_some_iff.mpr ⟨hname.isUsable_join nofun hsize, ?_⟩
    show t.walk (Place.start name) (Path.names name) = _
    rw [Place.start, hname.isAbsolute_eq_false, Path.names, Path.split_of_not_mem hname.no_slash,
      List.map_singleton, String.ofList_toList]
    exact hlast
  · have hdirectory : directory ≠ "" := by simpa using hempty
    obtain ⟨husable, hwalk⟩ := resolve_eq_some_iff.mp h
    have hzero : '\x00' ∉ directory.toList := by
      intro hmem
      simp [Path.isUsable, hmem] at husable
    obtain ⟨front, hjoin, hfront⟩ := hname.exists_names_join hdirectory
    have hwalk : t.walk (Place.start directory) front = some place := by
      obtain hfront | hfront := hfront
      · rwa [hfront] at hwalk
      · -- The path ends with a slash: the empty name behind it leads nowhere else.
        rw [hfront, walk_append, Option.bind_eq_some_iff] at hwalk
        obtain ⟨middle, hmiddle, hend⟩ := hwalk
        exact hmiddle.trans (walk_cons_eq_some_iff.mp hend).2
    refine resolve_eq_some_iff.mpr ⟨hname.isUsable_join hzero hsize, ?_⟩
    rw [hname.start_join hdirectory, hjoin, walk_append, hwalk]
    exact hlast

/-- Nothing but what is listed stands in a directory. -/
theorem entry?_eq_none_of_children {t : FileTree} {place : Place} (h : t.children place = [])
    {name : String} (hname : Path.IsEntryName name) : t.entry? (name :: place) = none := by
  have hnone : ∀ entry, (name :: place, entry) ∉ t.entries := by
    intro entry hmem
    have hlisted : (name, entry) ∈ t.children place := by
      rw [children, List.mem_mergeSort]
      exact List.mem_filterMap.mpr ⟨_, hmem, if_pos rfl⟩
    rw [h] at hlisted
    exact nomatch hlisted
  have hlookup : t.entries.lookup (name :: place) = none := by
    rw [List.lookup_eq_none_iff]
    rintro ⟨other, entry⟩ hmem
    rw [bne_iff_ne]
    rintro rfl
    exact hnone entry hmem
  -- A name of an entry is neither dots nor a slash, so it is looked up as it stands.
  unfold entry?
  split
  · rename_i heq
    exact nomatch heq
  · rename_i heq
    exact absurd (List.cons.inj heq).1 hname.ne_dots
  · rename_i heq
    have hslash := hname.no_slash
    rw [(List.cons.inj heq).1] at hslash
    exact absurd (by decide) hslash
  · exact hlookup

end FileTree

end MutationLab
