import MutationLab.Code.Written
import MutationLab.Object.Stored
import MutationLab.Proofs.Encoding
import MutationLab.Proofs.Files
import MutationLab.Proofs.Hexadecimal

/-! # Entries of a cache

The name of an entry tells the content hash of the module and the hash of the text in front of
symbols (`ObjectCache.entryName_inj`). In a directory that is ready for entries
(`ObjectCache.Ready`) every entry can be written, and writing one changes no other. -/

namespace MutationLab

/-- An object file is read when a file holds bytes that are read as the object file. -/
theorem ObjectFile.readFrom_eq_ok_iff {files : FileTree} {path : String} {o : ObjectFile} :
    readFrom files path = .ok o ↔
      ∃ bytes, files.read path = some bytes ∧ ofBytes? bytes = some o := by
  rw [readFrom]
  cases files.read path with
  | none => exact iff_of_false nofun (by rintro ⟨_, ⟨⟩, _⟩)
  | some bytes =>
    dsimp only
    cases hread : ofBytes? bytes with
    | none =>
      refine iff_of_false nofun ?_
      rintro ⟨_, ⟨⟩, hother⟩
      rw [hread] at hother
      exact nomatch hother
    | some read =>
      constructor
      · rintro ⟨⟩
        exact ⟨bytes, rfl, hread⟩
      · rintro ⟨_, ⟨⟩, hother⟩
        rw [hread] at hother
        exact congrArg Except.ok (Option.some.inj hother)

namespace ObjectCache

/-- The name of the entry for a content hash. -/
def entryName (hash : String) (mangling : Mangling) : String := s!"{hash}-{tag mangling}.irobj"

/-- The path of an entry leads to its name in the directory. -/
theorem path_eq (cache : ObjectCache) (hash : String) (mangling : Mangling) :
    cache.path hash mangling = Path.join cache.directory (entryName hash mangling) := rfl

/-! ## Names of entries -/

/-- The parts of the name of an entry. -/
theorem toList_entryName (hash : String) (mangling : Mangling) :
    (entryName hash mangling).toList =
      hash.toList ++ '-' :: ((tag mangling).toList ++ ".irobj".toList) := by
  show (hash ++ "-" ++ tag mangling ++ ".irobj").toList = _
  simp

/-- Nothing in a tag has a meaning in paths. -/
theorem plain_of_mem_tag {mangling : Mangling} {c : Char} (h : c ∈ (tag mangling).toList) :
    c ≠ '/' ∧ c ≠ '\x00' := by
  rw [tag] at h
  split_ifs at h
  · have hplain : ∀ c ∈ "plain".toList, c ≠ '/' ∧ c ≠ '\x00' := by simp
    exact hplain c h
  · rw [String.toList_append, List.mem_append] at h
    obtain h | h := h
    · have hlead : ∀ c ∈ "p".toList, c ≠ '/' ∧ c ≠ '\x00' := by simp
      exact hlead c h
    · exact Text.plain_of_mem_hexWord h

/-- Nothing in the name of an entry of a module has one. -/
theorem plain_of_mem_entryName {m : Module} {mangling : Mangling} {c : Char}
    (h : c ∈ (entryName m.contentHash mangling).toList) : c ≠ '/' ∧ c ≠ '\x00' := by
  rw [toList_entryName, List.mem_append, List.mem_cons, List.mem_append] at h
  obtain h | rfl | h | h := h
  · exact Text.plain_of_mem_hexWord h
  · decide
  · exact plain_of_mem_tag h
  · have hending : ∀ c ∈ ".irobj".toList, c ≠ '/' ∧ c ≠ '\x00' := by simp
    exact hending c h

/-- A tag takes at most 17 bytes. -/
theorem utf8ByteSize_tag_le (mangling : Mangling) : (tag mangling).utf8ByteSize ≤ 17 := by
  rw [tag]
  split_ifs
  · decide
  · have hlead : "p".utf8ByteSize = 1 := rfl
    rw [String.utf8ByteSize_append, Text.utf8ByteSize_hexWord, hlead]

/-- The name of an entry takes at most 40 bytes. -/
theorem utf8ByteSize_entryName_le (m : Module) (mangling : Mangling) :
    (entryName m.contentHash mangling).utf8ByteSize ≤ 40 := by
  have hhash : m.contentHash.utf8ByteSize = 16 := Text.utf8ByteSize_hexWord _
  have htag := utf8ByteSize_tag_le mangling
  have hdash : "-".utf8ByteSize = 1 := rfl
  have hending : ".irobj".utf8ByteSize = 6 := rfl
  show (m.contentHash ++ "-" ++ tag mangling ++ ".irobj").utf8ByteSize ≤ 40
  rw [String.utf8ByteSize_append, String.utf8ByteSize_append, String.utf8ByteSize_append]
  omega

/-- An entry of a module can be named so in a directory. -/
theorem isEntryName (m : Module) (mangling : Mangling) :
    Path.IsEntryName (entryName m.contentHash mangling) := by
  -- The names that mean something in a path are shorter than a content hash.
  have hlength : 16 < (entryName m.contentHash mangling).toList.length := by
    rw [toList_entryName, List.length_append, List.length_cons, Module.contentHash,
      Text.length_hexWord]
    omega
  have hshort : ∀ name : String, name.toList.length ≤ 16 →
      entryName m.contentHash mangling ≠ name := by
    rintro name hname rfl
    omega
  exact
    { ne_empty := hshort _ (by decide)
      ne_dot := hshort _ (by decide)
      ne_dots := hshort _ (by decide)
      no_slash := fun h => (plain_of_mem_entryName h).1 rfl
      no_zero := fun h => (plain_of_mem_entryName h).2 rfl
      fits := decide_eq_true ((utf8ByteSize_entryName_le m mangling).trans (by decide)) }

/-- A tag tells the hash of the text in front of symbols. -/
theorem tag_inj {mangling other : Mangling} (h : tag mangling = tag other) :
    Hash.ofText mangling.lead = Hash.ofText other.lead := by
  have hlengths : ∀ word, ("p" ++ Text.hexWord word).toList.length = 17 := by
    intro word
    rw [String.toList_append, List.length_append, Text.length_hexWord]
    rfl
  have hplain : "plain".toList.length = 5 := rfl
  rw [tag, tag] at h
  split_ifs at h with hempty hother hother
  · rw [String.isEmpty_iff.mp hempty, String.isEmpty_iff.mp hother]
  -- A tag without a hash is shorter than one with a hash.
  · have hlength := congrArg (fun s : String => s.toList.length) h
    simp only [hlengths, hplain] at hlength
    exact absurd hlength (by decide)
  · have hlength := congrArg (fun s : String => s.toList.length) h
    simp only [hlengths, hplain] at hlength
    exact absurd hlength (by decide)
  · exact Text.hexWord_injective ((String.append_right_inj "p").mp h)

/-- **The name of an entry tells the content hash and the hash of the text in front of symbols.** -/
theorem entryName_inj {m n : Module} {mangling other : Mangling}
    (h : entryName m.contentHash mangling = entryName n.contentHash other) :
    m.contentHash = n.contentHash ∧ Hash.ofText mangling.lead = Hash.ofText other.lead := by
  have hlists := congrArg String.toList h
  rw [toList_entryName, toList_entryName] at hlists
  -- Content hashes have equally many digits, so both names split at the same place.
  obtain ⟨hhash, htags⟩ := List.append_inj hlists
    ((Text.length_hexWord _).trans (Text.length_hexWord _).symm)
  obtain ⟨htag, -⟩ := List.append_inj' (List.cons.inj htags).2 rfl
  exact ⟨String.toList_inj.mp hhash, tag_inj (String.toList_inj.mp htag)⟩

/-! ## Directories that are ready -/

/-- A directory is ready for entries: it exists, its path leaves room for their names, and nothing
but a file stands where an entry belongs. -/
structure Ready (cache : ObjectCache) (files : FileTree) (place : Place) : Prop where
  leads : files.directory? cache.directory = some place
  isDirectory : files.isDirectory place = true
  room : cache.directory.utf8ByteSize + 41 < 4096
  free : ∀ (m : Module) (mangling : Mangling),
    files.isDirectory (entryName m.contentHash mangling :: place) = false

namespace Ready

variable {cache : ObjectCache} {files : FileTree} {place : Place} (h : cache.Ready files place)

include h

/-- The path of an entry leads to its name in the directory. -/
theorem resolve_path (m : Module) (mangling : Mangling) :
    files.resolve (cache.path m.contentHash mangling) =
      some (entryName m.contentHash mangling :: place) := by
  have hsize := utf8ByteSize_entryName_le m mangling
  have hroom := h.room
  rw [path_eq]
  exact FileTree.resolve_join h.leads h.isDirectory (isEntryName m mangling) (by omega)

/-- Writing a file leaves the directory ready. -/
theorem write {files' : FileTree} {path : String} {content : List UInt8}
    (hwrite : files.write path content = some files') : cache.Ready files' place := by
  have hsame := FileTree.isDirectory_write hwrite
  exact
    { leads := (FileTree.directory?_congr hsame _).trans h.leads
      isDirectory := (hsame _).trans h.isDirectory
      room := h.room
      free := fun m mangling => (hsame _).trans (h.free m mangling) }

/-- Every entry can be written. -/
theorem exists_write (m : Module) (mangling : Mangling) (content : List UInt8) :
    ∃ files', files.write (cache.path m.contentHash mangling) content = some files' :=
  ⟨_, FileTree.write_eq_some_iff.mpr ⟨_, h.resolve_path m mangling, h.free m mangling, rfl⟩⟩

/-- **Writing an entry changes no other entry.** -/
theorem read_write_of_ne {m n : Module} {mangling other : Mangling} {content : List UInt8}
    {files' : FileTree}
    (hwrite : files.write (cache.path m.contentHash mangling) content = some files')
    (hne : ¬ (n.contentHash = m.contentHash ∧
      Hash.ofText other.lead = Hash.ofText mangling.lead)) :
    files'.read (cache.path n.contentHash other) = files.read (cache.path n.contentHash other) := by
  refine FileTree.read_write_of_resolve_ne hwrite ?_
  rw [h.resolve_path, h.resolve_path]
  intro heq
  exact hne (entryName_inj (List.cons.inj (Option.some.inj heq)).1)

/-- An object file without probes is stored by writing its entry. -/
theorem store_eq {o : ObjectFile} (hplain : o.instrumented = false) {mangling : Mangling}
    {files' : FileTree}
    (hwrite : files.write (cache.path o.sourceHash mangling) o.toBytes = some files') :
    cache.store files o mangling = (.ok (), files') := by
  rw [store, hplain, if_neg Bool.false_ne_true,
    FileTree.createDirectories_of_directory? h.leads h.isDirectory]
  dsimp only
  rw [ObjectFile.writeTo, hwrite]

end Ready

/-- A cache can be started: its directory exists and is empty, and its path leaves room for the
names of entries. -/
structure Fresh (cache : ObjectCache) (files : FileTree) : Prop where
  empty : ∃ place, files.directory? cache.directory = some place ∧
    files.isDirectory place = true ∧ files.children place = []
  room : cache.directory.utf8ByteSize + 41 < 4096

/-- A fresh directory is ready, and no entry can be read. -/
theorem Fresh.ready {cache : ObjectCache} {files : FileTree} (h : cache.Fresh files) :
    ∃ place, cache.Ready files place ∧ ∀ (m : Module) (mangling : Mangling),
      files.read (cache.path m.contentHash mangling) = none := by
  obtain ⟨place, hleads, hdirectory, hchildren⟩ := h.empty
  have hnone (m : Module) (mangling : Mangling) :=
    FileTree.entry?_eq_none_of_children hchildren (isEntryName m mangling)
  have hready : cache.Ready files place :=
    { leads := hleads
      isDirectory := hdirectory
      room := h.room
      free := fun m mangling => by rw [FileTree.isDirectory, hnone]; rfl }
  refine ⟨place, hready, fun m mangling => ?_⟩
  rw [FileTree.read, hready.resolve_path, Option.bind_some, hnone]

/-! ## Loading -/

/-- An entry is loaded when it holds an object file without probes for the content hash. -/
theorem load_eq_some_iff {cache : ObjectCache} {files : FileTree} {hash : String}
    {mangling : Mangling} {o : ObjectFile} :
    cache.load files hash mangling = some o ↔
      ObjectFile.readFrom files (cache.path hash mangling) = .ok o ∧
        o.sourceHash = hash ∧ o.instrumented = false := by
  rw [load]
  cases ObjectFile.readFrom files (cache.path hash mangling) with
  | error e => exact iff_of_false nofun nofun
  | ok read =>
    dsimp only
    split_ifs with hmatches
    · rw [Option.some.injEq, Except.ok.injEq]
      constructor
      · rintro rfl
        exact ⟨rfl, hmatches⟩
      · exact And.left
    · refine iff_of_false nofun ?_
      rintro ⟨heq, hfits⟩
      obtain rfl := Except.ok.inj heq
      exact hmatches hfits

end ObjectCache

end MutationLab
