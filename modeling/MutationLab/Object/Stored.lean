import MutationLab.FileTree
import MutationLab.Hash
import MutationLab.Object.Codec
import MutationLab.Symbol

/-! # Stored object files

Object files in a file tree, and a cache of them: a directory with one file for each
content hash and each text in front of symbols. Only object files without probes are
kept, and what does not belong to its name is not trusted. -/

namespace MutationLab

/-- Why an object file cannot be read or written. -/
inductive ObjectError where
  /-- The file cannot be accessed. -/
  | inaccessible (path : String)
  /-- The bytes are no object file. -/
  | malformed
  deriving DecidableEq, Repr

/-- The text of an error. -/
def ObjectError.message : ObjectError → String
  | inaccessible path => s!"object io error at {path}: the file cannot be accessed"
  | malformed => "malformed object: the bytes are no object file"

namespace ObjectFile

/-- Read an object file. -/
def readFrom (files : FileTree) (path : String) : Except ObjectError ObjectFile :=
  match files.read path with
  | none => .error (.inaccessible path)
  | some bytes =>
      match ofBytes? bytes with
      | none => .error .malformed
      | some o => .ok o

/-- Write an object file. -/
def writeTo (o : ObjectFile) (files : FileTree) (path : String) : Except ObjectError FileTree :=
  match files.write path o.toBytes with
  | none => .error (.inaccessible path)
  | some files => .ok files

end ObjectFile

/-- A directory of compiled modules. -/
structure ObjectCache where
  directory : String
  deriving DecidableEq, Repr

namespace ObjectCache

/-- What tells apart the entries of one module: the text in front of symbols by its hash. -/
def tag (mangling : Mangling) : String :=
  if mangling.lead.isEmpty then "plain"
  else "p" ++ Text.hexWord (Hash.ofText mangling.lead)

/-- The path of the entry for a content hash. -/
def path (cache : ObjectCache) (hash : String) (mangling : Mangling) : String :=
  Path.join cache.directory s!"{hash}-{tag mangling}.irobj"

/-- The entry for a content hash, if it is what its name says. -/
def load (cache : ObjectCache) (files : FileTree) (hash : String) (mangling : Mangling) :
    Option ObjectFile :=
  match ObjectFile.readFrom files (cache.path hash mangling) with
  | .error _ => none
  | .ok o => if o.sourceHash = hash ∧ o.instrumented = false then some o else none

/-- Keep an object file; one with probes is passed over. Directories that are created stay
even if the file cannot be written. -/
def store (cache : ObjectCache) (files : FileTree) (o : ObjectFile) (mangling : Mangling) :
    Except ObjectError Unit × FileTree :=
  if o.instrumented then (.ok (), files)
  else
    match files.createDirectories cache.directory with
    | (false, files) => (.error (.inaccessible cache.directory), files)
    | (true, files) =>
        match o.writeTo files (cache.path o.sourceHash mangling) with
        | .error e => (.error e, files)
        | .ok files => (.ok (), files)

end ObjectCache

end MutationLab
