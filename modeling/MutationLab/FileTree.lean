/-! # File trees

The files that a run reads and writes. A path is walked name by name from the working
directory or, when it begins with a slash, from the root; what is walked through must be
a directory. The working directory, the root and what lies above them always exist. -/

namespace MutationLab

namespace Path

/-- The names of a path: the parts between slashes, some of which may be empty. -/
def split : List Char → List (List Char)
  | [] => [[]]
  | c :: cs =>
      if c = '/' then [] :: split cs
      else
        match split cs with
        | [] => [[c]]
        | name :: names => (c :: name) :: names

/-- The names of a path. -/
def names (path : String) : List String := (split path.toList).map String.ofList

/-- Whether a path begins at the root. -/
def isAbsolute (path : String) : Bool := path.toList.head? = some '/'

/-- The path of a name in a directory. -/
def join (directory name : String) : String :=
  if directory.isEmpty || isAbsolute name then name
  else if directory.toList.getLast? = some '/' then directory ++ name
  else directory ++ "/" ++ name

/-- Whether a path can be walked at all: it is not empty, holds no zero character, and is
not too long. -/
def isUsable (path : String) : Bool :=
  !path.isEmpty && !path.toList.contains '\x00' && path.utf8ByteSize < 4096

/-- Whether something can have a name: it is not too long. -/
def fits (name : String) : Bool := name.utf8ByteSize ≤ 255

end Path

/-- A place: the names that lead to it from the working directory, the last one first.
Above the working directory the names are `..`; the root has the name `/`. -/
abbrev Place := List String

namespace Place

/-- The directory that holds a place. -/
def parent : Place → Place
  | [] => [".."]
  | ".." :: place => ".." :: ".." :: place
  | ["/"] => ["/"]
  | _ :: place => place

/-- Where a name leads from a directory. -/
def enter (directory : Place) : String → Place
  | "" | "." => directory
  | ".." => parent directory
  | name => name :: directory

/-- Where a path begins. -/
def start (path : String) : Place := if Path.isAbsolute path then ["/"] else []

/-- A path to a place. -/
def toPath (place : Place) : String :=
  match place.reverse with
  | "/" :: names => "/" ++ "/".intercalate names
  | names => "/".intercalate names

end Place

/-- What stands at a place. -/
inductive Entry where
  /-- A directory. -/
  | directory
  /-- A file and its bytes. -/
  | file (content : List UInt8)
  deriving DecidableEq, Repr

/-- A tree of directories and files. -/
structure FileTree where
  entries : List (Place × Entry) := []
  deriving DecidableEq, Repr

namespace FileTree

/-- What stands at a place. -/
def entry? (t : FileTree) : Place → Option Entry
  | [] | ".." :: _ | ["/"] => some .directory
  | place => t.entries.lookup place

/-- Whether a place is a directory. -/
def isDirectory (t : FileTree) (place : Place) : Bool := t.entry? place = some .directory

/-- Put an entry at a place. -/
def put (t : FileTree) (place : Place) (entry : Entry) : FileTree :=
  { entries := (place, entry) :: t.entries.filter (·.1 ≠ place) }

/-- Walk from a place along names; every place before the last must be a directory. -/
def walk (t : FileTree) : Place → List String → Option Place
  | place, [] => some place
  | place, name :: names =>
      if t.isDirectory place && Path.fits name then t.walk (place.enter name) names else none

/-- The place of a path. Nothing need stand there, but its directory exists. -/
def resolve (t : FileTree) (path : String) : Option Place :=
  if Path.isUsable path then t.walk (Place.start path) (Path.names path) else none

/-- Whether something stands at a path. -/
def contains (t : FileTree) (path : String) : Bool := ((t.resolve path).bind t.entry?).isSome

/-- The bytes of the file at a path. -/
def read (t : FileTree) (path : String) : Option (List UInt8) :=
  match (t.resolve path).bind t.entry? with
  | some (.file content) => some content
  | _ => none

/-- Write a file in a directory that exists. -/
def write (t : FileTree) (path : String) (content : List UInt8) : Option FileTree :=
  match t.resolve path with
  | none => none
  | some place => if t.isDirectory place then none else some (t.put place (.file content))

/-- Create the directories along names that are missing, as far as no file is in the way
and no name is too long, and say whether that was so for all. -/
def build (t : FileTree) : Place → List String → Bool × FileTree
  | _, [] => (true, t)
  | place, name :: names =>
      if !Path.fits name then (false, t)
      else
        let next := place.enter name
        match t.entry? next with
        | some .directory => t.build next names
        | some (.file _) => (false, t)
        | none => (t.put next .directory).build next names

/-- Create a directory with those above it, and say whether it exists then. The empty path
needs no directory. A path that ends in a dot names a directory that is there: only those
above it are created. -/
def createDirectories (t : FileTree) (path : String) : Bool × FileTree :=
  if path.isEmpty then (true, t)
  else if !Path.isUsable path then (false, t)
  else
    let names := (Path.names path).filter (· ≠ "")
    if names.getLast? = some "." then
      let above := (names.reverse.dropWhile (· = ".")).tail.reverse
      let (_, t) := t.build (Place.start path) above
      ((t.resolve path).any t.isDirectory, t)
    else t.build (Place.start path) names

/-- Write a file and create the directories above it. What cannot be written is left out. -/
def provide (t : FileTree) (path : String) (content : List UInt8) : FileTree :=
  let (_, t) := t.build (Place.start path) (Path.names path).dropLast
  (t.write path content).getD t

/-- The entries of a directory by name, in order. -/
def children (t : FileTree) (directory : Place) : List (String × Entry) :=
  let found := t.entries.filterMap fun (place, entry) =>
    match place with
    | [] => none
    | name :: above => if above = directory then some (name, entry) else none
  found.mergeSort fun a b => !(b.1 < a.1)

/-- The entries of the directory at a path; none if it cannot be read. -/
def list (t : FileTree) (path : String) : List (String × Entry) :=
  match t.resolve path with
  | none => []
  | some place => if t.isDirectory place then t.children place else []

/-- The entries that another tree does not have, with paths to them; directories come first. -/
def since (t before : FileTree) : List (String × Entry) :=
  let changed := t.entries.filter fun (place, entry) => before.entry? place ≠ some entry
  let (directories, files) := changed.partition fun (_, entry) => entry = .directory
  (directories.reverse ++ files).map fun (place, entry) => (place.toPath, entry)

end FileTree

end MutationLab
