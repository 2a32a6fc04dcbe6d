import MutationLab.CommandLine.Execution
import MutationLab.CommandLine.Usage

/-! # The program

Reads the files that a command needs, carries the command out, writes the files that it
leaves, and prints its outcome. -/

namespace MutationLab.CommandLine

/-- Take a file from the disk, if it is there. -/
def takeFile (files : FileTree) (path : String) : IO FileTree := do
  try
    let bytes ← IO.FS.readBinFile path
    return files.provide path bytes.toList
  catch _ => return files

/-- Take a directory with its files from the disk, if it is there. -/
def takeDirectory (files : FileTree) (path : String) : IO FileTree := do
  try
    let directory ← IO.FS.realPath (if path.isEmpty then "." else path)
    if ← directory.isDir then
      let names := (← directory.readDir).map fun entry => entry.fileName
      let (_, files) := files.createDirectories path
      names.foldlM (fun files name => takeFile files (Path.join path name)) files
    else
      takeFile files path
  catch _ => return files

/-- The path of the directory that holds a path. -/
def directoryOf (path : String) : String := "/".intercalate (Path.names path).dropLast

/-- The files that a command needs. -/
def takeFiles (command : Command) : IO FileTree := do
  let mut files : FileTree := {}
  for path in command.inputs do
    files ← takeFile files path
  if let some output := command.output? then
    files ← takeDirectory files (directoryOf output)
    files ← takeDirectory files output
  if let some directory := command.cacheDirectory? files then
    files ← takeDirectory files directory
  return files

/-- Write what a command has changed. -/
def leaveFiles (before after : FileTree) : IO Unit := do
  for (path, entry) in after.since before do
    match entry with
    | .directory => IO.FS.createDirAll path
    | .file content => IO.FS.writeBinFile path ⟨content.toArray⟩

/-- Print what a command leaves. -/
def printOutcome (o : Outcome) : IO Unit := do
  for m in o.problems do
    IO.eprintln s!"{m.level.name}: {m.text}"
  for line in o.written do
    IO.eprint line
  IO.print o.text
  if let some line := o.summary then
    IO.eprintln line
  if let some text := o.failure then
    IO.eprintln s!"Error: {text}"

end MutationLab.CommandLine

open MutationLab.CommandLine in
/-- Carry out the command of a command line. -/
def main (arguments : List String) : IO UInt32 := do
  match Command.ofArguments arguments with
  | .error .help =>
      IO.print usage
      return 0
  | .error .misuse =>
      IO.eprint usage
      return 2
  | .ok command =>
      let before ← takeFiles command
      let (outcome, after) := command.execute before
      leaveFiles before after
      printOutcome outcome
      return UInt32.ofNat outcome.exit
