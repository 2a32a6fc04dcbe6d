import MutationLab.Application
import MutationLab.Compile
import MutationLab.Log
import MutationLab.Object.Stored

/-! # Toolchains

A toolchain compiles the modules of a program under one mangling. With a cache it keeps
the object files that carry no probes and reuses them while the code is the same. -/

namespace MutationLab

/-- How the modules of a run are compiled. -/
structure Toolchain where
  mangling : Mangling := .native
  cache : Option ObjectCache := none
  deriving DecidableEq, Repr

namespace Toolchain

/-- What compiling a module leaves: the object file, what is to be said, and the files. -/
structure Compiled where
  object : Except CompileError ObjectFile
  messages : List Message := []
  files : FileTree

/-- Compile a module through a cache. -/
def compileCached (t : Toolchain) (cache : ObjectCache) (s : Subject) (files : FileTree) :
    Compiled :=
  match cache.load files s.currentHash t.mangling with
  | some o =>
      { object := .ok o, messages := [⟨.debug, s!"Object cache hit for {s.module.name}"⟩], files }
  | none =>
      match Compilation.compile { mangling := t.mangling } s.id s.module with
      | .error e => { object := .error e, files }
      | .ok o =>
          match cache.store files o t.mangling with
          | (.ok (), files) => { object := .ok o, files }
          | (.error e, files) =>
              let text := s!"Cannot cache object for {s.module.name}: {e.message}"
              { object := .ok o, messages := [⟨.warning, text⟩], files }

/-- Compile a module, with probes or without. -/
def compile (t : Toolchain) (probes : Option Probes) (s : Subject) (files : FileTree) :
    Compiled :=
  match t.cache, probes with
  | some cache, none => t.compileCached cache s files
  | _, _ =>
      { object := Compilation.compile { mangling := t.mangling, probes } s.id s.module, files }

end Toolchain

end MutationLab
