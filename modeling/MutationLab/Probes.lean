import MutationLab.Code.Module
import MutationLab.Coverage

/-! # Coverage probes

Every function of a program gets a probe: its position in the list of all functions,
module by module. Where a module has a name twice, the name stands for the last. -/

namespace MutationLab

/-- The functions of a program in the order of their probes. -/
structure Probes where
  functions : List FunctionKey
  deriving DecidableEq, Repr

namespace Probes

/-- The keys of the functions of a module. -/
def keys (id : ModuleId) (m : Module) : List FunctionKey :=
  m.functions.map fun f => ⟨id, f.name⟩

/-- The probes of modules, the first of which has the number `first`. -/
def keysFrom : (first : ModuleId) → List Module → List FunctionKey
  | _, [] => []
  | first, m :: ms => keys first m ++ keysFrom (first + 1) ms

/-- The probes of a program. -/
def ofModules (ms : List Module) : Probes := ⟨keysFrom 0 ms⟩

/-- The position of the last occurrence of a key, positions beginning with `first`. -/
def lastFrom (key : FunctionKey) : (first : Nat) → List FunctionKey → Option Nat
  | _, [] => none
  | first, k :: ks => (lastFrom key (first + 1) ks).or (if k = key then some first else none)

/-- The probe of a function. -/
def probe? (p : Probes) (key : FunctionKey) : Option UInt32 :=
  (lastFrom key 0 p.functions).map UInt32.ofNat

/-- The function of a probe. -/
def function? (p : Probes) (probe : UInt32) : Option FunctionKey := p.functions[probe.toNat]?

/-- The number of probes. -/
def size (p : Probes) : Nat := p.functions.length

end Probes

end MutationLab
