/-! # Symbols

The names of functions in object files carry a fixed text in front. -/

namespace MutationLab

/-- How names become symbols: a text is put in front of them. -/
structure Mangling where
  lead : String := ""
  deriving DecidableEq, Repr

namespace Mangling

/-- The mangling of the platform, which puts nothing in front. -/
def native : Mangling := {}

/-- The symbol of a name. -/
def mangle (m : Mangling) (name : String) : String := m.lead ++ name

/-- The name behind a symbol, when the symbol begins as it must. -/
def demangle? (m : Mangling) (symbol : String) : Option String :=
  if m.lead.toList.isPrefixOf symbol.toList then
    some (String.ofList (symbol.toList.drop m.lead.toList.length))
  else none

@[simp] theorem demangle?_mangle (m : Mangling) (name : String) :
    m.demangle? (m.mangle name) = some name := by
  simp [demangle?, mangle]

theorem mangle_injective (m : Mangling) {a b : String} (h : m.mangle a = m.mangle b) : a = b := by
  have h' := congrArg m.demangle? h
  simpa using h'

end Mangling

end MutationLab
