import SymbolPatterns.Symbol.Identifier
import SymbolPatterns.Symbol.NameSet

/-!
The symbols collected for one grammar. A name that is no scoped identifier is
never stored, nor is a reserved primitive as a type, so whatever a metadata file
holds, the alternations built from a set consist of plain names.
-/

namespace SymbolPatterns

/-- A name together with what it names. -/
inductive Symbol where
  | namespaceName (name : String)
  | typeName (name : String)
  | functionName (name : String)
  deriving DecidableEq, Repr

def Symbol.isValid : Symbol → Bool
  | namespaceName name | functionName name => isScopedIdentifier name
  | typeName name => !isReservedPrimitive name && isScopedIdentifier name

/-- The symbols gathered from all sources, by what they name. One name may be
there in several ways. -/
structure SymbolSet where
  namespaces : Symbol.NameSet
  types : Symbol.NameSet
  functions : Symbol.NameSet
  deriving DecidableEq, Inhabited

namespace SymbolSet

def empty : SymbolSet := ⟨∅, ∅, ∅⟩

instance : EmptyCollection SymbolSet := ⟨empty⟩

def holds (set : SymbolSet) : Symbol → Bool
  | .namespaceName name => name ∈ set.namespaces
  | .typeName name => name ∈ set.types
  | .functionName name => name ∈ set.functions

/-- Whether adding a symbol changes the set. -/
def admits (set : SymbolSet) (symbol : Symbol) : Bool := symbol.isValid && !set.holds symbol

def add (set : SymbolSet) (symbol : Symbol) : SymbolSet :=
  if symbol.isValid then
    match symbol with
    | .namespaceName name => { set with namespaces := set.namespaces.insert name }
    | .typeName name => { set with types := set.types.insert name }
    | .functionName name => { set with functions := set.functions.insert name }
  else set

def addAll (set : SymbolSet) (symbols : List Symbol) : SymbolSet := symbols.foldl add set

def union (set other : SymbolSet) : SymbolSet where
  namespaces := set.namespaces.union other.namespaces
  types := set.types.union other.types
  functions := set.functions.union other.functions

/-- Namespaces that every grammar highlights, whatever the metadata says. -/
def alwaysIncluded : List String := ["Controls", "Camera", "VehicleState", "NadeoServices"]

def seeded : SymbolSet := addAll ∅ (alwaysIncluded.map .namespaceName)

end SymbolSet

end SymbolPatterns
