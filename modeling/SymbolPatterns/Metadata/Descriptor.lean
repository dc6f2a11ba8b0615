import SymbolPatterns.Failure
import SymbolPatterns.Json.Reader
import SymbolPatterns.Symbol.SymbolSet

/-!
Metadata documents. The core document lists descriptors; the document of an
application maps namespaces to their classes. A document that is no object is
refused as a whole; inside an object, entries of an unexpected shape contribute
nothing.
-/

namespace SymbolPatterns.Metadata

def readObject (origin : Path) (content : String) : Except Failure Json.Fields :=
  match Json.parse content with
  | .error fault => .error (.malformedMetadata origin (.unreadable fault))
  | .ok (.object fields) => .ok fields
  | .ok other => .error (.malformedMetadata origin (.notObject other))

/-- One entry of a descriptor list. No namespace and an empty one are the
same. -/
structure Descriptor where
  name : Option String
  owner : Option String
  deriving DecidableEq, Repr

/-- A text that may be absent or null. Any other value makes the entry
ill-formed, and the entry is passed over. -/
def optionalText? (fields : Json.Fields) (key : String) : Option (Option String) :=
  match fields.get? key with
  | none | some .null => some none
  | some (.string text) => some (some text)
  | some _ => none

/-- Reads an entry. The namespace has two keys, of which an entry may use one. -/
def Descriptor.ofEntry? (entry : Json) : Option Descriptor := do
  let fields ← entry.fields?
  let name ← optionalText? fields "name"
  if (fields.get? "ns").isSome && (fields.get? "namespace").isSome then none
  let short ← optionalText? fields "ns"
  let long ← optionalText? fields "namespace"
  return ⟨name, (short.orElse fun _ => long).filter fun owner => owner ≠ ""⟩

/-- What a list of descriptors contributes besides the namespaces of its
entries. -/
inductive DescriptorList where
  | functions
  | classes
  | others
  deriving DecidableEq

/-- The lists of the core document by their keys. -/
def descriptorLists : List (String × DescriptorList) := [
  ("functions", .functions), ("enums", .others), ("props", .others), ("funcdefs", .others),
  ("classes", .classes)]

/-- A function with a namespace is reached through it and is no symbol of its
own. Its namespace is told all the same. -/
def Descriptor.symbols (list : DescriptorList) (d : Descriptor) : List Symbol :=
  d.owner.toList.map .namespaceName ++
    match list with
    | .classes => d.name.toList.map .typeName
    | .functions => if d.owner.isNone then d.name.toList.map .functionName else []
    | .others => []

def coreSymbols (document : Json.Fields) : List Symbol :=
  descriptorLists.flatMap fun (key, list) =>
    ((document.items? key).getD []).flatMap fun entry =>
      ((Descriptor.ofEntry? entry).toList).flatMap (Descriptor.symbols list)

/-- Classes are given as the keys of an object, or in a list by name or by an
object with a name. Anything else names no class. -/
def classNames : Json → List String
  | .object fields => Json.Fields.keys fields
  | .array items =>
      items.flatMap fun
        | .string name => [name]
        | .object fields => (Json.Fields.text? fields "name").toList
        | _ => []
  | _ => []

def applicationSymbols (document : Json.Fields) : List Symbol :=
  match document.get? "ns" with
  | some (.object namespaces) =>
      namespaces.flatMap fun (name, classes) =>
        .namespaceName name :: (classNames classes).map .typeName
  | _ => []

end SymbolPatterns.Metadata
