import SymbolPatterns.FileSystem.Access
import SymbolPatterns.Metadata.Descriptor
import SymbolPatterns.Metadata.Header

/-!
Reading sources into a symbol set. A reader only ever adds what it finds in its
own source, so the result of reading several sources does not depend on their
order.
-/

namespace SymbolPatterns

namespace Metadata

/-- The symbols named by a source, in the order in which they are met. Whether
they are valid is asked when they are put into a set. -/
def symbolsOf (kind : SourceKind) (origin : Path) (content : String) :
    Except Failure (List Symbol) :=
  match kind with
  | .core => (readObject origin content).map coreSymbols
  | .application => (readObject origin content).map applicationSymbols
  | .header => .ok (headerSymbols content.toList)

def read (kind : SourceKind) (origin : Path) (content : String) (symbols : SymbolSet) :
    Except Failure SymbolSet :=
  (symbolsOf kind origin content).map symbols.addAll

/-- Ill-formed octets are replaced, and a byte-order mark is dropped. -/
def decodeFile (content : ByteArray) : String :=
  String.ofList (Text.withoutMark (Text.Utf8.decodeLenient content.toList).toList)

def readSource (fs : FileSystem) (source : Source) (symbols : SymbolSet) :
    Except Failure SymbolSet :=
  match fs.read source.path with
  | .error cause => .error (.access source.path cause)
  | .ok content => read source.kind source.path (decodeFile content) symbols

end Metadata

/-- Symbols collected so far, and how many sources of each kind they come
from. -/
structure Collection where
  symbols : SymbolSet
  counts : SourceKind → Nat

namespace Collection

def seeded : Collection := ⟨SymbolSet.seeded, fun _ => 0⟩

def readSource (fs : FileSystem) (c : Collection) (source : Source) :
    Except Failure Collection := do
  let symbols ← Metadata.readSource fs source c.symbols
  return ⟨symbols, fun kind => c.counts kind + if kind = source.kind then 1 else 0⟩

/-- Reads sources in order up to the first that fails, and keeps what was read
before. -/
def readAll (fs : FileSystem) (c : Collection) : List Source → Collection × Except Failure Unit
  | [] => (c, .ok ())
  | source :: rest =>
      match c.readSource fs source with
      | .ok next => next.readAll fs rest
      | .error failure => (c, .error failure)

end Collection

end SymbolPatterns
