import SymbolPatterns.Text.Blank
import SymbolPatterns.Text.RawText

/-!
Paths as raw text, of which the slash and the dot are the only octets with a
meaning. A path keeps its spelling; comparison, parents and endings go by
components, for which repeated and trailing slashes do not count, nor do single
dots except a leading one. Nothing here looks at a file system.
-/

namespace SymbolPatterns

/-- A path as it is written. Two spellings of one place are two paths. -/
structure Path where
  ofRaw ::
  raw : RawText
  deriving DecidableEq, Repr, Inhabited

/-- Components in the order in which they sort. -/
inductive Path.Component where
  | root
  | here
  | up
  | name (text : RawText)
  deriving DecidableEq, Repr

namespace Path

def mk (text : String) : Path := ⟨text⟩

/-- The path as a message shows it. -/
def text (path : Path) : String := path.raw.shown

@[match_pattern]
abbrev slash : UInt8 := 0x2f

@[match_pattern]
abbrev dot : UInt8 := 0x2e

def isAbsolute (path : Path) : Bool := path.raw.toList.head? == some slash

/-- The pieces between slashes, empty ones included. A path that begins with a
slash begins with an empty piece. -/
def pieces (path : Path) : List (List UInt8) := Text.splitAt slash path.raw.toList

/-- What a piece contributes, unless it is the first piece of a relative path.
Empty pieces and single dots contribute nothing. -/
def Component.ofPiece? (piece : List UInt8) : Option Component :=
  match piece with
  | [] | [dot] => none
  | [dot, dot] => some .up
  | _ => some (.name (.ofList piece))

/-- Components of pieces that begin at `start`, each with the position of its
end. -/
def spansFrom (start : Nat) : List (List UInt8) → List (Component × Nat)
  | [] => []
  | piece :: rest =>
      let following := spansFrom (start + piece.length + 1) rest
      match Component.ofPiece? piece with
      | some component => (component, start + piece.length) :: following
      | none => following

/-- The components of a path, each with the number of octets up to its end. -/
def spans (path : Path) : List (Component × Nat) :=
  if path.isAbsolute then (.root, 1) :: spansFrom 0 path.pieces
  else
    match path.pieces with
    | [dot] :: rest => (.here, 1) :: spansFrom 2 rest
    | pieces => spansFrom 0 pieces

def components (path : Path) : List Component := path.spans.map Prod.fst

/-- Whether two paths have the same components. Slashes at the end and dots in
between make no difference. -/
def agrees (path other : Path) : Bool := path.components = other.components

/-- The path without its last component. A path that is empty or the root has
none. No file system is asked, so dots that lead upwards are components like
others. -/
def parent? (path : Path) : Option Path :=
  match path.spans.reverse with
  | [] => none
  | [(.root, _)] => none
  | [_] => some ⟨""⟩
  | _ :: (_, stop) :: _ => some ⟨.ofList (path.raw.toList.take stop)⟩

/-- An absolute path replaces the base; any other is put behind it, with a
slash between if there is none. -/
def join (base path : Path) : Path :=
  if path.isAbsolute then path
  else if base.raw.isEmpty || base.raw.toList.getLast? == some slash then
    ⟨base.raw ++ path.raw⟩
  else ⟨base.raw ++ "/" ++ path.raw⟩

/-- A relative path is taken to start at the base. -/
def rebase (base path : Path) : Path := if path.isAbsolute then path else base.join path

def fileName? (path : Path) : Option RawText :=
  match path.components.getLast? with
  | some (.name text) => some text
  | _ => none

/-- What follows the last dot of the file name, unless that dot comes first.
Two dots have no extension. -/
def extension? (path : Path) : Option RawText := do
  let name ← path.fileName?
  match (Text.splitAt dot name.toList).reverse with
  | _ :: [] => none
  | [_, []] => none
  | last :: _ => some (.ofList last)
  | [] => none

def endsWith (path ending : Path) : Bool := ending.components.isSuffixOf path.components

def Component.rank : Component → Nat
  | root => 0
  | here => 1
  | up => 2
  | name _ => 3

def Component.precedes (a b : Component) : Bool :=
  match a, b with
  | name x, name y => x < y
  | a, b => a.rank < b.rank

/-- The order of paths: component by component, names octet by octet. Paths
with the same components do not precede one another. -/
def precedes (path other : Path) : Bool :=
  path.components.lex other.components Component.precedes

end Path

end SymbolPatterns
