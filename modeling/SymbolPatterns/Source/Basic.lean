import SymbolPatterns.Path

/-!
Sources are the metadata files of one run: which kind each is of, in which order
they are read, and which directories have to be watched for changes to them.
-/

namespace SymbolPatterns

/-- Kinds in the order in which sources are read. -/
inductive SourceKind where
  | core
  | application
  | header
  deriving DecidableEq, Repr, Inhabited

def SourceKind.text : SourceKind → String
  | core => "core"
  | application => "application"
  | header => "header"

def SourceKind.rank : SourceKind → Nat
  | core => 0
  | application => 1
  | header => 2

/-- A metadata file and the kind of symbols that it tells. -/
structure Source where
  path : Path
  kind : SourceKind
  deriving DecidableEq, Repr

/-- By kind, then by path. Sources are read in this order, so that failures
are told for the same source every time. -/
def Source.precedes (a b : Source) : Bool :=
  a.kind.rank < b.kind.rank || (a.kind = b.kind && a.path.precedes b.path)

/-- The sources of a run, and the install directories that were scanned for
them. There are no such directories where files are named. -/
structure SourceSet where
  sources : List Source
  installDirs : List Path
  deriving DecidableEq, Repr

namespace SourceSet

def ofKind (set : SourceSet) (kind : SourceKind) : List Source :=
  set.sources.filter fun source => source.kind = kind

def count (set : SourceSet) (kind : SourceKind) : Nat := (set.ofKind kind).length

/-- Adds the directory of a source unless an equal path is there. -/
def addRoot (roots : List Path) (source : Source) : List Path :=
  match source.path.parent? with
  | some directory =>
      if roots.any fun root => root.agrees directory then roots else roots ++ [directory]
  | none => roots

/-- The directories whose contents can change the sources: those that were
scanned, and those in which the sources stand. -/
def watchRoots (set : SourceSet) : List Path := set.sources.foldl addRoot set.installDirs

end SourceSet

end SymbolPatterns
