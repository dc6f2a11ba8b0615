import SymbolPatterns.Path

/-!
A file system as a value: what stands at each location, and the directory that
relative paths start from. Resolving a path follows symbolic links wherever they
stand in it. Names are raw texts, of which two are the same only if all their
octets are.

Permissions, times and special files are not modelled: every file can be read
and every directory can be written to.
-/

namespace SymbolPatterns

/-- Names from the root down to a file or directory. A location has one
spelling, unlike a path. -/
abbrev Location := List RawText

/-- What stands at a place. A link leads to the path that it holds, which need
not be there. -/
inductive Node where
  | file (content : ByteArray)
  | directory
  | link (target : Path)

inductive AccessError where
  | notFound
  | notDirectory
  | isDirectory
  | tooManyLinks
  | nameTooLong
  | unusableName
  | busy
  | notText
  /-- The same refusal, with the path that a temporary file would have had. -/
  | atPath (cause : AccessError) (path : Path)
  | stated (text : String)
  deriving DecidableEq, Repr

def AccessError.message : AccessError → String
  | notFound => "No such file or directory (os error 2)"
  | notDirectory => "Not a directory (os error 20)"
  | isDirectory => "Is a directory (os error 21)"
  | tooManyLinks => "Too many levels of symbolic links (os error 40)"
  | nameTooLong => "File name too long (os error 36)"
  | unusableName => "file name contained an unexpected NUL byte"
  | busy => "Device or resource busy (os error 16)"
  | notText => "stream did not contain valid UTF-8"
  | atPath cause path => s!"{cause.message} at path {path.raw.quoted}"
  | stated text => text

/-- The root directory is always there and has no entry among the nodes.
Rights, times and open files are left out. -/
structure FileSystem where
  nodes : List (Location × Node)
  workDir : Location

namespace FileSystem

def node? (fs : FileSystem) (place : Location) : Option Node :=
  if place = [] then some .directory else fs.nodes.lookup place

def isDirectoryAt (fs : FileSystem) (place : Location) : Bool :=
  match fs.node? place with
  | some .directory => true
  | _ => false

/-- Takes away the entry of a location and no other. -/
def dropNode (fs : FileSystem) (place : Location) : FileSystem :=
  { fs with nodes := fs.nodes.filter fun entry => entry.1 ≠ place }

/-- What stands at every other location stays as it is. A node that stood
there before is gone. -/
def setNode (fs : FileSystem) (place : Location) (node : Node) : FileSystem :=
  { fs with nodes := (place, node) :: (fs.dropNode place).nodes }

/-- Removes what stands at a location, with everything below it. -/
def removeAt (fs : FileSystem) (place : Location) : FileSystem :=
  { fs with nodes := fs.nodes.filter fun entry => !place.isPrefixOf entry.1 }

/-- How the last piece of a path is taken: followed if it is a link, kept as
the link, or allowed to be missing. -/
inductive LastPiece where
  | follow
  | keepLink
  | mayBeMissing
  deriving DecidableEq

/-- A walk ends at a location or stops at a link, in front of the pieces that
are left. Following the link is left to the caller, who counts links. -/
inductive Walk where
  | arrived (place : Location)
  | stopped (directory : Location) (target : Path) (rest : List RawText)

def longestName : Nat := 255

def walk (fs : FileSystem) (last : LastPiece) : Location → List RawText → Except AccessError Walk
  | place, [] => .ok (.arrived place)
  | place, piece :: rest =>
      if !fs.isDirectoryAt place then .error .notDirectory
      else if piece = "" || piece = "." then fs.walk last place rest
      else if piece = ".." then fs.walk last place.dropLast rest
      else if longestName < piece.toList.length then .error .nameTooLong
      else
        let next := place ++ [piece]
        match fs.node? next with
        | none =>
            if rest = [] && last = .mayBeMissing then .ok (.arrived next) else .error .notFound
        | some (.link target) =>
            if rest = [] && last = .keepLink then .ok (.arrived next)
            else .ok (.stopped place target rest)
        | some _ => fs.walk last next rest

def pathPieces (path : Path) : List RawText := path.pieces.map RawText.ofList

/-- Where a walk along a path begins: at the root, or in the working
directory. -/
def startOf (directory : Location) (path : Path) : Location :=
  if path.isAbsolute then [] else directory

/-- Follows at most `budget` links, which also ends circles of links. Each
step is a walk to the next one. -/
def resolveFrom (fs : FileSystem) (last : LastPiece) :
    (budget : Nat) → Location → List RawText → Except AccessError Location
  | budget, start, pieces => do
      match ← fs.walk last start pieces with
      | .arrived place => .ok place
      | .stopped directory target rest =>
          match budget with
          | 0 => .error .tooManyLinks
          | budget + 1 =>
              fs.resolveFrom last budget (startOf directory target) (pathPieces target ++ rest)

def linkBudget : Nat := 40

def resolve (fs : FileSystem) (last : LastPiece) (path : Path) : Except AccessError Location :=
  if path.raw.toList.contains 0 then .error .unusableName
  else if path.raw.isEmpty then .error .notFound
  else fs.resolveFrom last linkBudget (startOf fs.workDir path) (pathPieces path)

/-- The node at the end of a path, links followed. -/
def look (fs : FileSystem) (path : Path) : Except AccessError Node := do
  let place ← fs.resolve .follow path
  match fs.node? place with
  | some node => .ok node
  | none => .error .notFound

def pathTo (place : Location) : Path :=
  ⟨.ofList (Path.slash :: [Path.slash].intercalate (place.map RawText.toList))⟩

/-- The one path of a location that has neither links nor dots in it. It is
told only for what is there. -/
def canonical (fs : FileSystem) (path : Path) : Except AccessError Path :=
  (fs.resolve .follow path).map pathTo

def isFile (fs : FileSystem) (path : Path) : Bool :=
  match fs.look path with
  | .ok (.file _) => true
  | _ => false

def isDirectory (fs : FileSystem) (path : Path) : Bool :=
  match fs.look path with
  | .ok .directory => true
  | _ => false

def holds (fs : FileSystem) (path : Path) : Bool :=
  match fs.look path with
  | .ok _ => true
  | .error _ => false

end FileSystem

end SymbolPatterns
