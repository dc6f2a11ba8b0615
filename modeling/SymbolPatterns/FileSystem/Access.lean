import SymbolPatterns.FileSystem.Basic

/-!
Reading files, listing directories and changing what they hold. A file is
replaced by writing a temporary file beside it and renaming that over the old
one, so that no reader ever sees half a file.
-/

namespace SymbolPatterns.FileSystem

def read (fs : FileSystem) (path : Path) : Except AccessError ByteArray := do
  match ← fs.look path with
  | .file content => .ok content
  | .directory => .error .isDirectory
  | .link _ => .error .tooManyLinks

def readText (fs : FileSystem) (path : Path) : Except AccessError String := do
  match String.fromUTF8? (← fs.read path) with
  | some text => .ok text
  | none => .error .notText

def insertName (name : RawText) : List RawText → List RawText
  | [] => [name]
  | other :: rest =>
      if name < other then name :: other :: rest
      else if name = other then other :: rest
      else other :: insertName name rest

/-- The names in a directory, ascending. They are found by going over all
entries, so nothing has to keep them in order. -/
def entries (fs : FileSystem) (directory : Location) : List RawText :=
  fs.nodes.foldr
    (fun entry names =>
      match entry.1.getLast? with
      | some name => if entry.1.dropLast = directory then insertName name names else names
      | none => names)
    []

/-- The names in the directory at the end of a path, ascending. Programs meet
them in this order and depend on it. -/
def list (fs : FileSystem) (path : Path) : Except AccessError (List RawText) := do
  let place ← fs.resolve .follow path
  if fs.isDirectoryAt place then .ok (fs.entries place) else .error .notDirectory

/-- Everything below a directory, by relative path as it is shown; a directory
ends in a slash. -/
def tree (fs : FileSystem) (path : Path) : Except AccessError (List String) := do
  let place ← fs.resolve .follow path
  if fs.isDirectoryAt place then
    let names := fs.nodes.foldr
      (fun entry names =>
        if place.isPrefixOf entry.1 && entry.1 ≠ place then
          let below := entry.1.drop place.length
          let name : RawText := .ofList ([Path.slash].intercalate (below.map RawText.toList))
          match entry.2 with
          | .directory => insertName (name ++ "/") names
          | _ => insertName name names
        else names)
      []
    .ok (names.map RawText.shown)
  else .error .notDirectory

/-- Writes a file in place, creating it if need be. A link is followed to the
file that it leads to. -/
def write (fs : FileSystem) (path : Path) (content : ByteArray) :
    Except AccessError FileSystem := do
  let place ← fs.resolve .mayBeMissing path
  if fs.isDirectoryAt place then .error .isDirectory
  else .ok (fs.setNode place (.file content))

/-- Stands for a name that is made up at random; there is one for each index,
and no two indices have the same. -/
def temporaryName (index : Nat) : RawText :=
  ".tmpXXXXXX" ++ .ofList (List.replicate index 0x58)

/-- A name that is not taken in a directory: the first of those that stand for
random ones. No result depends on which one it is. -/
def unusedName (fs : FileSystem) (directory : Location) : RawText :=
  let free (index : Nat) : Bool := (fs.node? (directory ++ [temporaryName index])).isNone
  temporaryName (((List.range (fs.nodes.length + 1)).find? free).getD 0)

/-- Makes a temporary file in a directory, and gives its location. A refusal
names the path that the file would have had. -/
def createTemporary (fs : FileSystem) (directory : Path) (content : ByteArray) :
    Except AccessError (FileSystem × Location) :=
  let base := (pathTo fs.workDir).join directory
  let refused (cause : AccessError) : Except AccessError (FileSystem × Location) :=
    .error (.atPath cause (base.join ⟨temporaryName 0⟩))
  match fs.resolve .follow base with
  | .error cause => refused cause
  | .ok place =>
      if fs.isDirectoryAt place then
        let file := place ++ [fs.unusedName place]
        .ok (fs.setNode file (.file content), file)
      else refused .notDirectory

/-- Where a rename to a path puts a file. A link in the last place is taken
itself and not followed; a directory is not replaced. -/
def renameTarget (fs : FileSystem) (path : Path) : Except AccessError Location := do
  let pieces := pathPieces path
  let kept := pieces.reverse.dropWhile RawText.isEmpty
  let slashed := kept.length < pieces.length
  if path.raw.toList.contains 0 then .error .unusableName
  else
    match kept with
    | [] => if path.raw.isEmpty then .error .notFound else .error .busy
    | name :: directory =>
        let place ← fs.resolveFrom .follow linkBudget (startOf fs.workDir path) directory.reverse
        if !fs.isDirectoryAt place then .error .notDirectory
        else if name = "." || name = ".." then .error .busy
        else if slashed then .error .notDirectory
        else if longestName < name.toList.length then .error .nameTooLong
        else if fs.isDirectoryAt (place ++ [name]) then .error .isDirectory
        else .ok (place ++ [name])

def rename (fs : FileSystem) (source : Location) (path : Path) : Except AccessError FileSystem :=
  match fs.renameTarget path, fs.node? source with
  | .error cause, _ => .error cause
  | .ok _, none => .error .notFound
  | .ok target, some node => .ok ((fs.dropNode source).setNode target node)

/-- Replaces the file at a path by way of a temporary one in `directory`,
which is removed again if the rename is refused. A refusal comes with the path
that it is about. No outcome has a file with half of the content. -/
def replace (fs : FileSystem) (directory path : Path) (content : ByteArray) :
    FileSystem × Except (Path × AccessError) Unit :=
  match fs.createTemporary directory content with
  | .error cause => (fs, .error (directory, cause))
  | .ok (filled, temporary) =>
      match filled.rename temporary path with
      | .error cause => (filled.dropNode temporary, .error (path, cause))
      | .ok changed => (changed, .ok ())

/-- Makes the directories along the pieces of a path that are missing, and
gives the last one. -/
def makeDirectories (fs : FileSystem) : Location → List RawText → FileSystem × Location
  | place, [] => (fs, place)
  | place, piece :: rest =>
      if piece = "" || piece = "." then fs.makeDirectories place rest
      else if piece = ".." then fs.makeDirectories place.dropLast rest
      else
        let next := place ++ [piece]
        match fs.node? next with
        | none => (fs.setNode next .directory).makeDirectories next rest
        | some (.link _) =>
            match fs.resolveFrom .follow linkBudget place [piece] with
            | .ok target => fs.makeDirectories target rest
            | .error _ => fs.makeDirectories next rest
        | some _ => fs.makeDirectories next rest

/-- Puts a node at a path, with the directories that lead there. Hosts are set
up with this. -/
def place (fs : FileSystem) (path : Path) (node : Node) : FileSystem :=
  let pieces := (pathPieces path).filter fun piece => !piece.isEmpty
  let start := startOf fs.workDir path
  match node with
  | .directory => (fs.makeDirectories start pieces).1
  | _ =>
      let (fs, directory) := fs.makeDirectories start pieces.dropLast
      let target := directory ++ pieces.getLast?.toList
      match node with
      | .file _ =>
          match fs.resolveFrom .mayBeMissing linkBudget directory pieces.getLast?.toList with
          | .ok target => fs.setNode target node
          | .error _ => fs
      | _ => fs.setNode target node

/-- Removes what a path names; a link itself and not its target. -/
def remove (fs : FileSystem) (path : Path) : FileSystem :=
  match fs.resolve .keepLink path with
  | .ok place => fs.removeAt place
  | .error _ => fs

end SymbolPatterns.FileSystem
