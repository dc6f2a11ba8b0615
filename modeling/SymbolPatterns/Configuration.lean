import SymbolPatterns.Source.Environment
import SymbolPatterns.Toml.Reader

/-!
Configuration files hold options, as JSON or as TOML. Unless one is named, the
nearest one is used: the directory to start from and its parents are searched
upward, and within a directory JSON goes before TOML. Relative paths in a file
start at the directory of that file.
-/

namespace SymbolPatterns.Configuration

/-- In order of precedence: where a directory has both, the second one is not
looked at. -/
def fileNames : List Path := [⟨".opgenrc.json"⟩, ⟨".opgenrc.toml"⟩]

/-- A location and the directories above it, the nearest first, up to as many
levels as are given. -/
def upward : Nat → Location → List Location
  | 0, place => [place]
  | levels + 1, place => place :: upward levels place.dropLast

def candidates (place : Location) : List Path :=
  (upward place.length place).flatMap fun directory =>
    fileNames.map (FileSystem.pathTo directory).join

def discover (fs : FileSystem) (start : Path) : Except Failure (Option Path) :=
  match fs.resolve .follow start with
  | .error cause => .error (.access start cause)
  | .ok place => .ok ((candidates place).find? fs.isFile)

/-- Reads options by the format that the extension of the path names. Any
other extension is refused, whatever the file holds. -/
def readOptions (path : Path) (content : String) : Except Failure Options :=
  match path.extension?.bind RawText.text? with
  | some "json" =>
      match Options.parse content with
      | .ok options => .ok options
      | .error fault => .error (.configuration (.configUnreadable path fault))
  | some "toml" =>
      match (Toml.parse? content).bind fun fields => (Options.ofJson (.object fields)).toOption with
      | some options => .ok options
      | none => .error (.configuration (.configNotToml path))
  | _ => .error (.configuration (.configFormatUnknown path))

def loadFile (fs : FileSystem) (path : Path) : Except Failure Options :=
  match fs.readText path with
  | .error cause => .error (.access path cause)
  | .ok content => do
      let options ← readOptions path content
      let options :=
        match path.parent? with
        | some base => options.rebase base
        | none => options
      options.validate
      return options

/-- The options of a named file, which has to be there, or of the nearest
file, or the defaults. Relative paths in a file start at its directory. -/
def load (fs : FileSystem) (path : Option Path) (start : Path) : Except Failure Options :=
  match path with
  | some path =>
      if fs.holds path then loadFile fs path
      else .error (.configuration (.configMissing path))
  | none => do
      match ← discover fs start with
      | some found => loadFile fs found
      | none => return {}

end SymbolPatterns.Configuration
