import SymbolPatterns.FileSystem.Access
import SymbolPatterns.Options

/-!
The surroundings of a run: a file system and environment variables, which name
install directories and the home directory.
-/

namespace SymbolPatterns

/-- What a run is surrounded by: the files, and the settings of the
environment by name. -/
structure Host where
  files : FileSystem
  settings : List (String × String)

namespace Host

def setting? (host : Host) (name : String) : Option String := host.settings.lookup name

/-- The directories named by the environment: a single one, then a list. -/
def environmentDirs (host : Host) : List Path :=
  let single :=
    match host.setting? "OPENPLANET_DIR" with
    | some text =>
        let trimmed := Text.trim text.toList
        if trimmed.isEmpty then [] else [⟨String.ofList trimmed⟩]
    | none => []
  single ++ ((host.setting? "OPENPLANET_DIRS").map Options.splitDirList).getD []

def installNames : List String := ["OpenplanetNext", "Openplanet4", "OpenplanetTurbo"]

/-- The usual install directories in the home directory. Whether they are
there is not asked here. -/
def defaultDirs (host : Host) : List Path :=
  match host.setting? "HOME" with
  | some home =>
      if home.isEmpty then [] else installNames.map fun name => (Path.mk home).join (.mk name)
  | none => []

end Host

end SymbolPatterns
