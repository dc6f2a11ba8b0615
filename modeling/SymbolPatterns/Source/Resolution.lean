import SymbolPatterns.Source.Environment

/-!
Resolution decides which files feed a run. Files named in the options exclude
everything else; otherwise the first of three lists of directories that is not
empty is scanned: the one in the options, the one in the environment, the usual
install directories.

Two paths to one file or directory count once; the first one met is kept. They
are told to be the same by their canonical paths as these are shown, so names
that are not UTF-8 can make two files look like one.
-/

namespace SymbolPatterns

def coreFileName : String := "OpenplanetCore.json"

def headerFileName : String := "Openplanet.h"

/-- Whether a name has the form of an application file. The name of a core
file has it as well and is asked for first. -/
def isApplicationName (name : String) : Bool :=
  let beginning := "Openplanet".toList
  let ending := ".json".toList
  beginning.isPrefixOf name.toList && ending.isSuffixOf (name.toList.drop beginning.length)

/-- The kind of a file in an install directory, by its name. -/
def classify? (includeHeaders : Bool) (name : String) : Option SourceKind :=
  if name = coreFileName then some .core
  else if isApplicationName name then some .application
  else if includeHeaders && name = headerFileName then some .header
  else none

namespace Resolution

/-- Where a path leads: its canonical path, or the path itself where there is
nothing. -/
def standing (fs : FileSystem) (path : Path) : Path :=
  match fs.canonical path with
  | .ok canonical => canonical
  | .error _ => path

/-- The text by which files and directories are told apart: where the path
leads, as this is shown. Ill-formed parts of names are replaced in it, so it
can be the same for two files. File systems are taken to tell upper and lower
case apart, so no letter is folded. -/
def fileKey (fs : FileSystem) (path : Path) : String := (standing fs path).text

/-- Keeps the first of several candidates with the same key, also where they
are different files that are shown alike. -/
def distinct (fs : FileSystem) {α : Type} (path : α → Path) : (seen : List String) → List α → List α
  | _, [] => []
  | seen, x :: rest =>
      let key := fileKey fs (path x)
      if seen.contains key then distinct fs path seen rest
      else x :: distinct fs path (key :: seen) rest

/-- The files named in the options, in the order in which they are looked at:
core file, application files, header. A file that is named twice keeps the
first kind. -/
def explicitSources (options : Options) : List Source :=
  options.core.toList.map (Source.mk · .core) ++
    options.game.map (Source.mk · .application) ++
    options.header.toList.map (Source.mk · .header)

/-- Every file that is named has to be there, and be a file. The first that is
not is told. -/
def checkSources (fs : FileSystem) : List Source → Except Failure Unit
  | [] => .ok ()
  | source :: rest =>
      if fs.isFile source.path then checkSources fs rest
      else .error (.missingSource source.path source.kind)

/-- The first list of directories that is not empty: from the options, from
the environment, or the usual ones. -/
def searchedDirs (options : Options) (environment usual : List Path) : List Path :=
  if !options.installDirs.isEmpty then options.installDirs
  else if !environment.isEmpty then environment
  else usual

/-- The candidates directly inside a directory, by ascending name. A directory
that cannot be listed has none. -/
def scan (fs : FileSystem) (includeHeaders : Bool) (directory : Path) : List Source :=
  match fs.list directory with
  | .error _ => []
  | .ok names =>
      names.filterMap fun name =>
        let path := directory.join ⟨name⟩
        if fs.isFile path then (classify? includeHeaders name.shown).map (Source.mk path)
        else none

/-- Puts a source behind those that do not come after it. -/
def insertSource (source : Source) : List Source → List Source
  | [] => [source]
  | other :: rest =>
      if source.precedes other then source :: other :: rest
      else other :: insertSource source rest

def sorted (sources : List Source) : List Source :=
  sources.foldl (fun sources source => insertSource source sources) []

/-- A header alone is no metadata. What was searched goes into the message. -/
def checkMetadata (set : SourceSet) (searched : List Path) : Except Failure SourceSet :=
  if set.count .core + set.count .application = 0 then
    .error (.configuration (.noMetadata searched))
  else .ok set

def resolveWith (fs : FileSystem) (environment usual : List Path) (options : Options) :
    Except Failure SourceSet :=
  if options.hasExplicitFiles then do
    let candidates := explicitSources options
    checkSources fs candidates
    checkMetadata ⟨sorted (distinct fs Source.path [] candidates), []⟩ []
  else
    let searched := searchedDirs options environment usual
    let installDirs := (distinct fs id [] searched).filter fs.isDirectory
    let candidates := installDirs.flatMap (scan fs options.includeHeaders)
    checkMetadata ⟨sorted (distinct fs Source.path [] candidates), installDirs⟩ searched

end Resolution

def Host.resolve (host : Host) (options : Options) : Except Failure SourceSet :=
  Resolution.resolveWith host.files host.environmentDirs host.defaultDirs options

end SymbolPatterns
