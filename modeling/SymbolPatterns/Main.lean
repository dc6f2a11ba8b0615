import SymbolPatterns.CommandLine.Execution

/-!
The program. It observes the part of the file system that a command can look at,
lets the command run on what was observed, and carries out what changed. All
decisions are made by the command; nothing here depends on what a file holds.
-/

namespace SymbolPatterns.Program

def recordDirectories (files : FileSystem) (place : Location) : FileSystem :=
  (files.makeDirectories [] place).1

def placeOf (path : Path) : Location :=
  (FileSystem.pathPieces path).filter fun piece => !piece.isEmpty

def canonical? (path : Path) : IO (Option Path) := do
  match ← (IO.FS.realPath path.text).toBaseIO with
  | .ok real => return some ⟨real.toString⟩
  | .error _ => return none

/-- Records what stands at a canonical path: a directory, or a file with what
it holds. -/
def recordCanonical (files : FileSystem) (path : Path) : IO FileSystem := do
  let place := placeOf path
  if ← (← IO.FS.realPath path.text).isDir then return recordDirectories files place
  else
    let content ← IO.FS.readBinFile path.text
    return (recordDirectories files place.dropLast).setNode place (.file content)

/-- Records what an entry of a canonical directory is. An entry that leads
elsewhere is recorded as a link, together with what it leads to. -/
def recordEntry (files : FileSystem) (directory : Path) (name : RawText) : IO FileSystem := do
  let entry := directory.join ⟨name⟩
  match ← canonical? entry with
  | none => return files
  | some real =>
      let files ← recordCanonical files real
      if real = entry then return files
      else return files.setNode (placeOf entry) (.link real)

/-- Records everything that an absolute path passes through, as far as it
leads. Links on the way are recorded with their targets. -/
def recordAlong (files : FileSystem) : (directory : Path) → List RawText → IO FileSystem
  | _, [] => return files
  | directory, name :: rest => do
      match ← canonical? directory with
      | none => return files
      | some real =>
          let files ← if name = ".." then pure files else recordEntry files real name
          recordAlong files (real.join ⟨name⟩) rest

/-- Records what a path names and what lies on the way to it. -/
def recordPath (files : FileSystem) (path : Path) : IO FileSystem :=
  let pieces := (FileSystem.pathPieces path).filter fun (piece : RawText) =>
    piece ≠ "" && piece ≠ "."
  recordAlong files (FileSystem.pathTo (FileSystem.startOf files.workDir path)) pieces

/-- Records the entries of a directory that can be sources by their names. -/
def recordSources (files : FileSystem) (directory : Path) : IO FileSystem := do
  let files ← recordPath files directory
  match files.canonical directory with
  | .error _ => return files
  | .ok real =>
      if !files.isDirectory real then return files
      else
        let mut files := files
        for entry in ← (← IO.FS.realPath real.text).readDir do
          if (classify? true entry.fileName).isSome then
            files ← recordEntry files real entry.fileName
        return files

def settingNames : List String := ["HOME", "OPENPLANET_DIR", "OPENPLANET_DIRS"]

/-- The surroundings in which a command looks for its configuration. -/
def observeHost (config : Option Path) : IO Host := do
  let here ← IO.FS.realPath "."
  let workDir := placeOf ⟨here.toString⟩
  let mut files := recordDirectories ⟨[], workDir⟩ workDir
  for path in Configuration.candidates workDir ++ config.toList do
    files ← recordPath files path
  let mut settings := []
  for name in settingNames do
    if let some value ← IO.getEnv name then
      settings := (name, value) :: settings
  return ⟨files, settings⟩

/-- The files and directories that a run with some options looks at. What it
does not look at is left out and stays as it is. -/
def observeRun (host : Host) (options : Options) : IO Host := do
  let mut files ← recordPath host.files options.grammarPath
  if options.hasExplicitFiles then
    for source in Resolution.explicitSources options do
      files ← recordPath files source.path
  else
    for directory in Resolution.searchedDirs options host.environmentDirs host.defaultDirs do
      files ← recordSources files directory
  return { host with files := files }

def observe (command : CommandLine.Command) : IO Host :=
  match command with
  | .generate overrides _ config => do
      let host ← observeHost config
      match CommandLine.effectiveOptions host overrides config with
      | .ok options => observeRun host options
      | .error _ => return host
  | .configShow _ config => observeHost config
  | .configInit _ _ _ | .version | .programVersion => observeHost none

/-- Replaces a file as a whole, so that no reader sees half of it. -/
def replaceFile (place : Location) (content : ByteArray) : IO Unit := do
  let directory ← IO.FS.realPath (FileSystem.pathTo place.dropLast).text
  let temporary := directory / s!".tmp{← IO.rand 100000 999999}"
  IO.FS.writeBinFile temporary content
  try
    IO.FS.rename temporary (FileSystem.pathTo place).text
  catch refusal =>
    IO.FS.removeFile temporary
    throw refusal

/-- Carries out what distinguishes a file system from the one observed. A file
that holds what it held is not touched. -/
def carryOut (before after : FileSystem) : IO Unit := do
  for (place, node) in after.nodes do
    if let .file content := node then
      let unchanged :=
        match before.node? place with
        | some (.file old) => old == content
        | _ => false
      if !unchanged then
        replaceFile place content

def run (arguments : List String) : IO CommandLine.Output := do
  match CommandLine.parse? arguments with
  | none => return CommandLine.misused
  | some command =>
      let before ← observe command
      let (after, output) := CommandLine.execute before command
      carryOut before.files after.files
      return output

end SymbolPatterns.Program

def main (arguments : List String) : IO UInt32 := do
  let output ← SymbolPatterns.Program.run arguments
  IO.print output.stdout
  IO.eprint output.stderr
  return output.code.toUInt32
