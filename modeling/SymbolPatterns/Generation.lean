import SymbolPatterns.Metadata.Reading
import SymbolPatterns.Patch
import SymbolPatterns.Source.Resolution

/-!
One run: resolve the sources, collect their symbols, patch the grammar and write
it. All but the last step only read.
-/

namespace SymbolPatterns

/-- What a run has read, and what it has done to the grammar. Counts tell
sources of each kind, and symbols of each kind in the set. -/
structure Summary where
  installDirs : Nat
  coreFiles : Nat
  applicationFiles : Nat
  headerFiles : Nat
  namespaces : Nat
  types : Nat
  functions : Nat
  chunks : Nat
  grammar : Path
  written : Bool
  deriving DecidableEq, Repr

def Summary.toJson (summary : Summary) : Json :=
  let count (n : Nat) : Json := .number (.integer n)
  .object [
    ("installDirs", count summary.installDirs),
    ("coreFiles", count summary.coreFiles),
    ("applicationFiles", count summary.applicationFiles),
    ("headerFiles", count summary.headerFiles),
    ("namespaces", count summary.namespaces),
    ("types", count summary.types),
    ("functions", count summary.functions),
    ("chunks", count summary.chunks),
    ("grammar", .string summary.grammar.text),
    ("written", .bool summary.written)]

/-- The outcome of a run, for a reader who wants to know what went wrong. It
is made for failures as well. -/
structure Report where
  success : Bool
  diagnostics : List String
  summary : Option Summary
  deriving DecidableEq, Repr

namespace Report

def message (report : Report) : String := "\n".intercalate report.diagnostics

def ofResult : Except Failure Summary → Report
  | .ok summary => ⟨true, [], some summary⟩
  | .error failure => ⟨false, failure.diagnostics, none⟩

end Report

namespace Host

/-- Reads the sources in their order, starting from the namespaces that are
always included. The first source that cannot be read ends it. -/
def collect (host : Host) (sources : SourceSet) : Except Failure SymbolSet :=
  let (collection, outcome) := Collection.seeded.readAll host.files sources.sources
  outcome.map fun _ => collection.symbols

/-- All that a run knows before it writes: the document is patched already, in
memory only. -/
structure Prepared where
  sources : SourceSet
  symbols : SymbolSet
  document : Grammar.Document
  chunks : Nat

def prepare (host : Host) (options : Options) : Except Failure Prepared := do
  options.validate
  let sources ← host.resolve options
  let symbols ← host.collect sources
  let document ← Grammar.Document.load host.files options.grammarPath
  let (root, outcome) := Patch.apply options symbols document.root
  let chunks ← outcome
  return ⟨sources, symbols, { document with root := root }, chunks⟩

def Prepared.summary (prepared : Prepared) (written : Bool) : Summary where
  installDirs := prepared.sources.installDirs.length
  coreFiles := prepared.sources.count .core
  applicationFiles := prepared.sources.count .application
  headerFiles := prepared.sources.count .header
  namespaces := prepared.symbols.namespaces.size
  types := prepared.symbols.types.size
  functions := prepared.symbols.functions.size
  chunks := prepared.chunks
  grammar := prepared.document.path
  written := written

/-- The host after a run, and the outcome of the run. A run that fails before
writing has not changed the host. -/
def run (host : Host) (options : Options) : Host × Except Failure Summary :=
  match host.prepare options with
  | .error failure => (host, .error failure)
  | .ok prepared =>
      let (files, outcome) := prepared.document.writeTo host.files prepared.document.path
      ({ host with files := files }, outcome.map prepared.summary)

/-- A run that reports its outcome whatever it is. -/
def regenerate (host : Host) (options : Options) : Host × Report :=
  let (host, result) := host.run options
  (host, .ofResult result)

end Host

end SymbolPatterns
