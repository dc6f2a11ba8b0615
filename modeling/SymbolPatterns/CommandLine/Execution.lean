import SymbolPatterns.CommandLine.Arguments
import SymbolPatterns.Configuration
import SymbolPatterns.Generation
import SymbolPatterns.Toml.Printer

/-!
Executing a command on a host, and what it prints.
-/

namespace SymbolPatterns.CommandLine

/-- What a command prints, and the code with which it ends. The two streams
are kept apart, so the order between them is not told. -/
structure Output where
  code : Nat
  stdout : String
  stderr : String
  deriving DecidableEq, Repr

def versionText : String := "0.1.0"

def printed (text : String) : Output := ⟨0, text, ""⟩

def refused (failure : Failure) : Output := ⟨1, "", s!"error: {failure.message}\n"⟩

def misused : Output := ⟨2, "", "error: the arguments do not form a command\n"⟩

/-- A name padded to the column in which the counts stand. -/
def countLine (name : String) (count : Nat) : String :=
  let padded := name ++ String.ofList (List.replicate (19 - name.length) ' ')
  s!"  {padded}{count}\n"

def humanSummary (summary : Summary) : String :=
  let status := if summary.written then "Updated" else "Unchanged"
  s!"{status} {summary.grammar.text}\n\nSummary:\n" ++
    countLine "Install dirs:" summary.installDirs ++
    countLine "Core files:" summary.coreFiles ++
    countLine "Application files:" summary.applicationFiles ++
    countLine "Header files:" summary.headerFiles ++
    countLine "Namespaces:" summary.namespaces ++
    countLine "Types:" summary.types ++
    countLine "Functions:" summary.functions ++
    countLine "Chunks:" summary.chunks

def jsonText (fields : Json.Fields) : String := Json.pretty "  " (.object fields) ++ "\n"

/-- Paths are written as texts. One that is no text cannot be written, and
neither can what it stands in. -/
def checkPaths (written : String) (paths : List Path) : Except Failure Unit :=
  if paths.all fun path => path.raw.isText then .ok ()
  else .error (.configuration (.pathNotText written))

def summaryText (format : SummaryFormat) (summary : Summary) : Except Failure String :=
  match format with
  | .human => .ok (humanSummary summary)
  | .json => do
      checkPaths "summary" [summary.grammar]
      return Json.pretty "  " summary.toJson ++ "\n"

def formatName : ConfigFormat → String
  | .json => "JSON"
  | .toml => "TOML"

/-- The text of a configuration with some paths in its fields. -/
def configText (format : ConfigFormat) (paths : List Path) (fields : Json.Fields) :
    Except Failure String := do
  checkPaths (formatName format) paths
  match format with
  | .json => .ok (jsonText fields)
  | .toml =>
      match Toml.print? fields with
      | some text => .ok text
      | none => .error (.configuration .numberNotToml)

def configFile : ConfigFormat → String
  | .json => ".opgenrc.json"
  | .toml => ".opgenrc.toml"

/-- A configuration to begin with. -/
def starter (withLayout : Bool) : Json.Fields := [
    ("openplanetDirs", .array []),
    ("includeHeaders", .bool false),
    ("grammar", .string Options.defaultGrammar.text),
    ("maxChunkLength", .number (.integer Options.defaultChunkLimit))] ++
  if withLayout then [("layout", Layout.standard.toJson)] else []

def here : Path := ⟨"."⟩

/-- The options that a configuration and the flags over it make up. Relative
paths of the file start where the file is, those of the flags in the working
directory. -/
def effectiveOptions (host : Host) (overrides : Overrides) (config : Option Path) :
    Except Failure Options := do
  let options := overrides.apply (← Configuration.load host.files config here)
  options.validate
  return options

def generate (host : Host) (overrides : Overrides) (format : SummaryFormat)
    (config : Option Path) : Host × Output :=
  match effectiveOptions host overrides config with
  | .error failure => (host, refused failure)
  | .ok options =>
      match host.run options with
      | (host, .error failure) => (host, refused failure)
      | (host, .ok summary) =>
          match summaryText format summary with
          | .ok text => (host, printed text)
          | .error failure => (host, refused failure)

def writeStarter (host : Host) (format : ConfigFormat) (force withLayout : Bool) :
    Except Failure (Host × Output) := do
  let file := configFile format
  if host.files.holds ⟨file⟩ && !force then .error (.configuration (.configExists file))
  else
    let text ← configText format [] (starter withLayout)
    match host.files.write ⟨file⟩ text.toUTF8 with
    | .error cause => .error (.access ⟨file⟩ cause)
    | .ok files =>
        .ok ({ host with files := files },
          printed (s!"Created configuration file: {file}\n" ++
            "   Edit openplanetDirs to point at your Openplanet installs.\n"))

def showConfig (host : Host) (format : ConfigFormat) (config : Option Path) :
    Except Failure Output := do
  let options ← Configuration.load host.files config here
  return printed (← configText format options.paths options.fields)

def execute (host : Host) : Command → Host × Output
  | .generate overrides format config => generate host overrides format config
  | .version => (host, printed s!"{versionText}\n")
  | .programVersion => (host, printed s!"opgen {versionText}\n")
  | .configInit format force withLayout =>
      match writeStarter host format force withLayout with
      | .ok done => done
      | .error failure => (host, refused failure)
  | .configShow format config =>
      match showConfig host format config with
      | .ok output => (host, output)
      | .error failure => (host, refused failure)

/-- Executes the command that some arguments form. The host is the one
afterwards; only a run and the making of a configuration change it. -/
def run (host : Host) (arguments : List String) : Host × Output :=
  match parse? arguments with
  | some command => execute host command
  | none => (host, misused)

end SymbolPatterns.CommandLine
