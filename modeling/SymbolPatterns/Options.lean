import SymbolPatterns.Layout
import SymbolPatterns.Text.Blank

/-!
The options of a run: where metadata comes from, which grammar is patched, how
long one alternation may be, and the layout.
-/

namespace SymbolPatterns

open Json (Decoder)

/-- The settings of a run, as flags and configuration files make them. A
setting that is not set has a default, which is taken where it is needed. -/
structure Options where
  core : Option Path := none
  game : List Path := []
  header : Option Path := none
  installDirs : List Path := []
  includeHeaders : Bool := false
  grammar : Option Path := none
  chunkLimit : Option Nat := none
  layout : Layout := Layout.standard
  deriving DecidableEq, Repr

namespace Options

def defaultGrammar : Path := ⟨"syntaxes/angelscript.tmLanguage.json"⟩

def defaultChunkLimit : Nat := 8000

def grammarPath (options : Options) : Path := options.grammar.getD defaultGrammar

def maxChunkLength (options : Options) : Nat := options.chunkLimit.getD defaultChunkLimit

def paths (options : Options) : List Path :=
  options.core.toList ++ options.game ++ options.header.toList ++ options.installDirs ++
    options.grammar.toList

/-- Whether a source file is named, which rules out scanning directories. A
header alone counts as well. -/
def hasExplicitFiles (options : Options) : Bool :=
  options.core.isSome || !options.game.isEmpty || options.header.isSome

/-- The directories of a list that is separated by semicolons. Blanks around
an entry are dropped, and so are empty entries. -/
def splitDirList (list : String) : List Path :=
  ((Text.splitAt ';' list.toList).map Text.trim).filterMap fun entry =>
    if entry.isEmpty then none else some ⟨String.ofList entry⟩

/-- Lets relative paths start at the directory that the options were read
from. Only paths change. -/
def rebase (base : Path) (options : Options) : Options :=
  { options with
    core := options.core.map base.rebase
    game := options.game.map base.rebase
    header := options.header.map base.rebase
    installDirs := options.installDirs.map base.rebase
    grammar := options.grammar.map base.rebase }

def validate (options : Options) : Except Failure Unit :=
  if options.chunkLimit = some 0 then .error (.configuration .chunkLimitZero)
  else options.layout.validate

def pathJson (path : Path) : Json := .string path.text

/-- A field that is left out when it is not set. Reading takes a field that is
missing for one that is not set. -/
def optionalField (key : String) (value : Option Json) : Json.Fields :=
  value.toList.map fun v => (key, v)

def fields (options : Options) : Json.Fields :=
  optionalField "core" (options.core.map pathJson) ++
    [("game", .array (options.game.map pathJson))] ++
    optionalField "header" (options.header.map pathJson) ++
    [("openplanetDirs", .array (options.installDirs.map pathJson)),
      ("includeHeaders", .bool options.includeHeaders)] ++
    optionalField "grammar" (options.grammar.map pathJson) ++
    optionalField "maxChunkLength"
      (options.chunkLimit.map fun n => .number (.integer n)) ++
    [("layout", options.layout.toJson)]

def toJson (options : Options) : Json := .object options.fields

def pathDecoder : Decoder Path where
  text := fun text => do
    let (text, rest) ← (Decoder.string "path string").text text
    return (⟨text⟩, rest)
  value := fun v => do return ⟨← (Decoder.string "path string").value v⟩

/-- The settings met so far. A setting that is not met keeps its default. -/
structure Draft where
  core : Option (Option Path) := none
  game : Option (List Path) := none
  header : Option (Option Path) := none
  installDirs : Option (List Path) := none
  includeHeaders : Option Bool := none
  grammar : Option (Option Path) := none
  chunkLimit : Option (Option Nat) := none
  layout : Option Layout := none

def Draft.complete (d : Draft) : Options where
  core := d.core.getD none
  game := d.game.getD []
  header := d.header.getD none
  installDirs := d.installDirs.getD []
  includeHeaders := d.includeHeaders.getD false
  grammar := d.grammar.getD none
  chunkLimit := d.chunkLimit.getD none
  layout := d.layout.getD Layout.standard

def record : Decoder.Record Draft Options where
  wanted := "struct GeneratorOptions"
  fields := [
    .of "core" (.option pathDecoder) Draft.core (fun d x => { d with core := some x }) [],
    .of "game" (.list pathDecoder) Draft.game (fun d x => { d with game := some x }) ["next"],
    .of "header" (.option pathDecoder) Draft.header (fun d x => { d with header := some x }) [],
    .of "openplanetDirs" (.list pathDecoder) Draft.installDirs
      (fun d x => { d with installDirs := some x }) [],
    .of "includeHeaders" .bool Draft.includeHeaders
      (fun d x => { d with includeHeaders := some x }) [],
    .of "grammar" (.option pathDecoder) Draft.grammar (fun d x => { d with grammar := some x }) [],
    .of "maxChunkLength" (.option (.natural "usize")) Draft.chunkLimit
      (fun d x => { d with chunkLimit := some x }) [],
    .of "layout" Layout.decoder Draft.layout (fun d x => { d with layout := some x }) []]
  empty := {}
  finish := fun d => .ok d.complete
  mayStop := true

def decoder : Decoder Options := record.decoder

/-- Reads options from their JSON text. -/
def parse (text : String) : Except Json.Fault Options := Json.whole decoder.text text

/-- Reads options from a value that has been read already. -/
def ofJson (value : Json) : Except Json.Fault Options := decoder.value value

end Options

end SymbolPatterns
