import SymbolPatterns.FileSystem.Basic
import SymbolPatterns.Json.Fault
import SymbolPatterns.Source.Basic
import SymbolPatterns.Symbol.Template
import SymbolPatterns.Text.Utf8

/-!
Everything that can make a run fail, and how each failure is worded.
-/

namespace SymbolPatterns

/-- What is wrong with the settings of a run. -/
inductive ConfigurationProblem where
  | chunkLimitZero
  | placeholderMissing (part : String)
  | groupsShared (group : String)
  | symbolTooLong (written : String) (limit : Nat)
  | noMetadata (searched : List Path)
  | configMissing (path : Path)
  | configFormatUnknown (path : Path)
  | configUnreadable (path : Path) (fault : Json.Fault)
  | configNotToml (path : Path)
  | configExists (file : String)
  | optionsUnreadable (fault : Json.Fault)
  | numberNotToml
  | pathNotText (written : String)
  | stated (text : String)

def ConfigurationProblem.message : ConfigurationProblem → String
  | chunkLimitZero => "maxChunkLength must be greater than zero"
  | placeholderMissing part =>
      s!"layout.{part}.template must contain {Symbol.placeholder}"
  | groupsShared group =>
      s!"layout.types.group and layout.functions.group must differ (both '{group}')"
  | symbolTooLong written limit =>
      s!"Symbol '{written}' is {written.utf8ByteSize} bytes, longer than maxChunkLength {limit}"
  | noMetadata searched =>
      let detail :=
        if searched.isEmpty then
          "the explicit source files contain no core or application metadata"
        else "searched: " ++ ", ".intercalate (searched.map Path.text)
      s!"No OpenplanetCore.json or Openplanet*.json metadata found ({detail})"
  | configMissing path =>
      s!"Config file not found: {path.text}. Run 'opgen config init' to create one."
  | configFormatUnknown path =>
      s!"Unsupported config file extension for '{path.text}' (expected .json or .toml)"
  | configUnreadable path fault =>
      s!"Failed to load config from '{path.text}': {fault.message}"
  | configNotToml path => s!"Failed to load config from '{path.text}': not a TOML configuration"
  | configExists file =>
      s!"Configuration file '{file}' already exists. Use --force to overwrite."
  | optionsUnreadable fault => fault.message
  | pathNotText written =>
      s!"Failed to serialize {written}: path contains invalid UTF-8 characters"
  | numberNotToml => "Failed to serialize TOML: out-of-range value for u64 type"
  | stated text => text

/-- Why a metadata file tells no symbols. -/
inductive MetadataProblem where
  | unreadable (fault : Json.Fault)
  | notObject (value : Json)
  | stated (text : String)

def MetadataProblem.message : MetadataProblem → String
  | unreadable fault => fault.message
  | notObject value =>
      let kind :=
        match value with
        | .null => "null"
        | .bool _ => "a boolean"
        | .number _ => "a number"
        | .string _ => "a string"
        | .array _ => "an array"
        | .object _ => "an object"
      s!"expected an object at the root, found {kind}"
  | stated text => text

/-- Why a grammar file holds no usable grammar. -/
inductive GrammarProblem where
  | notUtf8 (fault : Text.Utf8.Fault)
  | unreadable (fault : Json.Fault)
  | notObject
  | stated (text : String)

def GrammarProblem.message : GrammarProblem → String
  | notUtf8 fault => s!"not valid UTF-8: {fault.message}"
  | unreadable fault => fault.message
  | notObject => "the document root must be an object"
  | stated text => text

/-- Every reason for which a run or a command ends without a result. A failure
carries what its message tells, and the wording is in one place. -/
inductive Failure where
  | configuration (problem : ConfigurationProblem)
  | missingSource (path : Path) (kind : SourceKind)
  | malformedMetadata (path : Path) (problem : MetadataProblem)
  | malformedGrammar (path : Path) (problem : GrammarProblem)
  | ambiguousPattern (name : String) (count : Nat)
  | patternNotFound (name : String)
  | patternListMissing (name : String)
  | access (path : Path) (cause : AccessError)
  | watch (message : String)

/-- The failures by kind, without their details. Callers that act on a failure
go by its kind. -/
inductive FailureKind where
  | configuration
  | missingSource
  | malformedMetadata
  | malformedGrammar
  | ambiguousPattern
  | patternNotFound
  | access
  | watch
  deriving DecidableEq, Repr

namespace Failure

/-- A node without a pattern list counts as one that was not found. -/
def kind : Failure → FailureKind
  | configuration _ => .configuration
  | missingSource _ _ => .missingSource
  | malformedMetadata _ _ => .malformedMetadata
  | malformedGrammar _ _ => .malformedGrammar
  | ambiguousPattern _ _ => .ambiguousPattern
  | patternNotFound _ => .patternNotFound
  | patternListMissing _ => .patternNotFound
  | access _ _ => .access
  | watch _ => .watch

/-- Whether the grammar does not have the nodes that the layout names. Such a
failure is the one that another layout or another grammar would mend. -/
def isDocumentMismatch (failure : Failure) : Bool :=
  failure.kind = .ambiguousPattern || failure.kind = .patternNotFound

def message : Failure → String
  | configuration problem => s!"Configuration error: {problem.message}"
  | missingSource path kind => s!"Missing {kind.text} source: '{path.text}' does not exist"
  | malformedMetadata path problem => s!"Malformed metadata in '{path.text}': {problem.message}"
  | malformedGrammar path problem =>
      s!"Malformed grammar document '{path.text}': {problem.message}"
  | ambiguousPattern name count => s!"Ambiguous pattern: {count} nodes are named '{name}'"
  | patternNotFound name => s!"Pattern not found: no node is named '{name}'"
  | patternListMissing name => s!"Pattern list missing: node '{name}' has no 'patterns' array"
  | access path cause => s!"IO error for path '{path.text}': {cause.message}"
  | watch message => s!"Watch error: {message}"

/-- The message, and the cause behind it where there is one. The cause is told
in a line of its own. -/
def diagnostics (failure : Failure) : List String :=
  match failure with
  | access _ cause => [failure.message, s!"caused by: {cause.message}"]
  | _ => [failure.message]

end Failure

end SymbolPatterns
