import SymbolPatterns.CommandLine.Arguments
import SymbolPatterns.CommandLine.Execution
import SymbolPatterns.Configuration
import SymbolPatterns.Decimal.Binary64
import SymbolPatterns.Decimal.Shortest
import SymbolPatterns.Failure
import SymbolPatterns.FileSystem.Access
import SymbolPatterns.FileSystem.Basic
import SymbolPatterns.Generation
import SymbolPatterns.Grammar.Document
import SymbolPatterns.Grammar.Lookup
import SymbolPatterns.Grammar.Node
import SymbolPatterns.Grammar.Patterns
import SymbolPatterns.Json.Basic
import SymbolPatterns.Json.Decoder
import SymbolPatterns.Json.Fault
import SymbolPatterns.Json.Numeral
import SymbolPatterns.Json.Printer
import SymbolPatterns.Json.Reader
import SymbolPatterns.Json.Skim
import SymbolPatterns.Json.Token
import SymbolPatterns.Layout
import SymbolPatterns.Main
import SymbolPatterns.Metadata.Descriptor
import SymbolPatterns.Metadata.Header
import SymbolPatterns.Metadata.Reading
import SymbolPatterns.Options
import SymbolPatterns.Patch
import SymbolPatterns.Path
import SymbolPatterns.Proofs.FileSystem.Canonical
import SymbolPatterns.Proofs.FileSystem.Replace
import SymbolPatterns.Proofs.FileSystem.SameFile
import SymbolPatterns.Proofs.FileSystem.Saving
import SymbolPatterns.Proofs.FileSystem.Steps
import SymbolPatterns.Proofs.FileSystem.Walk
import SymbolPatterns.Proofs.Generation
import SymbolPatterns.Proofs.Grammar.Address
import SymbolPatterns.Proofs.Grammar.Change
import SymbolPatterns.Proofs.Grammar.Document
import SymbolPatterns.Proofs.Grammar.Erasure
import SymbolPatterns.Proofs.Grammar.Finding
import SymbolPatterns.Proofs.Grammar.Group
import SymbolPatterns.Proofs.Grammar.Inventory
import SymbolPatterns.Proofs.Grammar.Locality
import SymbolPatterns.Proofs.Grammar.Marker
import SymbolPatterns.Proofs.Grammar.Named
import SymbolPatterns.Proofs.Grammar.Nodes
import SymbolPatterns.Proofs.Grammar.PatternList
import SymbolPatterns.Proofs.Grammar.Placement
import SymbolPatterns.Proofs.Grammar.Places
import SymbolPatterns.Proofs.Grammar.Reordering
import SymbolPatterns.Proofs.Grammar.Saving
import SymbolPatterns.Proofs.Grammar.Similarity
import SymbolPatterns.Proofs.Grammar.Visibility
import SymbolPatterns.Proofs.Json.Arrangement
import SymbolPatterns.Proofs.Json.Decoding
import SymbolPatterns.Proofs.Json.Fields
import SymbolPatterns.Proofs.Json.Reading
import SymbolPatterns.Proofs.Json.RoundTrip
import SymbolPatterns.Proofs.Json.Shape
import SymbolPatterns.Proofs.Json.Token
import SymbolPatterns.Proofs.Json.Written
import SymbolPatterns.Proofs.Metadata.Aggregation
import SymbolPatterns.Proofs.Metadata.Classes
import SymbolPatterns.Proofs.Metadata.Collection
import SymbolPatterns.Proofs.Metadata.Comments
import SymbolPatterns.Proofs.Metadata.Declarations
import SymbolPatterns.Proofs.Metadata.Descriptors
import SymbolPatterns.Proofs.Metadata.Documents
import SymbolPatterns.Proofs.Metadata.Header
import SymbolPatterns.Proofs.Metadata.History
import SymbolPatterns.Proofs.Metadata.Names
import SymbolPatterns.Proofs.Metadata.NamespaceMap
import SymbolPatterns.Proofs.Metadata.Scan
import SymbolPatterns.Proofs.NamedFiles
import SymbolPatterns.Proofs.Options.Rebase
import SymbolPatterns.Proofs.Options.RoundTrip
import SymbolPatterns.Proofs.Outcome
import SymbolPatterns.Proofs.Patch.Content
import SymbolPatterns.Proofs.Patch.Edits
import SymbolPatterns.Proofs.Patch.Handwritten
import SymbolPatterns.Proofs.Patch.IncludeOrder
import SymbolPatterns.Proofs.Patch.Isolation
import SymbolPatterns.Proofs.Patch.Limit
import SymbolPatterns.Proofs.Patch.Placement
import SymbolPatterns.Proofs.Patch.Reprint
import SymbolPatterns.Proofs.Patch.Rerun
import SymbolPatterns.Proofs.Path
import SymbolPatterns.Proofs.Source.Candidates
import SymbolPatterns.Proofs.Source.CoreFile
import SymbolPatterns.Proofs.Source.Keys
import SymbolPatterns.Proofs.Source.Order
import SymbolPatterns.Proofs.Source.Resolution
import SymbolPatterns.Proofs.Source.Respelling
import SymbolPatterns.Proofs.Source.Selection
import SymbolPatterns.Proofs.Symbol.Alternation
import SymbolPatterns.Proofs.Symbol.Chunks
import SymbolPatterns.Proofs.Symbol.Identifier
import SymbolPatterns.Proofs.Symbol.Literals
import SymbolPatterns.Proofs.Symbol.Runs
import SymbolPatterns.Proofs.Symbol.Segments
import SymbolPatterns.Proofs.Symbol.Size
import SymbolPatterns.Proofs.Symbol.SymbolSet
import SymbolPatterns.Proofs.Symbol.Template
import SymbolPatterns.Proofs.Text.RawText
import SymbolPatterns.Proofs.Text.Split
import SymbolPatterns.Proofs.Text.Utf8
import SymbolPatterns.Proofs.Text.Word
import SymbolPatterns.Proofs.Watch.Coverage
import SymbolPatterns.Proofs.Watch.Loop
import SymbolPatterns.Proofs.Watch.Queue
import SymbolPatterns.Source.Basic
import SymbolPatterns.Source.Environment
import SymbolPatterns.Source.Resolution
import SymbolPatterns.Symbol.Alternation
import SymbolPatterns.Symbol.Arranged
import SymbolPatterns.Symbol.Identifier
import SymbolPatterns.Symbol.NameSet
import SymbolPatterns.Symbol.SymbolSet
import SymbolPatterns.Symbol.Template
import SymbolPatterns.Text.Blank
import SymbolPatterns.Text.Quoted
import SymbolPatterns.Text.RawText
import SymbolPatterns.Text.Utf8
import SymbolPatterns.Text.Word
import SymbolPatterns.Toml.Printer
import SymbolPatterns.Toml.Reader
import SymbolPatterns.Toml.Table
import SymbolPatterns.Toml.Token
import SymbolPatterns.Watch.Loop
import SymbolPatterns.Watch.Queue
import SymbolPatterns.Watch.Session
