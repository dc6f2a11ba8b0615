import SymbolPatterns.Grammar.Document
import SymbolPatterns.Options
import SymbolPatterns.Symbol.Alternation
import SymbolPatterns.Symbol.SymbolSet

/-!
Patching brings a grammar up to date with a symbol set in four edits: the
namespace rule, the type nodes, the function nodes and the order of includes.
The first edit that fails ends the patch; the document keeps the edits made
before it.
-/

namespace SymbolPatterns.Patch

open Json (Fields)

/-- What one part of a patch makes of a document. It fails if the node it
edits is not found, and then says nothing about a document. -/
abbrev Rewrite := Fields → Except Failure Fields

/-- The document after the edits before the first failing one, and that
failure. A failed run does not go back: what was edited stays edited in
memory, and the caller writes nothing. -/
def run : List Rewrite → Fields → Fields × Except Failure Unit
  | [], document => (document, .ok ())
  | edit :: rest, document =>
      match edit document with
      | .ok next => run rest next
      | .error failure => (document, .error failure)

def setNamespaces (target : MatchTarget) (names : List String) : Rewrite := fun document =>
  Grammar.setMatchOf document target.node
    (Symbol.fillTemplate target.template (Symbol.alternation names))

/-- The nodes of a group, one for each chunk, in the order of the chunks. The
number of chunks goes into the marker of every node. -/
def groupNodes (group : GeneratedGroup) (chunks : List String) : List Json :=
  chunks.mapIdx fun index chunk =>
    Grammar.generatedNode group.group index chunks.length group.scope
      (Symbol.fillTemplate group.template chunk)

def upsertGroup (group : GeneratedGroup) (chunks : List String) : Rewrite := fun document => do
  let (address, items) ← Grammar.patternsOf document group.parent
  let (items, _) :=
    Grammar.upsert items group.group (groupNodes group chunks) group.anchor group.placement
  return Grammar.putPatterns document address items

/-- Applies the rules in order to the top-level list, if there is one. Rules
are not repeated, so a later rule may undo what an earlier one has put into
order. -/
def orderIncludes (rules : List IncludeRule) : Rewrite := fun document =>
  match document.items? "patterns" with
  | none => .ok document
  | some items =>
      let ordered :=
        rules.foldl (fun items rule => (Grammar.reorder items rule.includes rule.before).1) items
      .ok (document.set "patterns" (.array ordered))

def edits (layout : Layout) (symbols : SymbolSet) (types functions : List String) :
    List Rewrite := [
  setNamespaces layout.namespaces symbols.namespaces.names,
  upsertGroup layout.types types,
  upsertGroup layout.functions functions,
  orderIncludes layout.includeOrder]

/-- The chunks are built before anything is edited, so a symbol that is too
long leaves the document alone. The number is that of all chunks. -/
def apply (options : Options) (symbols : SymbolSet) (document : Fields) :
    Fields × Except Failure Nat :=
  let limit := options.maxChunkLength
  let planned := do
    let types ← Symbol.chunks limit symbols.types.names
    let functions ← Symbol.chunks limit symbols.functions.names
    return (types, functions)
  match planned with
  | .error failure => (document, .error failure)
  | .ok (types, functions) =>
      let (document, outcome) := run (edits options.layout symbols types functions) document
      (document, outcome.map fun _ => types.length + functions.length)

end SymbolPatterns.Patch
