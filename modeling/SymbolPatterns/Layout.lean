import SymbolPatterns.Failure
import SymbolPatterns.Grammar.Patterns
import SymbolPatterns.Json.Decoder

/-!
The layout names the nodes of a grammar that a run edits, by their stable names.
The default layout describes the stock grammar. Every part of a layout has a
JSON form; in a configuration a missing part takes its default, but a part that
is given has to be complete.
-/

namespace SymbolPatterns

open Grammar (Placement)
open Json (Decoder)

/-- A hand-written node whose match rule is replaced on every run. The
template is filled with one alternation of all names. -/
structure MatchTarget where
  node : String
  template : String
  deriving DecidableEq, Repr

/-- Nodes that are generated into the pattern list of `parent`, next to
`anchor`. The tag goes into their comments, and by it they are found again. -/
structure GeneratedGroup where
  group : String
  parent : String
  anchor : String
  placement : Placement
  scope : String
  template : String
  deriving DecidableEq, Repr

/-- Moves include directives of the top-level list ahead of another one. -/
structure IncludeRule where
  includes : List String
  before : String
  deriving DecidableEq, Repr

/-- Where the generated patterns go in a grammar, and how each of them is
written. Nodes are named by stable names, so a grammar may be arranged in any
way. -/
structure Layout where
  namespaces : MatchTarget
  types : GeneratedGroup
  functions : GeneratedGroup
  includeOrder : List IncludeRule
  deriving DecidableEq, Repr

namespace Layout

def standard : Layout where
  namespaces := {
    node := "entity.name.namespace.openplanet.angelscript"
    template := "\\b(?:\x7balternation\x7d)\\b(?=\\s*::)" }
  types := {
    group := "openplanet-types"
    parent := "#types"
    anchor := "storage.type.primitive.angelscript"
    placement := .after
    scope := "support.type.openplanet.angelscript"
    template := "\\b(?:\x7balternation\x7d)\\b" }
  functions := {
    group := "openplanet-functions"
    parent := "#function-calls"
    anchor := "entity.name.function.call.angelscript"
    placement := .before
    scope := "support.function.openplanet.angelscript"
    template := "\\b(?:\x7balternation\x7d)\\b(?=\\s*\\()" }
  includeOrder := [{ includes := ["#function-calls"], before := "#types" }]

def checkTemplate (part template : String) : Except Failure Unit :=
  if Symbol.hasPlaceholder template then .ok ()
  else .error (.configuration (.placeholderMissing part))

def validate (layout : Layout) : Except Failure Unit := do
  checkTemplate "namespaces" layout.namespaces.template
  checkTemplate "types" layout.types.template
  checkTemplate "functions" layout.functions.template
  if layout.types.group = layout.functions.group then
    .error (.configuration (.groupsShared layout.types.group))

end Layout

def placementName : Placement → String
  | .before => "before"
  | .after => "after"

def MatchTarget.toJson (target : MatchTarget) : Json :=
  .object [("node", .string target.node), ("template", .string target.template)]

def GeneratedGroup.toJson (group : GeneratedGroup) : Json :=
  .object [
    ("group", .string group.group),
    ("parent", .string group.parent),
    ("anchor", .string group.anchor),
    ("placement", .string (placementName group.placement)),
    ("scope", .string group.scope),
    ("template", .string group.template)]

def IncludeRule.toJson (rule : IncludeRule) : Json :=
  .object [
    ("includes", .array (rule.includes.map .string)),
    ("before", .string rule.before)]

def Layout.toJson (layout : Layout) : Json :=
  .object [
    ("namespaces", layout.namespaces.toJson),
    ("types", layout.types.toJson),
    ("functions", layout.functions.toJson),
    ("includeOrder", .array (layout.includeOrder.map IncludeRule.toJson))]

def Layout.textDecoder : Decoder String := .string "a string"

def Layout.placementDecoder : Decoder Placement :=
  .variant [("before", .before), ("after", .after)]

structure MatchTarget.Draft where
  node : Option String := none
  template : Option String := none

def MatchTarget.record : Decoder.Record Draft MatchTarget where
  wanted := "struct MatchTarget"
  fields := [
    .of "node" Layout.textDecoder Draft.node (fun d x => { d with node := some x }) [],
    .of "template" Layout.textDecoder Draft.template (fun d x => { d with template := some x }) []]
  empty := {}
  finish := fun d => do
    let node ← Decoder.Record.required "node" d.node
    let template ← Decoder.Record.required "template" d.template
    return ⟨node, template⟩
  mayStop := false

def MatchTarget.decoder : Decoder MatchTarget := MatchTarget.record.decoder

structure GeneratedGroup.Draft where
  group : Option String := none
  parent : Option String := none
  anchor : Option String := none
  placement : Option Placement := none
  scope : Option String := none
  template : Option String := none

def GeneratedGroup.record : Decoder.Record Draft GeneratedGroup where
  wanted := "struct GeneratedGroup"
  fields := [
    .of "group" Layout.textDecoder Draft.group (fun d x => { d with group := some x }) [],
    .of "parent" Layout.textDecoder Draft.parent (fun d x => { d with parent := some x }) [],
    .of "anchor" Layout.textDecoder Draft.anchor (fun d x => { d with anchor := some x }) [],
    .of "placement" Layout.placementDecoder Draft.placement
      (fun d x => { d with placement := some x }) [],
    .of "scope" Layout.textDecoder Draft.scope (fun d x => { d with scope := some x }) [],
    .of "template" Layout.textDecoder Draft.template (fun d x => { d with template := some x }) []]
  empty := {}
  finish := fun d => do
    let group ← Decoder.Record.required "group" d.group
    let parent ← Decoder.Record.required "parent" d.parent
    let anchor ← Decoder.Record.required "anchor" d.anchor
    let placement ← Decoder.Record.required "placement" d.placement
    let scope ← Decoder.Record.required "scope" d.scope
    let template ← Decoder.Record.required "template" d.template
    return ⟨group, parent, anchor, placement, scope, template⟩
  mayStop := false

def GeneratedGroup.decoder : Decoder GeneratedGroup := GeneratedGroup.record.decoder

structure IncludeRule.Draft where
  includes : Option (List String) := none
  before : Option String := none

def IncludeRule.record : Decoder.Record Draft IncludeRule where
  wanted := "struct IncludeReorder"
  fields := [
    .of "includes" (.list Layout.textDecoder) Draft.includes
      (fun d x => { d with includes := some x }) [],
    .of "before" Layout.textDecoder Draft.before (fun d x => { d with before := some x }) []]
  empty := {}
  finish := fun d => do
    let includes ← Decoder.Record.required "includes" d.includes
    let before ← Decoder.Record.required "before" d.before
    return ⟨includes, before⟩
  mayStop := false

def IncludeRule.decoder : Decoder IncludeRule := IncludeRule.record.decoder

/-- The parts of a layout met so far. A part that is not met has its standard
form. -/
structure Layout.Draft where
  namespaces : Option MatchTarget := none
  types : Option GeneratedGroup := none
  functions : Option GeneratedGroup := none
  includeOrder : Option (List IncludeRule) := none

def Layout.Draft.complete (d : Layout.Draft) : Layout where
  namespaces := d.namespaces.getD Layout.standard.namespaces
  types := d.types.getD Layout.standard.types
  functions := d.functions.getD Layout.standard.functions
  includeOrder := d.includeOrder.getD Layout.standard.includeOrder

def Layout.record : Decoder.Record Draft Layout where
  wanted := "struct GrammarLayout"
  fields := [
    .of "namespaces" MatchTarget.decoder Draft.namespaces
      (fun d x => { d with namespaces := some x }) [],
    .of "types" GeneratedGroup.decoder Draft.types (fun d x => { d with types := some x }) [],
    .of "functions" GeneratedGroup.decoder Draft.functions
      (fun d x => { d with functions := some x }) [],
    .of "includeOrder" (.list IncludeRule.decoder) Draft.includeOrder
      (fun d x => { d with includeOrder := some x }) []]
  empty := {}
  finish := fun d => .ok d.complete
  mayStop := true

def Layout.decoder : Decoder Layout := Layout.record.decoder

end SymbolPatterns
