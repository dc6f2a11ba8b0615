import SymbolPatterns.Json.Basic

/-!
Nodes of a grammar are the objects of its document. A node that the generator
has written carries a marker in its comment, with the tag of its group; such a
node and all it contains are invisible to lookup, and no other node is ever
removed.
-/

namespace SymbolPatterns.Grammar

open Json (Fields)

def marker : String := "@generated"

/-- The text behind a beginning, if the text has that beginning. -/
def behind? (beginning text : List Char) : Option (List Char) :=
  if beginning.isPrefixOf text then some (text.drop beginning.length) else none

def isGenerated (node : Fields) : Bool :=
  (node.text? "comment").any fun comment => marker.toList.isPrefixOf comment.toList

/-- Whether a comment marks a node of a group: the marker, a space and the
tag, followed by nothing or by a space. -/
def marksGroup (comment group : String) : Bool :=
  let tail := do
    let rest ← behind? marker.toList comment.toList
    behind? group.toList (← behind? [' '] rest)
  match tail with
  | some [] => true
  | some (c :: _) => c = ' '
  | none => false

def isInGroup (node : Fields) (group : String) : Bool :=
  (node.text? "comment").any fun comment => marksGroup comment group

/-- The comment of a generated node; `index` counts from zero. The tag comes
first, then the number and the total. -/
def markerText (group : String) (index total : Nat) : String :=
  s!"{marker} {group} {index + 1}/{total}"

def generatedNode (group : String) (index total : Nat) (scope regex : String) : Json :=
  .object [
    ("comment", .string (markerText group index total)),
    ("name", .string scope),
    ("match", .string regex)]

/-- How a node is reached, which decides under what names it is known. -/
inductive Role where
  | pattern
  | repositoryEntry (key : String)
  | capture
  deriving DecidableEq, Repr

def includeName (key : String) : String := "#" ++ key

/-- A capture assigns a scope to part of a match and has no name of its own.
All other nodes go by their name, and entries of a repository by their key as
well. -/
def carries (role : Role) (node : Fields) (name : String) : Bool :=
  match role with
  | .capture => false
  | .repositoryEntry key => name = includeName key || node.text? "name" = some name
  | .pattern => node.text? "name" = some name

def captureKeys : List String := ["captures", "beginCaptures", "endCaptures", "whileCaptures"]

/-- The role of the entries of an object under a key, where the entries and
not the object are the nodes. Captures at the beginning and at the end of a
match count alike. -/
def entryRole? (key : String) : Option (String → Role) :=
  if key = "repository" then some .repositoryEntry
  else if captureKeys.contains key then some fun _ => .capture
  else none

/-- The place of a value in a document: at each level the position among the
items of a list or the fields of an object. -/
abbrev Address := List Nat

structure Sighting where
  address : Address
  role : Role
  node : Fields

mutual

/-- The visible nodes of a value at `place`, in document order. `place` is
written from the inside out. A generated node hides all that is inside it. -/
def sightings (place : Address) (role : Role) : Json → List Sighting
  | .object fields =>
      if isGenerated fields then []
      else ⟨place.reverse, role, fields⟩ :: fieldSightings place 0 fields
  | .array items => itemSightings place 0 items
  | _ => []

def itemSightings (place : Address) (index : Nat) : List Json → List Sighting
  | [] => []
  | item :: rest => sightings (index :: place) .pattern item ++ itemSightings place (index + 1) rest

def fieldSightings (place : Address) (index : Nat) : List (String × Json) → List Sighting
  | [] => []
  | (key, value) :: rest =>
      (match entryRole? key, value with
        | some role, .object entries => entrySightings (index :: place) role 0 entries
        | _, value => sightings (index :: place) .pattern value) ++
      fieldSightings place (index + 1) rest

def entrySightings (place : Address) (role : String → Role) (index : Nat) :
    List (String × Json) → List Sighting
  | [] => []
  | (key, value) :: rest =>
      sightings (index :: place) (role key) value ++ entrySightings place role (index + 1) rest

end

def visibleNodes (document : Json) : List Sighting := sightings [] .pattern document

end SymbolPatterns.Grammar
