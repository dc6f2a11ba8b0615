import SymbolPatterns.Failure
import SymbolPatterns.Grammar.Node

/-!
Finding a node by its stable name and changing it in place. Exactly one visible
node may carry the name; where it stands does not matter.
-/

namespace SymbolPatterns.Grammar

open Json (Fields)

/-- Changes the object at an address; everything else stays as it is. An
address that leads to no object changes nothing. -/
def changeAt (change : Fields → Fields) : Address → Json → Json
  | [], .object fields => .object (change fields)
  | index :: address, .object fields =>
      .object (fields.modify index fun (key, value) => (key, changeAt change address value))
  | index :: address, .array items => .array (items.modify index (changeAt change address))
  | _, value => value

/-- Changes the object at an address inside an object that is given by its
fields. -/
def changeFields (change : Fields → Fields) : Address → Fields → Fields
  | [], fields => change fields
  | index :: address, fields =>
      fields.modify index fun (key, value) => (key, changeAt change address value)

/-- The node that carries a name, among the nodes of a document. Several nodes
are refused with their number, as it cannot be told which one is meant. -/
def pick (name : String) (candidates : List Sighting) : Except Failure Sighting :=
  match candidates.filter fun s => carries s.role s.node name with
  | [] => .error (.patternNotFound name)
  | [found] => .ok found
  | several => .error (.ambiguousPattern name several.length)

def locate (document : Fields) (name : String) : Except Failure Sighting :=
  pick name (visibleNodes (.object document))

def find (document : Fields) (name : String) : Except Failure Fields :=
  (locate document name).map Sighting.node

/-- Replaces the match rule of a node, at its old position or else at the end.
Whatever stood there before is dropped, be it a text or not. -/
def setMatch (regex : String) (node : Fields) : Fields := node.set "match" (.string regex)

def setMatchOf (document : Fields) (name regex : String) : Except Failure Fields := do
  let found ← locate document name
  return changeFields (setMatch regex) found.address document

/-- The pattern list of a node, with the place of the node. A node without a
list is refused, as there is nothing to put patterns into. -/
def patternsOf (document : Fields) (name : String) :
    Except Failure (Address × List Json) := do
  let found ← locate document name
  match found.node.items? "patterns" with
  | some items => .ok (found.address, items)
  | none => .error (.patternListMissing name)

/-- Puts another pattern list into the node at an address. -/
def putPatterns (document : Fields) (address : Address) (items : List Json) : Fields :=
  changeFields (Fields.set "patterns" (.array items)) address document

end SymbolPatterns.Grammar
