import SymbolPatterns.Grammar.Node

/-!
Changes to a pattern list: putting the generated nodes of a group next to their
anchor, and moving include directives ahead of another one.
-/

namespace SymbolPatterns.Grammar

open Json (Fields)

/-- The side of its anchor on which a group stands. Without an anchor a group
goes to the start or to the end of the list. -/
inductive Placement where
  | before
  | after
  deriving DecidableEq, Repr

def belongsTo (group : String) (item : Json) : Bool :=
  item.fields?.any fun node => isInGroup node group

/-- An anchor is a hand-written sibling with a name, or an include of that
name. Generated nodes are never anchors, whatever they include. -/
def isAnchor (anchor : String) (item : Json) : Bool :=
  item.fields?.any fun node =>
    !isGenerated node &&
      (node.text? "name" = some anchor || node.text? "include" = some anchor)

/-- Where a group goes in a list that has none of its nodes: beside the first
anchor, or at an end. -/
def insertionIndex (items : List Json) (anchor : String) (placement : Placement) : Nat :=
  match items.findIdx? (isAnchor anchor), placement with
  | some index, .before => index
  | some index, .after => index + 1
  | none, .before => 0
  | none, .after => items.length

/-- Replaces the nodes of a group by others, and gives the index of the first
of these. Old nodes are found by their comments alone, wherever they stand in
the list. -/
def upsert (items : List Json) (group : String) (nodes : List Json) (anchor : String)
    (placement : Placement) : List Json × Nat :=
  let kept := items.filter fun item => !belongsTo group item
  let index := insertionIndex kept anchor placement
  (kept.take index ++ nodes ++ kept.drop index, index)

def includeTarget? (item : Json) : Option String :=
  item.fields?.bind fun node => node.text? "include"

def includesTarget (target : String) (item : Json) : Bool := includeTarget? item = some target

/-- Takes the items that include one of the targets out of a list: first those
of the first target, then those of the second, and so on. -/
def takeIncludes : (targets : List String) → List Json → List Json × List Json
  | [], items => ([], items)
  | target :: targets, items =>
      let (taken, left) := items.partition (includesTarget target)
      let (others, left) := takeIncludes targets left
      (taken ++ others, left)

/-- Moves directives that stand behind the first include of `target` in front
of it, and gives their number. Those that stand in front already stay where
they are. -/
def reorder (items : List Json) (targets : List String) (target : String) : List Json × Nat :=
  match items.findIdx? (includesTarget target) with
  | none => (items, 0)
  | some index =>
      let (moved, left) := takeIncludes targets (items.drop (index + 1))
      (items.take index ++ moved ++ (items[index]?.toList ++ left), moved.length)

end SymbolPatterns.Grammar
