import SymbolPatterns.Proofs.Grammar.Inventory
import SymbolPatterns.Proofs.Patch.Edits

/-!
What a patch leaves alone. Whether it succeeds or stops part-way, the
hand-written part of the document changes in the namespace rule and in the order
of the top-level list only, and a generated node that is gone stood in one of
the two groups' lists as a node of that group, or inside such a node.
-/

namespace SymbolPatterns.Patch

open Json (Fields)
open Grammar

/-- The same document up to the order of its top-level list. The list has the
same items, and every other field is the same. -/
def Reordered (document other : Fields) : Prop :=
  other = document ∨
    ∃ items ordered, document.items? "patterns" = some items ∧ ordered.Perm items ∧
      other = document.set "patterns" (.array ordered)

/-- The pattern list that lookup finds under a name, or no items at all if it
finds none. -/
def listUnder (document : Fields) (name : String) : List Json :=
  match patternsOf document name with
  | .ok (_, items) => items
  | .error _ => []

theorem mem_listUnder_iff {document : Fields} {name : String} {item : Json} :
    item ∈ listUnder document name ↔
      ∃ node items, find document name = .ok node ∧ node.items? "patterns" = some items ∧
        item ∈ items := by
  unfold listUnder patternsOf find
  cases locate document name with
  | error failure => simp [bind, Except.bind, Except.map]
  | ok s =>
      cases hitems : s.node.items? "patterns" <;>
        simp [bind, Except.bind, Except.map, hitems]

/-- A generated node that stands in the list of the parent of a group, as a
node of the group or inside one. Only such nodes may be lost to an edit of the
list. -/
def StandsIn (group : GeneratedGroup) (document : Fields) (x : Json) : Prop :=
  ∃ item ∈ listUnder document group.parent,
    belongsTo group.group item = true ∧ x ∈ generatedNodes item

theorem reordered_orderItems (rules : List IncludeRule) (document : Fields) :
    Reordered (eraseFields document)
      (eraseFields (editPatterns (orderItems rules) document)) := by
  cases hitems : document.items? "patterns" with
  | none => exact .inl (by rw [editPatterns_none hitems])
  | some items =>
      refine .inr ⟨eraseItems items, eraseItems (orderItems rules items), ?_, ?_, ?_⟩
      · rw [items?_eraseFields, hitems]
        rfl
      · rw [eraseItems_eq, eraseItems_eq]
        exact ((orderItems_perm rules items).filter _).map _
      · rw [editPatterns_some hitems, eraseFields_set]
        rfl

theorem eraseFields_groupChange (group : GeneratedGroup) (chunks : List String)
    (document : Fields) :
    eraseFields (mapDocument (groupChange group chunks) document) = eraseFields document :=
  eraseFields_mapDocument_editPatterns
    (keepsUnmarked_upsert group.anchor group.placement (groupNodes_belongsTo group chunks))
    (natural_groupItems group chunks) group.parent document

/-- A document without the nodes of a group in the list of its parent. It is
what a document and its edited form have in common. -/
def cleared (group : GeneratedGroup) (document : Fields) : Fields :=
  mapDocument (clearGroup group.group group.parent) document

/-- The generated nodes in the list of a group: the nodes of the group, with
what is inside. A stale node is taken out as a whole, so what was put into it
by hand or by another tool goes with it. -/
def ownedBy (group : GeneratedGroup) (document : Fields) : List Json :=
  (documentNodes document).flatMap (ownNodes group.group group.parent)

theorem generatedNodes_cleared (group : GeneratedGroup) (document : Fields) :
    (generatedNodes (.object document)).Perm
      (generatedNodes (.object (cleared group document)) ++ ownedBy group document) := by
  have h := generatedNodes_clearGroup group.group group.parent .pattern (.object document)
  rwa [mapNodes_object] at h

theorem cleared_subperm (group : GeneratedGroup) (document : Fields) :
    (generatedNodes (.object (cleared group document))).Subperm
      (generatedNodes (.object document)) :=
  (List.sublist_append_left _ _).subperm.trans (generatedNodes_cleared group document).symm.subperm

/-- The nodes of a group are in the list in which lookup finds them. The list
is the one of the document as it is, before the edit. -/
theorem standsIn_of_mem_ownedBy {group : GeneratedGroup} {document : Fields} {x : Json}
    (hfound : Found group.parent document) (h : x ∈ ownedBy group document) :
    StandsIn group document x := by
  obtain ⟨⟨role, node⟩, hnode, hown⟩ := List.mem_flatMap.1 h
  obtain ⟨item, hitem, hx⟩ := List.mem_flatMap.1 hown
  unfold ownItems at hitem
  split at hitem
  · next hcarries =>
    cases hitems : node.items? "patterns" with
    | none => simp [hitems] at hitem
    | some items =>
        rw [hitems, Option.getD_some] at hitem
        obtain ⟨hmem, hgroup⟩ := List.mem_filter.1 hitem
        obtain ⟨found, hone⟩ := hfound
        have hself : (role, node) ∈ carriers group.parent (documentNodes document) :=
          List.mem_filter.2 ⟨hnode, hcarries⟩
        rw [hone, List.mem_singleton] at hself
        have hfind := find_eq_ok_iff.2 ⟨role, hself ▸ hone⟩
        exact ⟨item, mem_listUnder_iff.2 ⟨node, items, hfind, hitems, hmem⟩, hgroup, hx⟩
  · cases hitem

private theorem cleared_groupChange (group : GeneratedGroup) (chunks : List String)
    (document : Fields) :
    cleared group (mapDocument (groupChange group chunks) document) = cleared group document := by
  have hedits : andThen (groupChange group chunks) (clearGroup group.group group.parent) =
      clearGroup group.group group.parent := by
    funext role node
    unfold andThen groupChange clearGroup editNamed
    cases hcarries : carries role node group.parent with
    | false => simp [hcarries]
    | true =>
        simp only [if_true, (keepsTexts_editPatterns _).carries, hcarries,
          editPatterns_editPatterns]
        congr 1
        funext items
        exact withoutGroup_upsert (groupNodes_belongsTo group chunks) items
  unfold cleared
  rw [mapDocument_mapDocument (localChange_groupChange group chunks)
    (localChange_clearGroup group.group group.parent).keepsTexts, hedits]

/-- Both groups are taken out of a document as they were put in: what is left
has no trace of the chunks, so it is the same for the document that was
edited. -/
private theorem cleared_both (types functions : GeneratedGroup)
    (typeChunks functionChunks : List String) (document : Fields) :
    cleared functions (cleared types (mapDocument (groupChange functions functionChunks)
      (mapDocument (groupChange types typeChunks) document))) =
      cleared functions (cleared types document) := by
  have hedits : andThen
      (editBoth types.parent functions.parent (groupItems types typeChunks)
        (groupItems functions functionChunks))
      (editBoth types.parent functions.parent (withoutGroup types.group)
        (withoutGroup functions.group)) =
      editBoth types.parent functions.parent (withoutGroup types.group)
        (withoutGroup functions.group) :=
    editBoth_editBoth (withoutGroup_upsert (groupNodes_belongsTo types typeChunks))
      (withoutGroup_upsert (groupNodes_belongsTo functions functionChunks))
      (withoutBoth_upsertBoth (groupNodes_belongsTo types typeChunks)
        (groupNodes_belongsTo functions functionChunks))
  have hput := localChange_editBoth types.parent functions.parent
    (natural_groupItems types typeChunks) (natural_groupItems functions functionChunks)
  have htake := localChange_editBoth types.parent functions.parent
    (natural_withoutGroup types.group) (natural_withoutGroup functions.group)
  have hcleared : ∀ document : Fields, cleared functions (cleared types document) =
      mapDocument (editBoth types.parent functions.parent (withoutGroup types.group)
        (withoutGroup functions.group)) document :=
    mapDocument_mapDocument (localChange_clearGroup types.group types.parent)
      (localChange_clearGroup functions.group functions.parent).keepsTexts
  have hedited : mapDocument (groupChange functions functionChunks)
      (mapDocument (groupChange types typeChunks) document) =
      mapDocument (editBoth types.parent functions.parent (groupItems types typeChunks)
        (groupItems functions functionChunks)) document :=
    mapDocument_mapDocument (localChange_groupChange types typeChunks)
      (localChange_groupChange functions functionChunks).keepsTexts document
  rw [hcleared, hcleared, hedited, mapDocument_mapDocument hput htake.keepsTexts, hedits]

/-- A list that an edit of another list has changed still holds the generated
nodes it held. So the loss of both edits is told by the lists of the first
document. -/
private theorem standsIn_of_cleared {group other : GeneratedGroup} {document : Fields} {x : Json}
    (hfound : Found group.parent document) (h : StandsIn group (cleared other document) x) :
    StandsIn group document x := by
  obtain ⟨item, hlist, hgroup, hx⟩ := h
  obtain ⟨node, items, hfind, hitems, hitem⟩ := mem_listUnder_iff.1 hlist
  obtain ⟨⟨role, old⟩, hone⟩ := hfound
  have hkeeps := (localChange_clearGroup other.group other.parent).keepsTexts
  have hnodes := carriers_mapDocument hkeeps
    (keepsNodes_editPatterns (itemNodes_withoutGroup other.group) other.parent document)
    group.parent
  rw [hone] at hnodes
  obtain ⟨role', hnode⟩ := find_eq_ok_iff.1 hfind
  obtain ⟨-, hvisit⟩ := Prod.mk.inj (List.cons.inj (hnode.symm.trans hnodes)).1
  have hkept : ∃ listed, old.items? "patterns" = some listed ∧
      item ∈ listed.map (mapNodes (clearGroup other.group other.parent) .pattern) := by
    have hlisted := items?_mapFields (clearGroup other.group other.parent) old "patterns"
    rw [hvisit] at hitems
    unfold clearGroup editNamed at hitems hlisted ⊢
    cases hold : old.items? "patterns" with
    | none =>
        rw [hold, Option.map_none] at hlisted
        split at hitems
        · rw [items?_editPatterns, hlisted] at hitems
          cases hitems
        · rw [hlisted] at hitems
          cases hitems
    | some listed =>
        rw [hold, Option.map_some] at hlisted
        refine ⟨listed, rfl, ?_⟩
        split at hitems
        · rw [items?_editPatterns, hlisted, Option.map_some] at hitems
          rw [← Option.some.inj hitems] at hitem
          exact List.mem_of_mem_filter hitem
        · rw [hlisted] at hitems
          rwa [← Option.some.inj hitems] at hitem
  obtain ⟨listed, hlisted, hmapped⟩ := hkept
  obtain ⟨source, hsource, rfl⟩ := List.mem_map.1 hmapped
  have htransparent := transparent_mapNodes hkeeps .pattern
  rw [htransparent.belongsTo] at hgroup
  rw [htransparent.eq_self hgroup] at hx
  have hsame := find_eq_ok_iff.2 ⟨role, hone⟩
  exact ⟨source, mem_listUnder_iff.2 ⟨old, listed, hsame, hlisted, hsource⟩, hgroup, hx⟩

/-- The generated nodes of a document are still there after some edits, but
for those that stood in one of the two lists. Nodes that the edits put in are
not mentioned. -/
def LosesOwnOnly (layout : Layout) (document result : Fields) : Prop :=
  ∃ kept lost, (generatedNodes (.object document)).Perm (kept ++ lost) ∧
    kept.Subperm (generatedNodes (.object result)) ∧
    ∀ x ∈ lost, StandsIn layout.types document x ∨ StandsIn layout.functions document x

theorem LosesOwnOnly.refl (layout : Layout) (document : Fields) :
    LosesOwnOnly layout document document :=
  ⟨_, [], by simp, List.Subperm.refl _, nofun⟩

theorem losesOwnOnly_types {layout : Layout} {document : Fields}
    (h : HasList layout.types.parent document) (types : List String) :
    LosesOwnOnly layout document (mapDocument (groupChange layout.types types) document) := by
  refine ⟨_, _, generatedNodes_cleared layout.types document, ?_, fun x hx =>
    .inl (standsIn_of_mem_ownedBy h.found hx)⟩
  rw [← cleared_groupChange layout.types types document]
  exact cleared_subperm _ _

theorem losesOwnOnly_both {layout : Layout} {document : Fields} {types : List String}
    (htypes : HasList layout.types.parent document)
    (hfunctions : HasList layout.functions.parent
      (mapDocument (groupChange layout.types types) document)) (functions : List String) :
    LosesOwnOnly layout document
      (mapDocument (groupChange layout.functions functions)
        (mapDocument (groupChange layout.types types) document)) := by
  have hfound : Found layout.functions.parent document :=
    (found_mapDocument_iff (localChange_groupChange _ _).keepsTexts
      (keepsNodes_editPatterns (keepsItemNodes_groupItems _ _) _ _)).1 hfunctions.found
  have hcleared : Found layout.functions.parent (cleared layout.types document) :=
    (found_mapDocument_iff (localChange_clearGroup _ _).keepsTexts
      (keepsNodes_editPatterns (itemNodes_withoutGroup _) _ _)).2 hfound
  refine ⟨generatedNodes (.object (cleared layout.functions (cleared layout.types document))),
    ownedBy layout.functions (cleared layout.types document) ++ ownedBy layout.types document,
    ?_, ?_, fun x hx => ?_⟩
  · refine (generatedNodes_cleared layout.types document).trans ?_
    rw [← List.append_assoc]
    exact List.Perm.append_right _ (generatedNodes_cleared layout.functions _)
  · rw [← cleared_both layout.types layout.functions types functions document]
    exact (cleared_subperm _ _).trans (cleared_subperm _ _)
  · rcases List.mem_append.1 hx with hx | hx
    · exact .inr (standsIn_of_cleared hfound
        (standsIn_of_mem_ownedBy hcleared hx))
    · exact .inl (standsIn_of_mem_ownedBy htypes.found hx)

/-- What an edited document has in common with the one it was made from, whose
namespace rule has been set already: the hand-written part, up to the order of
the top-level list, and all generated nodes but those of the two lists.
Neither part goes through the edits; each is read off the two documents. -/
structure KeepsRest (layout : Layout) (marked result : Fields) : Prop where
  handwritten : Reordered (eraseFields marked) (eraseFields result)
  generated : LosesOwnOnly layout marked result

theorem keepsRest_patched {layout : Layout} {symbols : SymbolSet} {types : List String}
    {document : Fields} (h : Patchable layout symbols types document) (functions : List String) :
    KeepsRest layout
      (mapDocument (ruleChange layout.namespaces symbols.namespaces.names) document)
      (patched layout symbols types functions document) := by
  have hloses := losesOwnOnly_both h.typeList h.functionList functions
  constructor
  · have hreordered := reordered_orderItems layout.includeOrder
      (mapDocument (groupChange layout.functions functions)
        (mapDocument (groupChange layout.types types)
          (mapDocument (ruleChange layout.namespaces symbols.namespaces.names) document)))
    rwa [eraseFields_groupChange, eraseFields_groupChange] at hreordered
  · obtain ⟨kept, lost, hperm, hkept, hlost⟩ := hloses
    refine ⟨kept, lost, hperm, hkept.trans ?_, hlost⟩
    have hvisible : isGenerated (mapDocument (groupChange layout.functions functions)
        (mapDocument (groupChange layout.types types)
          (mapDocument (ruleChange layout.namespaces symbols.namespaces.names) document))) =
        false :=
      isGenerated_of_found ((found_mapDocument_iff (localChange_groupChange _ _).keepsTexts
        (keepsNodes_editPatterns (keepsItemNodes_groupItems _ _) _ _)).2 h.functionList.found)
    rcases generatedNodes_permute (orderItems_perm layout.includeOrder)
        (mapDocument (groupChange layout.functions functions)
          (mapDocument (groupChange layout.types types)
            (mapDocument (ruleChange layout.namespaces symbols.namespaces.names) document)))
      with hsame | hgen
    · exact hsame.symm.subperm
    · rw [hvisible] at hgen
      cases hgen

/-- Whatever the outcome, a patch leaves the document as it was or sets the
namespace rule, in the document as in its hand-written part, and keeps the
rest. A failure half-way counts as well, as the document it leaves behind is
one that a caller could go on with. Nodes that the patch itself has written
are not described here. -/
theorem apply_keeps_rest (options : Options) (symbols : SymbolSet) (document : Fields) :
    (apply options symbols document).1 = document ∨
      ∃ marked,
        setMatchOf document options.layout.namespaces.node
          (namespaceRule options.layout.namespaces symbols.namespaces.names) = .ok marked ∧
        setMatchOf (eraseFields document) options.layout.namespaces.node
          (namespaceRule options.layout.namespaces symbols.namespaces.names) =
            .ok (eraseFields marked) ∧
        KeepsRest options.layout marked (apply options symbols document).1 := by
  rcases apply_cases options symbols with ⟨failure, hfail⟩ | ⟨types, functions, -, -, happly⟩
  · exact .inl (by rw [hfail])
  have hmarked : Found options.layout.namespaces.node document →
      setMatchOf document options.layout.namespaces.node
        (namespaceRule options.layout.namespaces symbols.namespaces.names) =
          .ok (mapDocument (ruleChange options.layout.namespaces symbols.namespaces.names)
            document) ∧
      setMatchOf (eraseFields document) options.layout.namespaces.node
        (namespaceRule options.layout.namespaces symbols.namespaces.names) =
          .ok (eraseFields (mapDocument
            (ruleChange options.layout.namespaces symbols.namespaces.names) document)) := by
    intro hfound
    refine ⟨setMatchOf_eq_ok_iff.2 ⟨hfound, rfl⟩, setMatchOf_eq_ok_iff.2 ⟨?_, ?_⟩⟩
    · obtain ⟨node, hnode⟩ := hfound
      have herased := carriers_eraseFields options.layout.namespaces.node document
      rw [hnode] at herased
      exact ⟨_, herased⟩
    · exact eraseFields_mapDocument_setMatch ..
  rw [happly]
  rcases run_edits_cases options.layout symbols types functions document with
    ⟨failure, hrun⟩ | ⟨hfound, failure, hrun⟩ | ⟨hfound, hlist, failure, hrun⟩ | ⟨hpatchable, hrun⟩
  · exact .inl (by rw [hrun])
  · refine .inr ⟨_, (hmarked hfound).1, (hmarked hfound).2, ?_⟩
    rw [hrun]
    exact ⟨.inl rfl, LosesOwnOnly.refl _ _⟩
  · refine .inr ⟨_, (hmarked hfound).1, (hmarked hfound).2, ?_⟩
    rw [hrun]
    exact ⟨.inl (eraseFields_groupChange ..), losesOwnOnly_types hlist types⟩
  · refine .inr ⟨_, (hmarked hpatchable.rule).1, (hmarked hpatchable.rule).2, ?_⟩
    rw [hrun]
    exact keepsRest_patched hpatchable functions

/-- A generated node inside a stale node is lost with it, although it stands
in neither list and belongs to neither group. So a patch does not keep every
node of other groups; it keeps those that stand outside its own nodes. -/
theorem nested_node_is_lost :
    let nested : Json := .object [("comment", .string "@generated other 1/1")]
    let stale : Json := .object [
      ("comment", .string "@generated openplanet-types 1/1"), ("patterns", .array [nested])]
    let document := smallGrammar [stale, primitiveRule] [callRule]
    let result := (apply {} (SymbolSet.addAll ∅ smallSymbols) document).1
    nested ∈ generatedNodes (.object document) ∧ nested ∉ generatedNodes (.object result) ∧
      nested ∉ listUnder document Layout.standard.types.parent ∧
      nested ∉ listUnder document Layout.standard.functions.parent := by
  decide +kernel

end SymbolPatterns.Patch
