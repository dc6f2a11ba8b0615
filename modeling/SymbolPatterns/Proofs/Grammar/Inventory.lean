import Mathlib.Data.List.Perm.Basic
import SymbolPatterns.Proofs.Grammar.Erasure

/-!
The generated nodes of a document, those inside other generated nodes included.
Taking a group out of the list of its parent takes out the nodes of that group
in that list, with what is inside them, and no other; and putting nodes into a
list loses none.
-/

namespace SymbolPatterns.Grammar

open Json (Fields)

mutual

/-- The generated nodes of a value, itself included, in document order. Unlike
lookup this goes into generated nodes as well, since what is inside them can
be lost with them. -/
def generatedNodes : Json → List Json
  | .object fields =>
      (if isGenerated fields then [.object fields] else []) ++ generatedInFields fields
  | .array items => generatedInItems items
  | _ => []

def generatedInItems : List Json → List Json
  | [] => []
  | item :: rest => generatedNodes item ++ generatedInItems rest

def generatedInFields : List (String × Json) → List Json
  | [] => []
  | (key, value) :: rest =>
      (match entryRole? key, value with
        | some _, .object entries => generatedInEntries entries
        | _, value => generatedNodes value) ++ generatedInFields rest

def generatedInEntries : List (String × Json) → List Json
  | [] => []
  | (_, value) :: rest => generatedNodes value ++ generatedInEntries rest

end

theorem generatedInItems_eq (items : List Json) :
    generatedInItems items = items.flatMap generatedNodes := by
  induction items with
  | nil => rfl
  | cons item rest ih => simp [generatedInItems, ih]

theorem generatedInEntries_eq (entries : Fields) :
    generatedInEntries entries = entries.flatMap fun entry => generatedNodes entry.2 := by
  induction entries with
  | nil => rfl
  | cons entry rest ih => simp [generatedInEntries, ih]

theorem generatedInFields_eq (fields : Fields) :
    generatedInFields fields = (children fields).flatMap fun child => generatedNodes child.2 := by
  induction fields with
  | nil => rfl
  | cons field rest ih =>
      obtain ⟨key, value⟩ := field
      rw [generatedInFields.eq_def, children_cons, List.flatMap_append]
      simp only [ih]
      congr 1
      rcases holdsEntries_cases key value with ⟨role, entries, hrole, rfl⟩ | hvalue
      · rw [childrenOf_entries entries hrole, List.flatMap_map, ← generatedInEntries_eq]
        simp only [hrole]
      · rw [childrenOf_value hvalue]
        split
        · next hrole => exact absurd ⟨by simp [hrole], rfl⟩ hvalue
        · simp

theorem generatedNodes_object (fields : Fields) :
    generatedNodes (.object fields) =
      (if isGenerated fields then [.object fields] else []) ++ generatedInFields fields := by
  rw [generatedNodes]

theorem generatedNodes_array (items : List Json) :
    generatedNodes (.array items) = items.flatMap generatedNodes := by
  rw [generatedNodes, generatedInItems_eq]

/-- A field that is set takes the place of the generated nodes of its old
value. Those of the other fields are in front and behind, the same before and
after. -/
theorem generatedInFields_set {node : Fields} {key : String} {old : Json}
    (h : node.get? key = some old) :
    ∃ front rest, ∀ value, generatedInFields (node.set key value) =
      front ++ ((childrenOf key value).flatMap (fun child => generatedNodes child.2) ++ rest) ∧
      generatedInFields node =
        front ++ ((childrenOf key old).flatMap (fun child => generatedNodes child.2) ++ rest) := by
  obtain ⟨front, rest, hsplit, -, hset⟩ := Json.Fields.exists_split_of_get? h
  refine ⟨generatedInFields front, generatedInFields rest, fun value => ⟨?_, ?_⟩⟩
  · rw [hset value]
    simp [generatedInFields_eq]
  · rw [hsplit]
    simp [generatedInFields_eq]

theorem generatedInFields_editPatterns (f : List Json → List Json) {node : Fields}
    {items : List Json} (h : node.items? "patterns" = some items) :
    ∃ front rest,
      generatedInFields node = front ++ (items.flatMap generatedNodes ++ rest) ∧
      generatedInFields (editPatterns f node) =
        front ++ ((f items).flatMap generatedNodes ++ rest) := by
  obtain ⟨front, rest, hset⟩ := generatedInFields_set (Json.Fields.items?_eq_some_iff.1 h)
  obtain ⟨hnew, hold⟩ := hset (.array (f items))
  refine ⟨front, rest, ?_, ?_⟩
  · rw [hold, childrenOf_array]
    simp [generatedNodes_array]
  · rw [editPatterns_some h, hnew, childrenOf_array]
    simp [generatedNodes_array]

/-- The nodes of a group in the pattern list of a node that carries the name
of its parent, and nothing for other nodes. -/
def ownItems (group parent : String) (node : Role × Fields) : List Json :=
  if carries node.1 node.2 parent then
    ((node.2.items? "patterns").getD []).filter (belongsTo group)
  else []

/-- What leaves a document with the nodes of a group in one pattern list:
these nodes, and the generated nodes inside them. -/
def ownNodes (group parent : String) (node : Role × Fields) : List Json :=
  (ownItems group parent node).flatMap generatedNodes

/-- Takes a group out of the pattern list of its parent. It is the part of
replacing a group that can lose something. -/
def clearGroup (group parent : String) : NodeChange :=
  editNamed parent (editPatterns (withoutGroup group))

theorem localChange_clearGroup (group parent : String) : LocalChange (clearGroup group parent) :=
  localChange_editNamed parent (localEdit_editPatterns (natural_withoutGroup group))

theorem ownItems_mapFields {change : NodeChange} (hkeeps : ∀ role, KeepsTexts (change role))
    (group parent : String) (role : Role) (fields : Fields) :
    ownItems group parent (role, mapFields change fields) =
      ownItems group parent (role, fields) := by
  have htransparent := transparent_mapNodes hkeeps .pattern
  unfold ownItems
  rw [carries_mapFields, items?_mapFields]
  cases fields.items? "patterns" with
  | none => rfl
  | some items =>
      have hsame : (items.map (mapNodes change .pattern)).filter (belongsTo group) =
          items.filter (belongsTo group) := by
        rw [List.filter_map]
        have hfilter : items.filter (belongsTo group ∘ mapNodes change .pattern) =
            items.filter (belongsTo group) :=
          List.filter_congr fun item _ => htransparent.belongsTo group item
        rw [hfilter]
        refine (List.map_congr_left fun item hitem => ?_).trans (List.map_id' _)
        exact htransparent.eq_self (List.of_mem_filter hitem)
      simp [hsame]

private theorem generatedInFields_clearGroup (group parent : String) (role : Role)
    (node : Fields) :
    (generatedInFields node).Perm
      (generatedInFields (clearGroup group parent role node) ++
        ownNodes group parent (role, node)) := by
  unfold clearGroup editNamed ownNodes ownItems
  split
  · cases hitems : node.items? "patterns" with
    | none => simp [editPatterns_none hitems]
    | some items =>
        obtain ⟨front, rest, hold, hnew⟩ :=
          generatedInFields_editPatterns (withoutGroup group) hitems
        have hsplit : (items.flatMap generatedNodes).Perm
            ((withoutGroup group items).flatMap generatedNodes ++
              (items.filter (belongsTo group)).flatMap generatedNodes) := by
          have hfilter := (List.filter_append_perm (belongsTo group) items).symm.flatMap_right
            generatedNodes
          rw [List.flatMap_append] at hfilter
          exact hfilter.trans List.perm_append_comm
        rw [hold, hnew, Option.getD_some]
        refine (List.Perm.append_left front (List.Perm.append_right rest hsplit)).trans ?_
        simp only [List.append_assoc]
        exact List.Perm.append_left _ (List.Perm.append_left _ List.perm_append_comm)
  · simp

/-- A document has the generated nodes that it has without a group in the list
of its parent, and those of the group. Nodes are counted with their
multiplicity, so none is lost by standing twice. -/
theorem generatedNodes_clearGroup (group parent : String) (role : Role) (value : Json) :
    (generatedNodes value).Perm
      (generatedNodes (mapNodes (clearGroup group parent) role value) ++
        (nodes role value).flatMap (ownNodes group parent)) := by
  have hkeeps := (localChange_clearGroup group parent).keepsTexts
  -- What the parts of a value contribute is put together in the same way on both sides.
  have hparts : ∀ {α : Type} (xs : List α) (whole left : α → List Json)
      (own : α → List (Role × Fields)),
      (∀ x ∈ xs, (whole x).Perm (left x ++ (own x).flatMap (ownNodes group parent))) →
      (xs.flatMap whole).Perm
        (xs.flatMap left ++ (xs.flatMap own).flatMap (ownNodes group parent)) := by
    intro α xs whole left own h
    rw [List.flatMap_assoc]
    refine (List.Perm.flatMap_left xs h).trans ?_
    exact (List.flatMap_append_perm xs left _).symm
  induction value using nodeInduction generalizing role with
  | object fields ih =>
      cases hgen : isGenerated fields with
      | true =>
          rw [mapNodes_of_isGenerated _ role hgen, nodes_of_isGenerated role hgen]
          simp
      | false =>
          have hgen' : isGenerated (clearGroup group parent role
              (mapFields (clearGroup group parent) fields)) = false := by
            rw [(hkeeps role).isGenerated, isGenerated_mapFields, hgen]
          have hbelow : (generatedInFields fields).Perm
              (generatedInFields (mapFields (clearGroup group parent) fields) ++
                (innerNodes fields).flatMap (ownNodes group parent)) := by
            rw [mapFields_eq_replaceChildren, generatedInFields_eq, generatedInFields_eq,
              children_replaceChildren (keepsKind_mapNodes _), List.flatMap_map]
            exact hparts _ _ _ _ fun child hchild => ih child hchild child.1
          have hself := generatedInFields_clearGroup group parent role
            (mapFields (clearGroup group parent) fields)
          rw [ownNodes, ownItems_mapFields hkeeps, ← ownNodes] at hself
          rw [mapNodes_of_not_isGenerated _ role hgen, nodes_of_not_isGenerated role hgen,
            generatedNodes_object, generatedNodes_object, hgen, hgen', List.flatMap_cons]
          refine hbelow.trans ((List.Perm.append_right _ hself).trans ?_)
          simp
  | array items ih =>
      rw [mapNodes_array, nodes_array, generatedNodes_array, generatedNodes_array,
        List.flatMap_map]
      exact hparts _ _ _ _ fun item hitem => ih item hitem .pattern
  | leaf value hobject harray =>
      rw [mapNodes_leaf _ role hobject harray, nodes_leaf role hobject harray]
      simp

/-- Permuting the top-level list keeps the generated nodes. A document that is
itself generated is left out, for it is a node that changes as a whole. -/
theorem generatedNodes_permute {f : List Json → List Json} (hf : ∀ items, (f items).Perm items)
    (document : Fields) :
    (generatedNodes (.object (editPatterns f document))).Perm
      (generatedNodes (.object document)) ∨ isGenerated document = true := by
  cases hgen : isGenerated document with
  | true => exact .inr rfl
  | false =>
      have hkeeps := keepsTexts_editPatterns f
      refine .inl ?_
      rw [generatedNodes_object, generatedNodes_object, hkeeps.isGenerated, hgen]
      simp only [Bool.false_eq_true, if_false, List.nil_append]
      cases hitems : document.items? "patterns" with
      | none => rw [editPatterns_none hitems]
      | some items =>
          obtain ⟨front, rest, hold, hnew⟩ := generatedInFields_editPatterns f hitems
          rw [hold, hnew]
          exact List.Perm.append_left _
            (List.Perm.append_right _ ((hf items).flatMap_right generatedNodes))

end SymbolPatterns.Grammar
