import SymbolPatterns.Proofs.Grammar.Visibility

/-!
The hand-written part of a document: what is left when the generated nodes are
erased from all lists, at any depth. Replacing a group does not change it, and
setting a match rule changes it as it changes the document.
-/

namespace SymbolPatterns.Grammar

open Json (Fields)

/-- Whether a value is a generated node. Values that are no objects are not,
whatever text they hold. -/
def isMarked (item : Json) : Bool := item.fields?.any isGenerated

mutual

/-- A value without the generated nodes in its lists, at any depth. Generated
objects that stand in a field are no items and are kept: no edit takes them
out either. -/
def erase : Json → Json
  | .object fields => .object (eraseFields fields)
  | .array items => .array (eraseItems items)
  | value => value

def eraseItems : List Json → List Json
  | [] => []
  | item :: rest => if isMarked item then eraseItems rest else erase item :: eraseItems rest

def eraseFields : List (String × Json) → Fields
  | [] => []
  | (key, value) :: rest => (key, erase value) :: eraseFields rest

end

theorem eraseItems_eq (items : List Json) :
    eraseItems items = (items.filter fun item => !isMarked item).map erase := by
  induction items with
  | nil => rfl
  | cons item rest ih =>
      cases hitem : isMarked item with
      | true => rw [eraseItems, if_pos hitem, ih, List.filter_cons_of_neg (by simp [hitem])]
      | false =>
          rw [eraseItems, if_neg (by simp [hitem]), ih, List.filter_cons_of_pos (by simp [hitem]),
            List.map_cons]

theorem eraseFields_eq_map (fields : Fields) :
    eraseFields fields = fields.map fun field => (field.1, erase field.2) := by
  induction fields with
  | nil => rfl
  | cons field rest ih => simp [eraseFields, ih]

private theorem replaceUnder_erase (key : String) (value : Json) :
    replaceUnder (fun _ => erase) key value = erase value := by
  rcases holdsEntries_cases key value with ⟨role, entries, hrole, rfl⟩ | hvalue
  · rw [replaceUnder_entries _ entries hrole, erase, eraseFields_eq_map]
  · rw [replaceUnder_value _ hvalue]

theorem eraseFields_eq_replaceChildren (fields : Fields) :
    eraseFields fields = replaceChildren (fun _ => erase) fields := by
  rw [eraseFields_eq_map, replaceChildren]
  simp only [replaceUnder_erase]

theorem keepsKind_erase : KeepsKind fun _ => erase := by
  intro role value
  cases value <;> rfl

theorem get?_eraseFields (fields : Fields) (key : String) :
    (eraseFields fields).get? key = (fields.get? key).map erase := by
  rw [eraseFields_eq_replaceChildren, get?_replaceChildren]
  exact Option.map_congr fun value _ => replaceUnder_erase key value

theorem eraseFields_set (fields : Fields) (key : String) (value : Json) :
    eraseFields (fields.set key value) = (eraseFields fields).set key (erase value) := by
  rw [eraseFields_eq_replaceChildren, eraseFields_eq_replaceChildren, replaceChildren_set,
    replaceUnder_erase]

@[simp] theorem text?_eraseFields (fields : Fields) (key : String) :
    (eraseFields fields).text? key = fields.text? key := by
  unfold Fields.text?
  rw [get?_eraseFields]
  cases fields.get? key with
  | none => rfl
  | some value => cases value <;> rfl

theorem items?_eraseFields (fields : Fields) (key : String) :
    (eraseFields fields).items? key = (fields.items? key).map eraseItems := by
  unfold Fields.items?
  rw [get?_eraseFields]
  cases fields.get? key with
  | none => rfl
  | some value => cases value <;> rfl

@[simp] theorem isGenerated_eraseFields (fields : Fields) :
    isGenerated (eraseFields fields) = isGenerated fields := by
  simp [isGenerated]

@[simp] theorem carries_eraseFields (role : Role) (fields : Fields) (name : String) :
    carries role (eraseFields fields) name = carries role fields name := by
  cases role <;> simp [carries]

theorem isMarked_eq (item : Json) :
    isMarked item =
      (textOf "comment" item).any fun comment => marker.toList.isPrefixOf comment.toList := by
  cases item <;> rfl

theorem Transparent.isMarked {g : Json → Json} (hg : Transparent g) (item : Json) :
    isMarked (g item) = Grammar.isMarked item := by
  rw [isMarked_eq, isMarked_eq, hg.text "comment" item (by decide) (by decide)]

theorem nodes_of_isMarked {item : Json} (role : Role) (h : isMarked item = true) :
    nodes role item = [] := by
  cases item with
  | object node => exact nodes_of_isGenerated role h
  | _ => cases h

private theorem flatMap_unmarked {α : Type} (items : List Json) (f : Json → List α)
    (h : ∀ item ∈ items, isMarked item = true → f item = []) :
    (items.filter fun item => !isMarked item).flatMap f = items.flatMap f := by
  induction items with
  | nil => rfl
  | cons item rest ih =>
      have hrest := ih fun x hx => h x (List.mem_cons_of_mem _ hx)
      cases hitem : isMarked item with
      | true =>
          rw [List.filter_cons_of_neg (by simp [hitem]), hrest, List.flatMap_cons,
            h item List.mem_cons_self hitem, List.nil_append]
      | false =>
          rw [List.filter_cons_of_pos (by simp [hitem]), List.flatMap_cons, List.flatMap_cons,
            hrest]

/-- The hand-written part shows the nodes of the document, each without its
generated nodes. So lookup does the same in both, and edits of the one can be
followed in the other. -/
theorem nodes_erase (role : Role) (value : Json) :
    nodes role (erase value) = (nodes role value).map fun node => (node.1, eraseFields node.2) := by
  induction value using nodeInduction generalizing role with
  | object fields ih =>
      cases hgen : isGenerated fields with
      | true =>
          rw [erase, nodes_of_isGenerated role (by simpa using hgen),
            nodes_of_isGenerated role hgen]
          rfl
      | false =>
          rw [erase, nodes_of_not_isGenerated role (by simpa using hgen),
            nodes_of_not_isGenerated role hgen, List.map_cons, innerNodes, innerNodes,
            eraseFields_eq_replaceChildren, children_replaceChildren keepsKind_erase,
            List.flatMap_map, List.map_flatMap]
          congr 1
          exact List.flatMap_congr fun child hchild => ih child hchild child.1
  | array items ih =>
      rw [erase, nodes_array, nodes_array, eraseItems_eq, List.flatMap_map, List.map_flatMap,
        flatMap_unmarked]
      · exact List.flatMap_congr fun item hitem => ih item hitem .pattern
      · intro item hitem hmarked
        rw [ih item hitem, nodes_of_isMarked _ hmarked]
        rfl
  | leaf value hobject harray =>
      cases value with
      | object fields => exact absurd rfl (hobject fields)
      | array items => exact absurd rfl (harray items)
      | _ => rfl

theorem carriers_eraseFields (name : String) (document : Fields) :
    carriers name (documentNodes (eraseFields document)) =
      (carriers name (documentNodes document)).map fun node => (node.1, eraseFields node.2) := by
  have hnodes := nodes_erase .pattern (.object document)
  rw [erase] at hnodes
  rw [documentNodes, documentNodes, hnodes, carriers, carriers, List.filter_map]
  exact congrArg _ (List.filter_congr fun node _ => by simp)

private theorem map_eraseItems {g : Json → Json} (hg : ∀ item, isMarked (g item) = isMarked item)
    (items : List Json) :
    eraseItems (items.map g) =
      (items.filter fun item => !isMarked item).map fun item => erase (g item) := by
  rw [eraseItems_eq, List.filter_map, List.map_map]
  exact congrArg _ (List.filter_congr fun item _ => by simp [hg])

/-- A change that keeps the hand-written part of every node keeps that of the
document. It is applied to the edits of groups, which only touch generated
nodes. -/
theorem erase_mapNodes (change : NodeChange) (hkeeps : ∀ role, KeepsTexts (change role))
    (h : ∀ role node, eraseFields (change role node) = eraseFields node) (role : Role)
    (value : Json) : erase (mapNodes change role value) = erase value := by
  induction value using nodeInduction generalizing role with
  | object fields ih =>
      cases hgen : isGenerated fields with
      | true => rw [mapNodes_of_isGenerated _ role hgen]
      | false =>
          rw [mapNodes_of_not_isGenerated _ role hgen, erase, h, erase, mapFields_eq_replaceChildren,
            eraseFields_eq_replaceChildren, eraseFields_eq_replaceChildren,
            replaceChildren_replaceChildren (keepsKind_mapNodes change)]
          exact congrArg _ (replaceChildren_congr fun child hchild => ih child hchild child.1)
  | array items ih =>
      rw [mapNodes_array, erase, erase,
        map_eraseItems (transparent_mapNodes hkeeps .pattern).isMarked, eraseItems_eq]
      refine congrArg _ (List.map_congr_left fun item hitem => ?_)
      exact ih item (List.mem_of_mem_filter hitem) .pattern
  | leaf value hobject harray => rw [mapNodes_leaf _ role hobject harray]

/-- A change that does to the hand-written part of every node what it does to
the node does the same to the document. It is applied to the edit of the match
rule. -/
theorem erase_mapNodes_comm (change : NodeChange) (hkeeps : ∀ role, KeepsTexts (change role))
    (h : ∀ role node, eraseFields (change role node) = change role (eraseFields node))
    (role : Role) (value : Json) :
    erase (mapNodes change role value) = mapNodes change role (erase value) := by
  induction value using nodeInduction generalizing role with
  | object fields ih =>
      cases hgen : isGenerated fields with
      | true =>
          rw [mapNodes_of_isGenerated _ role hgen, erase,
            mapNodes_of_isGenerated _ role (by simpa using hgen)]
      | false =>
          have hbelow : eraseFields (mapFields change fields) =
              mapFields change (eraseFields fields) := by
            rw [mapFields_eq_replaceChildren, eraseFields_eq_replaceChildren,
              replaceChildren_replaceChildren (keepsKind_mapNodes change),
              mapFields_eq_replaceChildren, eraseFields_eq_replaceChildren,
              replaceChildren_replaceChildren keepsKind_erase]
            exact replaceChildren_congr fun child hchild => ih child hchild child.1
          rw [mapNodes_of_not_isGenerated _ role hgen, erase, erase,
            mapNodes_of_not_isGenerated _ role (by simpa using hgen), h, hbelow]
  | array items ih =>
      rw [mapNodes_array, erase, erase, mapNodes_array,
        map_eraseItems (transparent_mapNodes hkeeps .pattern).isMarked, eraseItems_eq, List.map_map]
      refine congrArg _ (List.map_congr_left fun item hitem => ?_)
      exact ih item (List.mem_of_mem_filter hitem) .pattern
  | leaf value hobject harray =>
      rw [mapNodes_leaf _ role hobject harray]
      cases value with
      | object fields => exact absurd rfl (hobject fields)
      | array items => exact absurd rfl (harray items)
      | _ => rfl

theorem eraseFields_setMatch (regex : String) (node : Fields) :
    eraseFields (setMatch regex node) = setMatch regex (eraseFields node) := by
  rw [setMatch, eraseFields_set]
  rfl

theorem eraseFields_mapDocument_setMatch (name regex : String) (document : Fields) :
    eraseFields (mapDocument (editNamed name (setMatch regex)) document) =
      mapDocument (editNamed name (setMatch regex)) (eraseFields document) := by
  have h := erase_mapNodes_comm (editNamed name (setMatch regex))
    (localChange_editNamed name (localEdit_setMatch regex)).keepsTexts
    (fun role node => by
      unfold editNamed
      rw [carries_eraseFields]
      split
      · exact eraseFields_setMatch regex node
      · rfl) .pattern (.object document)
  rw [erase, mapNodes_object, mapNodes_object, erase] at h
  exact Json.object.inj h

/-- A change of pattern lists that keeps their hand-written items, in their
order. -/
def KeepsUnmarked (f : List Json → List Json) : Prop :=
  ∀ items, eraseItems (f items) = eraseItems items

theorem eraseFields_editPatterns {f : List Json → List Json} (hf : KeepsUnmarked f)
    (node : Fields) : eraseFields (editPatterns f node) = eraseFields node := by
  cases hitems : node.items? "patterns" with
  | none => rw [editPatterns_none hitems]
  | some items =>
      rw [editPatterns_some hitems, eraseFields_set, erase, hf]
      apply Json.Fields.set_eq_self
      rw [get?_eraseFields, Json.Fields.items?_eq_some_iff.1 hitems]
      rfl

theorem eraseFields_mapDocument_editPatterns {f : List Json → List Json} (hf : KeepsUnmarked f)
    (hnatural : Natural f) (name : String) (document : Fields) :
    eraseFields (mapDocument (editNamed name (editPatterns f)) document) =
      eraseFields document := by
  have h := erase_mapNodes (editNamed name (editPatterns f))
    (localChange_editNamed name (localEdit_editPatterns hnatural)).keepsTexts
    (fun role node => by
      unfold editNamed
      split
      · exact eraseFields_editPatterns hf node
      · rfl) .pattern (.object document)
  rw [mapNodes_object, erase, erase] at h
  exact Json.object.inj h

theorem isMarked_of_belongsTo {group : String} {item : Json}
    (h : belongsTo group item = true) : isMarked item = true := by
  cases item with
  | object node => exact isGenerated_of_isInGroup h
  | _ => cases h

theorem isMarked_eq_false_of_isAnchor {anchor : String} {item : Json}
    (h : isAnchor anchor item = true) : isMarked item = false := by
  rw [isAnchor_eq, Bool.and_eq_true, Bool.not_eq_true'] at h
  rw [isMarked_eq, h.1]

/-- Replacing a group keeps the hand-written items: what is put in is
generated, and so is what is taken out. -/
theorem keepsUnmarked_upsert {group : String} {added : List Json} (anchor : String)
    (placement : Placement) (h : ∀ x ∈ added, belongsTo group x = true) :
    KeepsUnmarked fun items => (upsert items group added anchor placement).1 := by
  intro items
  have hadded : added.filter (fun item => !isMarked item) = [] :=
    List.filter_eq_nil_iff.2 fun x hx => by simp [isMarked_of_belongsTo (h x hx)]
  have hkept : (withoutGroup group items).filter (fun item => !isMarked item) =
      items.filter fun item => !isMarked item := by
    rw [withoutGroup, List.filter_filter]
    apply List.filter_congr
    intro item _
    cases hitem : belongsTo group item with
    | true => simp [isMarked_of_belongsTo hitem]
    | false => simp
  simp only [eraseItems_eq, upsert_items]
  rw [filter_insertNear placement fun x hx => by simp [isMarked_eq_false_of_isAnchor hx],
    hadded, hkept, insertNear_nil]

end SymbolPatterns.Grammar
