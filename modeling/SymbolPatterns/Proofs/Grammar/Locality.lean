import SymbolPatterns.Proofs.Grammar.Named
import SymbolPatterns.Proofs.Grammar.PatternList

/-!
Edits that compose. An edit of a node is local if it keeps the texts by which
nodes are known and if changing the nodes below it first or last makes no
difference. Two local changes of all nodes in a row are one change by the
composed edit, so a sequence of edits to a document can be studied on a single
node.
-/

namespace SymbolPatterns.Grammar

open Json (Fields)

/-- The text of an item under a key, if the item is an object that has one.
Everything that edits of lists ask of an item is such a text. -/
def textOf (key : String) (item : Json) : Option String :=
  item.fields?.bind fun node => node.text? key

theorem belongsTo_eq (group : String) (item : Json) :
    belongsTo group item = (textOf "comment" item).any fun comment => marksGroup comment group := by
  cases item <;> rfl

theorem isAnchor_eq (anchor : String) (item : Json) :
    isAnchor anchor item =
      (!((textOf "comment" item).any fun comment => marker.toList.isPrefixOf comment.toList) &&
        (textOf "name" item = some anchor || textOf "include" item = some anchor)) := by
  cases item with
  | object node => rfl
  | _ => simp [isAnchor, textOf, Json.fields?]

theorem includesTarget_eq (target : String) (item : Json) :
    includesTarget target item = decide (textOf "include" item = some target) := rfl

/-- A change of list items that keeps generated nodes and all texts but match
rules. Changes of nodes further down are of this kind for the lists above
them. -/
structure Transparent (g : Json → Json) : Prop where
  text : ∀ key item, key ≠ "match" → key ≠ "patterns" → textOf key (g item) = textOf key item
  generated : ∀ node, isGenerated node = true → g (.object node) = .object node

section

variable {g : Json → Json} (hg : Transparent g)

include hg

theorem Transparent.belongsTo (group : String) (item : Json) :
    belongsTo group (g item) = Grammar.belongsTo group item := by
  rw [belongsTo_eq, belongsTo_eq, hg.text "comment" item (by decide) (by decide)]

theorem Transparent.isAnchor (anchor : String) (item : Json) :
    isAnchor anchor (g item) = Grammar.isAnchor anchor item := by
  rw [isAnchor_eq, isAnchor_eq, hg.text "comment" item (by decide) (by decide),
    hg.text "name" item (by decide) (by decide), hg.text "include" item (by decide) (by decide)]

theorem Transparent.includesTarget (target : String) (item : Json) :
    includesTarget target (g item) = Grammar.includesTarget target item := by
  rw [includesTarget_eq, includesTarget_eq, hg.text "include" item (by decide) (by decide)]

theorem Transparent.eq_self {group : String} {item : Json}
    (h : Grammar.belongsTo group item = true) : g item = item := by
  cases item with
  | object node => exact hg.generated node (isGenerated_of_isInGroup h)
  | _ => cases h

theorem Transparent.withoutGroup (group : String) (items : List Json) :
    Grammar.withoutGroup group (items.map g) = (Grammar.withoutGroup group items).map g := by
  unfold Grammar.withoutGroup
  rw [List.filter_map]
  exact congrArg _ (List.filter_congr fun x _ => by simp [hg.belongsTo])

end

/-- A change of a pattern list that treats its items by their texts only, so
it may be done before or after a transparent change of the items. -/
def Natural (f : List Json → List Json) : Prop :=
  ∀ g, Transparent g → ∀ items, (f items).map g = f (items.map g)

theorem natural_withoutGroup (group : String) : Natural (withoutGroup group) :=
  fun _ hg items => (hg.withoutGroup group items).symm

theorem natural_upsert {group : String} {nodes : List Json} (anchor : String)
    (placement : Placement) (h : ∀ x ∈ nodes, belongsTo group x = true) :
    Natural fun items => (upsert items group nodes anchor placement).1 := by
  intro g hg items
  have hnodes : nodes.map g = nodes :=
    (List.map_congr_left fun x hx => hg.eq_self (h x hx)).trans (List.map_id' nodes)
  simp only [upsert_items]
  rw [map_insertNear placement (hg.isAnchor anchor), hnodes, hg.withoutGroup]

theorem natural_reorder (targets : List String) (target : String) :
    Natural fun items => (reorder items targets target).1 :=
  fun _ hg items => (map_reorder targets hg.includesTarget target items).symm

/-- An edit that keeps all texts of a node but its match rule. Its name, its
comment and its include stay, so the edited node is known by the same names. -/
def KeepsTexts (edit : Fields → Fields) : Prop :=
  ∀ node key, key ≠ "match" → key ≠ "patterns" → (edit node).text? key = node.text? key

theorem KeepsTexts.isGenerated {edit : Fields → Fields} (h : KeepsTexts edit) (node : Fields) :
    isGenerated (edit node) = Grammar.isGenerated node := by
  rw [Grammar.isGenerated, Grammar.isGenerated, h node "comment" (by decide) (by decide)]

theorem KeepsTexts.carries {edit : Fields → Fields} (h : KeepsTexts edit) (role : Role)
    (node : Fields) (name : String) :
    carries role (edit node) name = Grammar.carries role node name := by
  cases role <;> simp [Grammar.carries, h node "name" (by decide) (by decide)]

theorem KeepsTexts.comp {first second : Fields → Fields} (hfirst : KeepsTexts first)
    (hsecond : KeepsTexts second) : KeepsTexts fun node => second (first node) :=
  fun node key hmatch hpatterns =>
    (hsecond _ key hmatch hpatterns).trans (hfirst node key hmatch hpatterns)

theorem keepsTexts_mapFields (change : NodeChange) : KeepsTexts (mapFields change) :=
  fun node key _ _ => text?_mapFields change node key

theorem transparent_mapNodes {change : NodeChange} (h : ∀ role, KeepsTexts (change role))
    (role : Role) : Transparent (mapNodes change role) where
  text key item hmatch hpatterns := by
    cases item with
    | object node =>
        cases hgen : isGenerated node with
        | true => rw [mapNodes_of_isGenerated change role hgen]
        | false =>
            rw [mapNodes_of_not_isGenerated change role hgen]
            exact ((keepsTexts_mapFields change).comp (h role)) node key hmatch hpatterns
    | _ => rfl
  generated node hgen := mapNodes_of_isGenerated change role hgen

/-- An edit of a node that keeps its texts and does not look below it: nodes
inside may be changed before or after it. -/
structure LocalEdit (edit : Fields → Fields) : Prop where
  texts : KeepsTexts edit
  commutes : ∀ change : NodeChange, (∀ role, KeepsTexts (change role)) →
    ∀ node, mapFields change (edit node) = edit (mapFields change node)

theorem LocalEdit.comp {first second : Fields → Fields} (hfirst : LocalEdit first)
    (hsecond : LocalEdit second) : LocalEdit fun node => second (first node) where
  texts := hfirst.texts.comp hsecond.texts
  commutes change h node := by rw [hsecond.commutes change h, hfirst.commutes change h]

theorem localEdit_setMatch (regex : String) : LocalEdit (setMatch regex) where
  texts node key hmatch _ := Json.Fields.text?_congr (Json.Fields.get?_set_of_ne node _ hmatch)
  commutes change _ node := by
    rw [setMatch, setMatch, mapFields_set, replaceUnder_mapNodes_string]

/-- Changes the pattern list of a node, if it has one. Nodes without a list
are left alone, also where a field of that name holds something else. -/
def editPatterns (f : List Json → List Json) (node : Fields) : Fields :=
  match node.items? "patterns" with
  | some items => node.set "patterns" (.array (f items))
  | none => node

theorem editPatterns_some {f : List Json → List Json} {node : Fields} {items : List Json}
    (h : node.items? "patterns" = some items) :
    editPatterns f node = node.set "patterns" (.array (f items)) := by
  simp [editPatterns, h]

theorem editPatterns_none {f : List Json → List Json} {node : Fields}
    (h : node.items? "patterns" = none) : editPatterns f node = node := by
  simp [editPatterns, h]

theorem items?_editPatterns (f : List Json → List Json) (node : Fields) :
    (editPatterns f node).items? "patterns" = (node.items? "patterns").map f := by
  cases hitems : node.items? "patterns" with
  | none => rw [editPatterns_none hitems, hitems]; rfl
  | some items => rw [editPatterns_some hitems, Json.Fields.items?_set_self]; rfl

theorem get?_editPatterns_of_ne (f : List Json → List Json) (node : Fields) {key : String}
    (h : key ≠ "patterns") : (editPatterns f node).get? key = node.get? key := by
  cases hitems : node.items? "patterns" with
  | none => rw [editPatterns_none hitems]
  | some items => rw [editPatterns_some hitems, Json.Fields.get?_set_of_ne _ _ h]

theorem keepsTexts_editPatterns (f : List Json → List Json) : KeepsTexts (editPatterns f) :=
  fun node _ _ hpatterns => Json.Fields.text?_congr (get?_editPatterns_of_ne f node hpatterns)

theorem editPatterns_editPatterns (f g : List Json → List Json) (node : Fields) :
    editPatterns g (editPatterns f node) = editPatterns (fun items => g (f items)) node := by
  cases hitems : node.items? "patterns" with
  | none => rw [editPatterns_none hitems, editPatterns_none hitems, editPatterns_none hitems]
  | some items =>
      have hset : (node.set "patterns" (.array (f items))).items? "patterns" = some (f items) :=
        Json.Fields.items?_set_self ..
      rw [editPatterns_some hitems, editPatterns_some hset, editPatterns_some hitems,
        Json.Fields.set_set]

/-- A pattern list and a match rule are edited in either order, as they are
two fields of a node. -/
theorem editPatterns_setMatch (f : List Json → List Json) (regex : String) (node : Fields) :
    editPatterns f (setMatch regex node) = setMatch regex (editPatterns f node) := by
  have hkept : (setMatch regex node).items? "patterns" = node.items? "patterns" :=
    Json.Fields.items?_congr (Json.Fields.get?_set_of_ne node _ (by decide))
  cases hitems : node.items? "patterns" with
  | none => rw [editPatterns_none (hkept.trans hitems), editPatterns_none hitems]
  | some items =>
      have hthere : node.get? "patterns" ≠ none := by
        rw [Json.Fields.items?_eq_some_iff.1 hitems]
        exact Option.some_ne_none _
      rw [editPatterns_some (hkept.trans hitems), editPatterns_some hitems]
      exact Json.Fields.set_comm node _ _ (by decide) hthere

theorem localEdit_editPatterns {f : List Json → List Json} (hf : Natural f) :
    LocalEdit (editPatterns f) where
  texts := keepsTexts_editPatterns f
  commutes change h node := by
    cases hitems : node.items? "patterns" with
    | none =>
        have hmapped : (mapFields change node).items? "patterns" = none := by
          rw [items?_mapFields, hitems]
          rfl
        rw [editPatterns_none hitems, editPatterns_none hmapped]
    | some items =>
        have hmapped : (mapFields change node).items? "patterns" =
            some (items.map (mapNodes change .pattern)) := by
          rw [items?_mapFields, hitems]
          rfl
        rw [editPatterns_some hitems, editPatterns_some hmapped, mapFields_set,
          replaceUnder_mapNodes_array, hf _ (transparent_mapNodes h .pattern)]

/-- A change of all nodes by local edits, which may differ from role to role. -/
def LocalChange (change : NodeChange) : Prop := ∀ role, LocalEdit (change role)

theorem localChange_editNamed {edit : Fields → Fields} (name : String) (h : LocalEdit edit) :
    LocalChange (editNamed name edit) := by
  intro role
  refine ⟨fun node key hmatch hpatterns => ?_, fun change hchange node => ?_⟩
  · unfold editNamed
    split
    · exact h.texts node key hmatch hpatterns
    · rfl
  · unfold editNamed
    rw [carries_mapFields]
    split
    · exact h.commutes change hchange node
    · rfl

theorem LocalChange.keepsTexts {change : NodeChange} (h : LocalChange change) (role : Role) :
    KeepsTexts (change role) := (h role).texts

/-- One change after another: the second one sees the nodes as the first one
leaves them. -/
def andThen (first second : NodeChange) : NodeChange :=
  fun role node => second role (first role node)

theorem LocalChange.andThen {first second : NodeChange} (hfirst : LocalChange first)
    (hsecond : LocalChange second) : LocalChange (andThen first second) :=
  fun role => (hfirst role).comp (hsecond role)

/-- Two changes in a row are one change by the composed edits. This is where
edits of a document become edits of single nodes; the laws of a list are all
that is needed from then on. -/
theorem mapNodes_mapNodes {first second : NodeChange} (hfirst : LocalChange first)
    (hsecond : ∀ role, KeepsTexts (second role)) (role : Role) (value : Json) :
    mapNodes second role (mapNodes first role value) =
      mapNodes (andThen first second) role value := by
  induction value using nodeInduction generalizing role with
  | object fields ih =>
      cases hgen : isGenerated fields with
      | true => simp only [mapNodes_of_isGenerated _ role hgen]
      | false =>
          have hgen' : isGenerated (first role (mapFields first fields)) = false := by
            rw [(hfirst role).texts.isGenerated, isGenerated_mapFields, hgen]
          have hbelow : mapFields second (mapFields first fields) =
              mapFields (andThen first second) fields := by
            rw [mapFields_eq_replaceChildren, mapFields_eq_replaceChildren,
              mapFields_eq_replaceChildren,
              replaceChildren_replaceChildren (keepsKind_mapNodes first)]
            exact replaceChildren_congr fun child hchild => ih child hchild child.1
          rw [mapNodes_of_not_isGenerated _ role hgen, mapNodes_of_not_isGenerated _ role hgen',
            mapNodes_of_not_isGenerated _ role hgen, (hfirst role).commutes second hsecond, hbelow]
          rfl
  | array items ih =>
      simp only [mapNodes_array, List.map_map]
      exact congrArg _ (List.map_congr_left fun item hitem => ih item hitem .pattern)
  | leaf value hobject harray => simp only [mapNodes_leaf _ role hobject harray]

theorem mapDocument_mapDocument {first second : NodeChange} (hfirst : LocalChange first)
    (hsecond : ∀ role, KeepsTexts (second role)) (document : Fields) :
    mapDocument second (mapDocument first document) =
      mapDocument (andThen first second) document := by
  apply Json.object.inj
  rw [← mapNodes_object, ← mapNodes_object, ← mapNodes_object, mapNodes_mapNodes hfirst hsecond]

/-- Edits the pattern lists of the nodes of two names, which may be one node.
The first edit goes first then, as it does in a patch. -/
def editBoth (first second : String) (f g : List Json → List Json) : NodeChange :=
  andThen (editNamed first (editPatterns f)) (editNamed second (editPatterns g))

theorem localChange_editBoth {f g : List Json → List Json} (first second : String)
    (hf : Natural f) (hg : Natural g) : LocalChange (editBoth first second f g) :=
  (localChange_editNamed first (localEdit_editPatterns hf)).andThen
    (localChange_editNamed second (localEdit_editPatterns hg))

theorem editBoth_apply (first second : String) (f g : List Json → List Json) (role : Role)
    (node : Fields) :
    editBoth first second f g role node =
      match carries role node first, carries role node second with
      | true, true => editPatterns (fun items => g (f items)) node
      | true, false => editPatterns f node
      | false, true => editPatterns g node
      | false, false => node := by
  unfold editBoth andThen editNamed
  cases hfirst : carries role node first <;> cases hsecond : carries role node second <;>
    simp [(keepsTexts_editPatterns _).carries, hsecond, editPatterns_editPatterns]

/-- Of two rounds of edits only the second one counts, if that is so for a
list with one of the names and for a list with both. A node that carries
neither name is left alone by both rounds. -/
theorem editBoth_editBoth {first second : String} {f g f' g' : List Json → List Json}
    (hf : ∀ items, f' (f items) = f' items) (hg : ∀ items, g' (g items) = g' items)
    (hboth : ∀ items, g' (f' (g (f items))) = g' (f' items)) :
    andThen (editBoth first second f g) (editBoth first second f' g') =
      editBoth first second f' g' := by
  funext role node
  unfold andThen
  have hcarries : ∀ name, carries role (editBoth first second f g role node) name =
      carries role node name := by
    intro name
    rw [editBoth_apply]
    split <;> simp [(keepsTexts_editPatterns _).carries]
  rw [editBoth_apply first second f' g', hcarries, hcarries, editBoth_apply, editBoth_apply]
  cases carries role node first <;> cases carries role node second <;>
    simp [editPatterns_editPatterns, hf, hg, hboth]

end SymbolPatterns.Grammar
