import SymbolPatterns.Proofs.Grammar.Locality

/-!
What lookup sees after an edit. Generated nodes are invisible, so replacing a
group and reordering a list show the same nodes as before, and a name that was
found stays found.
-/

namespace SymbolPatterns.Grammar

open Json (Fields)

/-- The nodes below a field that is set take the place of those below its old
value. Those of the other fields are in front and behind. -/
theorem innerNodes_set {node : Fields} {key : String} {old : Json}
    (h : node.get? key = some old) :
    ∃ front rest, ∀ value, innerNodes (node.set key value) =
      front ++ (fieldNodes key value ++ rest) ∧
        innerNodes node = front ++ (fieldNodes key old ++ rest) := by
  obtain ⟨front, rest, hsplit, -, hset⟩ := Json.Fields.exists_split_of_get? h
  refine ⟨innerNodes front, innerNodes rest, fun value => ⟨?_, ?_⟩⟩
  · rw [hset value, innerNodes_append, innerNodes_cons]
  · rw [hsplit, innerNodes_append, innerNodes_cons]

theorem childrenOf_array (key : String) (items : List Json) :
    childrenOf key (.array items) = [(.pattern, .array items)] :=
  childrenOf_value (by simp [HoldsEntries, Json.fields?])

/-- A match rule contains no nodes if it is a text. Any other value may hold
nodes, and they go with it. -/
theorem innerNodes_setMatch {node : Fields} (regex : String)
    (h : ∀ value, node.get? "match" = some value → ∃ text, value = .string text) :
    innerNodes (setMatch regex node) = innerNodes node := by
  cases hmatch : node.get? "match" with
  | none =>
      rw [setMatch, Json.Fields.set_of_get?_eq_none _ hmatch, innerNodes_append, innerNodes_cons,
        fieldNodes_string]
      simp [innerNodes]
  | some value =>
      obtain ⟨text, rfl⟩ := h value hmatch
      obtain ⟨front, rest, hset⟩ := innerNodes_set hmatch
      obtain ⟨hnew, hold⟩ := hset (.string regex)
      rw [setMatch, hnew, hold, fieldNodes_string, fieldNodes_string]

/-- A new match rule takes nodes away but brings none, for a text holds no
nodes. -/
theorem carriers_innerNodes_setMatch {name : String} {node : Fields} (regex : String)
    (h : carriers name (innerNodes node) = []) :
    carriers name (innerNodes (setMatch regex node)) = [] := by
  cases hmatch : node.get? "match" with
  | none => rw [innerNodes_setMatch regex (by simp [hmatch]), h]
  | some value =>
      obtain ⟨front, rest, hset⟩ := innerNodes_set hmatch
      obtain ⟨hnew, hold⟩ := hset (.string regex)
      rw [hold] at h
      simp only [carriers_append, List.append_eq_nil_iff] at h
      rw [setMatch, hnew, fieldNodes_string]
      simp [h]

def itemNodes (items : List Json) : List (Role × Fields) := items.flatMap (nodes .pattern)

theorem innerNodes_editPatterns (f : List Json → List Json) (node : Fields) :
    innerNodes (editPatterns f node) = innerNodes node ∨
      ∃ front rest items, innerNodes node = front ++ (itemNodes items ++ rest) ∧
        innerNodes (editPatterns f node) = front ++ (itemNodes (f items) ++ rest) := by
  cases hitems : node.items? "patterns" with
  | none => exact .inl (by rw [editPatterns_none hitems])
  | some items =>
      obtain ⟨front, rest, hset⟩ := innerNodes_set (Json.Fields.items?_eq_some_iff.1 hitems)
      obtain ⟨hnew, hold⟩ := hset (.array (f items))
      refine .inr ⟨front, rest, items, ?_, ?_⟩
      · rw [hold, fieldNodes_array, itemNodes]
      · rw [editPatterns_some hitems, hnew, fieldNodes_array, itemNodes]

theorem nodes_eq_nil_of_belongsTo {group : String} {item : Json}
    (h : belongsTo group item = true) : nodes .pattern item = [] := by
  cases item with
  | object node => exact nodes_of_isGenerated _ (isGenerated_of_isInGroup h)
  | _ => cases h

theorem itemNodes_withoutGroup (group : String) (items : List Json) :
    itemNodes (withoutGroup group items) = itemNodes items := by
  unfold itemNodes withoutGroup
  induction items with
  | nil => rfl
  | cons item rest ih =>
      cases hitem : belongsTo group item with
      | true =>
          rw [List.filter_cons_of_neg (by simp [hitem]), ih, List.flatMap_cons,
            nodes_eq_nil_of_belongsTo hitem, List.nil_append]
      | false =>
          rw [List.filter_cons_of_pos (by simp [hitem]), List.flatMap_cons, List.flatMap_cons, ih]

theorem itemNodes_upsert {group : String} {added : List Json} (items : List Json)
    (anchor : String) (placement : Placement) (h : ∀ x ∈ added, belongsTo group x = true) :
    itemNodes (upsert items group added anchor placement).1 = itemNodes items := by
  have hadded : added.flatMap (nodes .pattern) = [] :=
    List.flatMap_eq_nil_iff.2 fun x hx => nodes_eq_nil_of_belongsTo (h x hx)
  rw [← itemNodes_withoutGroup group items, upsert_items]
  unfold itemNodes insertNear
  rw [List.flatMap_append, List.flatMap_append, hadded, List.append_nil, ← List.flatMap_append,
    List.take_append_drop]

/-- A visible node after a change of all nodes: first the nodes below it are
changed, then the node. -/
def visit (change : NodeChange) (node : Role × Fields) : Role × Fields :=
  (node.1, change node.1 (mapFields change node.2))

/-- A change that keeps the nodes below every visible node. It is asked of the
nodes of one document, since setting a rule hides nodes in some documents and
not in others. -/
def KeepsNodes (change : NodeChange) (document : Fields) : Prop :=
  ∀ node ∈ documentNodes document,
    innerNodes (change node.1 (mapFields change node.2)) = innerNodes (mapFields change node.2)

theorem documentNodes_mapDocument {change : NodeChange} (h : ∀ role, KeepsTexts (change role))
    {document : Fields} (hinner : KeepsNodes change document) :
    documentNodes (mapDocument change document) = (documentNodes document).map (visit change) := by
  rw [documentNodes, ← mapNodes_object]
  exact nodes_mapNodes (fun role node => (h role).isGenerated node) hinner

theorem carriers_map_visit {change : NodeChange} (h : ∀ role, KeepsTexts (change role))
    (name : String) (found : List (Role × Fields)) :
    carriers name (found.map (visit change)) = (carriers name found).map (visit change) := by
  unfold carriers
  rw [List.filter_map]
  refine congrArg _ (List.filter_congr fun node _ => ?_)
  simp [visit, (h node.1).carries]

/-- A name that is found stays found, at the changed node. A name that is not
found, or at several nodes, stays so as well. -/
theorem carriers_mapDocument {change : NodeChange} (h : ∀ role, KeepsTexts (change role))
    {document : Fields} (hinner : KeepsNodes change document) (name : String) :
    carriers name (documentNodes (mapDocument change document)) =
      (carriers name (documentNodes document)).map (visit change) := by
  rw [documentNodes_mapDocument h hinner, carriers_map_visit h]

/-- A change of pattern lists that shows the same nodes, in their order. -/
def KeepsItemNodes (f : List Json → List Json) : Prop :=
  ∀ items, itemNodes (f items) = itemNodes items

theorem keepsNodes_editPatterns {f : List Json → List Json} (hf : KeepsItemNodes f)
    (name : String) (document : Fields) :
    KeepsNodes (editNamed name (editPatterns f)) document := by
  intro node _
  unfold editNamed
  split
  · rcases innerNodes_editPatterns f (mapFields _ node.2) with
      heq | ⟨front, rest, items, hold, hnew⟩
    · exact heq
    · rw [hnew, hold, hf]
  · rfl

/-- A node that carries a name has a match rule that is a text, if any. After
the first patch the node of the namespaces has one. -/
def HasTextRule (name : String) (document : Fields) : Prop :=
  ∀ node ∈ carriers name (documentNodes document), ∀ value,
    node.2.get? "match" = some value → ∃ text, value = .string text

theorem keepsNodes_setMatch {name : String} {document : Fields} (regex : String)
    (h : HasTextRule name document) :
    KeepsNodes (editNamed name (setMatch regex)) document := by
  intro node hnode
  unfold editNamed
  split
  · next hcarries =>
    apply innerNodes_setMatch regex
    intro value hvalue
    rw [carries_mapFields] at hcarries
    rw [get?_mapFields, Option.map_eq_some_iff] at hvalue
    obtain ⟨old, hold, rfl⟩ := hvalue
    obtain ⟨text, rfl⟩ := h node (List.mem_filter.2 ⟨hnode, hcarries⟩) old hold
    exact ⟨text, replaceUnder_mapNodes_string ..⟩
  · rfl

/-- Setting the match rule of the node that carries a name does not hide the
node, nor does it bring another one to light. Other names may be lost with
what the old rule held. -/
theorem carriers_setMatch {name : String} {document : Fields} {node : Role × Fields}
    (regex : String) (h : carriers name (documentNodes document) = [node]) :
    carriers name (documentNodes (mapDocument (editNamed name (setMatch regex)) document)) =
      [(node.1, setMatch regex node.2)] := by
  have hlocal := localEdit_setMatch regex
  rw [documentNodes, ← mapNodes_object]
  exact carriers_nodes_mapNodes hlocal.texts.isGenerated
    (fun role node => hlocal.texts.carries role node name)
    (fun _ => carriers_innerNodes_setMatch regex) h

/-- Permuting the top-level list keeps every name that is found at its node;
only the document itself may change, and then only in this list. -/
theorem carriers_permute {f : List Json → List Json} (hf : ∀ items, (f items).Perm items)
    {name : String} {document : Fields} {role : Role} {node : Fields}
    (h : carriers name (documentNodes document) = [(role, node)]) :
    carriers name (documentNodes (editPatterns f document)) = [(role, node)] ∨
      role = .pattern ∧ node = document ∧
        carriers name (documentNodes (editPatterns f document)) =
          [(role, editPatterns f document)] := by
  have hkeeps := keepsTexts_editPatterns f
  have hperm : (carriers name (innerNodes (editPatterns f document))).Perm
      (carriers name (innerNodes document)) := by
    apply List.Perm.filter
    rcases innerNodes_editPatterns f document with heq |
      ⟨front, rest, items, hold, hnew⟩
    · rw [heq]
    · rw [hnew, hold]
      exact List.Perm.append_left _ (List.Perm.append_right _ ((hf items).flatMap_right _))
  cases hgen : isGenerated document with
  | true => simp [documentNodes, nodes_of_isGenerated _ hgen] at h
  | false =>
      have hgen' : isGenerated (editPatterns f document) = false := by
        rw [hkeeps.isGenerated, hgen]
      rw [documentNodes, nodes_of_not_isGenerated _ hgen] at h
      rw [documentNodes, nodes_of_not_isGenerated _ hgen']
      cases hcarries : carries .pattern document name with
      | true =>
          simp only [carriers, List.filter_cons, hcarries, if_true] at h
          obtain ⟨hself, hbelow⟩ := List.cons.inj h
          obtain ⟨rfl, rfl⟩ := Prod.mk.inj hself
          have hnone := hperm.trans (List.Perm.of_eq hbelow)
          refine .inr ⟨rfl, rfl, ?_⟩
          simp only [carriers, List.filter_cons, hkeeps.carries, hcarries, if_true]
          exact congrArg (List.cons _) hnone.eq_nil
      | false =>
          simp only [carriers, List.filter_cons, hcarries, Bool.false_eq_true, if_false] at h
          have hone := hperm.trans (List.Perm.of_eq h)
          refine .inl ?_
          simp only [carriers, List.filter_cons, hkeeps.carries, hcarries, Bool.false_eq_true,
            if_false]
          exact List.perm_singleton.1 hone

end SymbolPatterns.Grammar
