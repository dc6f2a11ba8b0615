import SymbolPatterns.Proofs.Patch.Content
import SymbolPatterns.Proofs.Patch.IncludeOrder

/-!
A patch of a document that was patched before does what it would have done to
the document before that. Each edit replaces its earlier trace, whatever stands
next to it: a new rule takes the place of the old one, the groups are taken out
of both lists before they go in again, and an order of directives is an order
already.
-/

namespace SymbolPatterns.Patch

open Json (Fields)
open Grammar

/-- A layout whose edits do not undo one another: tags that no comment
confuses, and at most one rule for directives, which does not move its own
target. The standard layout is one. -/
structure Settled (layout : Layout) : Prop where
  apart : Apart layout.types.group layout.functions.group
  oneRule : layout.includeOrder.length ≤ 1
  targetStays : ∀ rule ∈ layout.includeOrder, rule.before ∉ rule.includes

theorem settled_standard : Settled Layout.standard where
  apart := apart_standard
  oneRule := by decide
  targetStays := by decide

/-- Neither parent of a group is the document itself. Generated nodes in the
top-level list would stand in the way of the directives, and the order of the
two edits would show. -/
def ParentsBelow (layout : Layout) (document : Fields) : Prop :=
  ∀ group ∈ [layout.types, layout.functions], ∀ s,
    locate document group.parent = .ok s → s.address ≠ []

theorem orderItems_orderItems {layout : Layout} (h : Settled layout) (items : List Json) :
    orderItems layout.includeOrder (orderItems layout.includeOrder items) =
      orderItems layout.includeOrder items := by
  have hearlier : layout.includeOrder.Pairwise fun rule later => rule.before ∉ later.includes := by
    have hone := h.oneRule
    cases hrules : layout.includeOrder with
    | nil => exact .nil
    | cons rule rest =>
        rw [hrules, List.length_cons] at hone
        rw [List.eq_nil_of_length_eq_zero (by omega : rest.length = 0)]
        exact List.pairwise_singleton _ rule
  exact orderItems_of_met (met_orderItems ⟨h.targetStays, hearlier⟩ items)

theorem carries_mapDocument {change : NodeChange} (hkeeps : ∀ role, KeepsTexts (change role))
    (document : Fields) (name : String) :
    carries .pattern (mapDocument change document) name = carries .pattern document name := by
  unfold mapDocument
  split
  · rfl
  · rw [(hkeeps .pattern).carries, carries_mapFields]

/-- A change that passes the top-level list by on the document itself may come
before or after an edit of that list. It lets the order of directives be moved
past the changes of the second run. -/
private theorem mapDocument_editPatterns {change : NodeChange} {f : List Json → List Json}
    (hkeeps : ∀ role, KeepsTexts (change role)) (hf : Natural f) {document : Fields}
    (hself : ∀ node : Fields, carries .pattern node = carries .pattern document →
      change .pattern (editPatterns f node) = editPatterns f (change .pattern node)) :
    mapDocument change (editPatterns f document) =
      editPatterns f (mapDocument change document) := by
  have hedit := keepsTexts_editPatterns f
  unfold mapDocument
  rw [hedit.isGenerated]
  split
  · rfl
  · rw [(localEdit_editPatterns hf).commutes change hkeeps]
    exact hself _ (funext fun name => carries_mapFields change .pattern document name)

theorem ruleChange_editPatterns (target : MatchTarget) (names : List String)
    {f : List Json → List Json} (hf : Natural f) (document : Fields) :
    mapDocument (ruleChange target names) (editPatterns f document) =
      editPatterns f (mapDocument (ruleChange target names) document) := by
  apply mapDocument_editPatterns (localChange_ruleChange target names).keepsTexts hf
  intro node _
  unfold ruleChange editNamed
  rw [(keepsTexts_editPatterns f).carries]
  split
  · exact (editPatterns_setMatch f _ node).symm
  · rfl

theorem groupChange_editPatterns {group : GeneratedGroup} (chunks : List String)
    {f : List Json → List Json} (hf : Natural f) {document : Fields}
    (hbelow : carries .pattern document group.parent = false) :
    mapDocument (groupChange group chunks) (editPatterns f document) =
      editPatterns f (mapDocument (groupChange group chunks) document) := by
  apply mapDocument_editPatterns (localChange_groupChange group chunks).keepsTexts hf
  intro node hnode
  have hnot : carries .pattern node group.parent = false := by rw [hnode, hbelow]
  unfold groupChange editNamed
  simp [(keepsTexts_editPatterns f).carries, hnot]

/-- The changes of a patch, all but that of the top-level list, as one change
of nodes. Each looks at one node and what is below it, so they can be composed
node by node. -/
def changes (layout : Layout) (symbols : SymbolSet) (types functions : List String) : NodeChange :=
  andThen (ruleChange layout.namespaces symbols.namespaces.names)
    (editBoth layout.types.parent layout.functions.parent (groupItems layout.types types)
      (groupItems layout.functions functions))

theorem localChange_changes (layout : Layout) (symbols : SymbolSet)
    (types functions : List String) : LocalChange (changes layout symbols types functions) :=
  (localChange_ruleChange _ _).andThen
    (localChange_editBoth _ _ (natural_groupItems _ _) (natural_groupItems _ _))

theorem patched_eq (layout : Layout) (symbols : SymbolSet) (types functions : List String)
    (document : Fields) :
    patched layout symbols types functions document =
      editPatterns (orderItems layout.includeOrder)
        (mapDocument (changes layout symbols types functions) document) := by
  have hgroups : mapDocument (groupChange layout.functions functions)
      (mapDocument (groupChange layout.types types)
        (mapDocument (ruleChange layout.namespaces symbols.namespaces.names) document)) =
      mapDocument (editBoth layout.types.parent layout.functions.parent
        (groupItems layout.types types) (groupItems layout.functions functions))
        (mapDocument (ruleChange layout.namespaces symbols.namespaces.names) document) :=
    mapDocument_mapDocument (localChange_groupChange _ _) (localChange_groupChange _ _).keepsTexts _
  rw [patched, hgroups, mapDocument_mapDocument (localChange_ruleChange _ _)
    (localChange_editBoth _ _ (natural_groupItems _ _) (natural_groupItems _ _)).keepsTexts]
  rfl

private theorem editBoth_setMatch (first second : String) (f g : List Json → List Json)
    (name regex : String) (role : Role) (node : Fields) :
    editNamed name (setMatch regex) role (editBoth first second f g role node) =
      editBoth first second f g role (editNamed name (setMatch regex) role node) := by
  have hset := (localEdit_setMatch regex).texts
  have hedit := fun f => (keepsTexts_editPatterns f).carries
  unfold editNamed
  rw [editBoth_apply, editBoth_apply]
  cases hname : carries role node name with
  | false =>
      cases hfirst : carries role node first <;> cases hsecond : carries role node second <;>
        simp [hedit, hname, hfirst, hsecond]
  | true =>
      cases hfirst : carries role node first <;> cases hsecond : carries role node second <;>
        simp [hedit, hset.carries, hname, hfirst, hsecond, editPatterns_setMatch]

private theorem editNamed_setMatch_twice (name regex next : String) (role : Role)
    (node : Fields) :
    editNamed name (setMatch next) role (editNamed name (setMatch regex) role node) =
      editNamed name (setMatch next) role node := by
  have htwice : setMatch next (setMatch regex node) = setMatch next node :=
    Json.Fields.set_set ..
  unfold editNamed
  cases hname : carries role node name with
  | false => simp [hname]
  | true => simp [(localEdit_setMatch regex).texts.carries, hname, htwice]

/-- The changes of a patch leave no trace of the changes of an earlier one: on
every node the second rule and the second nodes take the place of the first. -/
theorem changes_changes {layout : Layout} (hapart : Apart layout.types.group layout.functions.group)
    (symbols next : SymbolSet) (types functions nextTypes nextFunctions : List String) :
    andThen (changes layout symbols types functions)
        (changes layout next nextTypes nextFunctions) =
      changes layout next nextTypes nextFunctions := by
  have hlists : andThen
      (editBoth layout.types.parent layout.functions.parent (groupItems layout.types types)
        (groupItems layout.functions functions))
      (editBoth layout.types.parent layout.functions.parent (groupItems layout.types nextTypes)
        (groupItems layout.functions nextFunctions)) = _ :=
    editBoth_editBoth
      (fun items => congrArg Prod.fst
        (upsert_upsert (groupNodes_belongsTo layout.types types) items _ _ _))
      (fun items => congrArg Prod.fst
        (upsert_upsert (groupNodes_belongsTo layout.functions functions) items _ _ _))
      (fun items => upsertBoth_upsertBoth _ items hapart (groupNodes_belongsTo _ _)
        (groupNodes_belongsTo _ _) (groupNodes_belongsTo _ _))
  funext role node
  unfold changes ruleChange
  simp only [andThen] at hlists ⊢
  rw [editBoth_setMatch, editNamed_setMatch_twice]
  exact congrFun (congrFun hlists role) _

/-- The second patch gives the document that it gives without the first. This
is about what the edits do; whether they succeed is asked apart from it. -/
theorem patched_patched {layout : Layout} (hsettled : Settled layout)
    (symbols next : SymbolSet) (types functions nextTypes nextFunctions : List String)
    {document : Fields} (htypes : carries .pattern document layout.types.parent = false)
    (hfunctions : carries .pattern document layout.functions.parent = false) :
    patched layout next nextTypes nextFunctions
        (patched layout symbols types functions document) =
      patched layout next nextTypes nextFunctions document := by
  have hnatural := natural_orderItems layout.includeOrder
  have hchanged := (localChange_changes layout symbols types functions).keepsTexts
  have hrule := (localChange_ruleChange layout.namespaces next.namespaces.names).keepsTexts
  have hgroup := (localChange_groupChange layout.types nextTypes).keepsTexts
  have hlast : mapDocument (changes layout next nextTypes nextFunctions)
      (mapDocument (changes layout symbols types functions) document) =
      mapDocument (changes layout next nextTypes nextFunctions) document := by
    rw [mapDocument_mapDocument (localChange_changes layout symbols types functions)
      (localChange_changes layout next nextTypes nextFunctions).keepsTexts,
      changes_changes hsettled.apart]
  rw [patched_eq layout symbols, patched]
  rw [ruleChange_editPatterns _ _ hnatural, groupChange_editPatterns _ hnatural,
    groupChange_editPatterns _ hnatural, editPatterns_editPatterns]
  · have hmerged := patched_eq layout next nextTypes nextFunctions
      (mapDocument (changes layout symbols types functions) document)
    have hdirect := patched_eq layout next nextTypes nextFunctions document
    rw [hlast] at hmerged
    rw [hdirect, ← hmerged, patched]
    congr 1
    funext items
    exact orderItems_orderItems hsettled items
  · rw [carries_mapDocument hgroup, carries_mapDocument hrule, carries_mapDocument hchanged,
      hfunctions]
  · rw [carries_mapDocument hrule, carries_mapDocument hchanged, htypes]

private theorem hasList_mapDocument_iff {change : NodeChange} {document : Fields} {name : String}
    (hkeeps : ∀ role, KeepsTexts (change role)) (hnodes : KeepsNodes change document)
    (hlist : ∀ role (node : Fields), ((change role node).items? "patterns").isSome =
      (node.items? "patterns").isSome) :
    HasList name (mapDocument change document) ↔ HasList name document := by
  have hvisit : ∀ node : Role × Fields, ((visit change node).2.items? "patterns").isSome =
      (node.2.items? "patterns").isSome := by
    intro node
    rw [visit, hlist, items?_mapFields, Option.isSome_map]
  unfold HasList
  rw [carriers_mapDocument hkeeps hnodes]
  constructor
  · rintro ⟨node, items, hnode, hitems⟩
    obtain ⟨old, hold, rfl⟩ := List.map_eq_singleton_iff.1 hnode
    have hsome := hvisit old
    rw [hitems] at hsome
    obtain ⟨listed, hlisted⟩ := Option.isSome_iff_exists.1 hsome.symm
    exact ⟨old, listed, hold, hlisted⟩
  · rintro ⟨node, items, hnode, hitems⟩
    have hsome := hvisit node
    rw [hitems] at hsome
    obtain ⟨listed, hlisted⟩ := Option.isSome_iff_exists.1 hsome
    exact ⟨visit change node, listed, by rw [hnode]; rfl, hlisted⟩

theorem hasList_groupChange_iff {group : GeneratedGroup} {chunks : List String}
    {document : Fields} {name : String} :
    HasList name (mapDocument (groupChange group chunks) document) ↔ HasList name document := by
  refine hasList_mapDocument_iff (localChange_groupChange group chunks).keepsTexts
    (keepsNodes_editPatterns (keepsItemNodes_groupItems group chunks) _ _) fun role node => ?_
  unfold groupChange editNamed
  split
  · rw [items?_editPatterns, Option.isSome_map]
  · rfl

/-- Setting a rule that is a text already hides no list. A node whose rule was
no text is found by it only afterwards, so the condition is needed. -/
theorem hasList_ruleChange_iff {target : MatchTarget} {names : List String} {document : Fields}
    {name : String} (h : HasTextRule target.node document) :
    HasList name (mapDocument (ruleChange target names) document) ↔ HasList name document := by
  refine hasList_mapDocument_iff (localChange_ruleChange target names).keepsTexts
    (keepsNodes_setMatch _ h) fun role node => ?_
  unfold ruleChange editNamed
  split
  · have hkept : (setMatch (namespaceRule target names) node).items? "patterns" =
        node.items? "patterns" :=
      Json.Fields.items?_congr (Json.Fields.get?_set_of_ne node _ (by decide))
    rw [hkept]
  · rfl

theorem RuleStands.hasTextRule {name regex : String} {document : Fields}
    (h : RuleStands name regex document) : HasTextRule name document := by
  obtain ⟨found, hfind, hmatch⟩ := h
  obtain ⟨role, hone⟩ := find_eq_ok_iff.1 hfind
  intro node hnode value hvalue
  rw [hone, List.mem_singleton] at hnode
  rw [hnode, hmatch] at hvalue
  exact ⟨regex, (Option.some.inj hvalue).symm⟩

theorem RuleStands.found {name regex : String} {document : Fields}
    (h : RuleStands name regex document) : Found name document := by
  obtain ⟨node, hfind, -⟩ := h
  obtain ⟨role, hone⟩ := find_eq_ok_iff.1 hfind
  exact ⟨_, hone⟩

/-- Other symbols are patched into the same documents: a rule is set in any
case, and below it neither rules nor chunks decide what is found. -/
theorem Patchable.other {layout : Layout} {symbols : SymbolSet} {types : List String}
    {document : Fields} (h : Patchable layout symbols types document) (next : SymbolSet)
    (nextTypes : List String) : Patchable layout next nextTypes document := by
  have htext : HasTextRule layout.namespaces.node
      (mapDocument (ruleChange layout.namespaces symbols.namespaces.names) document) :=
    (ruleStands_of_found h.rule).hasTextRule
  -- A rule set after another one is the rule set alone, and the first has made it a text.
  have hagain : mapDocument (ruleChange layout.namespaces next.namespaces.names)
      (mapDocument (ruleChange layout.namespaces symbols.namespaces.names) document) =
      mapDocument (ruleChange layout.namespaces next.namespaces.names) document := by
    have htwice : andThen (ruleChange layout.namespaces symbols.namespaces.names)
        (ruleChange layout.namespaces next.namespaces.names) =
        ruleChange layout.namespaces next.namespaces.names := by
      funext role node
      exact editNamed_setMatch_twice _ _ _ role node
    rw [mapDocument_mapDocument (localChange_ruleChange _ _)
      (localChange_ruleChange _ _).keepsTexts, htwice]
  have hlists : ∀ name, HasList name
      (mapDocument (ruleChange layout.namespaces symbols.namespaces.names) document) →
      HasList name (mapDocument (ruleChange layout.namespaces next.namespaces.names) document) :=
    fun name hname => hagain ▸ (hasList_ruleChange_iff htext).2 hname
  exact ⟨h.rule, hlists _ h.typeList,
    hasList_groupChange_iff.2 (hlists _ (hasList_groupChange_iff.1 h.functionList))⟩

theorem patchable_patched {layout : Layout} (hsettled : Settled layout) {symbols : SymbolSet}
    {types : List String} {document : Fields} (h : Patchable layout symbols types document)
    (functions : List String) (next : SymbolSet) (nextTypes : List String) :
    Patchable layout next nextTypes (patched layout symbols types functions document) := by
  obtain ⟨hrule, htypes, hfunctions⟩ := patched_stands hsettled.apart h functions
  refine ⟨hrule.found, ?_, hasList_groupChange_iff.2 ?_⟩
  · exact (hasList_ruleChange_iff hrule.hasTextRule).2 htypes.hasList
  · exact (hasList_ruleChange_iff hrule.hasTextRule).2 hfunctions.hasList

/-- A document that carries a name itself is found at the empty address, as
another carrier of the name would have made it ambiguous. -/
private theorem address_eq_nil {document : Fields} {name : String} {s : Sighting}
    (hcarries : carries .pattern document name = true) (h : locate document name = .ok s) :
    s.address = [] := by
  have hvisible := isGenerated_of_found ⟨_, carriers_of_locate h⟩
  have hone := locate_eq_ok_iff.1 h
  rw [visibleNodes, sightings, if_neg (by simp [hvisible])] at hone
  simp only [List.filter_cons, hcarries, if_true] at hone
  obtain ⟨rfl, -⟩ := List.cons.inj hone
  rfl

/-- Where the parent of a group is found below, the document itself does not
carry its name. This turns the condition on addresses into one on nodes. -/
theorem carries_parent_eq_false {layout : Layout} {document : Fields} {group : GeneratedGroup}
    (hbelow : ParentsBelow layout document) (hgroup : group ∈ [layout.types, layout.functions])
    (hlist : HasList group.parent document) : carries .pattern document group.parent = false := by
  obtain ⟨s, items, hlocate, -⟩ := hasList_iff.1 hlist
  cases hcarries : carries .pattern document group.parent with
  | false => rfl
  | true => exact absurd (address_eq_nil hcarries hlocate) (hbelow group hgroup s hlocate)

theorem carries_patched (layout : Layout) (symbols : SymbolSet) (types functions : List String)
    (document : Fields) (name : String) :
    carries .pattern (patched layout symbols types functions document) name =
      carries .pattern document name := by
  rw [patched_eq, (keepsTexts_editPatterns _).carries,
    carries_mapDocument (localChange_changes layout symbols types functions).keepsTexts]

/-- A patch of a patched document has the outcome that it has on the document
before, and if it succeeds also its result. A failure is the same failure,
though the documents it leaves behind may differ. -/
theorem apply_apply {options : Options} {symbols : SymbolSet} {document result : Fields}
    {count : Nat} (hsettled : Settled options.layout)
    (hbelow : ParentsBelow options.layout result)
    (h : apply options symbols document = (result, .ok count)) (next : SymbolSet) :
    (apply options next result).2 = (apply options next document).2 ∧
      ((apply options next document).2.isOk →
        (apply options next result).1 = (apply options next document).1) := by
  obtain ⟨types, functions, -, -, hpatchable, rfl, -⟩ := apply_eq_ok_iff.1 h
  rcases apply_cases options next with ⟨failure, hfail⟩ |
    ⟨nextTypes, nextFunctions, -, -, happly⟩
  · rw [hfail, hfail]
    exact ⟨rfl, fun hok => by cases hok⟩
  obtain ⟨-, htypes, hfunctions⟩ := patched_stands hsettled.apart hpatchable functions
  have htypeRoot := carries_parent_eq_false hbelow (by simp) htypes.hasList
  have hfunctionRoot := carries_parent_eq_false hbelow (by simp) hfunctions.hasList
  rw [carries_patched] at htypeRoot hfunctionRoot
  have hsame := patched_patched hsettled symbols next types functions nextTypes nextFunctions
    htypeRoot hfunctionRoot
  rw [happly, happly,
    run_edits_of_patchable nextFunctions (patchable_patched hsettled hpatchable functions _ _),
    run_edits_of_patchable nextFunctions (hpatchable.other next nextTypes), hsame]
  exact ⟨rfl, fun _ => rfl⟩

end SymbolPatterns.Patch
