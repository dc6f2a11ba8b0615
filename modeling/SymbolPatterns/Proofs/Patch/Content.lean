import SymbolPatterns.Proofs.Patch.Edits
import SymbolPatterns.Proofs.Symbol.Alternation
import SymbolPatterns.Proofs.Symbol.SymbolSet
import SymbolPatterns.Proofs.Symbol.Template

/-!
What a patched document holds. Every edit establishes one fact about its node,
found again by its name: the namespace rule, or the block of one group. The
edits that follow keep it, whether they change the same list, a list above or
below it, or the order of the top-level list.
-/

namespace SymbolPatterns.Patch

open Json (Fields)
open Grammar

/-- The node of a name is found and has this match rule. The name is looked up
in the document at hand, so the edits that follow have to keep the node in
sight as well as its rule. -/
def RuleStands (name regex : String) (document : Fields) : Prop :=
  ∃ node, find document name = .ok node ∧ node.get? "match" = some (.string regex)

/-- The parent of a group is found, and the nodes of the group in its list are
one block with a node for each chunk. Nothing around the block is of the
group, so no node of an earlier run is left. -/
def GroupStands (group : GeneratedGroup) (chunks : List String) (document : Fields) : Prop :=
  ∃ node front rest, find document group.parent = .ok node ∧
    node.items? "patterns" = some (front ++ (groupNodes group chunks ++ rest)) ∧
    ∀ item ∈ front ++ rest, belongsTo group.group item = false

/-- The alternatives of the chunks are the names, once each and longer ones
first. Without names there is one chunk, which matches nothing. This is a
statement about the text of the chunks: the alternatives are read back from
it. -/
def ListsNames (chunks names : List String) : Prop :=
  (names = [] → chunks = [Symbol.neverMatch]) ∧
    (names ≠ [] →
      (chunks.flatMap Symbol.alternativesIn).Pairwise (Symbol.longerFirst · · = true) ∧
      (chunks.flatMap Symbol.alternativesIn).Nodup ∧
      ∀ name, name ∈ chunks.flatMap Symbol.alternativesIn ↔ name ∈ names)

theorem listsNames_of_chunks {limit : Nat} {names chunks : List String}
    (hnames : ∀ name ∈ names, Symbol.isScopedIdentifier name = true)
    (h : Symbol.chunks limit names = .ok chunks) : ListsNames chunks names := by
  constructor
  · intro hnil
    rw [hnil, Symbol.chunks_nil] at h
    exact (Except.ok.inj h).symm
  · intro hne
    have hordered := Symbol.pairwise_arranged_longerFirst names
    rw [Symbol.flatMap_alternativesIn_chunks hnames hne h]
    exact ⟨hordered, Symbol.nodup_of_pairwise_longerFirst hordered,
      fun name => Symbol.mem_arranged Symbol.longerFirst⟩

theorem listsNames_alternation {names : List String}
    (hnames : ∀ name ∈ names, Symbol.isScopedIdentifier name = true) :
    ListsNames [Symbol.alternation names] names := by
  constructor
  · rintro rfl
    rfl
  · intro hne
    have hordered := Symbol.pairwise_arranged_longerFirst names
    rw [List.flatMap_singleton, Symbol.alternativesIn_alternation hnames hne]
    exact ⟨hordered, Symbol.nodup_of_pairwise_longerFirst hordered,
      fun name => Symbol.mem_arranged Symbol.longerFirst⟩

theorem ruleStands_of_found {target : MatchTarget} {names : List String} {document : Fields}
    (h : Found target.node document) :
    RuleStands target.node (namespaceRule target names)
      (mapDocument (ruleChange target names) document) := by
  obtain ⟨node, hnode⟩ := h
  refine ⟨_, find_eq_ok_iff.2 ⟨node.1, carriers_setMatch _ hnode⟩, ?_⟩
  exact Json.Fields.get?_set_self ..

theorem RuleStands.groupChange {name regex : String} {document : Fields}
    (h : RuleStands name regex document) (group : GeneratedGroup) (chunks : List String) :
    RuleStands name regex (mapDocument (groupChange group chunks) document) := by
  obtain ⟨node, hfind, hmatch⟩ := h
  obtain ⟨role, hnode⟩ := find_eq_ok_iff.1 hfind
  have hfound := carriers_mapDocument (localChange_groupChange group chunks).keepsTexts
    (keepsNodes_editPatterns (keepsItemNodes_groupItems group chunks) group.parent document) name
  rw [hnode] at hfound
  refine ⟨_, find_eq_ok_iff.2 ⟨role, hfound⟩, ?_⟩
  have hmapped : (mapFields (Patch.groupChange group chunks) node).get? "match" =
      some (.string regex) := by
    rw [get?_mapFields, hmatch, Option.map_some, replaceUnder_mapNodes_string]
  unfold Patch.groupChange editNamed at hmapped ⊢
  split
  · rw [get?_editPatterns_of_ne _ _ (by decide), hmapped]
  · exact hmapped

theorem RuleStands.orderItems {name regex : String} {document : Fields}
    (h : RuleStands name regex document) (rules : List IncludeRule) :
    RuleStands name regex (editPatterns (orderItems rules) document) := by
  obtain ⟨node, hfind, hmatch⟩ := h
  obtain ⟨role, hnode⟩ := find_eq_ok_iff.1 hfind
  rcases carriers_permute (orderItems_perm rules) hnode with hsame | ⟨rfl, rfl, hself⟩
  · exact ⟨node, find_eq_ok_iff.2 ⟨role, hsame⟩, hmatch⟩
  · refine ⟨_, find_eq_ok_iff.2 ⟨.pattern, hself⟩, ?_⟩
    rw [get?_editPatterns_of_ne _ _ (by decide), hmatch]

theorem groupItems_eq (group : GeneratedGroup) (chunks : List String) (items : List Json) :
    ∃ front rest, groupItems group chunks items = front ++ (groupNodes group chunks ++ rest) ∧
      front ++ rest = withoutGroup group.group items := by
  have hinsert : ∃ index, groupItems group chunks items =
      (withoutGroup group.group items).take index ++ groupNodes group chunks ++
        (withoutGroup group.group items).drop index := ⟨_, rfl⟩
  obtain ⟨index, hindex⟩ := hinsert
  exact ⟨_, _, by rw [hindex, List.append_assoc], List.take_append_drop index _⟩

/-- An edit of a list leaves the node of every name where lookup finds it.
Generated nodes carry no name that lookup sees, so neither those put in nor
those taken out can hide a node. -/
theorem find_groupChange {group : GeneratedGroup} {chunks : List String}
    {document : Fields} {name : String} {role : Role} {node : Fields}
    (h : carriers name (documentNodes document) = [(role, node)]) :
    find (mapDocument (groupChange group chunks) document) name =
      .ok (groupChange group chunks role (mapFields (groupChange group chunks) node)) := by
  have hfound := carriers_mapDocument (localChange_groupChange group chunks).keepsTexts
    (keepsNodes_editPatterns (keepsItemNodes_groupItems group chunks) group.parent document) name
  rw [h] at hfound
  exact find_eq_ok_iff.2 ⟨role, hfound⟩

/-- The list of a node after an edit: items may change below, and if the edit
is for the node, the group is put in. Both can happen to one list, as a parent
may have another parent below it. -/
theorem items?_groupChange (group : GeneratedGroup) (chunks : List String) (role : Role)
    {node : Fields} {items : List Json} (h : node.items? "patterns" = some items) :
    (groupChange group chunks role (mapFields (groupChange group chunks) node)).items? "patterns" =
      some (if carries role node group.parent then
          groupItems group chunks (items.map (mapNodes (groupChange group chunks) .pattern))
        else items.map (mapNodes (groupChange group chunks) .pattern)) := by
  have hbelow := items?_mapFields (groupChange group chunks) node "patterns"
  rw [h, Option.map_some] at hbelow
  change (if carries role (mapFields (groupChange group chunks) node) group.parent then
    editPatterns (groupItems group chunks) _ else _).items? "patterns" = _
  rw [carries_mapFields]
  split
  · rw [items?_editPatterns, hbelow]
    rfl
  · exact hbelow

theorem groupStands_of_hasList {group : GeneratedGroup} {chunks : List String}
    {document : Fields} (h : HasList group.parent document) :
    GroupStands group chunks (mapDocument (groupChange group chunks) document) := by
  obtain ⟨⟨role, node⟩, items, hnode, hitems⟩ := h
  have hcarries : carries role node group.parent = true := carries_of_carriers hnode
  obtain ⟨front, rest, hblock, hkept⟩ :=
    groupItems_eq group chunks (items.map (mapNodes (groupChange group chunks) .pattern))
  refine ⟨_, front, rest, find_groupChange hnode, ?_, fun item hitem => ?_⟩
  · rw [items?_groupChange group chunks role hitems, if_pos hcarries, hblock]
  · rw [hkept] at hitem
    simpa using List.of_mem_filter hitem

theorem GroupStands.hasList {group : GeneratedGroup} {chunks : List String} {document : Fields}
    (h : GroupStands group chunks document) : HasList group.parent document := by
  obtain ⟨node, front, rest, hfind, hitems, -⟩ := h
  obtain ⟨role, hone⟩ := find_eq_ok_iff.1 hfind
  exact ⟨_, _, hone, hitems⟩

/-- The nodes of another group go around the block of this one. Tags that are
apart are needed here: else the other group would take nodes out of the block. -/
private theorem groupItems_block {group other : GeneratedGroup} {chunks : List String}
    (others : List String) {front rest : List Json} (hapart : Apart group.group other.group)
    (hnone : ∀ item ∈ front ++ rest, belongsTo group.group item = false) :
    ∃ front' rest',
      groupItems other others (front ++ (groupNodes group chunks ++ rest)) =
        front' ++ (groupNodes group chunks ++ rest') ∧
      ∀ item ∈ front' ++ rest', belongsTo group.group item = false := by
  have hmine := groupNodes_belongsTo group chunks
  have hkept : withoutGroup other.group (groupNodes group chunks) = groupNodes group chunks :=
    withoutGroup_eq_self fun x hx => hapart.not_belongsTo (hmine x hx)
  have hanchors : ∀ x ∈ groupNodes group chunks, isAnchor other.anchor x = false :=
    fun x hx => isAnchor_eq_false_of_belongsTo (hmine x hx)
  obtain ⟨front', rest', hblock, hperm⟩ :=
    insertNear_block other.placement (groupNodes other others)
      (withoutGroup other.group front) (withoutGroup other.group rest) hanchors
  refine ⟨front', rest', ?_, fun item hitem => ?_⟩
  · rw [groupItems, upsert_items, ← hblock]
    simp only [withoutGroup, List.filter_append] at hkept ⊢
    rw [hkept]
  · rcases List.mem_append.1 (hperm.mem_iff.1 hitem) with hnew | hold
    · exact hapart.symm.not_belongsTo (groupNodes_belongsTo other others item hnew)
    · apply hnone item
      rw [withoutGroup, withoutGroup, ← List.filter_append] at hold
      exact List.mem_of_mem_filter hold

/-- The items below a list may change with the list of another group, but a
block of generated nodes holds no visible node and stays. What stands around
it has changed, and still nothing of it is of the group. -/
theorem exists_block_map {group : GeneratedGroup} {chunks : List String} {front rest : List Json}
    (hnone : ∀ item ∈ front ++ rest, belongsTo group.group item = false)
    (other : GeneratedGroup) (others : List String) :
    ∃ front' rest', (front ++ (groupNodes group chunks ++ rest)).map
        (mapNodes (Patch.groupChange other others) .pattern) =
        front' ++ (groupNodes group chunks ++ rest') ∧
      ∀ item ∈ front' ++ rest', belongsTo group.group item = false := by
  have htransparent : Transparent (mapNodes (Patch.groupChange other others) .pattern) :=
    transparent_mapNodes (localChange_groupChange other others).keepsTexts .pattern
  have hsame : (groupNodes group chunks).map
      (mapNodes (Patch.groupChange other others) .pattern) = groupNodes group chunks :=
    (List.map_congr_left fun x hx => htransparent.eq_self (groupNodes_belongsTo _ _ x hx)).trans
      (List.map_id' _)
  refine ⟨front.map (mapNodes (Patch.groupChange other others) .pattern),
    rest.map (mapNodes (Patch.groupChange other others) .pattern), ?_, fun item hitem => ?_⟩
  · rw [List.map_append, List.map_append, hsame]
  · rw [← List.map_append] at hitem
    obtain ⟨old, hold, rfl⟩ := List.mem_map.1 hitem
    rw [htransparent.belongsTo, hnone old hold]

theorem GroupStands.groupChange {group other : GeneratedGroup} {chunks : List String}
    {document : Fields} (h : GroupStands group chunks document)
    (hapart : Apart group.group other.group) (others : List String) :
    GroupStands group chunks (mapDocument (groupChange other others) document) := by
  obtain ⟨node, front, rest, hfind, hitems, hnone⟩ := h
  obtain ⟨role, hnode⟩ := find_eq_ok_iff.1 hfind
  obtain ⟨front', rest', hbelow, hnone'⟩ := exists_block_map hnone other others
  have hlist := items?_groupChange other others role hitems
  rw [hbelow] at hlist
  cases hcarries : carries role node other.parent with
  | false =>
      rw [hcarries, if_neg Bool.false_ne_true] at hlist
      exact ⟨_, front', rest', find_groupChange hnode, hlist, hnone'⟩
  | true =>
      obtain ⟨front'', rest'', hblock, hothers⟩ := groupItems_block others hapart hnone'
      rw [hcarries, if_pos rfl, hblock] at hlist
      exact ⟨_, front'', rest'', find_groupChange hnode, hlist, hothers⟩

private theorem orderItems_block {block : List Json} (hblock : ∀ x ∈ block, includeTarget? x = none)
    (rules : List IncludeRule) (front rest : List Json) :
    ∃ front' rest', orderItems rules (front ++ (block ++ rest)) = front' ++ (block ++ rest') ∧
      (front' ++ rest').Perm (front ++ rest) := by
  induction rules generalizing front rest with
  | nil => exact ⟨front, rest, rfl, List.Perm.refl _⟩
  | cons rule rules ih =>
      obtain ⟨front₁, rest₁, hfirst, hperm₁⟩ :=
        reorder_block rule.includes rule.before front rest hblock
      obtain ⟨front₂, rest₂, hothers, hperm₂⟩ := ih front₁ rest₁
      refine ⟨front₂, rest₂, ?_, hperm₂.trans hperm₁⟩
      rw [← hothers, ← hfirst]
      rfl

theorem includeTarget?_groupNodes (group : GeneratedGroup) (chunks : List String) :
    ∀ x ∈ groupNodes group chunks, includeTarget? x = none := by
  intro x hx
  obtain ⟨index, hindex, rfl⟩ := List.mem_mapIdx.1 hx
  rfl

theorem GroupStands.orderItems {group : GeneratedGroup} {chunks : List String} {document : Fields}
    (h : GroupStands group chunks document) (rules : List IncludeRule) :
    GroupStands group chunks (editPatterns (orderItems rules) document) := by
  obtain ⟨node, front, rest, hfind, hitems, hnone⟩ := h
  obtain ⟨role, hnode⟩ := find_eq_ok_iff.1 hfind
  rcases carriers_permute (orderItems_perm rules) hnode with hsame | ⟨rfl, rfl, hself⟩
  · exact ⟨node, front, rest, find_eq_ok_iff.2 ⟨role, hsame⟩, hitems, hnone⟩
  · obtain ⟨front', rest', hordered, hperm⟩ :=
      orderItems_block (includeTarget?_groupNodes group chunks) rules front rest
    refine ⟨_, front', rest', find_eq_ok_iff.2 ⟨.pattern, hself⟩, ?_, fun item hitem => ?_⟩
    · rw [items?_editPatterns, hitems]
      exact congrArg some hordered
    · exact hnone item (hperm.mem_iff.1 hitem)

theorem apart_standard : Apart Layout.standard.types.group Layout.standard.functions.group := by
  refine ⟨by decide, ?_, ?_⟩
  · rw [← List.isPrefixOf_iff_prefix]
    decide
  · rw [← List.isPrefixOf_iff_prefix]
    decide

theorem patched_stands {layout : Layout} {symbols : SymbolSet} {types : List String}
    {document : Fields} (hapart : Apart layout.types.group layout.functions.group)
    (h : Patchable layout symbols types document) (functions : List String) :
    RuleStands layout.namespaces.node
        (namespaceRule layout.namespaces symbols.namespaces.names)
        (patched layout symbols types functions document) ∧
      GroupStands layout.types types (patched layout symbols types functions document) ∧
      GroupStands layout.functions functions
        (patched layout symbols types functions document) := by
  refine ⟨?_, ?_, ?_⟩
  · exact (((ruleStands_of_found h.rule).groupChange _ _).groupChange _ _).orderItems _
  · exact ((groupStands_of_hasList h.typeList).groupChange hapart _).orderItems _
  · exact (groupStands_of_hasList h.functionList).orderItems _

/-- A generated node as a grammar shows it, written out field by field and
apart from the functions that build it. Nodes of a group are numbered from
one. -/
def writtenNode (tag scope : String) (number total : Nat) (regex : String) : Json :=
  .object [
    ("comment", .string
      ("@generated" ++ " " ++ tag ++ " " ++ toString number ++ "/" ++ toString total)),
    ("name", .string scope),
    ("match", .string regex)]

/-- Some nodes stand side by side in the list of the node that is found under
a name, and no other item of this list is marked as one of their group. The
nodes are given as they are and not by what makes them. -/
def BlockStands (parent tag : String) (nodes : List Json) (document : Fields) : Prop :=
  ∃ node front rest, find document parent = .ok node ∧
    node.items? "patterns" = some (front ++ (nodes ++ rest)) ∧
    ∀ item ∈ front ++ rest, belongsTo tag item = false

/-- The nodes of a group whose template has its placeholder once, between two
texts: each chunk stands between the same two. Templates with more
placeholders are not needed for the standard layout and are left to the law of
filling. -/
theorem groupNodes_eq {group : GeneratedGroup} {lead tail : String}
    (htemplate : group.template = lead ++ Symbol.placeholder ++ tail)
    (hlead : Symbol.hasPlaceholder lead = false) (htail : Symbol.hasPlaceholder tail = false)
    (chunks : List String) :
    groupNodes group chunks = chunks.mapIdx fun index chunk =>
      writtenNode group.group group.scope (index + 1) chunks.length (lead ++ chunk ++ tail) := by
  unfold groupNodes
  refine congrArg (List.mapIdx · chunks) (funext fun index => funext fun chunk => ?_)
  rw [htemplate, Symbol.fillTemplate_between hlead htail]
  rfl

/-- The rule that the standard layout has for namespaces: one of the names, as
a whole word, with two colons behind it that are not part of the match. -/
theorem namespaceRule_standard (names : List String) :
    namespaceRule Layout.standard.namespaces names =
      "\\b(?:" ++ Symbol.alternation names ++ ")\\b(?=\\s*::)" := by
  have htemplate : Layout.standard.namespaces.template =
      "\\b(?:" ++ Symbol.placeholder ++ ")\\b(?=\\s*::)" := by decide
  rw [namespaceRule, htemplate, Symbol.fillTemplate_between (by decide) (by decide)]

/-- A patch with the standard layout that succeeds has written three things,
whatever the document held before, nodes of earlier runs included: the rule of
the namespaces, one block of nodes for the types, and one for the functions.
The rule and the nodes are given in full, each pattern with its alternatives
between the two fixed texts of its kind. Together the chunks of a block list
the names of the set, longer ones first, and nothing else. The blocks are
looked up again by name, as a later run does it; where in its list a block
stands is not said here, nor what becomes of the items around it. -/
theorem apply_standard_content {options : Options} (hlayout : options.layout = Layout.standard)
    (symbols : List Symbol) {document result : Fields} {count : Nat}
    (h : apply options (SymbolSet.addAll ∅ symbols) document = (result, .ok count)) :
    let set := SymbolSet.addAll ∅ symbols
    (ListsNames [Symbol.alternation set.namespaces.names] set.namespaces.names ∧
      RuleStands "entity.name.namespace.openplanet.angelscript"
        ("\\b(?:" ++ Symbol.alternation set.namespaces.names ++ ")\\b(?=\\s*::)") result) ∧
    ∃ types functions,
      (ListsNames types set.types.names ∧
        BlockStands "#types" "openplanet-types" (types.mapIdx fun index chunk =>
          writtenNode "openplanet-types" "support.type.openplanet.angelscript" (index + 1)
            types.length ("\\b(?:" ++ chunk ++ ")\\b")) result) ∧
      (ListsNames functions set.functions.names ∧
        BlockStands "#function-calls" "openplanet-functions" (functions.mapIdx fun index chunk =>
          writtenNode "openplanet-functions" "support.function.openplanet.angelscript" (index + 1)
            functions.length ("\\b(?:" ++ chunk ++ ")\\b(?=\\s*\\()")) result) ∧
      count = types.length + functions.length := by
  intro set
  obtain ⟨types, functions, htypes, hfunctions, hpatchable, rfl, rfl⟩ := apply_eq_ok_iff.1 h
  rw [hlayout] at hpatchable ⊢
  have hplain := SymbolSet.plain_addAll symbols
  obtain ⟨hrule, htypeBlock, hfunctionBlock⟩ :=
    patched_stands apart_standard hpatchable functions
  rw [namespaceRule_standard] at hrule
  have htypeNodes := @groupNodes_eq Layout.standard.types "\\b(?:" ")\\b"
    (by decide) (by decide) (by decide) types
  have hfunctionNodes := @groupNodes_eq Layout.standard.functions "\\b(?:" ")\\b(?=\\s*\\()"
    (by decide) (by decide) (by decide) functions
  rw [GroupStands, htypeNodes] at htypeBlock
  rw [GroupStands, hfunctionNodes] at hfunctionBlock
  exact ⟨⟨listsNames_alternation hplain.namespaces, hrule⟩, types, functions,
    ⟨listsNames_of_chunks hplain.types htypes, htypeBlock⟩,
    ⟨listsNames_of_chunks hplain.functions hfunctions, hfunctionBlock⟩, rfl⟩

/-- The standard layout fits the small grammar, here with nodes of an earlier
run in both lists, which have to go. -/
theorem smallGrammar_content :
    let stale := generatedNode "openplanet-types" 0 1 "old" "old"
    let document := smallGrammar [stale, primitiveRule] [callRule, stale]
    ({} : Options).layout = Layout.standard ∧
      ∃ result, apply {} (SymbolSet.addAll ∅ smallSymbols) document = (result, .ok 2) ∧
        ∃ types, ListsNames types ["CGameCtnApp", "UI::Font"] ∧
          BlockStands "#types" "openplanet-types" (types.mapIdx fun index chunk =>
            writtenNode "openplanet-types" "support.type.openplanet.angelscript" (index + 1)
              types.length ("\\b(?:" ++ chunk ++ ")\\b")) result := by
  intro stale document
  have hrun : apply {} (SymbolSet.addAll ∅ smallSymbols) document = (_, .ok 2) :=
    apply_eq_of_outcome (by decide +kernel)
  obtain ⟨-, types, functions, ⟨htypes, hblock⟩, -⟩ :=
    apply_standard_content rfl smallSymbols hrun
  have hnames : (SymbolSet.addAll ∅ smallSymbols).types.names = ["CGameCtnApp", "UI::Font"] := by
    decide +kernel
  exact ⟨rfl, _, hrun, types, hnames ▸ htypes, hblock⟩

end SymbolPatterns.Patch
