import SymbolPatterns.Patch
import SymbolPatterns.Proofs.Grammar.Visibility
import SymbolPatterns.Proofs.Outcome

/-!
The four edits of a patch as changes of all nodes. An edit succeeds exactly if
lookup finds its node, and its result is then the change of that node; so the
result of a patch is a sequence of local changes, followed by a permutation of
the top-level list.
-/

namespace SymbolPatterns.Patch

open Json (Fields)
open Grammar

/-- The rule that a set of namespaces gives, with all its names as
alternatives. Unlike the nodes of a group it is never cut into chunks. -/
def namespaceRule (target : MatchTarget) (names : List String) : String :=
  Symbol.fillTemplate target.template (Symbol.alternation names)

def ruleChange (target : MatchTarget) (names : List String) : NodeChange :=
  editNamed target.node (setMatch (namespaceRule target names))

/-- A pattern list with the nodes of a group replaced. The edit of a list also
counts the nodes it took out; what it makes of the list is all that later
edits depend on. -/
def groupItems (group : GeneratedGroup) (chunks : List String) (items : List Json) : List Json :=
  (upsert items group.group (groupNodes group chunks) group.anchor group.placement).1

def groupChange (group : GeneratedGroup) (chunks : List String) : NodeChange :=
  editNamed group.parent (editPatterns (groupItems group chunks))

/-- A pattern list after all rules, each applied to what the rule before it
has made. -/
def orderItems (rules : List IncludeRule) (items : List Json) : List Json :=
  rules.foldl (fun items rule => (reorder items rule.includes rule.before).1) items

theorem groupNodes_belongsTo (group : GeneratedGroup) (chunks : List String) :
    ∀ x ∈ groupNodes group chunks, belongsTo group.group x = true := by
  intro x hx
  obtain ⟨index, hindex, rfl⟩ := List.mem_mapIdx.1 hx
  exact generatedNode_belongsTo ..

theorem natural_groupItems (group : GeneratedGroup) (chunks : List String) :
    Natural (groupItems group chunks) :=
  natural_upsert _ _ (groupNodes_belongsTo group chunks)

theorem keepsItemNodes_groupItems (group : GeneratedGroup) (chunks : List String) :
    KeepsItemNodes (groupItems group chunks) :=
  fun items => itemNodes_upsert items _ _ (groupNodes_belongsTo group chunks)

theorem localChange_ruleChange (target : MatchTarget) (names : List String) :
    LocalChange (ruleChange target names) :=
  localChange_editNamed _ (localEdit_setMatch _)

theorem localChange_groupChange (group : GeneratedGroup) (chunks : List String) :
    LocalChange (groupChange group chunks) :=
  localChange_editNamed _ (localEdit_editPatterns (natural_groupItems group chunks))

theorem natural_orderItems (rules : List IncludeRule) : Natural (orderItems rules) := by
  intro g hg items
  induction rules generalizing items with
  | nil => rfl
  | cons rule rest ih =>
      simp only [orderItems, List.foldl_cons] at ih ⊢
      rw [ih, natural_reorder rule.includes rule.before g hg items]

theorem orderItems_perm (rules : List IncludeRule) (items : List Json) :
    (orderItems rules items).Perm items := by
  induction rules generalizing items with
  | nil => exact List.Perm.refl _
  | cons rule rest ih => exact (ih _).trans (reorder_perm rule.includes rule.before items)

/-- Whether a name is found. A name at two visible nodes is not found, as
little as one at none, so this counts the nodes that carry it. -/
def Found (name : String) (document : Fields) : Prop :=
  ∃ node, carriers name (documentNodes document) = [node]

/-- Whether a name is found at a node with a pattern list. This is what the
edit of a list needs and all that it needs. -/
def HasList (name : String) (document : Fields) : Prop :=
  ∃ node items, carriers name (documentNodes document) = [node] ∧
    node.2.items? "patterns" = some items

theorem HasList.found {name : String} {document : Fields} (h : HasList name document) :
    Found name document := by
  obtain ⟨node, -, hnode, -⟩ := h
  exact ⟨node, hnode⟩

/-- A change that keeps the nodes below every node keeps what is found: the
names of a node are among its texts, and lookup asks for nothing else. -/
theorem found_mapDocument_iff {change : NodeChange} (hkeeps : ∀ role, KeepsTexts (change role))
    {document : Fields} (hnodes : KeepsNodes change document) {name : String} :
    Found name (mapDocument change document) ↔ Found name document := by
  unfold Found
  rw [carriers_mapDocument hkeeps hnodes]
  constructor
  · rintro ⟨node, hnode⟩
    obtain ⟨old, hold, -⟩ := List.map_eq_singleton_iff.1 hnode
    exact ⟨old, hold⟩
  · rintro ⟨node, hnode⟩
    exact ⟨visit change node, by rw [hnode]; rfl⟩

theorem isGenerated_of_found {name : String} {document : Fields} (h : Found name document) :
    isGenerated document = false := by
  obtain ⟨node, hnode⟩ := h
  cases hgen : isGenerated document with
  | false => rfl
  | true => simp [documentNodes, nodes_of_isGenerated _ hgen] at hnode

private theorem locate_of_found {name : String} {document : Fields} :
    Found name document ↔ ∃ s, locate document name = .ok s := by
  constructor
  · rintro ⟨node, hnode⟩
    obtain ⟨s, hs, -⟩ := exists_locate_of_carriers hnode
    exact ⟨s, hs⟩
  · rintro ⟨s, hs⟩
    exact ⟨s.seen, carriers_of_locate hs⟩

theorem setMatchOf_eq_ok_iff {document result : Fields} {name regex : String} :
    setMatchOf document name regex = .ok result ↔
      Found name document ∧ result = mapDocument (editNamed name (setMatch regex)) document := by
  rw [locate_of_found]
  cases hlocate : locate document name with
  | error failure => simp [setMatchOf, hlocate, bind, Except.bind]
  | ok s =>
      have hchange : changeFields (setMatch regex) s.address document = _ :=
        changeFields_eq_mapDocument hlocate rfl
      simp [setMatchOf, hlocate, bind, Except.bind, pure, Except.pure, hchange, eq_comm]

theorem setNamespaces_eq_ok_iff {target : MatchTarget} {names : List String}
    {document result : Fields} :
    setNamespaces target names document = .ok result ↔
      Found target.node document ∧ result = mapDocument (ruleChange target names) document :=
  setMatchOf_eq_ok_iff

/-- The pattern list of a node is found exactly where an edit of it takes
place. The address in the answer is the one under which the new list is put
back. -/
theorem patternsOf_eq_ok_iff {document : Fields} {name : String} {address : Address}
    {items : List Json} :
    patternsOf document name = .ok (address, items) ↔
      ∃ s, locate document name = .ok s ∧ s.address = address ∧
        s.node.items? "patterns" = some items := by
  cases hlocate : locate document name with
  | error failure => simp [patternsOf, hlocate, bind, Except.bind]
  | ok s =>
      cases hitems : s.node.items? "patterns" with
      | none => simp [patternsOf, hlocate, bind, Except.bind, hitems]
      | some found => simp [patternsOf, hlocate, bind, Except.bind, hitems]

theorem putPatterns_eq_mapDocument {document : Fields} {name : String} {s : Sighting}
    {items : List Json} (f : List Json → List Json) (hlocate : locate document name = .ok s)
    (hitems : s.node.items? "patterns" = some items) :
    putPatterns document s.address (f items) =
      mapDocument (editNamed name (editPatterns f)) document :=
  changeFields_eq_mapDocument hlocate (editPatterns_some hitems).symm

theorem hasList_iff {name : String} {document : Fields} :
    HasList name document ↔ ∃ s items, locate document name = .ok s ∧
      s.node.items? "patterns" = some items := by
  constructor
  · rintro ⟨node, items, hnode, hitems⟩
    obtain ⟨s, hs, rfl⟩ := exists_locate_of_carriers hnode
    exact ⟨s, items, hs, hitems⟩
  · rintro ⟨s, items, hs, hitems⟩
    exact ⟨s.seen, items, carriers_of_locate hs, hitems⟩

theorem upsertGroup_eq_ok_iff {group : GeneratedGroup} {chunks : List String}
    {document result : Fields} :
    upsertGroup group chunks document = .ok result ↔
      HasList group.parent document ∧
        result = mapDocument (groupChange group chunks) document := by
  rw [hasList_iff]
  cases hpatterns : patternsOf document group.parent with
  | error failure =>
      have hnone : ¬∃ s items, locate document group.parent = .ok s ∧
          s.node.items? "patterns" = some items := by
        rintro ⟨s, items, hs, hitems⟩
        rw [patternsOf_eq_ok_iff.2 ⟨s, hs, rfl, hitems⟩] at hpatterns
        cases hpatterns
      constructor
      · intro h
        simp [upsertGroup, hpatterns, bind, Except.bind] at h
      · exact fun h => absurd h.1 hnone
  | ok found =>
      obtain ⟨address, items⟩ := found
      obtain ⟨s, hs, rfl, hitems⟩ := patternsOf_eq_ok_iff.1 hpatterns
      have hput := putPatterns_eq_mapDocument (groupItems group chunks) hs hitems
      simp only [groupItems] at hput
      simp only [upsertGroup, hpatterns, bind, Except.bind, pure, Except.pure, Except.ok.injEq,
        hput]
      constructor
      · rintro rfl
        exact ⟨⟨s, items, hs, hitems⟩, rfl⟩
      · rintro ⟨-, rfl⟩
        rfl

theorem orderIncludes_eq (rules : List IncludeRule) (document : Fields) :
    orderIncludes rules document = .ok (editPatterns (orderItems rules) document) := by
  unfold orderIncludes editPatterns
  split
  · next hitems => rw [hitems]
  · next items hitems =>
    rw [hitems]
    rfl

/-- What a patch does to a document once its chunks are made, as four changes
one inside the other. It is defined for every document; that a patch does it
needs a document in which lookup finds everything. -/
def patched (layout : Layout) (symbols : SymbolSet) (types functions : List String)
    (document : Fields) : Fields :=
  editPatterns (orderItems layout.includeOrder)
    (mapDocument (groupChange layout.functions functions)
      (mapDocument (groupChange layout.types types)
        (mapDocument (ruleChange layout.namespaces symbols.namespaces.names) document)))

/-- Whether lookup finds all that a patch edits. Each condition is about the
document that the edits before have made, since a rule or a list that an edit
has put in can bring a name to light or hide one. -/
structure Patchable (layout : Layout) (symbols : SymbolSet) (types : List String)
    (document : Fields) : Prop where
  rule : Found layout.namespaces.node document
  typeList : HasList layout.types.parent
    (mapDocument (ruleChange layout.namespaces symbols.namespaces.names) document)
  functionList : HasList layout.functions.parent
    (mapDocument (groupChange layout.types types)
      (mapDocument (ruleChange layout.namespaces symbols.namespaces.names) document))

private theorem run_cons_ok {edit : Rewrite} {document next : Fields} (rest : List Rewrite)
    (h : edit document = .ok next) : run (edit :: rest) document = run rest next := by
  simp [run, h]

private theorem run_cons_error {edit : Rewrite} {document : Fields} {failure : Failure}
    (rest : List Rewrite) (h : edit document = .error failure) :
    run (edit :: rest) document = (document, .error failure) := by
  simp [run, h]

theorem run_edits_of_patchable {layout : Layout} {symbols : SymbolSet} {types : List String}
    (functions : List String) {document : Fields}
    (h : Patchable layout symbols types document) :
    run (edits layout symbols types functions) document =
      (patched layout symbols types functions document, .ok ()) := by
  unfold edits
  rw [run_cons_ok _ (setNamespaces_eq_ok_iff.2 ⟨h.rule, rfl⟩),
    run_cons_ok _ (upsertGroup_eq_ok_iff.2 ⟨h.typeList, rfl⟩),
    run_cons_ok _ (upsertGroup_eq_ok_iff.2 ⟨h.functionList, rfl⟩),
    run_cons_ok _ (orderIncludes_eq _ _)]
  rfl

/-- All edits but the order of the include directives. Where generated nodes
stand is told about this document, since the last edit may move the items
around them. -/
theorem run_dropLast_of_patchable {layout : Layout} {symbols : SymbolSet} {types : List String}
    (functions : List String) {document : Fields}
    (h : Patchable layout symbols types document) :
    run (edits layout symbols types functions).dropLast document =
      (mapDocument (groupChange layout.functions functions)
        (mapDocument (groupChange layout.types types)
          (mapDocument (ruleChange layout.namespaces symbols.namespaces.names) document)),
        .ok ()) := by
  have hedits : (edits layout symbols types functions).dropLast =
      [setNamespaces layout.namespaces symbols.namespaces.names, upsertGroup layout.types types,
        upsertGroup layout.functions functions] := rfl
  rw [hedits, run_cons_ok _ (setNamespaces_eq_ok_iff.2 ⟨h.rule, rfl⟩),
    run_cons_ok _ (upsertGroup_eq_ok_iff.2 ⟨h.typeList, rfl⟩),
    run_cons_ok _ (upsertGroup_eq_ok_iff.2 ⟨h.functionList, rfl⟩)]
  rfl

/-- A run of the edits ends after all of them, or before the first one whose
node is not found with the edits made before it. There are four outcomes and
not five: the last edit cannot fail. -/
theorem run_edits_cases (layout : Layout) (symbols : SymbolSet) (types functions : List String)
    (document : Fields) :
    let marked := mapDocument (ruleChange layout.namespaces symbols.namespaces.names) document
    (∃ failure, run (edits layout symbols types functions) document =
      (document, .error failure)) ∨
    (Found layout.namespaces.node document ∧
      ∃ failure, run (edits layout symbols types functions) document =
        (marked, .error failure)) ∨
    (Found layout.namespaces.node document ∧ HasList layout.types.parent marked ∧
      ∃ failure, run (edits layout symbols types functions) document =
        (mapDocument (groupChange layout.types types) marked, .error failure)) ∨
    (Patchable layout symbols types document ∧
      run (edits layout symbols types functions) document =
        (patched layout symbols types functions document, .ok ())) := by
  intro marked
  cases hrule : setNamespaces layout.namespaces symbols.namespaces.names document with
  | error failure => exact .inl ⟨failure, run_cons_error _ hrule⟩
  | ok first =>
      obtain ⟨hfound, rfl⟩ := setNamespaces_eq_ok_iff.1 hrule
      have hstart : run (edits layout symbols types functions) document =
          run (edits layout symbols types functions).tail marked := run_cons_ok _ hrule
      cases htypes : upsertGroup layout.types types marked with
      | error failure =>
          exact .inr (.inl ⟨hfound, failure, hstart.trans (run_cons_error _ htypes)⟩)
      | ok second =>
          obtain ⟨hlist, rfl⟩ := upsertGroup_eq_ok_iff.1 htypes
          have hnext := hstart.trans (run_cons_ok _ htypes)
          cases hfunctions : upsertGroup layout.functions functions
              (mapDocument (groupChange layout.types types) marked) with
          | error failure =>
              exact .inr (.inr (.inl ⟨hfound, hlist, failure,
                hnext.trans (run_cons_error _ hfunctions)⟩))
          | ok third =>
              obtain ⟨hlist', -⟩ := upsertGroup_eq_ok_iff.1 hfunctions
              have hpatchable : Patchable layout symbols types document :=
                ⟨hfound, hlist, hlist'⟩
              exact .inr (.inr (.inr ⟨hpatchable, run_edits_of_patchable functions hpatchable⟩))

theorem apply_of_chunks {options : Options} {symbols : SymbolSet} {types functions : List String}
    (htypes : Symbol.chunks options.maxChunkLength symbols.types.names = .ok types)
    (hfunctions : Symbol.chunks options.maxChunkLength symbols.functions.names = .ok functions)
    (document : Fields) :
    apply options symbols document =
      ((run (edits options.layout symbols types functions) document).1,
        (run (edits options.layout symbols types functions) document).2.map
          fun _ => types.length + functions.length) := by
  simp only [apply, htypes, hfunctions]
  rfl

/-- A patch whose chunks cannot be made leaves the document alone; otherwise
it runs its edits. Which of the two it is depends on the symbols and the limit
alone, not on the document. -/
theorem apply_cases (options : Options) (symbols : SymbolSet) :
    (∃ failure, ∀ document, apply options symbols document = (document, .error failure)) ∨
    ∃ types functions,
      Symbol.chunks options.maxChunkLength symbols.types.names = .ok types ∧
      Symbol.chunks options.maxChunkLength symbols.functions.names = .ok functions ∧
      ∀ document, apply options symbols document =
        ((run (edits options.layout symbols types functions) document).1,
          (run (edits options.layout symbols types functions) document).2.map
            fun _ => types.length + functions.length) := by
  cases htypes : Symbol.chunks options.maxChunkLength symbols.types.names with
  | error failure =>
      refine .inl ⟨failure, fun document => ?_⟩
      simp only [apply, htypes]
      rfl
  | ok types =>
      cases hfunctions : Symbol.chunks options.maxChunkLength symbols.functions.names with
      | error failure =>
          refine .inl ⟨failure, fun document => ?_⟩
          simp only [apply, htypes, hfunctions]
          rfl
      | ok functions =>
          exact .inr ⟨types, functions, rfl, rfl, apply_of_chunks htypes hfunctions⟩

/-- A patch succeeds if the chunks can be made and lookup finds all that is
edited, and only then. Results about successful patches start from here, so
that none of them goes through the edits again. -/
theorem apply_eq_ok_iff {options : Options} {symbols : SymbolSet} {document result : Fields}
    {count : Nat} :
    apply options symbols document = (result, .ok count) ↔
      ∃ types functions,
        Symbol.chunks options.maxChunkLength symbols.types.names = .ok types ∧
        Symbol.chunks options.maxChunkLength symbols.functions.names = .ok functions ∧
        Patchable options.layout symbols types document ∧
        result = patched options.layout symbols types functions document ∧
        count = types.length + functions.length := by
  constructor
  · intro h
    rcases apply_cases options symbols with ⟨failure, hfail⟩ |
      ⟨types, functions, htypes, hfunctions, happly⟩
    · rw [hfail] at h
      cases h
    · refine ⟨types, functions, htypes, hfunctions, ?_⟩
      rw [happly] at h
      rcases run_edits_cases options.layout symbols types functions document with
        ⟨failure, hrun⟩ | ⟨-, failure, hrun⟩ | ⟨-, -, failure, hrun⟩ | ⟨hpatchable, hrun⟩
      · rw [hrun] at h
        cases h
      · rw [hrun] at h
        cases h
      · rw [hrun] at h
        cases h
      · rw [hrun] at h
        obtain ⟨hresult, hcount⟩ := Prod.mk.inj h
        exact ⟨hpatchable, hresult.symm, (Except.ok.inj hcount).symm⟩
  · rintro ⟨types, functions, htypes, hfunctions, hpatchable, rfl, rfl⟩
    rw [apply_of_chunks htypes hfunctions, run_edits_of_patchable functions hpatchable]
    rfl

/-- A node with a name and a match rule, as the stock grammar has them. -/
def namedRule (name rule : String) : Json :=
  .object [("name", .string name), ("match", .string rule)]

def patternHolder (items : List Json) : Json := .object [("patterns", .array items)]

/-- The least grammar that the standard layout fits, with given pattern lists
for types and for function calls. Witnesses of results about patches use it
with different lists. -/
def smallGrammar (types functionCalls : List Json) : Fields := [
  ("scopeName", .string "source.angelscript"),
  ("patterns", .array [
    .object [("include", .string "#types")],
    .object [("include", .string "#function-calls")],
    namedRule "entity.name.namespace.openplanet.angelscript" "(?!)"]),
  ("repository", .object [
    ("types", patternHolder types),
    ("function-calls", patternHolder functionCalls)])]

def primitiveRule : Json := namedRule "storage.type.primitive.angelscript" "\\bint\\b"

def callRule : Json := namedRule "entity.name.function.call.angelscript" "\\w+(?=\\()"

/-- Two types, a namespace and a function. -/
def smallSymbols : List Symbol :=
  [.typeName "CGameCtnApp", .namespaceName "Net", .functionName "print", .typeName "UI::Font"]

/-- An outcome that is looked at alone tells the whole result. Only the number
has to be evaluated then, which is far smaller than the document. -/
theorem apply_eq_of_outcome {options : Options} {symbols : SymbolSet} {document : Fields}
    {count : Nat} (h : (apply options symbols document).2.toOption = some count) :
    apply options symbols document = ((apply options symbols document).1, .ok count) :=
  Prod.ext rfl (eq_ok_of_toOption h)

end SymbolPatterns.Patch
