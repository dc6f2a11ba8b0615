import SymbolPatterns.Proofs.Grammar.Document
import SymbolPatterns.Proofs.Patch.Rerun

/-!
A patched document that is printed and read again gives the same as the document
before the patch, to the last character. Every edit keeps a document printable,
so the text is read back as the document that was printed; what the next patch
does to that document does not depend on the patch before it, and neither does
the unit of indentation.
-/

namespace SymbolPatterns.Patch

open Json (Fields Printable OnlyIntegers WellFormed)
open Grammar

/-- A change that keeps every node printable. For a change of all nodes it is
enough to ask it of one node at a time. -/
def KeepsPrintable (change : NodeChange) : Prop :=
  ∀ role node, Printable (.object node) → Printable (.object (change role node))

theorem printable_mapNodes {change : NodeChange} (hchange : KeepsPrintable change) (value : Json) :
    ∀ role, Printable value → Printable (mapNodes change role value) := by
  induction value using nodeInduction with
  | object fields ih =>
      intro role h
      cases hgen : isGenerated fields with
      | true => rwa [mapNodes_of_isGenerated _ _ hgen]
      | false =>
          rw [mapNodes_of_not_isGenerated _ _ hgen, mapFields_eq_replaceChildren]
          obtain ⟨hkeys, hfields⟩ := Json.printable_object.1 h
          refine hchange _ _ (Json.printable_object.2
            ⟨by rwa [replaceChildren, Json.Fields.keys_mapValues], ?_⟩)
          intro field hfield
          obtain ⟨⟨key, old⟩, hold, rfl⟩ := List.mem_map.1 hfield
          have hvalues : ∀ child ∈ childrenOf key old, ∀ role, Printable child.2 →
              Printable (mapNodes change role child.2) := fun child hchild =>
            ih child (List.mem_flatMap.2 ⟨_, hold, hchild⟩)
          rcases holdsEntries_cases key old with ⟨roles, entries, hroles, rfl⟩ | hvalue
          · rw [childrenOf_entries entries hroles] at hvalues
            obtain ⟨hnames, hentries⟩ := Json.printable_object.1 (hfields _ hold)
            rw [replaceUnder_entries _ entries hroles]
            refine Json.printable_object.2 ⟨?_, fun entry hentry => ?_⟩
            · rwa [Json.Fields.keys_mapValues]
            · obtain ⟨before, hbefore, rfl⟩ := List.mem_map.1 hentry
              exact hvalues _ (List.mem_map_of_mem hbefore) _ (hentries _ hbefore)
          · rw [childrenOf_value hvalue] at hvalues
            rw [replaceUnder_value _ hvalue]
            exact hvalues _ (List.mem_singleton_self _) _ (hfields _ hold)
  | array items ih =>
      intro role h
      rw [mapNodes_array]
      apply Json.printable_array.2
      intro item hitem
      obtain ⟨old, hold, rfl⟩ := List.mem_map.1 hitem
      exact ih old hold _ (Json.printable_array.1 h old hold)
  | leaf value hobject harray =>
      intro role h
      rwa [mapNodes_leaf _ _ hobject harray]

theorem printable_mapDocument {change : NodeChange} (hchange : KeepsPrintable change)
    {document : Fields} (h : Printable (.object document)) :
    Printable (.object (mapDocument change document)) := by
  rw [← mapNodes_object]
  exact printable_mapNodes hchange _ _ h

theorem printable_setMatch (regex : String) {node : Fields} (h : Printable (.object node)) :
    Printable (.object (setMatch regex node)) :=
  h.set _ (Json.printable_string regex)

/-- A list edit whose items are old ones or printable ones keeps an object
printable. All list edits of a patch are of this kind: they move items, drop
some and put in generated nodes. -/
theorem printable_editPatterns {f : List Json → List Json}
    (hf : ∀ items, ∀ item ∈ f items, item ∈ items ∨ Printable item) {node : Fields}
    (h : Printable (.object node)) : Printable (.object (editPatterns f node)) := by
  cases hitems : node.items? "patterns" with
  | none => rwa [editPatterns_none hitems]
  | some items =>
      have hlist : Printable (.array items) := by
        have hget := Json.Fields.items?_eq_some_iff.1 hitems
        obtain ⟨front, rest, hsplit, -⟩ := Json.Fields.exists_split_of_get? hget
        exact (Json.printable_object.1 h).2 ("patterns", .array items) (by simp [hsplit])
      rw [editPatterns_some hitems]
      refine h.set _ (Json.printable_array.2 fun item hitem => ?_)
      exact (hf items item hitem).elim (Json.printable_array.1 hlist item) id

theorem printable_generatedNode (group : String) (index total : Nat) (scope regex : String) :
    Printable (generatedNode group index total scope regex) := by
  refine Json.printable_object.2 ⟨by simp [Fields.keys], ?_⟩
  simp [Json.printable_string]

theorem mem_groupItems {group : GeneratedGroup} {chunks : List String} {items : List Json}
    {item : Json} (h : item ∈ groupItems group chunks items) : item ∈ items ∨ Printable item := by
  rcases List.mem_append.1 h with h | h
  · rcases List.mem_append.1 h with h | h
    · exact .inl (List.mem_of_mem_filter (List.mem_of_mem_take h))
    · obtain ⟨index, hindex, rfl⟩ := List.mem_mapIdx.1 h
      exact .inr (printable_generatedNode ..)
  · exact .inl (List.mem_of_mem_filter (List.mem_of_mem_drop h))

theorem KeepsPrintable.editNamed {edit : Fields → Fields}
    (h : ∀ node, Printable (.object node) → Printable (.object (edit node))) (name : String) :
    KeepsPrintable (editNamed name edit) := by
  intro role node hnode
  unfold Grammar.editNamed
  split
  · exact h node hnode
  · exact hnode

/-- A patch keeps a document printable, so that the printed text is read back
as the very document. Names of symbols are plain, and templates are texts of
any kind. -/
theorem printable_patched (layout : Layout) (symbols : SymbolSet) (types functions : List String)
    {document : Fields} (h : Printable (.object document)) :
    Printable (.object (patched layout symbols types functions document)) := by
  have hgroup : ∀ (group : GeneratedGroup) chunks, KeepsPrintable (groupChange group chunks) :=
    fun group chunks => KeepsPrintable.editNamed (fun node hnode =>
      printable_editPatterns (fun _ _ => mem_groupItems) hnode) _
  have hrule : KeepsPrintable (ruleChange layout.namespaces symbols.namespaces.names) :=
    KeepsPrintable.editNamed (fun node hnode => printable_setMatch _ hnode) _
  refine printable_editPatterns
    (fun items item hitem => .inl ((orderItems_perm layout.includeOrder items).mem_iff.1 hitem)) ?_
  exact printable_mapDocument (hgroup _ _) (printable_mapDocument (hgroup _ _)
    (printable_mapDocument hrule h))

/-- Reads a grammar text, patches it and prints it; with the number of chunks.
The path only goes into the failures of reading. -/
def reprint (options : Options) (symbols : SymbolSet) (path : Path) (text : String) :
    Except Failure (Nat × String) := do
  let document ← Document.parse path text
  let (root, outcome) := apply options symbols document.root
  let count ← outcome
  return (count, { document with root := root }.pretty)

theorem reprint_of_parse {options : Options} {path : Path} {text : String} {document : Document}
    (h : Document.parse path text = .ok document) (symbols : SymbolSet) :
    reprint options symbols path text =
      (apply options symbols document.root).2.map fun count =>
        (count, { document with root := (apply options symbols document.root).1 }.pretty) := by
  unfold reprint
  simp only [h, bind, Except.bind]
  cases (apply options symbols document.root).2 <;> rfl

theorem ne_nil_of_found {name : String} {document : Fields} (h : Found name document) :
    document ≠ [] := by
  rintro rfl
  obtain ⟨node, hone⟩ := h
  have hnone : carriers name (documentNodes []) = [] := by
    simp [carriers, documentNodes, nodes_object, isGenerated, Fields.text?, Fields.get?,
      innerNodes, carries]
  rw [hnone] at hone
  cases hone

/-- The text that a patch prints, patched again, gives what the text before
gives: the same failure, or the same number of chunks and the same text. With
the same symbols that is the printed text itself. The two runs need not have
the same symbols, so what an earlier set has left behind is no part of the
second text. Left out are numbers that are no integers and results nested
deeper than reading goes, as their text is not read back as the value. -/
theorem reprint_reprint {options : Options} (hsettled : Settled options.layout) {path : Path}
    {text : String} {before : Document} (hread : Document.parse path text = .ok before)
    (hintegers : OnlyIntegers (.object before.root)) {first : SymbolSet} {root : Fields}
    {count : Nat} (hfirst : apply options first before.root = (root, .ok count))
    (hbelow : ParentsBelow options.layout root)
    (hheight : Json.height (.object root) ≤ Json.depthLimit) (second : SymbolSet) :
    reprint options first path text = .ok (count, { before with root := root }.pretty) ∧
      reprint options second path { before with root := root }.pretty =
        reprint options second path text := by
  obtain ⟨rfl, rfl, hwell⟩ := Document.of_parse hread
  obtain ⟨types, functions, -, -, hpatchable, hroot, -⟩ := apply_eq_ok_iff.1 hfirst
  have hprintable : Printable (.object root) := by
    rw [hroot]
    exact printable_patched _ _ _ _ ⟨hwell, hintegers⟩
  have hne : root ≠ [] := by
    have hagain := patchable_patched hsettled hpatchable functions first types
    rw [← hroot] at hagain
    exact ne_nil_of_found hagain.rule
  have hagain := Document.parse_pretty { before with root := root } hprintable hheight
  obtain ⟨houtcome, hresult⟩ := apply_apply hsettled hbelow hfirst second
  refine ⟨by rw [reprint_of_parse hread, hfirst]; rfl, ?_⟩
  rw [reprint_of_parse hagain, reprint_of_parse hread, houtcome]
  cases hsecond : (apply options second before.root).2 with
  | error failure => rfl
  | ok count =>
      have hroots := hresult (by rw [hsecond]; rfl)
      have hunit := Document.pretty_reread { before with root := root } hne
      simp only [Except.map, hroots, hunit]

def smallDocument : Document :=
  ⟨⟨"grammar.json"⟩, smallGrammar [primitiveRule] [callRule], ""⟩

theorem smallDocument_reprint :
    let text := smallDocument.pretty
    let first := SymbolSet.addAll ∅ smallSymbols
    ∃ printed, reprint {} first ⟨"grammar.json"⟩ text = .ok (2, printed) ∧
      reprint {} ∅ ⟨"grammar.json"⟩ printed = reprint {} ∅ ⟨"grammar.json"⟩ text := by
  have hprintable : Printable (.object smallDocument.root) := by
    simp [smallDocument, smallGrammar, patternHolder, namedRule, primitiveRule, callRule,
      Json.printable_object, Json.printable_array, Json.printable_string, Fields.keys]
  have hread := Document.parse_pretty smallDocument hprintable (by decide)
  obtain ⟨root, hfirst⟩ :
      ∃ root, apply {} (SymbolSet.addAll ∅ smallSymbols) smallDocument.root = (root, .ok 2) :=
    ⟨_, apply_eq_of_outcome (by decide +kernel)⟩
  have hroot : (apply {} (SymbolSet.addAll ∅ smallSymbols) smallDocument.root).1 = root := by
    rw [hfirst]
  have hbelow : ParentsBelow Layout.standard root := by
    have haddresses : ∀ group ∈ [Layout.standard.types, Layout.standard.functions],
        (locate root group.parent).toOption.map Sighting.address ≠ some [] := by
      rw [← hroot]
      decide +kernel
    intro group hgroup s hs hnil
    have hempty : (locate root group.parent).toOption.map Sighting.address = some [] := by
      rw [hs, ← hnil]
      rfl
    exact haddresses group hgroup hempty
  have hheight : Json.height (.object root) ≤ Json.depthLimit := by
    rw [← hroot]
    decide +kernel
  exact ⟨_, reprint_reprint settled_standard hread hprintable.onlyIntegers hfirst hbelow hheight ∅⟩

end SymbolPatterns.Patch
