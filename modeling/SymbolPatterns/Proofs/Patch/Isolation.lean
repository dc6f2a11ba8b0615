import Mathlib.Data.List.Nodup
import SymbolPatterns.Proofs.Grammar.Marker
import SymbolPatterns.Proofs.Patch.Content

/-!
Whether the two groups of a patch leave each other alone. The nodes of the
functions are put in last and always stand. The nodes of the types stand as
well, unless both groups share a parent and the tag of the functions claims the
comment of a type node; then the second edit takes that node for one of its own
and removes it.
-/

namespace SymbolPatterns.Patch

open Json (Fields)
open Grammar

/-- Every node generated for a group stands in the list of its parent, exactly
once. Nothing is said of nodes of the group that are not among those
generated. -/
def HoldsOnce (group : GeneratedGroup) (chunks : List String) (document : Fields) : Prop :=
  ∃ node items, find document group.parent = .ok node ∧ node.items? "patterns" = some items ∧
    ∀ fresh ∈ groupNodes group chunks, items.count fresh = 1

/-- One node is the parent of both groups. Two names for one parent count as
well, since an entry of a repository goes by its key as by its name. -/
def SharesParent (layout : Layout) (document : Fields) : Prop :=
  ∃ parent, locate document layout.types.parent = .ok parent ∧
    locate document layout.functions.parent = .ok parent

/-- Whether a tag marks one of so many nodes of another group: it is the
beginning of the other tag up to a space, or goes on behind it to spell the
number of a node. These are the only two ways in which markers of different
tags are confused. -/
def Claims (tag other : String) (total : Nat) : Prop :=
  ∃ index < total, tag.toList ++ [' '] <+: other.toList ∨ tag = s!"{other} {index + 1}/{total}"

instance (tag other : String) (total : Nat) : Decidable (Claims tag other total) :=
  inferInstanceAs (Decidable (∃ index < total,
    tag.toList ++ [' '] <+: other.toList ∨ tag = s!"{other} {index + 1}/{total}"))

theorem nodup_groupNodes (group : GeneratedGroup) (chunks : List String) :
    (groupNodes group chunks).Nodup := by
  rw [List.Nodup, List.pairwise_iff_getElem]
  intro i j hi hj hlt heq
  simp only [groupNodes, List.getElem_mapIdx, generatedNode, Json.object.injEq, List.cons.injEq,
    Prod.mk.injEq, Json.string.injEq] at heq
  have hindex := (markerText_inj heq.1.2).2.1
  omega

theorem count_groupNodes {group : GeneratedGroup} {chunks : List String} {fresh : Json}
    (h : fresh ∈ groupNodes group chunks) : (groupNodes group chunks).count fresh = 1 :=
  List.count_eq_one_of_mem (nodup_groupNodes group chunks) h

theorem not_mem_groupNodes_of_ne {group other : GeneratedGroup} {chunks others : List String}
    (hne : group.group ≠ other.group) {fresh : Json} (h : fresh ∈ groupNodes group chunks) :
    fresh ∉ groupNodes other others := by
  intro hother
  obtain ⟨index, hindex, rfl⟩ := List.mem_mapIdx.1 h
  obtain ⟨index', hindex', heq⟩ := List.mem_mapIdx.1 hother
  simp only [generatedNode, Json.object.injEq, List.cons.injEq, Prod.mk.injEq,
    Json.string.injEq] at heq
  exact hne (markerText_inj heq.1.2).1.symm

theorem claims_iff {group : GeneratedGroup} {chunks : List String} {tag : String}
    (hne : tag ≠ group.group) :
    Claims tag group.group chunks.length ↔
      ∃ fresh ∈ groupNodes group chunks, belongsTo tag fresh = true := by
  have hmarks : ∀ index scope regex,
      belongsTo tag (generatedNode group.group index chunks.length scope regex) = true ↔
        tag.toList ++ [' '] <+: group.group.toList ∨
          tag = s!"{group.group} {index + 1}/{chunks.length}" := by
    intro index scope regex
    have hspelled : tag = s!"{group.group} {index + 1}/{chunks.length}" ↔
        tag.toList = group.group.toList ++ ' ' :: numbering index chunks.length := by
      rw [← String.toList_inj]
      simp [numbering, toString, Nat.repr]
    rw [hspelled]
    refine marksGroup_markerText_iff.trans ?_
    simp only [hne, false_or, or_comm]
  constructor
  · rintro ⟨index, hindex, hclaim⟩
    exact ⟨_, List.mem_mapIdx.2 ⟨index, hindex, rfl⟩, (hmarks _ _ _).2 hclaim⟩
  · rintro ⟨fresh, hfresh, hbelongs⟩
    obtain ⟨index, hindex, rfl⟩ := List.mem_mapIdx.1 hfresh
    exact ⟨index, hindex, (hmarks _ _ _).1 hbelongs⟩

/-- Among items of which none is of the group, each node of the group stands
once in its block. The nodes of a block differ by their numbers. -/
theorem count_block {group : GeneratedGroup} {chunks : List String} {front rest : List Json}
    (hnone : ∀ item ∈ front ++ rest, belongsTo group.group item = false) {fresh : Json}
    (h : fresh ∈ groupNodes group chunks) :
    (front ++ (groupNodes group chunks ++ rest)).count fresh = 1 := by
  have hother : (front ++ rest).count fresh = 0 := by
    refine List.count_eq_zero_of_not_mem fun hmem => ?_
    have hnot := hnone fresh hmem
    rw [groupNodes_belongsTo group chunks fresh h] at hnot
    cases hnot
  have hblock := count_groupNodes h
  rw [List.count_append] at hother
  rw [List.count_append, List.count_append]
  omega

/-- Putting in the nodes of another group removes a node if that group takes
it for its own, and leaves it otherwise. The nodes put in do not count, since
their markers carry another tag. -/
theorem count_groupItems {group other : GeneratedGroup} {chunks : List String}
    (others : List String) (hne : group.group ≠ other.group) {fresh : Json}
    (h : fresh ∈ groupNodes group chunks) (items : List Json) :
    (groupItems other others items).count fresh =
      if belongsTo other.group fresh then 0 else items.count fresh := by
  have hnew : (groupNodes other others).count fresh = 0 :=
    List.count_eq_zero_of_not_mem (not_mem_groupNodes_of_ne hne h)
  rw [groupItems, upsert_items, (insertNear_perm other.placement _ _).count_eq,
    List.count_append, hnew, Nat.zero_add, withoutGroup]
  split
  · next hbelongs =>
    exact List.count_eq_zero_of_not_mem fun hmem => by
      simpa [hbelongs] using List.of_mem_filter hmem
  · next hbelongs => exact List.count_filter (by simpa using hbelongs)

theorem GroupStands.holdsOnce {group : GeneratedGroup} {chunks : List String} {document : Fields}
    (h : GroupStands group chunks document) : HoldsOnce group chunks document := by
  obtain ⟨node, front, rest, hfind, hitems, hnone⟩ := h
  exact ⟨node, _, hfind, hitems, fun fresh hfresh => count_block hnone hfresh⟩

/-- A list that is found is the list of the parent. It frees the results below
from the address under which lookup found it. -/
theorem holdsOnce_iff {group : GeneratedGroup} {chunks : List String} {document node : Fields}
    {items : List Json} (hfind : find document group.parent = .ok node)
    (hitems : node.items? "patterns" = some items) :
    HoldsOnce group chunks document ↔ ∀ fresh ∈ groupNodes group chunks, items.count fresh = 1 := by
  constructor
  · rintro ⟨found, listed, hfound, hlisted, hcount⟩
    obtain rfl := Except.ok.inj (hfound.symm.trans hfind)
    obtain rfl := Option.some.inj (hlisted.symm.trans hitems)
    exact hcount
  · exact fun hcount => ⟨node, items, hfind, hitems, hcount⟩

/-- Names that are both found are found at one node if the first node carries
the second name. This can be asked of the node alone, and so it is kept by the
changes of its list. -/
theorem sharesParent_iff {layout : Layout} {document : Fields} {node : Role × Fields}
    (htypes : carriers layout.types.parent (documentNodes document) = [node])
    (hfunctions : Found layout.functions.parent document) :
    SharesParent layout document ↔ carries node.1 node.2 layout.functions.parent = true := by
  obtain ⟨parent, hparent, hseen⟩ := exists_locate_of_carriers htypes
  constructor
  · rintro ⟨shared, hshared, hother⟩
    obtain rfl := Except.ok.inj (hshared.symm.trans hparent)
    rw [← hseen]
    exact carries_of_carriers (carriers_of_locate hother)
  · intro hcarries
    obtain ⟨node', hnode'⟩ := hfunctions
    obtain ⟨other, hother, -⟩ := exists_locate_of_carriers hnode'
    refine ⟨parent, hparent, ?_⟩
    have hvisible : parent ∈ visibleNodes (.object document) :=
      List.mem_of_mem_filter (locate_eq_ok_iff.1 hparent ▸ List.mem_singleton_self parent)
    have hfound : parent ∈ [other] := locate_eq_ok_iff.1 hother ▸
      List.mem_filter.2 ⟨hvisible, by rw [← hseen] at hcarries; exact hcarries⟩
    rw [List.mem_singleton.1 hfound]
    exact hother

/-- A block that stands keeps its nodes when another group is put in, except
those that the other group takes for its own in the same list. Lists above and
below may change as well; a block holds none of them. -/
theorem exists_count_groupChange {group other : GeneratedGroup} {chunks : List String}
    {document : Fields} (h : GroupStands group chunks document)
    (hne : group.group ≠ other.group) (others : List String) :
    ∃ role node items,
      carriers group.parent (documentNodes (mapDocument (groupChange other others) document)) =
        [(role, node)] ∧
      node.items? "patterns" = some items ∧
      ∀ fresh ∈ groupNodes group chunks, items.count fresh =
        if carries role node other.parent && belongsTo other.group fresh then 0 else 1 := by
  obtain ⟨node, front, rest, hfind, hitems, hnone⟩ := h
  obtain ⟨role, hnode⟩ := find_eq_ok_iff.1 hfind
  obtain ⟨front', rest', hbelow, hnone'⟩ := exists_block_map hnone other others
  have hkeeps := (localChange_groupChange other others).keepsTexts
  have hfound := carriers_mapDocument hkeeps
    (keepsNodes_editPatterns (keepsItemNodes_groupItems other others) other.parent document)
    group.parent
  rw [hnode] at hfound
  have hsame : carries role (groupChange other others role
      (mapFields (groupChange other others) node)) other.parent =
      carries role node other.parent := by
    rw [(hkeeps role).carries, carries_mapFields]
  have hlist := items?_groupChange other others role hitems
  rw [hbelow] at hlist
  refine ⟨role, _, _, hfound, hlist, fun fresh hfresh => ?_⟩
  rw [hsame]
  cases hcarries : carries role node other.parent with
  | false => simp [count_block hnone' hfresh]
  | true => simp [count_groupItems others hne hfresh, count_block hnone' hfresh]

/-- Ordering the directives moves items of a list, but neither its node nor
its names. Counts of nodes do not depend on their order, so they pass over the
last edit. -/
theorem exists_perm_orderItems {name : String} {document : Fields} {role : Role} {node : Fields}
    {items : List Json} (hnode : carriers name (documentNodes document) = [(role, node)])
    (hitems : node.items? "patterns" = some items) (rules : List IncludeRule) :
    ∃ node' items',
      carriers name (documentNodes (editPatterns (orderItems rules) document)) =
        [(role, node')] ∧
      (∀ other, carries role node' other = carries role node other) ∧
      node'.items? "patterns" = some items' ∧ items'.Perm items := by
  rcases carriers_permute (orderItems_perm rules) hnode with hsame | ⟨rfl, rfl, hself⟩
  · exact ⟨node, items, hsame, fun _ => rfl, hitems, List.Perm.refl _⟩
  · refine ⟨_, _, hself, fun other => (keepsTexts_editPatterns _).carries _ _ other, ?_,
      orderItems_perm rules items⟩
    rw [items?_editPatterns, hitems]
    rfl

theorem group_ne_of_validate {options : Options} (h : options.validate = .ok ()) :
    options.layout.types.group ≠ options.layout.functions.group := by
  intro hsame
  unfold Options.validate at h
  split at h
  · cases h
  · simp only [Layout.validate, hsame, if_true] at h
    obtain ⟨-, -, h⟩ := bind_eq_ok h
    obtain ⟨-, -, h⟩ := bind_eq_ok h
    obtain ⟨-, -, h⟩ := bind_eq_ok h
    cases h

/-- After a patch with a valid layout the nodes of the functions stand in
their list, each once. The nodes of the types do so, too, exactly if not both
groups share a parent while the tag of the functions claims a node of the
types. The functions are put in last, so they are never the ones that are
lost. The check of a layout only asks for tags that differ, which is too
little for a shared list. -/
theorem apply_isolates_iff {options : Options} {symbols : SymbolSet} {document result : Fields}
    {count : Nat} (hvalid : options.validate = .ok ())
    (h : apply options symbols document = (result, .ok count)) :
    ∃ types functions,
      Symbol.chunks options.maxChunkLength symbols.types.names = .ok types ∧
      Symbol.chunks options.maxChunkLength symbols.functions.names = .ok functions ∧
      HoldsOnce options.layout.functions functions result ∧
      (HoldsOnce options.layout.types types result ↔
        ¬(SharesParent options.layout result ∧
          Claims options.layout.functions.group options.layout.types.group types.length)) := by
  obtain ⟨types, functions, htypes, hfunctions, hpatchable, rfl, -⟩ := apply_eq_ok_iff.1 h
  have hne := group_ne_of_validate hvalid
  have hfunctionBlock : GroupStands options.layout.functions functions
      (patched options.layout symbols types functions document) :=
    (groupStands_of_hasList hpatchable.functionList).orderItems options.layout.includeOrder
  refine ⟨types, functions, htypes, hfunctions, hfunctionBlock.holdsOnce, ?_⟩
  obtain ⟨role, node, items, hnode, hitems, hcount⟩ := exists_count_groupChange
    (groupStands_of_hasList hpatchable.typeList) hne functions
  obtain ⟨node', items', hnode', hcarries, hitems', hperm⟩ :=
    exists_perm_orderItems hnode hitems options.layout.includeOrder
  rw [patched, holdsOnce_iff (find_eq_ok_iff.2 ⟨role, hnode'⟩) hitems',
    sharesParent_iff hnode' hfunctionBlock.hasList.found, claims_iff hne.symm, hcarries]
  have hcount' : ∀ fresh ∈ groupNodes options.layout.types types, items'.count fresh = 1 ↔
      ¬(carries role node options.layout.functions.parent = true ∧
        belongsTo options.layout.functions.group fresh = true) := by
    intro fresh hfresh
    rw [hperm.count_eq, hcount fresh hfresh, ← Bool.and_eq_true]
    split
    · next hboth => simp [hboth]
    · next hboth => simp [hboth]
  constructor
  · rintro hall ⟨hshared, fresh, hfresh, hbelongs⟩
    exact (hcount' fresh hfresh).1 (hall fresh hfresh) ⟨hshared, hbelongs⟩
  · intro hfree fresh hfresh
    exact (hcount' fresh hfresh).2 fun hboth => hfree ⟨hboth.1, fresh, hfresh, hboth.2⟩

/-- A layout that puts both groups next to one anchor, with these tags. -/
def sharedLayout (types functions : String) : Layout :=
  { Layout.standard with
    types := { Layout.standard.types with group := types }
    functions :=
      { Layout.standard.functions with
        group := functions
        parent := Layout.standard.types.parent
        anchor := Layout.standard.types.anchor } }

/-- A tag that goes on without a space claims nothing: in a shared list both
groups stand, even though one tag begins with the other. -/
theorem sharedList_holdsBoth :
    let options : Options := { layout := sharedLayout "openplanet-types" "openplanet" }
    let document := smallGrammar [primitiveRule] [callRule]
    options.validate = .ok () ∧
      ∃ result, apply options (SymbolSet.addAll ∅ smallSymbols) document = (result, .ok 2) ∧
        HoldsOnce options.layout.types ["CGameCtnApp|UI::Font"] result ∧
        HoldsOnce options.layout.functions ["print"] result := by
  intro options document
  have hvalid : options.validate = .ok () := eq_ok_of_toOption (by decide +kernel)
  have hrun : apply options (SymbolSet.addAll ∅ smallSymbols) document = (_, .ok 2) :=
    apply_eq_of_outcome (by decide +kernel)
  have htypeChunks : Symbol.chunks options.maxChunkLength
      (SymbolSet.addAll ∅ smallSymbols).types.names = .ok ["CGameCtnApp|UI::Font"] :=
    eq_ok_of_toOption (by decide +kernel)
  have hfunctionChunks : Symbol.chunks options.maxChunkLength
      (SymbolSet.addAll ∅ smallSymbols).functions.names = .ok ["print"] :=
    eq_ok_of_toOption (by decide +kernel)
  obtain ⟨types, functions, htypes, hfunctions, hholds, hisolated⟩ :=
    apply_isolates_iff hvalid hrun
  obtain rfl := Except.ok.inj (htypes.symm.trans htypeChunks)
  obtain rfl := Except.ok.inj (hfunctions.symm.trans hfunctionChunks)
  have hfree : ¬Claims options.layout.functions.group options.layout.types.group 1 := by decide
  exact ⟨hvalid, _, hrun, hisolated.2 fun hboth => hfree hboth.2, hholds⟩

/-- A tag that the other one goes on from with a space: the layout is valid
and the patch succeeds, but in the shared list the types are gone. No failure
tells of it, and the chunks are counted as if they were there. -/
theorem shared_list_loses_types :
    let options : Options := { layout := sharedLayout "openplanet types" "openplanet" }
    let document := smallGrammar [primitiveRule] [callRule]
    options.validate = .ok () ∧
      ∃ result, apply options (SymbolSet.addAll ∅ smallSymbols) document = (result, .ok 2) ∧
        Symbol.chunks options.maxChunkLength (SymbolSet.addAll ∅ smallSymbols).types.names =
          .ok ["CGameCtnApp|UI::Font"] ∧
        ¬HoldsOnce options.layout.types ["CGameCtnApp|UI::Font"] result := by
  intro options document
  have hvalid : options.validate = .ok () := eq_ok_of_toOption (by decide +kernel)
  have hrun : apply options (SymbolSet.addAll ∅ smallSymbols) document = (_, .ok 2) :=
    apply_eq_of_outcome (by decide +kernel)
  refine ⟨hvalid, _, hrun, eq_ok_of_toOption (by decide +kernel), ?_⟩
  have hlist : ((find (apply options (SymbolSet.addAll ∅ smallSymbols) document).1
      "#types").toOption.bind (Fields.items? · "patterns")) =
      some [generatedNode "openplanet" 0 1 "support.function.openplanet.angelscript"
        "\\b(?:print)\\b(?=\\s*\\()", primitiveRule] := by
    decide +kernel
  rintro ⟨node, items, hfind, hitems, hcount⟩
  rw [show options.layout.types.parent = "#types" from rfl] at hfind
  rw [hfind] at hlist
  have hsame : items = _ := Option.some.inj (hitems.symm.trans hlist)
  have hone := hcount _ (List.mem_mapIdx.2 ⟨0, Nat.one_pos, rfl⟩)
  rw [hsame] at hone
  revert hone
  decide +kernel

end SymbolPatterns.Patch
