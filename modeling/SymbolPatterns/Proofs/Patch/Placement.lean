import SymbolPatterns.Proofs.Grammar.Placement
import SymbolPatterns.Proofs.Patch.Content

/-!
Whether generated nodes end up where the layout says. Each group is put beside
its anchor, and the edit of the other group keeps it there, in the same list or
elsewhere. The order of include directives comes last: in the top-level list it
can take an anchor away from its group, or put a directive between the two.
Where it leaves the anchors alone, both groups stand as they should.
-/

namespace SymbolPatterns.Patch

open Json (Fields)
open Grammar

/-- The parent of a group is found, and among the hand-written items of its
list the nodes of the group stand beside their anchor. Nodes of the other
group are left out of sight, as both groups may have one anchor. -/
def StandsBeside (group : GeneratedGroup) (chunks : List String) (document : Fields) : Prop :=
  ∃ node items, find document group.parent = .ok node ∧ node.items? "patterns" = some items ∧
    Beside group.anchor (groupNodes group chunks) group.placement (handwritten items)
      (withoutOthers group.group items)

/-- Each rule leaves the anchor of a group alone in the list that the rules
before it make. The condition follows the pass rule by rule, because a rule
that moves nothing now may move the anchor later. -/
def RulesLeaveAnchor (group : GeneratedGroup) : List IncludeRule → List Json → Prop
  | [], _ => True
  | rule :: rest, items =>
      LeavesAnchor group.anchor group.placement rule.includes rule.before items ∧
        RulesLeaveAnchor group rest (reorder items rule.includes rule.before).1

/-- If the list of a group is the top-level list, the rules for that list
leave its anchor alone. Groups elsewhere need nothing, since only the
top-level list is put into order. -/
def AnchorStays (rules : List IncludeRule) (group : GeneratedGroup) (document : Fields) : Prop :=
  carries .pattern document group.parent = true →
    ∀ items, document.items? "patterns" = some items → RulesLeaveAnchor group rules items

/-- In sight of a group, a list has its nodes in their place. This is the part
of the property that is about a list alone and that a reordering can be
followed on. -/
def HoldsPlace (group : GeneratedGroup) (chunks : List String) (items : List Json) : Prop :=
  InPlace group.group (groupNodes group chunks) group.anchor group.placement
    (items.filter (inSight group.group))

section

variable {group other : GeneratedGroup} {chunks : List String} {items : List Json}

theorem holdsPlace_groupItems (group : GeneratedGroup) (chunks : List String)
    (items : List Json) : HoldsPlace group chunks (groupItems group chunks items) :=
  (inPlace_upsert (groupNodes_belongsTo group chunks) items).filter
    (groupNodes_belongsTo group chunks) (fun _ => inSight_of_isAnchor)
    fun _ => inSight_of_belongsTo

theorem HoldsPlace.groupItems (h : HoldsPlace group chunks items)
    (hapart : Apart group.group other.group) (others : List String) :
    HoldsPlace group chunks (groupItems other others items) := by
  have hsight : (Patch.groupItems other others items).filter (inSight group.group) =
      withoutGroup other.group (items.filter (inSight group.group)) :=
    filter_inSight_upsert hapart (groupNodes_belongsTo other others)
      (includeTarget?_groupNodes other others) items
  rw [HoldsPlace, hsight]
  exact h.filter (groupNodes_belongsTo group chunks)
    (fun x hx => by simp [belongsTo_eq_false_of_isAnchor hx])
    fun x hx => by simp [hapart.not_belongsTo hx]

theorem HoldsPlace.map (h : HoldsPlace group chunks items) {g : Json → Json}
    (hg : Transparent g) : HoldsPlace group chunks (items.map g) := by
  have hsight : (items.map g).filter (inSight group.group) =
      (items.filter (inSight group.group)).map g := by
    rw [List.filter_map]
    exact congrArg _ (List.filter_congr fun x _ => hg.inSight group.group x)
  rw [HoldsPlace, hsight]
  exact InPlace.map (groupNodes_belongsTo group chunks) h hg

/-- One rule after another keeps the place, each in the list that the rules
before it have made. -/
theorem HoldsPlace.orderItems {rules : List IncludeRule} (h : HoldsPlace group chunks items)
    (hstays : RulesLeaveAnchor group rules items) :
    HoldsPlace group chunks (orderItems rules items) := by
  induction rules generalizing items with
  | nil => exact h
  | cons rule rest ih =>
      obtain ⟨hfirst, hrest⟩ := hstays
      have hplain : ∀ x, inSight group.group x = false → includeTarget? x = none :=
        fun _ => includeTarget?_of_not_inSight
      have hmoved : HoldsPlace group chunks (reorder items rule.includes rule.before).1 := by
        rw [HoldsPlace, filter_reorder hplain]
        exact InPlace.reorder (groupNodes_belongsTo group chunks) h
          (includeTarget?_groupNodes group chunks)
          (hfirst.filter hplain fun _ => inSight_of_isAnchor)
      exact ih hmoved hrest

end

/-- The parent of a group is found, and its list has the nodes of the group in
their place. Every edit of a patch but the last keeps it. -/
def Placed (group : GeneratedGroup) (chunks : List String) (document : Fields) : Prop :=
  ∃ node items, find document group.parent = .ok node ∧ node.items? "patterns" = some items ∧
    HoldsPlace group chunks items

section

variable {group other : GeneratedGroup} {chunks : List String} {document : Fields}

theorem Placed.standsBeside (h : Placed group chunks document) :
    StandsBeside group chunks document := by
  obtain ⟨node, items, hfind, hitems, hplace⟩ := h
  exact ⟨node, items, hfind, hitems, InPlace.beside (groupNodes_belongsTo group chunks) hplace⟩

theorem placed_of_hasList (h : HasList group.parent document) :
    Placed group chunks (mapDocument (groupChange group chunks) document) := by
  obtain ⟨⟨role, node⟩, items, hnode, hitems⟩ := h
  have hcarries : carries role node group.parent = true := carries_of_carriers hnode
  have hlist := items?_groupChange group chunks role hitems
  rw [if_pos hcarries] at hlist
  exact ⟨_, _, find_groupChange hnode, hlist, holdsPlace_groupItems ..⟩

theorem Placed.groupChange (h : Placed group chunks document)
    (hapart : Apart group.group other.group) (others : List String) :
    Placed group chunks (mapDocument (groupChange other others) document) := by
  obtain ⟨node, items, hfind, hitems, hplace⟩ := h
  obtain ⟨role, hnode⟩ := find_eq_ok_iff.1 hfind
  have hmapped := hplace.map
    (transparent_mapNodes (localChange_groupChange other others).keepsTexts .pattern)
  refine ⟨_, _, find_groupChange hnode, items?_groupChange other others role hitems, ?_⟩
  split
  · exact hmapped.groupItems hapart others
  · exact hmapped

theorem Placed.orderItems (h : Placed group chunks document) {rules : List IncludeRule}
    (hstays : AnchorStays rules group document) :
    Placed group chunks (editPatterns (orderItems rules) document) := by
  obtain ⟨node, items, hfind, hitems, hplace⟩ := h
  obtain ⟨role, hnode⟩ := find_eq_ok_iff.1 hfind
  rcases carriers_permute (orderItems_perm rules) hnode with hsame | ⟨rfl, rfl, hself⟩
  · exact ⟨node, items, find_eq_ok_iff.2 ⟨role, hsame⟩, hitems, hplace⟩
  · refine ⟨_, _, find_eq_ok_iff.2 ⟨.pattern, hself⟩, ?_,
      hplace.orderItems (hstays (carries_of_carriers hnode) items hitems)⟩
    rw [items?_editPatterns, hitems]
    rfl

end

/-- Before the last edit of a patch each group stands beside its anchor among
the hand-written items of its list, if the tags are apart. The last edit,
which orders the include directives of the top-level list, keeps a group there
as long as it leaves its anchor alone. Where the anchor is moved, the nodes
are not taken along; nothing is claimed about where they stand then. -/
theorem apply_places_groups {options : Options} {symbols : SymbolSet} {document result : Fields}
    {count : Nat} (hapart : Apart options.layout.types.group options.layout.functions.group)
    (h : apply options symbols document = (result, .ok count)) :
    ∃ types functions edited,
      Symbol.chunks options.maxChunkLength symbols.types.names = .ok types ∧
      Symbol.chunks options.maxChunkLength symbols.functions.names = .ok functions ∧
      run (edits options.layout symbols types functions).dropLast document = (edited, .ok ()) ∧
      orderIncludes options.layout.includeOrder edited = .ok result ∧
      StandsBeside options.layout.types types edited ∧
      StandsBeside options.layout.functions functions edited ∧
      (AnchorStays options.layout.includeOrder options.layout.types edited →
        StandsBeside options.layout.types types result) ∧
      (AnchorStays options.layout.includeOrder options.layout.functions edited →
        StandsBeside options.layout.functions functions result) := by
  obtain ⟨types, functions, htypes, hfunctions, hpatchable, rfl, -⟩ := apply_eq_ok_iff.1 h
  have hplaced : Placed options.layout.types types _ :=
    (placed_of_hasList hpatchable.typeList).groupChange hapart functions
  have hplaced' : Placed options.layout.functions functions _ :=
    placed_of_hasList hpatchable.functionList
  exact ⟨types, functions, _, htypes, hfunctions, run_dropLast_of_patchable functions hpatchable,
    orderIncludes_eq _ _, hplaced.standsBeside, hplaced'.standsBeside,
    fun hstays => (hplaced.orderItems hstays).standsBeside,
    fun hstays => (hplaced'.orderItems hstays).standsBeside⟩

/-- The small grammar under a name, by which its top-level list is found. -/
def namedGrammar : Fields :=
  ("name", .string "AngelScript") :: smallGrammar [primitiveRule] [callRule]

/-- A layout that puts the types into the top-level list. -/
def topLevelLayout (anchor : String) (placement : Placement) : Layout :=
  { Layout.standard with
    types :=
      { Layout.standard.types with
        parent := "AngelScript", anchor := anchor, placement := placement } }

/-- Function calls go ahead of the types, and the nodes behind the types stay
where they are: the anchor is the target of the rule and not moved by it. -/
theorem topLevelTypes_stay :
    let options : Options := { layout := topLevelLayout "#types" .after }
    let symbols := SymbolSet.addAll ∅ smallSymbols
    Apart options.layout.types.group options.layout.functions.group ∧
      ∃ result, apply options symbols namedGrammar = (result, .ok 2) ∧
        StandsBeside options.layout.types ["CGameCtnApp|UI::Font"] result ∧
        StandsBeside options.layout.functions ["print"] result := by
  intro options symbols
  have hrun : apply options symbols namedGrammar = (_, .ok 2) :=
    apply_eq_of_outcome (by decide +kernel)
  have htypeChunks : Symbol.chunks options.maxChunkLength symbols.types.names =
      .ok ["CGameCtnApp|UI::Font"] := eq_ok_of_toOption (by decide +kernel)
  have hfunctionChunks : Symbol.chunks options.maxChunkLength symbols.functions.names =
      .ok ["print"] := eq_ok_of_toOption (by decide +kernel)
  obtain ⟨types, functions, edited, htypes, hfunctions, hedited, -, -, -, htypesStand,
    hfunctionsStand⟩ := apply_places_groups apart_standard hrun
  obtain rfl := Except.ok.inj (htypes.symm.trans htypeChunks)
  obtain rfl := Except.ok.inj (hfunctions.symm.trans hfunctionChunks)
  have hlist : (run (edits options.layout symbols ["CGameCtnApp|UI::Font"]
      ["print"]).dropLast namedGrammar).1.items? "patterns" = some [
        .object [("include", .string "#types")],
        generatedNode "openplanet-types" 0 1 "support.type.openplanet.angelscript"
          "\\b(?:CGameCtnApp|UI::Font)\\b",
        .object [("include", .string "#function-calls")],
        namedRule "entity.name.namespace.openplanet.angelscript"
          "\\b(?:Net)\\b(?=\\s*::)"] := by
    decide +kernel
  have hroot : carries .pattern (run (edits options.layout symbols ["CGameCtnApp|UI::Font"]
      ["print"]).dropLast namedGrammar).1 "#function-calls" = false := by
    decide +kernel
  rw [hedited] at hlist hroot
  refine ⟨apart_standard, _, hrun, htypesStand fun _ items hitems => ?_,
    hfunctionsStand fun hcarries => ?_⟩
  · obtain rfl := Option.some.inj (hitems.symm.trans hlist)
    exact ⟨leavesAnchor_first [] _ nofun rfl ⟨by decide, nofun⟩, trivial⟩
  · rw [show options.layout.functions.parent = "#function-calls" from rfl, hroot] at hcarries
    cases hcarries

/-- Types that stand before the function calls are left behind when these are
moved ahead. The nodes were put in before the directives were put into order. -/
theorem moved_anchor_leaves_types :
    let options : Options := { layout := topLevelLayout "#function-calls" .before }
    let symbols := SymbolSet.addAll ∅ smallSymbols
    options.validate = .ok () ∧
      Apart options.layout.types.group options.layout.functions.group ∧
      ∃ result, apply options symbols namedGrammar = (result, .ok 2) ∧
        Symbol.chunks options.maxChunkLength symbols.types.names =
          .ok ["CGameCtnApp|UI::Font"] ∧
        ¬StandsBeside options.layout.types ["CGameCtnApp|UI::Font"] result := by
  intro options symbols
  have hvalid : options.validate = .ok () := eq_ok_of_toOption (by decide +kernel)
  have hrun : apply options symbols namedGrammar = (_, .ok 2) :=
    apply_eq_of_outcome (by decide +kernel)
  refine ⟨hvalid, apart_standard, _, hrun, eq_ok_of_toOption (by decide +kernel), ?_⟩
  have hlist : ((find (apply options symbols namedGrammar).1 "AngelScript").toOption.bind
      (Fields.items? · "patterns")) = some [
        .object [("include", .string "#function-calls")],
        .object [("include", .string "#types")],
        generatedNode "openplanet-types" 0 1 "support.type.openplanet.angelscript"
          "\\b(?:CGameCtnApp|UI::Font)\\b",
        namedRule "entity.name.namespace.openplanet.angelscript"
          "\\b(?:Net)\\b(?=\\s*::)"] := by
    decide +kernel
  rintro ⟨node, items, hfind, hitems, hbeside⟩
  rw [show options.layout.types.parent = "AngelScript" from rfl] at hfind
  rw [hfind] at hlist
  have hsame : items = _ := Option.some.inj (hitems.symm.trans hlist)
  have hplace := hbeside.eq_insertNear
  rw [hsame] at hplace
  revert hplace
  decide +kernel

end SymbolPatterns.Patch
