import SymbolPatterns.Proofs.Grammar.Group

/-!
The laws of the two changes to a pattern list. Anchors are never generated, so a
group that is put next to its anchor does not enter a block of generated nodes
and does not depend on the nodes of other groups. Include directives are not
generated either, so reordering them keeps such blocks whole.
-/

namespace SymbolPatterns.Grammar

theorem exists_first (p : Json → Bool) (items : List Json) :
    (∃ front x rest, items = front ++ x :: rest ∧ (∀ y ∈ front, p y = false) ∧ p x = true) ∨
      ∀ y ∈ items, p y = false := by
  cases hfind : items.find? p with
  | none => exact .inr fun y hy => by simpa using List.find?_eq_none.1 hfind y hy
  | some x =>
      obtain ⟨hx, front, rest, hsplit, hfront⟩ := List.find?_eq_some_iff_append.1 hfind
      exact .inl ⟨front, x, rest, hsplit, fun y hy => by simpa using hfront y hy, hx⟩

theorem findIdx?_first {p : Json → Bool} {front : List Json} {x : Json}
    (rest : List Json) (hfront : ∀ y ∈ front, p y = false) (hx : p x = true) :
    (front ++ x :: rest).findIdx? p = some front.length := by
  induction front with
  | nil => simp [List.findIdx?_cons, hx]
  | cons y front ih =>
      have hy := hfront y List.mem_cons_self
      simp [List.findIdx?_cons, hy, ih fun z hz => hfront z (List.mem_cons_of_mem _ hz)]

private theorem findIdx?_none {p : Json → Bool} {items : List Json}
    (h : ∀ y ∈ items, p y = false) : items.findIdx? p = none := by
  rw [List.findIdx?_eq_none_iff]
  exact h

/-- What a group leaves of a pattern list: all items that do not belong to it,
in their order. -/
def withoutGroup (group : String) (items : List Json) : List Json :=
  items.filter fun item => !belongsTo group item

/-- Puts nodes into a pattern list, next to the anchor, or at an end of the
list if it has none. Replacing a group is this, after the group is taken out. -/
def insertNear (anchor : String) (placement : Placement) (nodes items : List Json) : List Json :=
  let index := insertionIndex items anchor placement
  items.take index ++ nodes ++ items.drop index

theorem upsert_items (items : List Json) (group : String) (nodes : List Json) (anchor : String)
    (placement : Placement) :
    (upsert items group nodes anchor placement).1 =
      insertNear anchor placement nodes (withoutGroup group items) := rfl

/-- What is left of a list decides where a group goes. Lists that differ in
nodes of the group alone have the same result. -/
theorem upsert_congr {group : String} {items others : List Json}
    (h : withoutGroup group items = withoutGroup group others) (nodes : List Json)
    (anchor : String) (placement : Placement) :
    upsert items group nodes anchor placement = upsert others group nodes anchor placement := by
  have hupsert : ∀ list, upsert list group nodes anchor placement =
      (insertNear anchor placement nodes (withoutGroup group list),
        insertionIndex (withoutGroup group list) anchor placement) := fun _ => rfl
  rw [hupsert, hupsert, h]

/-- The anchor with the nodes on one side. Without this the two placements
would need each lemma twice. -/
def besideAnchor (placement : Placement) (nodes : List Json) (item : Json) : List Json :=
  match placement with
  | .before => nodes ++ [item]
  | .after => item :: nodes

/-- The nodes at the end of a list at which they stand without an anchor:
ahead of it or behind it, by the placement. -/
def besideAll (placement : Placement) (nodes items : List Json) : List Json :=
  match placement with
  | .before => nodes ++ items
  | .after => items ++ nodes

section

variable {anchor : String} (placement : Placement)

theorem insertNear_anchor (nodes : List Json) {front : List Json} {item : Json} (rest : List Json)
    (hfront : ∀ x ∈ front, isAnchor anchor x = false) (hitem : isAnchor anchor item = true) :
    insertNear anchor placement nodes (front ++ item :: rest) =
      front ++ (besideAnchor placement nodes item ++ rest) := by
  have hindex := findIdx?_first rest hfront hitem
  cases placement with
  | before => simp [insertNear, insertionIndex, hindex, besideAnchor]
  | after =>
      simp [insertNear, insertionIndex, hindex, besideAnchor, List.take_length_add_append]

theorem insertNear_no_anchor (nodes : List Json) {items : List Json}
    (h : ∀ x ∈ items, isAnchor anchor x = false) :
    insertNear anchor placement nodes items = besideAll placement nodes items := by
  have hindex := findIdx?_none h
  cases placement with
  | before => simp [insertNear, insertionIndex, hindex, besideAll]
  | after => simp [insertNear, insertionIndex, hindex, besideAll]

/-- Dropping items other than the anchor before or after the nodes are put in
is the same. With it the nodes of another group can be left out of sight. -/
theorem filter_insertNear {keep : Json → Bool}
    (hkeep : ∀ x, isAnchor anchor x = true → keep x = true) (nodes items : List Json) :
    (insertNear anchor placement nodes items).filter keep =
      insertNear anchor placement (nodes.filter keep) (items.filter keep) := by
  rcases exists_first (isAnchor anchor) items with ⟨front, item, rest, rfl, hfront, hitem⟩ | hnone
  · have hfront' : ∀ x ∈ front.filter keep, isAnchor anchor x = false :=
      fun x hx => hfront x (List.mem_of_mem_filter hx)
    rw [insertNear_anchor placement nodes rest hfront hitem, List.filter_append,
      List.filter_append, List.filter_append, List.filter_cons_of_pos (hkeep item hitem),
      insertNear_anchor placement _ _ hfront' hitem]
    cases placement <;> simp [besideAnchor, hkeep item hitem]
  · have hnone' : ∀ x ∈ items.filter keep, isAnchor anchor x = false :=
      fun x hx => hnone x (List.mem_of_mem_filter hx)
    rw [insertNear_no_anchor placement nodes hnone, insertNear_no_anchor placement _ hnone']
    cases placement <;> simp [besideAll]

/-- Changing items so that anchors stay anchors, before or after the nodes are
put in, is the same. Changes further down in the document do this to a list. -/
theorem map_insertNear {g : Json → Json} (hg : ∀ x, isAnchor anchor (g x) = isAnchor anchor x)
    (nodes items : List Json) :
    (insertNear anchor placement nodes items).map g =
      insertNear anchor placement (nodes.map g) (items.map g) := by
  have hmap : ∀ xs : List Json, (∀ x ∈ xs, isAnchor anchor x = false) →
      ∀ x ∈ xs.map g, isAnchor anchor x = false := by
    intro xs hxs x hx
    obtain ⟨y, hy, rfl⟩ := List.mem_map.1 hx
    rw [hg, hxs y hy]
  rcases exists_first (isAnchor anchor) items with ⟨front, item, rest, rfl, hfront, hitem⟩ | hnone
  · rw [insertNear_anchor placement nodes rest hfront hitem, List.map_append, List.map_append,
      List.map_append, List.map_cons,
      insertNear_anchor placement _ _ (hmap front hfront) ((hg item).trans hitem)]
    cases placement <;> simp [besideAnchor]
  · rw [insertNear_no_anchor placement nodes hnone, insertNear_no_anchor placement _ (hmap _ hnone)]
    cases placement <;> simp [besideAll]

theorem insertNear_perm (nodes items : List Json) :
    (insertNear anchor placement nodes items).Perm (nodes ++ items) := by
  unfold insertNear
  simp only [List.append_assoc]
  refine List.perm_append_comm_assoc .. |>.trans (List.Perm.append_left nodes ?_)
  rw [List.take_append_drop]

/-- Nodes are never put into a block without anchors. Generated nodes are no
anchors, so a block of one group is not torn apart by the nodes of another. -/
theorem insertNear_block (nodes front : List Json) {block : List Json} (rest : List Json)
    (hblock : ∀ x ∈ block, isAnchor anchor x = false) :
    ∃ front' rest', insertNear anchor placement nodes (front ++ (block ++ rest)) =
      front' ++ (block ++ rest') ∧ (front' ++ rest').Perm (nodes ++ (front ++ rest)) := by
  have hperm : ∀ front' rest', insertNear anchor placement nodes (front ++ (block ++ rest)) =
      front' ++ (block ++ rest') → (front' ++ rest').Perm (nodes ++ (front ++ rest)) := by
    intro front' rest' heq
    have h : (insertNear anchor placement nodes (front ++ (block ++ rest))).Perm _ :=
      insertNear_perm placement nodes _
    rw [heq] at h
    have hleft : (block ++ (front' ++ rest')).Perm (block ++ (nodes ++ (front ++ rest))) :=
      (List.perm_append_comm_assoc ..).trans (h.trans
        ((List.Perm.append_left nodes (List.perm_append_comm_assoc ..)).trans
          (List.perm_append_comm_assoc ..)))
    exact (List.perm_append_left_iff block).1 hleft
  suffices h : ∃ front' rest', insertNear anchor placement nodes (front ++ (block ++ rest)) =
      front' ++ (block ++ rest') by
    obtain ⟨front', rest', heq⟩ := h
    exact ⟨front', rest', heq, hperm front' rest' heq⟩
  rcases exists_first (isAnchor anchor) front with ⟨before, item, after, rfl, hbefore, hitem⟩ | hno
  · rw [List.append_assoc, List.cons_append, insertNear_anchor placement nodes _ hbefore hitem]
    exact ⟨before ++ (besideAnchor placement nodes item ++ after), rest, by simp⟩
  · rcases exists_first (isAnchor anchor) rest with
      ⟨before, item, after, rfl, hbefore, hitem⟩ | hno'
    · have hall : ∀ x ∈ front ++ (block ++ before), isAnchor anchor x = false := by
        intro x hx
        simp only [List.mem_append] at hx
        rcases hx with hx | hx | hx
        · exact hno x hx
        · exact hblock x hx
        · exact hbefore x hx
      have h := insertNear_anchor placement nodes after hall hitem
      refine ⟨front, before ++ (besideAnchor placement nodes item ++ after), ?_⟩
      simpa using h
    · have hall : ∀ x ∈ front ++ (block ++ rest), isAnchor anchor x = false := by
        intro x hx
        simp only [List.mem_append] at hx
        rcases hx with hx | hx | hx
        · exact hno x hx
        · exact hblock x hx
        · exact hno' x hx
      rw [insertNear_no_anchor placement nodes hall]
      cases placement with
      | before => exact ⟨nodes ++ front, rest, by simp [besideAll]⟩
      | after => exact ⟨front, rest ++ nodes, by simp [besideAll]⟩

end

section

variable {group anchor : String} {placement : Placement} {nodes : List Json}

theorem withoutGroup_eq_nil (h : ∀ x ∈ nodes, belongsTo group x = true) :
    withoutGroup group nodes = [] :=
  List.filter_eq_nil_iff.2 fun x hx => by simp [h x hx]

theorem withoutGroup_eq_self (h : ∀ x ∈ nodes, belongsTo group x = false) :
    withoutGroup group nodes = nodes :=
  List.filter_eq_self.2 fun x hx => by simp [h x hx]

theorem withoutGroup_filter (group : String) (keep : Json → Bool) (items : List Json) :
    withoutGroup group (items.filter keep) = (withoutGroup group items).filter keep := by
  simp only [withoutGroup, List.filter_filter, Bool.and_comm]

theorem withoutGroup_comm (first second : String) (items : List Json) :
    withoutGroup first (withoutGroup second items) =
      withoutGroup second (withoutGroup first items) :=
  withoutGroup_filter first _ items

@[simp] theorem withoutGroup_withoutGroup (group : String) (items : List Json) :
    withoutGroup group (withoutGroup group items) = withoutGroup group items := by
  simp [withoutGroup, List.filter_filter]

theorem withoutGroup_insertNear (group : String) (nodes items : List Json) :
    withoutGroup group (insertNear anchor placement nodes items) =
      insertNear anchor placement (withoutGroup group nodes) (withoutGroup group items) :=
  filter_insertNear placement (fun x hx => by simp [belongsTo_eq_false_of_isAnchor hx]) nodes items

@[simp] theorem insertNear_nil (items : List Json) :
    insertNear anchor placement [] items = items := by
  simp [insertNear]

/-- The nodes of a group are taken out again as they were put in, wherever
they stood. -/
theorem withoutGroup_upsert (h : ∀ x ∈ nodes, belongsTo group x = true) (items : List Json) :
    withoutGroup group (upsert items group nodes anchor placement).1 =
      withoutGroup group items := by
  rw [upsert_items, withoutGroup_insertNear, withoutGroup_eq_nil h, insertNear_nil,
    withoutGroup_withoutGroup]

/-- Replacing a group leaves no trace of an earlier replacement, next to
whatever anchor. The nodes of the earlier one have to be of the group, else
they would not be found again. -/
theorem upsert_upsert (h : ∀ x ∈ nodes, belongsTo group x = true) (items next : List Json)
    (nextAnchor : String) (nextPlacement : Placement) :
    upsert (upsert items group nodes anchor placement).1 group next nextAnchor nextPlacement =
      upsert items group next nextAnchor nextPlacement :=
  upsert_congr (withoutGroup_upsert h items) next nextAnchor nextPlacement

end

section

variable {first second firstAnchor secondAnchor oldFirstAnchor oldSecondAnchor : String}
variable {firstPlacement secondPlacement oldFirstPlacement oldSecondPlacement : Placement}

/-- Replaces the nodes of two groups of one list, in this order. A patch does
so if both groups have one parent. -/
def upsertBoth (first second firstAnchor secondAnchor : String)
    (firstPlacement secondPlacement : Placement) (firstNodes secondNodes items : List Json) :
    List Json :=
  (upsert (upsert items first firstNodes firstAnchor firstPlacement).1 second secondNodes
    secondAnchor secondPlacement).1

/-- Both groups end up where they would go in the list without either. The
nodes of the first must not be taken for nodes of the second, which would
remove them. -/
theorem upsertBoth_eq {firstNodes : List Json} (secondNodes items : List Json)
    (hfirst : ∀ x ∈ firstNodes, belongsTo second x = false) :
    upsertBoth first second firstAnchor secondAnchor firstPlacement secondPlacement firstNodes
        secondNodes items =
      insertNear secondAnchor secondPlacement secondNodes
        (insertNear firstAnchor firstPlacement firstNodes
          (withoutGroup second (withoutGroup first items))) := by
  rw [upsertBoth, upsert_items, upsert_items, withoutGroup_insertNear,
    withoutGroup_eq_self hfirst]

/-- Both groups are taken out again as they were put in, in either order, with
the items between them where they were. -/
theorem withoutBoth_upsertBoth {firstNodes secondNodes : List Json}
    (hfirst : ∀ x ∈ firstNodes, belongsTo first x = true)
    (hsecond : ∀ x ∈ secondNodes, belongsTo second x = true) (items : List Json) :
    withoutGroup second (withoutGroup first
        (upsertBoth first second firstAnchor secondAnchor firstPlacement secondPlacement
          firstNodes secondNodes items)) =
      withoutGroup second (withoutGroup first items) := by
  rw [upsertBoth, withoutGroup_comm, withoutGroup_upsert hsecond, withoutGroup_comm,
    withoutGroup_upsert hfirst]

/-- Replacing both groups leaves no trace of an earlier replacement of both.
The second group of the earlier one stands between the first group and its
anchor, or not; either way it is gone when the second group is put in again. -/
theorem upsertBoth_upsertBoth {firstNodes secondNodes firstNext : List Json}
    (secondNext items : List Json) (hapart : Apart first second)
    (hfirst : ∀ x ∈ firstNodes, belongsTo first x = true)
    (hsecond : ∀ x ∈ secondNodes, belongsTo second x = true)
    (hnext : ∀ x ∈ firstNext, belongsTo first x = true) :
    upsertBoth first second firstAnchor secondAnchor firstPlacement secondPlacement firstNext
        secondNext
        (upsertBoth first second oldFirstAnchor oldSecondAnchor oldFirstPlacement
          oldSecondPlacement firstNodes secondNodes items) =
      upsertBoth first second firstAnchor secondAnchor firstPlacement secondPlacement firstNext
        secondNext items := by
  have hfirst' : ∀ x ∈ firstNodes, belongsTo second x = false :=
    fun x hx => hapart.not_belongsTo (hfirst x hx)
  have hsecond' : ∀ x ∈ secondNodes, belongsTo first x = false :=
    fun x hx => hapart.symm.not_belongsTo (hsecond x hx)
  have hnext' : ∀ x ∈ firstNext, belongsTo second x = false :=
    fun x hx => hapart.not_belongsTo (hnext x hx)
  rw [upsertBoth_eq secondNext _ hnext', upsertBoth_eq secondNodes items hfirst',
    upsertBoth_eq secondNext items hnext']
  simp only [withoutGroup_insertNear, withoutGroup_eq_nil hfirst, withoutGroup_eq_nil hsecond,
    withoutGroup_eq_self hsecond', insertNear_nil]
  rw [withoutGroup_comm first second, withoutGroup_withoutGroup, withoutGroup_withoutGroup]

/-- Nodes as they are written for a group, with any numbers. Their scopes and
patterns do not matter to where they go. -/
def MadeFor (group : String) (nodes : List Json) : Prop :=
  ∀ node ∈ nodes, ∃ index total scope regex, node = generatedNode group index total scope regex

theorem MadeFor.belongsTo {group : String} {nodes : List Json} (h : MadeFor group nodes) :
    ∀ node ∈ nodes, belongsTo group node = true := by
  intro node hnode
  obtain ⟨index, total, scope, regex, rfl⟩ := h node hnode
  exact generatedNode_belongsTo ..

/-- Of two rounds of replacing a group, or of replacing two groups whose tags
are apart, only the last one counts, whatever anchors the first one had. All
other items keep their order. The items of the list are any values at all:
nodes of both groups may be scattered over it, and anchors may stand in it
several times or never. Between the rounds nothing else changes. -/
theorem upserts_overwrite (hapart : Apart first second)
    {firstNodes secondNodes firstNext : List Json} (hfirst : MadeFor first firstNodes)
    (hsecond : MadeFor second secondNodes) (hfirstNext : MadeFor first firstNext)
    (secondNext items : List Json) :
    upsert (upsert items first firstNodes oldFirstAnchor oldFirstPlacement).1 first firstNext
        firstAnchor firstPlacement =
      upsert items first firstNext firstAnchor firstPlacement ∧
    upsertBoth first second firstAnchor secondAnchor firstPlacement secondPlacement firstNext
        secondNext
        (upsertBoth first second oldFirstAnchor oldSecondAnchor oldFirstPlacement
          oldSecondPlacement firstNodes secondNodes items) =
      upsertBoth first second firstAnchor secondAnchor firstPlacement secondPlacement firstNext
        secondNext items ∧
    withoutGroup first (upsert items first firstNodes firstAnchor firstPlacement).1 =
      withoutGroup first items ∧
    withoutGroup second (withoutGroup first
        (upsertBoth first second firstAnchor secondAnchor firstPlacement secondPlacement
          firstNodes secondNodes items)) =
      withoutGroup second (withoutGroup first items) := by
  refine ⟨?_, ?_, ?_, ?_⟩
  · exact upsert_upsert hfirst.belongsTo items firstNext firstAnchor firstPlacement
  · exact upsertBoth_upsertBoth secondNext items hapart hfirst.belongsTo hsecond.belongsTo
      hfirstNext.belongsTo
  · exact withoutGroup_upsert hfirst.belongsTo items
  · exact withoutBoth_upsertBoth hfirst.belongsTo hsecond.belongsTo items

/-- Nodes of two groups scattered over a list, one tag a beginning of the
other: after the second round there is one node of each beside the anchor, and
the first round might not have been. -/
theorem scatteredNodes_overwritten :
    let node (group regex : String) := generatedNode group 0 1 "scope" regex
    let rule : Json := .object [("name", .string "rule")]
    let items := [node "calls" "a", .null, node "calls-extra" "b", rule, node "calls" "c"]
    let once := upsertBoth "calls" "calls-extra" "rule" "none" .after .before
      [node "calls" "d"] [node "calls-extra" "e"] items
    Apart "calls" "calls-extra" ∧ MadeFor "calls" [node "calls" "d"] ∧
      MadeFor "calls-extra" [node "calls-extra" "e"] ∧ MadeFor "calls" [node "calls" "f"] ∧
      upsertBoth "calls" "calls-extra" "rule" "rule" .before .before [node "calls" "f"]
        [node "calls-extra" "g"] once =
      [.null, node "calls" "f", node "calls-extra" "g", rule] := by
  intro node rule items once
  have hapart : Apart "calls" "calls-extra" := by
    refine ⟨by decide, ?_, ?_⟩ <;>
      · rw [← List.isPrefixOf_iff_prefix]
        decide
  have hmade : ∀ group regex, MadeFor group [node group regex] := by
    intro group regex
    exact List.forall_mem_singleton.2 ⟨0, 1, "scope", regex, rfl⟩
  have htwice : upsertBoth "calls" "calls-extra" "rule" "rule" .before .before
      [node "calls" "f"] [node "calls-extra" "g"] once =
      upsertBoth "calls" "calls-extra" "rule" "rule" .before .before [node "calls" "f"]
        [node "calls-extra" "g"] items :=
    (upserts_overwrite hapart (hmade "calls" "d") (hmade "calls-extra" "e") (hmade "calls" "f")
      [node "calls-extra" "g"] items).2.1
  exact ⟨hapart, hmade _ _, hmade _ _, hmade _ _, htwice.trans (by decide +kernel)⟩

end

theorem not_includesTarget {item : Json} (h : includeTarget? item = none) (target : String) :
    includesTarget target item = false := by
  simp [includesTarget, h]

/-- An item includes one target only, so the directives of different targets
are different items. -/
theorem not_includesTarget_of_ne {target other : String} {item : Json}
    (h : includesTarget other item = true) (hne : target ≠ other) :
    includesTarget target item = false := by
  simp only [includesTarget, decide_eq_true_eq] at h
  simp [includesTarget, h, hne.symm]

theorem takeIncludes_cons (target : String) (targets : List String) (items : List Json) :
    takeIncludes (target :: targets) items =
      let others := takeIncludes targets (items.filter fun item => !includesTarget target item)
      (items.filter (includesTarget target) ++ others.1, others.2) := by
  simp only [takeIncludes, List.partition_eq_filter_filter]
  rfl

/-- The directives that are not taken keep their order, among themselves and
to all other items. -/
theorem takeIncludes_left (targets : List String) (items : List Json) :
    (takeIncludes targets items).2 =
      items.filter fun item => !targets.any fun target => includesTarget target item := by
  induction targets generalizing items with
  | nil => simp [takeIncludes]
  | cons target targets ih =>
      rw [takeIncludes_cons]
      simp only [ih, List.filter_filter, List.any_cons, Bool.not_or]
      exact List.filter_congr fun item _ => Bool.and_comm ..

theorem not_included_of_left {targets : List String} {items : List Json} {item : Json}
    (h : item ∈ (takeIncludes targets items).2) :
    ∀ target ∈ targets, includesTarget target item = false := by
  rw [takeIncludes_left] at h
  simpa using List.of_mem_filter h

theorem takeIncludes_perm (targets : List String) (items : List Json) :
    ((takeIncludes targets items).1 ++ (takeIncludes targets items).2).Perm items := by
  induction targets generalizing items with
  | nil => simp [takeIncludes]
  | cons target targets ih =>
      rw [takeIncludes_cons, List.append_assoc]
      exact (List.Perm.append_left _ (ih _)).trans (List.filter_append_perm _ items)

theorem exists_includesTarget_of_mem_taken {targets : List String} {items : List Json}
    {item : Json} (h : item ∈ (takeIncludes targets items).1) :
    ∃ target ∈ targets, includesTarget target item = true := by
  induction targets generalizing items with
  | nil => simp [takeIncludes] at h
  | cons target targets ih =>
      rw [takeIncludes_cons, List.mem_append] at h
      rcases h with h | h
      · exact ⟨target, List.mem_cons_self, List.of_mem_filter h⟩
      · obtain ⟨other, hother, hitem⟩ := ih h
        exact ⟨other, List.mem_cons_of_mem _ hother, hitem⟩

theorem not_includesTarget_of_mem_taken {targets : List String} {target : String}
    (h : target ∉ targets) {items : List Json} {item : Json}
    (hitem : item ∈ (takeIncludes targets items).1) : includesTarget target item = false := by
  obtain ⟨other, hother, hincludes⟩ := exists_includesTarget_of_mem_taken hitem
  exact not_includesTarget_of_ne hincludes fun heq => h (heq ▸ hother)

theorem takeIncludes_of_none {targets : List String} {items : List Json}
    (h : ∀ item ∈ items, ∀ target ∈ targets, includesTarget target item = false) :
    takeIncludes targets items = ([], items) := by
  induction targets with
  | nil => rfl
  | cons target targets ih =>
      have hnone : items.filter (includesTarget target) = [] :=
        List.filter_eq_nil_iff.2 fun item hitem => by
          simp [h item hitem target List.mem_cons_self]
      have hall : (items.filter fun item => !includesTarget target item) = items :=
        List.filter_eq_self.2 fun item hitem => by
          simp [h item hitem target List.mem_cons_self]
      rw [takeIncludes_cons, hnone, hall,
        ih fun item hitem other hother => h item hitem other (List.mem_cons_of_mem _ hother)]
      rfl

theorem map_takeIncludes {g : Json → Json}
    (hg : ∀ target x, includesTarget target (g x) = includesTarget target x)
    (targets : List String) (items : List Json) :
    takeIncludes targets (items.map g) =
      ((takeIncludes targets items).1.map g, (takeIncludes targets items).2.map g) := by
  induction targets generalizing items with
  | nil => rfl
  | cons target targets ih =>
      have htaken : (items.map g).filter (includesTarget target) =
          (items.filter (includesTarget target)).map g := by
        rw [List.filter_map]
        exact congrArg _ (List.filter_congr fun x _ => hg target x)
      have hleft : ((items.map g).filter fun item => !includesTarget target item) =
          (items.filter fun item => !includesTarget target item).map g := by
        rw [List.filter_map]
        exact congrArg _ (List.filter_congr fun x _ => congrArg _ (hg target x))
      rw [takeIncludes_cons, takeIncludes_cons, htaken, hleft, ih, List.map_append]

section

variable (targets : List String) {target : String}

theorem reorder_first_eq {front : List Json} {item : Json} (rest : List Json)
    (hfront : ∀ x ∈ front, includesTarget target x = false)
    (hitem : includesTarget target item = true) :
    reorder (front ++ item :: rest) targets target =
      (front ++ ((takeIncludes targets rest).1 ++ item :: (takeIncludes targets rest).2),
        (takeIncludes targets rest).1.length) := by
  simp [reorder, findIdx?_first rest hfront hitem]

theorem reorder_no_target_eq {items : List Json}
    (h : ∀ x ∈ items, includesTarget target x = false) :
    reorder items targets target = (items, 0) := by
  rw [reorder, findIdx?_none h]

theorem reorder_first {front : List Json} {item : Json} (rest : List Json)
    (hfront : ∀ x ∈ front, includesTarget target x = false)
    (hitem : includesTarget target item = true) :
    (reorder (front ++ item :: rest) targets target).1 =
      front ++ ((takeIncludes targets rest).1 ++ item :: (takeIncludes targets rest).2) :=
  congrArg Prod.fst (reorder_first_eq targets rest hfront hitem)

theorem reorder_no_target {items : List Json} (h : ∀ x ∈ items, includesTarget target x = false) :
    (reorder items targets target).1 = items :=
  congrArg Prod.fst (reorder_no_target_eq targets h)

theorem reorder_perm (target : String) (items : List Json) :
    (reorder items targets target).1.Perm items := by
  rcases exists_first (includesTarget target) items with
    ⟨front, item, rest, rfl, hfront, hitem⟩ | hnone
  · rw [reorder_first targets rest hfront hitem]
    refine List.Perm.append_left front (List.perm_middle.trans ?_)
    exact (takeIncludes_perm targets rest).cons item
  · rw [reorder_no_target targets hnone]

theorem map_reorder {g : Json → Json}
    (hg : ∀ target x, includesTarget target (g x) = includesTarget target x)
    (target : String) (items : List Json) :
    (reorder (items.map g) targets target).1 = (reorder items targets target).1.map g := by
  rcases exists_first (includesTarget target) items with
    ⟨front, item, rest, rfl, hfront, hitem⟩ | hnone
  · have hfront' : ∀ x ∈ front.map g, includesTarget target x = false := by
      intro x hx
      obtain ⟨y, hy, rfl⟩ := List.mem_map.1 hx
      rw [hg, hfront y hy]
    rw [List.map_append, List.map_cons, reorder_first targets _ hfront' ((hg _ _).trans hitem),
      reorder_first targets rest hfront hitem, map_takeIncludes hg]
    simp
  · have hnone' : ∀ x ∈ items.map g, includesTarget target x = false := by
      intro x hx
      obtain ⟨y, hy, rfl⟩ := List.mem_map.1 hx
      rw [hg, hnone y hy]
    rw [reorder_no_target targets hnone, reorder_no_target targets hnone']

/-- Reordering keeps a block without directives whole. What is in front of the
block and behind it changes, and directives may pass from behind to the front. -/
theorem reorder_block (target : String) (front : List Json) {block : List Json} (rest : List Json)
    (hblock : ∀ x ∈ block, includeTarget? x = none) :
    ∃ front' rest', (reorder (front ++ (block ++ rest)) targets target).1 =
      front' ++ (block ++ rest') ∧ (front' ++ rest').Perm (front ++ rest) := by
  have hnot : ∀ x ∈ block, ∀ target, includesTarget target x = false :=
    fun x hx target => not_includesTarget (hblock x hx) target
  suffices h : ∃ front' rest', (reorder (front ++ (block ++ rest)) targets target).1 =
      front' ++ (block ++ rest') by
    obtain ⟨front', rest', heq⟩ := h
    refine ⟨front', rest', heq, ?_⟩
    have hperm := reorder_perm targets target (front ++ (block ++ rest))
    rw [heq] at hperm
    exact (List.perm_append_left_iff block).1 ((List.perm_append_comm_assoc ..).trans
      (hperm.trans (List.perm_append_comm_assoc ..)))
  rcases exists_first (includesTarget target) front with
    ⟨before, item, after, rfl, hbefore, hitem⟩ | hno
  · rw [List.append_assoc, List.cons_append, reorder_first targets _ hbefore hitem,
      takeIncludes_left, List.filter_append, List.filter_append]
    have hkept : block.filter (fun item => !targets.any fun target => includesTarget target item) =
        block := List.filter_eq_self.2 fun x hx => by simp [hnot x hx]
    rw [hkept]
    refine ⟨before ++ ((takeIncludes targets (after ++ (block ++ rest))).1 ++ item ::
      after.filter fun item => !targets.any fun target => includesTarget target item),
      rest.filter fun item => !targets.any fun target => includesTarget target item, ?_⟩
    simp only [List.append_assoc, List.cons_append]
  · rcases exists_first (includesTarget target) rest with
      ⟨before, item, after, rfl, hbefore, hitem⟩ | hno'
    · have hall : ∀ x ∈ front ++ (block ++ before), includesTarget target x = false := by
        intro x hx
        simp only [List.mem_append] at hx
        rcases hx with hx | hx | hx
        · exact hno x hx
        · exact hnot x hx target
        · exact hbefore x hx
      have h := reorder_first targets after hall hitem
      refine ⟨front, before ++ ((takeIncludes targets after).1 ++ item ::
        (takeIncludes targets after).2), ?_⟩
      simpa using h
    · have hall : ∀ x ∈ front ++ (block ++ rest), includesTarget target x = false := by
        intro x hx
        simp only [List.mem_append] at hx
        rcases hx with hx | hx | hx
        · exact hno x hx
        · exact hnot x hx target
        · exact hno' x hx
      exact ⟨front, rest, reorder_no_target targets hall⟩

end

end SymbolPatterns.Grammar
