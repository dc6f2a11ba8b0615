import SymbolPatterns.Proofs.Grammar.Erasure

/-!
Where generated nodes stand among the hand-written items of a list. A group is
in its place if putting it in once more changes nothing. It stays there whatever
happens to other items, as long as anchors stay anchors, and under a rule for
include directives that leaves the anchors alone.
-/

namespace SymbolPatterns.Grammar

/-- How a list looks with nodes put in: they stand on one side of the first
anchor or, without an anchor, at one end. The rules describe the list that
comes out and no way to make it. -/
inductive Beside (anchor : String) (nodes : List Json) :
    Placement → List Json → List Json → Prop
  | before {front rest : List Json} {item : Json}
      (hfront : ∀ x ∈ front, isAnchor anchor x = false) (hitem : isAnchor anchor item = true) :
      Beside anchor nodes .before (front ++ item :: rest) (front ++ (nodes ++ item :: rest))
  | after {front rest : List Json} {item : Json}
      (hfront : ∀ x ∈ front, isAnchor anchor x = false) (hitem : isAnchor anchor item = true) :
      Beside anchor nodes .after (front ++ item :: rest) (front ++ item :: (nodes ++ rest))
  | atStart {items : List Json} (hnone : ∀ x ∈ items, isAnchor anchor x = false) :
      Beside anchor nodes .before items (nodes ++ items)
  | atEnd {items : List Json} (hnone : ∀ x ∈ items, isAnchor anchor x = false) :
      Beside anchor nodes .after items (items ++ nodes)

theorem beside_insertNear (anchor : String) (placement : Placement) (nodes items : List Json) :
    Beside anchor nodes placement items (insertNear anchor placement nodes items) := by
  rcases exists_first (isAnchor anchor) items with ⟨front, item, rest, rfl, hfront, hitem⟩ | hnone
  · rw [insertNear_anchor placement nodes rest hfront hitem]
    cases placement with
    | before => simpa [besideAnchor] using Beside.before hfront hitem
    | after => simpa [besideAnchor] using Beside.after hfront hitem
  · rw [insertNear_no_anchor placement nodes hnone]
    cases placement with
    | before => exact .atStart hnone
    | after => exact .atEnd hnone

/-- There is one place for the nodes. So a list that looks like this is the
one that comes out. -/
theorem Beside.eq_insertNear {anchor : String} {placement : Placement}
    {nodes items shown : List Json} (h : Beside anchor nodes placement items shown) :
    shown = insertNear anchor placement nodes items := by
  cases h with
  | before hfront hitem => simp [insertNear_anchor _ _ _ hfront hitem, besideAnchor]
  | after hfront hitem => simp [insertNear_anchor _ _ _ hfront hitem, besideAnchor]
  | atStart hnone => simp [insertNear_no_anchor _ _ hnone, besideAll]
  | atEnd hnone => simp [insertNear_no_anchor _ _ hnone, besideAll]

/-- Dropping what is not moved does not change what is moved, nor the order of
what is left. -/
theorem takeIncludes_filter {keep : Json → Bool} {targets : List String}
    (h : ∀ x, keep x = false → ∀ target ∈ targets, includesTarget target x = false)
    (items : List Json) :
    takeIncludes targets (items.filter keep) =
      ((takeIncludes targets items).1, (takeIncludes targets items).2.filter keep) := by
  induction targets generalizing items with
  | nil => rfl
  | cons target targets ih =>
      have htaken : (items.filter keep).filter (includesTarget target) =
          items.filter (includesTarget target) := by
        rw [List.filter_filter]
        refine List.filter_congr fun x _ => ?_
        cases hx : keep x with
        | true => rw [Bool.and_true]
        | false => rw [h x hx target List.mem_cons_self, Bool.false_and]
      have hleft : (items.filter keep).filter (fun item => !includesTarget target item) =
          (items.filter fun item => !includesTarget target item).filter keep := by
        simp only [List.filter_filter, Bool.and_comm]
      have hothers : ∀ x, keep x = false → ∀ other ∈ targets, includesTarget other x = false :=
        fun x hx other hother => h x hx other (List.mem_cons_of_mem _ hother)
      rw [takeIncludes_cons, takeIncludes_cons, htaken, hleft, ih hothers]

/-- Items without directives may be dropped before or after a list is
reordered. Statements about the place of one group can then be made on a
shorter list. -/
theorem filter_reorder {keep : Json → Bool} (h : ∀ x, keep x = false → includeTarget? x = none)
    (targets : List String) (target : String) (items : List Json) :
    (reorder items targets target).1.filter keep =
      (reorder (items.filter keep) targets target).1 := by
  have hkept : ∀ x target, includesTarget target x = true → keep x = true := by
    intro x target hx
    cases hkeep : keep x with
    | true => rfl
    | false =>
        rw [not_includesTarget (h x hkeep) target] at hx
        cases hx
  rcases exists_first (includesTarget target) items with
    ⟨front, item, rest, rfl, hfront, hitem⟩ | hnone
  · have hfront' : ∀ x ∈ front.filter keep, includesTarget target x = false :=
      fun x hx => hfront x (List.mem_of_mem_filter hx)
    have htaken : (takeIncludes targets rest).1.filter keep = (takeIncludes targets rest).1 := by
      refine List.filter_eq_self.2 fun x hx => ?_
      obtain ⟨other, -, hother⟩ := exists_includesTarget_of_mem_taken hx
      exact hkept x other hother
    rw [reorder_first targets rest hfront hitem, List.filter_append, List.filter_append,
      List.filter_cons_of_pos (hkept item target hitem), List.filter_append,
      List.filter_cons_of_pos (hkept item target hitem), htaken,
      reorder_first targets _ hfront' hitem,
      takeIncludes_filter fun x hx other _ => not_includesTarget (h x hx) other]
  · have hnone' : ∀ x ∈ items.filter keep, includesTarget target x = false :=
      fun x hx => hnone x (List.mem_of_mem_filter hx)
    rw [reorder_no_target targets hnone, reorder_no_target targets hnone']

/-- A rule for include directives leaves the anchor of a list alone. Where no
anchor stands ahead of the target, none is moved there; and where the target
is the anchor and nodes stand before it, nothing is. A moved anchor leaves its
nodes behind, so the condition is about the anchor only. -/
def LeavesAnchor (anchor : String) (placement : Placement) (targets : List String)
    (target : String) (items : List Json) : Prop :=
  ∀ front goal rest, items = front ++ goal :: rest →
    (∀ x ∈ front, includesTarget target x = false) → includesTarget target goal = true →
    (∀ x ∈ front, isAnchor anchor x = false) →
    (∀ x ∈ (takeIncludes targets rest).1, isAnchor anchor x = false) ∧
      (placement = .before → isAnchor anchor goal = true → (takeIncludes targets rest).1 = [])

/-- The first target splits a list in one way, so it is enough to know of one
such split that the rule leaves the anchor alone. -/
theorem leavesAnchor_first {anchor target : String} {placement : Placement}
    {targets : List String} (front rest : List Json) {goal : Json}
    (hfront : ∀ x ∈ front, includesTarget target x = false)
    (hgoal : includesTarget target goal = true)
    (h : (∀ x ∈ (takeIncludes targets rest).1, isAnchor anchor x = false) ∧
      (placement = .before → isAnchor anchor goal = true → (takeIncludes targets rest).1 = [])) :
    LeavesAnchor anchor placement targets target (front ++ goal :: rest) := by
  intro front' goal' rest' hsplit hfront' hgoal' _
  have hindex : front.length = front'.length := by
    have hfirst := findIdx?_first rest hfront hgoal
    rw [hsplit, findIdx?_first rest' hfront' hgoal'] at hfirst
    exact (Option.some.inj hfirst).symm
  obtain ⟨-, htail⟩ := List.append_inj hsplit hindex
  obtain ⟨rfl, rfl⟩ := List.cons.inj htail
  exact h

/-- Items without directives are no matter to what a rule does, so the
condition goes over to a list without them. -/
theorem LeavesAnchor.filter {anchor target : String} {placement : Placement}
    {targets : List String} {items : List Json}
    (h : LeavesAnchor anchor placement targets target items) {keep : Json → Bool}
    (hplain : ∀ x, keep x = false → includeTarget? x = none)
    (hanchor : ∀ x, isAnchor anchor x = true → keep x = true) :
    LeavesAnchor anchor placement targets target (items.filter keep) := by
  intro front goal rest hsplit hfront hgoal hahead
  obtain ⟨front', tail, rfl, rfl, htail⟩ := List.filter_eq_append_iff.1 hsplit
  obtain ⟨skipped, rest', rfl, hskipped, -, rfl⟩ := List.filter_eq_cons_iff.1 htail
  have hdropped : ∀ x, keep x = false →
      includesTarget target x = false ∧ isAnchor anchor x = false := by
    intro x hx
    refine ⟨not_includesTarget (hplain x hx) target, ?_⟩
    rw [← Bool.not_eq_true]
    intro hxanchor
    rw [hanchor x hxanchor] at hx
    cases hx
  have hall : ∀ x ∈ front' ++ skipped,
      includesTarget target x = false ∧ isAnchor anchor x = false := by
    intro x hx
    cases hkeep : keep x with
    | false => exact hdropped x hkeep
    | true =>
        rcases List.mem_append.1 hx with hx | hx
        · exact ⟨hfront x (List.mem_filter.2 ⟨hx, hkeep⟩),
            hahead x (List.mem_filter.2 ⟨hx, hkeep⟩)⟩
        · exact absurd hkeep (hskipped x hx)
  rw [takeIncludes_filter fun x hx other _ => not_includesTarget (hplain x hx) other]
  exact h (front' ++ skipped) goal rest' (by simp) (fun x hx => (hall x hx).1) hgoal
    fun x hx => (hall x hx).2

section

variable {anchor target : String} {placement : Placement} {targets : List String}
variable {nodes items : List Json}

private theorem taken_block (front rest : List Json) {block : List Json}
    (hblock : ∀ x ∈ block, ∀ other ∈ targets, includesTarget other x = false) :
    (takeIncludes targets (front ++ (block ++ rest))).1 =
      (takeIncludes targets (front ++ rest)).1 := by
  have hfilter : ∀ items : List Json, (takeIncludes targets items).1 =
      (takeIncludes targets
        (items.filter fun x => targets.any fun other => includesTarget other x)).1 := by
    intro items
    rw [takeIncludes_filter fun x hx other hother => by
      rw [List.any_eq_false] at hx
      simpa using hx other hother]
  have hnone : block.filter (fun x => targets.any fun other => includesTarget other x) = [] :=
    List.filter_eq_nil_iff.2 fun x hx => by simpa using hblock x hx
  rw [hfilter, hfilter (front ++ rest), List.filter_append, List.filter_append, hnone,
    List.nil_append, List.filter_append]

private theorem left_eq_self {block : List Json}
    (hblock : ∀ x ∈ block, ∀ other ∈ targets, includesTarget other x = false) :
    block.filter (fun x => !targets.any fun other => includesTarget other x) = block :=
  List.filter_eq_self.2 fun x hx => by simpa using hblock x hx

/-- A block that is not moved stays in one piece behind the target, with what
is left on both sides. -/
private theorem takeIncludes_block (front rest : List Json) {block : List Json}
    (hblock : ∀ x ∈ block, ∀ other ∈ targets, includesTarget other x = false) :
    takeIncludes targets (front ++ (block ++ rest)) =
      ((takeIncludes targets (front ++ rest)).1,
        (takeIncludes targets front).2 ++ (block ++ (takeIncludes targets rest).2)) := by
  refine Prod.ext (taken_block front rest hblock) ?_
  simp only [takeIncludes_left, List.filter_append, left_eq_self hblock]

private theorem besideAnchor_forall {p : Json → Prop} {item : Json} (hitem : p item)
    (hnodes : ∀ x ∈ nodes, p x) : ∀ x ∈ besideAnchor placement nodes item, p x := by
  cases placement with
  | before => exact List.forall_mem_append.2 ⟨hnodes, List.forall_mem_singleton.2 hitem⟩
  | after => exact List.forall_mem_cons.2 ⟨hitem, hnodes⟩

-- The first anchor may stand ahead of the target of a rule, be the target, stand behind it or be
-- missing. In each case the nodes stay beside it.

section

variable {front rest : List Json} {goal : Json}
variable (hnodes : ∀ x ∈ nodes, ∀ other, includesTarget other x = false)
variable (hfront : ∀ x ∈ front, includesTarget target x = false)
variable (hgoal : includesTarget target goal = true)

include hnodes hfront hgoal

private theorem reorder_insertNear_ahead {before after : List Json} {item : Json}
    (hsplit : front = before ++ item :: after)
    (hbefore : ∀ x ∈ before, isAnchor anchor x = false) (hitem : isAnchor anchor item = true) :
    (reorder (insertNear anchor placement nodes (front ++ goal :: rest)) targets target).1 =
      insertNear anchor placement nodes (reorder (front ++ goal :: rest) targets target).1 := by
  subst hsplit
  obtain ⟨htargets, hfront'⟩ := List.forall_mem_append.1 hfront
  obtain ⟨htarget, htargets'⟩ := List.forall_mem_cons.1 hfront'
  have hahead : ∀ x ∈ before ++ (besideAnchor placement nodes item ++ after),
      includesTarget target x = false :=
    List.forall_mem_append.2 ⟨htargets, List.forall_mem_append.2
      ⟨besideAnchor_forall htarget fun x hx => hnodes x hx target, htargets'⟩⟩
  have hshown := reorder_first targets rest hahead hgoal
  have hplain := reorder_first targets rest hfront hgoal
  simp only [List.append_assoc, List.cons_append] at hshown hplain ⊢
  rw [hplain, insertNear_anchor placement nodes _ hbefore hitem,
    insertNear_anchor placement nodes _ hbefore hitem, hshown]

private theorem reorder_insertNear_goal_before
    (hahead : ∀ x ∈ front, isAnchor anchor x = false) (hitem : isAnchor anchor goal = true)
    (hnone : (takeIncludes targets rest).1 = []) :
    (reorder (insertNear anchor .before nodes (front ++ goal :: rest)) targets target).1 =
      insertNear anchor .before nodes (reorder (front ++ goal :: rest) targets target).1 := by
  have hplain : ∀ x ∈ front ++ nodes, includesTarget target x = false :=
    List.forall_mem_append.2 ⟨hfront, fun x hx => hnodes x hx target⟩
  have hshown := reorder_first targets rest hplain hgoal
  rw [List.append_assoc, hnone, List.nil_append] at hshown
  rw [reorder_first targets rest hfront hgoal, hnone, List.nil_append,
    insertNear_anchor .before nodes _ hahead hitem, insertNear_anchor .before nodes _ hahead hitem]
  simpa [besideAnchor] using hshown

private theorem reorder_insertNear_goal_after
    (hahead : ∀ x ∈ front, isAnchor anchor x = false) (hitem : isAnchor anchor goal = true)
    (htaken : ∀ x ∈ (takeIncludes targets rest).1, isAnchor anchor x = false) :
    (reorder (insertNear anchor .after nodes (front ++ goal :: rest)) targets target).1 =
      insertNear anchor .after nodes (reorder (front ++ goal :: rest) targets target).1 := by
  have hbefore : ∀ x ∈ front ++ (takeIncludes targets rest).1, isAnchor anchor x = false :=
    List.forall_mem_append.2 ⟨hahead, htaken⟩
  have hblock : takeIncludes targets (nodes ++ rest) =
      ((takeIncludes targets rest).1, nodes ++ (takeIncludes targets rest).2) := by
    simpa [takeIncludes_left] using takeIncludes_block [] rest fun x hx other _ => hnodes x hx other
  have hshown := insertNear_anchor .after nodes (takeIncludes targets rest).2 hbefore hitem
  rw [insertNear_anchor .after nodes rest hahead hitem, besideAnchor, List.cons_append,
    reorder_first targets _ hfront hgoal, reorder_first targets rest hfront hgoal, hblock]
  simpa [besideAnchor] using hshown.symm

/-- Behind the target the anchor is not moved, so the nodes on its one side
are not cut off. What is taken from between leaves both of them where they
are. -/
private theorem reorder_insertNear_behind {before after : List Json} {item : Json}
    (hahead : ∀ x ∈ front ++ goal :: before, isAnchor anchor x = false)
    (hitem : isAnchor anchor item = true)
    (htaken : ∀ x ∈ (takeIncludes targets
      (before ++ (besideAnchor placement nodes item ++ after))).1, isAnchor anchor x = false) :
    (reorder (insertNear anchor placement nodes (front ++ goal :: (before ++ item :: after)))
        targets target).1 =
      insertNear anchor placement nodes
        (reorder (front ++ goal :: (before ++ item :: after)) targets target).1 := by
  have hstays : ∀ other ∈ targets, includesTarget other item = false := by
    have hmem : item ∈ before ++ (besideAnchor placement nodes item ++ after) := by
      cases placement <;> simp [besideAnchor]
    rcases List.mem_append.1 ((takeIncludes_perm targets _).mem_iff.2 hmem) with hx | hx
    · rw [htaken item hx] at hitem
      cases hitem
    · exact not_included_of_left hx
  have hblock : ∀ x ∈ besideAnchor placement nodes item, ∀ other ∈ targets,
      includesTarget other x = false :=
    besideAnchor_forall (p := fun x => ∀ other ∈ targets, includesTarget other x = false)
      hstays fun x hx other _ => hnodes x hx other
  have hone : ∀ x ∈ [item], ∀ other ∈ targets, includesTarget other x = false :=
    List.forall_mem_singleton.2 hstays
  have hplain : takeIncludes targets (before ++ item :: after) =
      ((takeIncludes targets (before ++ after)).1,
        (takeIncludes targets before).2 ++ item :: (takeIncludes targets after).2) :=
    takeIncludes_block before after hone
  rw [taken_block before after hblock] at htaken
  obtain ⟨hfirst, hahead'⟩ := List.forall_mem_append.1 hahead
  obtain ⟨htarget, hbefore⟩ := List.forall_mem_cons.1 hahead'
  have hleft : ∀ x ∈ (takeIncludes targets before).2, isAnchor anchor x = false := by
    intro x hx
    rw [takeIncludes_left] at hx
    exact hbefore x (List.mem_of_mem_filter hx)
  have hmoved : ∀ x ∈ front ++ ((takeIncludes targets (before ++ after)).1 ++
      goal :: (takeIncludes targets before).2), isAnchor anchor x = false :=
    List.forall_mem_append.2 ⟨hfirst, List.forall_mem_append.2
      ⟨htaken, List.forall_mem_cons.2 ⟨htarget, hleft⟩⟩⟩
  have hshown := insertNear_anchor placement nodes (takeIncludes targets after).2 hmoved hitem
  have hinsert := insertNear_anchor placement nodes after hahead hitem
  simp only [List.append_assoc, List.cons_append] at hshown hinsert
  rw [hinsert, reorder_first targets _ hfront hgoal, reorder_first targets _ hfront hgoal, hplain,
    takeIncludes_block before after hblock, hshown]

private theorem reorder_insertNear_missing
    (hnone : ∀ x ∈ front ++ goal :: rest, isAnchor anchor x = false) :
    (reorder (insertNear anchor placement nodes (front ++ goal :: rest)) targets target).1 =
      insertNear anchor placement nodes (reorder (front ++ goal :: rest) targets target).1 := by
  have hreordered : ∀ x ∈ (reorder (front ++ goal :: rest) targets target).1,
      isAnchor anchor x = false :=
    fun x hx => hnone x ((reorder_perm targets target _).mem_iff.1 hx)
  rw [insertNear_no_anchor placement nodes hnone, insertNear_no_anchor placement nodes hreordered,
    reorder_first targets rest hfront hgoal]
  cases placement with
  | before =>
      have hahead : ∀ x ∈ nodes ++ front, includesTarget target x = false :=
        List.forall_mem_append.2 ⟨fun x hx => hnodes x hx target, hfront⟩
      rw [besideAll, besideAll, ← List.append_assoc, reorder_first targets rest hahead hgoal,
        List.append_assoc]
  | after =>
      have hblock : takeIncludes targets (rest ++ nodes) =
          ((takeIncludes targets rest).1, (takeIncludes targets rest).2 ++ nodes) := by
        simpa [takeIncludes_left] using
          takeIncludes_block rest [] fun x hx other _ => hnodes x hx other
      rw [besideAll, besideAll, List.append_assoc, List.cons_append,
        reorder_first targets _ hfront hgoal, hblock]
      simp

/-- The case of a list with the target in it. The rule is known to leave the
anchor alone in the list with the nodes, so its target is looked up there,
too. -/
private theorem reorder_insertNear_target
    (hgenerated : ∀ x ∈ nodes, isAnchor anchor x = false)
    (h : LeavesAnchor anchor placement targets target
      (insertNear anchor placement nodes (front ++ goal :: rest))) :
    (reorder (insertNear anchor placement nodes (front ++ goal :: rest)) targets target).1 =
      insertNear anchor placement nodes (reorder (front ++ goal :: rest) targets target).1 := by
  rcases exists_first (isAnchor anchor) front with
    ⟨before, item, after, hsplit, hbefore, hitem⟩ | hahead
  · exact reorder_insertNear_ahead hnodes hfront hgoal hsplit hbefore hitem
  cases hitem : isAnchor anchor goal with
  | true =>
      rw [insertNear_anchor placement nodes rest hahead hitem] at h
      cases placement with
      | before =>
          have hsplit : front ++ (besideAnchor .before nodes goal ++ rest) =
              (front ++ nodes) ++ goal :: rest := by simp [besideAnchor]
          have htargets : ∀ x ∈ front ++ nodes, includesTarget target x = false :=
            List.forall_mem_append.2 ⟨hfront, fun x hx => hnodes x hx target⟩
          have hanchors : ∀ x ∈ front ++ nodes, isAnchor anchor x = false :=
            List.forall_mem_append.2 ⟨hahead, hgenerated⟩
          have hstays := h _ goal rest hsplit htargets hgoal hanchors
          exact reorder_insertNear_goal_before hnodes hfront hgoal hahead hitem
            (hstays.2 rfl hitem)
      | after =>
          have hstays := h front goal (nodes ++ rest) rfl hfront hgoal hahead
          have htaken : (takeIncludes targets (nodes ++ rest)).1 = (takeIncludes targets rest).1 :=
            taken_block [] rest fun x hx other _ => hnodes x hx other
          rw [htaken] at hstays
          exact reorder_insertNear_goal_after hnodes hfront hgoal hahead hitem hstays.1
  | false =>
      rcases exists_first (isAnchor anchor) rest with
        ⟨before, item, after, rfl, hbefore, hanchor⟩ | hbehind
      · have hnone : ∀ x ∈ front ++ goal :: before, isAnchor anchor x = false :=
          List.forall_mem_append.2 ⟨hahead, List.forall_mem_cons.2 ⟨hitem, hbefore⟩⟩
        have hinsert := insertNear_anchor placement nodes after hnone hanchor
        simp only [List.append_assoc, List.cons_append] at hinsert
        have hstays := h front goal _ hinsert hfront hgoal hahead
        exact reorder_insertNear_behind hnodes hfront hgoal hnone hanchor hstays.1
      · exact reorder_insertNear_missing hnodes hfront hgoal
          (List.forall_mem_append.2 ⟨hahead, List.forall_mem_cons.2 ⟨hitem, hbehind⟩⟩)

end

/-- A rule that leaves the anchor alone may be applied before or after nodes
without directives are put in. -/
theorem reorder_insertNear (hnodes : ∀ x ∈ nodes, includeTarget? x = none)
    (hgenerated : ∀ x ∈ nodes, isAnchor anchor x = false)
    (h : LeavesAnchor anchor placement targets target
      (insertNear anchor placement nodes items)) :
    (reorder (insertNear anchor placement nodes items) targets target).1 =
      insertNear anchor placement nodes (reorder items targets target).1 := by
  have hplain : ∀ x ∈ nodes, ∀ other, includesTarget other x = false :=
    fun x hx => not_includesTarget (hnodes x hx)
  rcases exists_first (includesTarget target) items with
    ⟨front, goal, rest, rfl, hfront, hgoal⟩ | hnone
  · exact reorder_insertNear_target hplain hfront hgoal hgenerated h
  · have hnone' : ∀ x ∈ insertNear anchor placement nodes items,
        includesTarget target x = false := by
      intro x hx
      rcases List.mem_append.1 ((insertNear_perm placement nodes items).mem_iff.1 hx) with hx | hx
      · exact hplain x hx target
      · exact hnone x hx
    rw [reorder_no_target targets hnone', reorder_no_target targets hnone]

end

/-- The nodes of a group stand where they go: putting them in again changes
nothing. As a fixed point it needs no words about anchors and sides, and it is
kept step by step. -/
def InPlace (group : String) (nodes : List Json) (anchor : String) (placement : Placement)
    (items : List Json) : Prop :=
  (upsert items group nodes anchor placement).1 = items

section

variable {group anchor target : String} {placement : Placement} {nodes items : List Json}
variable {targets : List String} (hnodes : ∀ x ∈ nodes, belongsTo group x = true)

include hnodes

theorem inPlace_upsert (items : List Json) :
    InPlace group nodes anchor placement (upsert items group nodes anchor placement).1 :=
  congrArg Prod.fst (upsert_upsert hnodes items nodes anchor placement)

theorem InPlace.filter (h : InPlace group nodes anchor placement items) {keep : Json → Bool}
    (hanchor : ∀ x, isAnchor anchor x = true → keep x = true)
    (hgroup : ∀ x, belongsTo group x = true → keep x = true) :
    InPlace group nodes anchor placement (items.filter keep) := by
  have hkept : nodes.filter keep = nodes :=
    List.filter_eq_self.2 fun x hx => hgroup x (hnodes x hx)
  have hfiltered := congrArg (List.filter keep) h
  rw [upsert_items, filter_insertNear placement hanchor, hkept, ← withoutGroup_filter] at hfiltered
  exact hfiltered

theorem InPlace.map (h : InPlace group nodes anchor placement items) {g : Json → Json}
    (hg : Transparent g) : InPlace group nodes anchor placement (items.map g) :=
  (natural_upsert anchor placement hnodes g hg items).symm.trans (congrArg (List.map g) h)

/-- Reordering moves a group along with what it stands beside, so a group that
was in its place is in its place afterwards, though perhaps at another index. -/
theorem InPlace.reorder (h : InPlace group nodes anchor placement items)
    (hplain : ∀ x ∈ nodes, includeTarget? x = none)
    (hanchor : LeavesAnchor anchor placement targets target items) :
    InPlace group nodes anchor placement (reorder items targets target).1 := by
  have hshown : insertNear anchor placement nodes (withoutGroup group items) = items := h
  have hnone : withoutGroup group (Grammar.reorder (withoutGroup group items) targets target).1 =
      (Grammar.reorder (withoutGroup group items) targets target).1 := by
    refine withoutGroup_eq_self fun x hx => ?_
    have hmem := (reorder_perm targets target _).mem_iff.1 hx
    simpa using List.of_mem_filter hmem
  have hgenerated : ∀ x ∈ nodes, isAnchor anchor x = false :=
    fun x hx => isAnchor_eq_false_of_belongsTo (hnodes x hx)
  have hmoved := reorder_insertNear hplain hgenerated (hshown.symm ▸ hanchor)
  rw [hshown] at hmoved
  rw [InPlace, upsert_items, hmoved, withoutGroup_insertNear, withoutGroup_eq_nil hnodes,
    insertNear_nil, hnone]

end

/-- What matters to the place of a group: hand-written items, its own nodes
and whatever a rule may move or look for. Generated nodes of other groups
would be in the way of a statement about one group; those without an include
directive do not matter to reordering either, so they are left out of sight. -/
def inSight (group : String) (item : Json) : Bool :=
  !isMarked item || belongsTo group item || (includeTarget? item).isSome

section

variable {group other anchor : String} {placement : Placement} {nodes items : List Json}

theorem inSight_of_isAnchor {item : Json} (h : isAnchor anchor item = true) :
    inSight group item = true := by
  simp [inSight, isMarked_eq_false_of_isAnchor h]

theorem inSight_of_belongsTo {item : Json} (h : belongsTo group item = true) :
    inSight group item = true := by
  simp [inSight, h]

theorem includeTarget?_of_not_inSight {item : Json} (h : inSight group item = false) :
    includeTarget? item = none := by
  simp only [inSight, Bool.or_eq_false_iff] at h
  simpa using h.2

theorem Transparent.inSight {g : Json → Json} (hg : Transparent g) (group : String)
    (item : Json) : inSight group (g item) = Grammar.inSight group item := by
  have hinclude : includeTarget? (g item) = includeTarget? item :=
    hg.text "include" item (by decide) (by decide)
  rw [Grammar.inSight, Grammar.inSight, hg.isMarked, hg.belongsTo, hinclude]

/-- In sight of a group, putting in another one only takes nodes of that one
away. The nodes put in are out of sight. -/
theorem filter_inSight_upsert (hapart : Apart group other)
    (hnodes : ∀ x ∈ nodes, belongsTo other x = true)
    (hplain : ∀ x ∈ nodes, includeTarget? x = none) (items : List Json) :
    (upsert items other nodes anchor placement).1.filter (inSight group) =
      withoutGroup other (items.filter (inSight group)) := by
  have hnone : nodes.filter (inSight group) = [] := by
    refine List.filter_eq_nil_iff.2 fun x hx => ?_
    simp [inSight, isMarked_of_belongsTo (hnodes x hx), hplain x hx,
      hapart.symm.not_belongsTo (hnodes x hx)]
  rw [upsert_items, filter_insertNear placement fun _ => inSight_of_isAnchor, hnone,
    insertNear_nil, withoutGroup_filter]

/-- The items that no run has written. Which of them were there before a run
is not asked. -/
def handwritten (items : List Json) : List Json := items.filter fun item => !isMarked item

/-- A list without the generated nodes of other groups, which may share the
anchor and stand in between. -/
def withoutOthers (group : String) (items : List Json) : List Json :=
  items.filter fun item => !isMarked item || belongsTo group item

/-- A group that is in its place stands beside its anchor among the
hand-written items. This turns the fixed point back into a description of the
list. -/
theorem InPlace.beside (hnodes : ∀ x ∈ nodes, belongsTo group x = true)
    (h : InPlace group nodes anchor placement (items.filter (inSight group))) :
    Beside anchor nodes placement (handwritten items) (withoutOthers group items) := by
  have hshown : (items.filter (inSight group)).filter
      (fun item => !isMarked item || belongsTo group item) = withoutOthers group items := by
    rw [List.filter_filter]
    refine List.filter_congr fun x _ => ?_
    simp only [inSight]
    cases isMarked x <;> cases belongsTo group x <;> rfl
  have hown : withoutGroup group (withoutOthers group items) = handwritten items := by
    rw [withoutGroup, withoutOthers, List.filter_filter]
    refine List.filter_congr fun x _ => ?_
    cases hx : belongsTo group x with
    | true => simp [isMarked_of_belongsTo hx]
    | false => simp
  have hplace : InPlace group nodes anchor placement (withoutOthers group items) :=
    hshown ▸ h.filter hnodes (fun x hx => by simp [isMarked_eq_false_of_isAnchor hx])
      (fun x hx => by simp [hx])
  rw [InPlace, upsert_items, hown] at hplace
  rw [← hplace]
  exact beside_insertNear anchor placement nodes (handwritten items)

end

end SymbolPatterns.Grammar
