import SymbolPatterns.Proofs.Patch.Edits

/-!
Putting include directives into order. A rule is met by a list in which none of
its directives stands behind its target; then it has nothing to move. Applying a
rule makes the list meet it, unless the rule moves its own target, and a later
rule undoes this only if it moves that target. So one pass over rules that leave
the targets of earlier ones alone is a pass for good, while rules in another
order may change the list on every pass.
-/

namespace SymbolPatterns.Patch

open Json (Fields)
open Grammar

/-- No directive that the rule moves stands behind its target. A list without
the target meets the rule, and so does one without the directives. -/
def Met (rule : IncludeRule) (items : List Json) : Prop :=
  items.Pairwise fun item later => includesTarget rule.before item = true →
    ∀ target ∈ rule.includes, includesTarget target later = false

/-- No rule moves its own target or that of an earlier rule. The order of the
rules matters: a chain of rules may be written so that it satisfies this, and
the other way round so that it does not. -/
structure KeepsTargets (rules : List IncludeRule) : Prop where
  own : ∀ rule ∈ rules, rule.before ∉ rule.includes
  earlier : rules.Pairwise fun rule later => rule.before ∉ later.includes

section

variable {rule : IncludeRule} {items : List Json}

private theorem met_of_no_target (h : ∀ item ∈ items, includesTarget rule.before item = false) :
    Met rule items :=
  List.pairwise_of_forall_mem_list fun item hitem _ _ htarget =>
    absurd htarget (by simp [h item hitem])

/-- A rule that is met moves nothing: what it takes from behind its target is
empty. -/
theorem Met.reorder_eq (h : Met rule items) :
    (reorder items rule.includes rule.before).1 = items := by
  rcases exists_first (includesTarget rule.before) items with
    ⟨front, item, rest, rfl, hfront, hitem⟩ | hnone
  · have hbehind := (List.pairwise_cons.1 (List.pairwise_append.1 h).2.1).1
    rw [reorder_first rule.includes rest hfront hitem,
      takeIncludes_of_none fun x hx => hbehind x hx hitem]
    rfl
  · exact reorder_no_target rule.includes hnone

/-- Applying a rule makes the list meet it. A rule that moves its own target
is left out, as its target does not stay where the directives are put. -/
theorem met_reorder (h : rule.before ∉ rule.includes) (items : List Json) :
    Met rule (reorder items rule.includes rule.before).1 := by
  rcases exists_first (includesTarget rule.before) items with
    ⟨front, item, rest, rfl, hfront, hitem⟩ | hnone
  · rw [reorder_first rule.includes rest hfront hitem]
    -- Targets stand from the first one on, and behind it all directives of the rule are gone.
    have hbehind : ∀ x ∈ (takeIncludes rule.includes rest).2, ∀ target ∈ rule.includes,
        includesTarget target x = false := fun x hx => not_included_of_left hx
    have hahead : ∀ x ∈ front ++ (takeIncludes rule.includes rest).1,
        includesTarget rule.before x = false := by
      intro x hx
      rcases List.mem_append.1 hx with hx | hx
      · exact hfront x hx
      · exact not_includesTarget_of_mem_taken h hx
    rw [← List.append_assoc, Met, List.pairwise_append]
    refine ⟨met_of_no_target hahead, List.pairwise_cons.2 ⟨fun x hx _ => hbehind x hx, ?_⟩, ?_⟩
    · exact List.pairwise_of_forall_mem_list fun _ _ y hy _ => hbehind y hy
    · exact fun x hx _ _ htarget => absurd htarget (by simp [hahead x hx])
  · rw [reorder_no_target rule.includes hnone]
    exact met_of_no_target hnone

/-- A rule that is met stays met under a rule that does not move its target:
all else only moves ahead, and a directive that moves ahead does not end up
behind a target. -/
theorem Met.reorder {later : IncludeRule} (h : Met rule items)
    (hkeeps : rule.before ∉ later.includes) :
    Met rule (Grammar.reorder items later.includes later.before).1 := by
  rcases exists_first (includesTarget later.before) items with
    ⟨front, item, rest, rfl, hfront, hitem⟩ | hnone
  · rw [reorder_first later.includes rest hfront hitem]
    obtain ⟨hahead, hbehind, hacross⟩ := List.pairwise_append.1 h
    obtain ⟨hnext, hrest⟩ := List.pairwise_cons.1 hbehind
    have htaken : ∀ x ∈ (takeIncludes later.includes rest).1, x ∈ rest := fun x hx =>
      (takeIncludes_perm later.includes rest).mem_iff.1 (List.mem_append_left _ hx)
    have hleft : (takeIncludes later.includes rest).2.Sublist rest := by
      rw [takeIncludes_left]
      exact List.filter_sublist
    refine List.pairwise_append.2 ⟨hahead, List.pairwise_append.2 ⟨?_, ?_, ?_⟩, ?_⟩
    · exact met_of_no_target fun x hx => not_includesTarget_of_mem_taken hkeeps hx
    · exact List.pairwise_cons.2 ⟨fun x hx => hnext x (hleft.subset hx), hrest.sublist hleft⟩
    · exact fun x hx _ _ htarget =>
        absurd htarget (by simp [not_includesTarget_of_mem_taken hkeeps hx])
    · intro x hx y hy
      rcases List.mem_append.1 hy with hy | hy
      · exact hacross x hx y (List.mem_cons_of_mem _ (htaken y hy))
      · rcases List.mem_cons.1 hy with rfl | hy
        · exact hacross x hx y List.mem_cons_self
        · exact hacross x hx y (List.mem_cons_of_mem _ (hleft.subset hy))
  · rw [reorder_no_target later.includes hnone]
    exact h

theorem Met.orderItems {rules : List IncludeRule} (h : Met rule items)
    (hkeeps : ∀ later ∈ rules, rule.before ∉ later.includes) :
    Met rule (orderItems rules items) := by
  induction rules generalizing items with
  | nil => exact h
  | cons later rest ih =>
      exact ih (h.reorder (hkeeps later List.mem_cons_self))
        fun other hother => hkeeps other (List.mem_cons_of_mem _ hother)

/-- After a pass all rules are met: each of them by its own step, and from
then on by every later one. The induction is on the rules, with those already
applied at hand. -/
theorem met_orderItems {rules : List IncludeRule} (h : KeepsTargets rules) (items : List Json) :
    ∀ rule ∈ rules, Met rule (orderItems rules items) := by
  obtain ⟨hown, hearlier⟩ := h
  induction rules generalizing items with
  | nil => exact nofun
  | cons first rest ih =>
      obtain ⟨hfirst, hrest⟩ := List.pairwise_cons.1 hearlier
      intro rule hrule
      rcases List.mem_cons.1 hrule with rfl | hrule
      · exact (met_reorder (hown rule List.mem_cons_self) items).orderItems hfirst
      · exact ih _ (fun other hother => hown other (List.mem_cons_of_mem _ hother)) hrest rule hrule

/-- A pass over rules that are met changes nothing. Together with the pass
that makes them met this is all that a second pass needs. -/
theorem orderItems_of_met {rules : List IncludeRule} (h : ∀ rule ∈ rules, Met rule items) :
    orderItems rules items = items := by
  induction rules with
  | nil => rfl
  | cons first rest ih =>
      have hstep := (h first List.mem_cons_self).reorder_eq
      calc Patch.orderItems (first :: rest) items
          = Patch.orderItems rest (Grammar.reorder items first.includes first.before).1 := rfl
        _ = Patch.orderItems rest items := by rw [hstep]
        _ = items := ih fun rule hrule => h rule (List.mem_cons_of_mem _ hrule)

end

/-- One pass puts the directives into an order that meets all rules and that a
second pass keeps, if no rule moves its own target or that of an earlier one.
Without this condition a second pass may change the list once more. Which of
the orders that meet the rules comes out is not said here. -/
theorem orderIncludes_twice {rules : List IncludeRule} (h : KeepsTargets rules)
    (document : Fields) :
    ∃ ordered, orderIncludes rules document = .ok ordered ∧
      orderIncludes rules ordered = .ok ordered ∧
      ∀ items, ordered.items? "patterns" = some items → ∀ rule ∈ rules, Met rule items := by
  refine ⟨_, orderIncludes_eq rules document, ?_, fun items hitems => ?_⟩
  · rw [orderIncludes_eq, editPatterns_editPatterns]
    congr 2
    funext items
    exact orderItems_of_met (met_orderItems h items)
  · rw [items?_editPatterns, Option.map_eq_some_iff] at hitems
    obtain ⟨old, -, rfl⟩ := hitems
    exact met_orderItems h old

/-- A document with include directives as its top-level list, one for each
target and in this order. -/
def includeList (targets : List String) : Fields :=
  [("patterns", .array (targets.map fun target => .object [("include", .string target)]))]

/-- Rules in a chain, the last link first: each moves a directive ahead of the
one that the rule before it has moved, and one pass is enough. -/
theorem chained_rules_settle :
    let rules : List IncludeRule := [⟨["#enums"], "#types"⟩, ⟨["#function-calls"], "#enums"⟩]
    let ordered := includeList ["#function-calls", "#enums", "#types"]
    KeepsTargets rules ∧
      orderIncludes rules (includeList ["#types", "#enums", "#function-calls"]) = .ok ordered ∧
      orderIncludes rules ordered = .ok ordered := by
  intro rules ordered
  have hkeeps : KeepsTargets rules := ⟨by decide, by decide⟩
  have hfirst : orderIncludes rules (includeList ["#types", "#enums", "#function-calls"]) =
      .ok ordered := rfl
  obtain ⟨found, hfound, hagain, -⟩ := orderIncludes_twice hkeeps
    (includeList ["#types", "#enums", "#function-calls"])
  obtain rfl : found = ordered := Except.ok.inj (hfound.symm.trans hfirst)
  exact ⟨hkeeps, hfirst, hagain⟩

/-- The same rules the other way round: the second takes the target of the
first ahead of what the first has moved, and the next pass changes the order
once more. -/
theorem later_rule_undoes_order :
    let rules : List IncludeRule := [⟨["#function-calls"], "#enums"⟩, ⟨["#enums"], "#types"⟩]
    ∃ first second,
      orderIncludes rules (includeList ["#types", "#enums", "#function-calls"]) = .ok first ∧
        orderIncludes rules first = .ok second ∧ second ≠ first :=
  ⟨includeList ["#enums", "#types", "#function-calls"],
    includeList ["#function-calls", "#enums", "#types"], rfl, rfl, by decide⟩

end SymbolPatterns.Patch
