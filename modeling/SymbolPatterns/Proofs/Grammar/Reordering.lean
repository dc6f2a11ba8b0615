import Mathlib.Data.List.TakeWhile
import SymbolPatterns.Proofs.Grammar.PatternList

/-!
Moving include directives ahead of another one, told in three ways: target by
target on what is left of the list, in place with an index that runs behind the
first include of the target, and as one partition of the list. All three give
the same list and the same count.
-/

namespace SymbolPatterns.Grammar

/-- Runs through a list from an index on and removes each item that includes a
target; what is removed goes behind what was removed before. The index stays
where an item is removed, as the next one moves up. -/
def takeInPlace (target : String) (index : Nat) (moved items : List Json) :
    List Json × List Json :=
  if h : index < items.length then
    if includesTarget target items[index] then
      takeInPlace target index (moved ++ [items[index]]) (items.eraseIdx index)
    else takeInPlace target (index + 1) moved items
  else (moved, items)
termination_by items.length - index
decreasing_by
  · rw [List.length_eraseIdx_of_lt h]
    omega
  · omega

/-- Removes the directives behind the first include of `target` one by one,
and puts them back in front of it. This is the loop as one would write it on a
list that is changed in place. -/
def reorderInPlace (items : List Json) (targets : List String) (target : String) :
    List Json × Nat :=
  match items.findIdx? (includesTarget target) with
  | none => (items, 0)
  | some index =>
      let (moved, left) := targets.foldl
        (fun (moved, items) wanted => takeInPlace wanted (index + 1) moved items) ([], items)
      (left.take index ++ moved ++ left.drop index, moved.length)

/-- The items in front of the index are passed already: removing takes place
behind them. The induction is on what is behind the index, with any list of
passed items. -/
theorem takeInPlace_append (target : String) (front moved rest : List Json) :
    takeInPlace target front.length moved (front ++ rest) =
      (moved ++ rest.filter (includesTarget target),
        front ++ rest.filter fun item => !includesTarget target item) := by
  induction rest generalizing front moved with
  | nil =>
      rw [takeInPlace]
      simp
  | cons item rest ih =>
      have hindex : front.length < (front ++ item :: rest).length := by simp
      have hitem : (front ++ item :: rest)[front.length] = item := by simp
      rw [takeInPlace, dif_pos hindex, hitem]
      cases hincludes : includesTarget target item with
      | true =>
          have herase : (front ++ item :: rest).eraseIdx front.length = front ++ rest := by
            rw [List.eraseIdx_append_of_length_le (Nat.le_refl _)]
            simp
          rw [if_pos rfl, herase, ih]
          simp [hincludes]
      | false =>
          have hpassed := ih (front ++ [item]) moved
          rw [List.length_append, List.append_assoc] at hpassed
          rw [if_neg Bool.false_ne_true]
          simpa [hincludes] using hpassed

theorem foldl_takeInPlace (targets : List String) (front moved rest : List Json) :
    targets.foldl (fun (moved, items) wanted => takeInPlace wanted front.length moved items)
        (moved, front ++ rest) =
      (moved ++ (takeIncludes targets rest).1, front ++ (takeIncludes targets rest).2) := by
  induction targets generalizing moved rest with
  | nil => simp [takeIncludes]
  | cons target targets ih =>
      rw [List.foldl_cons]
      dsimp only
      rw [takeInPlace_append, ih, takeIncludes_cons, List.append_assoc]

/-- The directives of a list that include one of the targets: for each target,
where it is named first, those that include it in their order. A target named
again adds nothing. -/
def grouped (targets : List String) (items : List Json) : List Json :=
  targets.eraseDups.flatMap fun target => items.filter (includesTarget target)

/-- The part of a list before the first include of `target`, the directives to
be moved that stand behind it, this include, and what is left behind it; with
the number of those moved. Without an include of the target the list stays as
it is. -/
def partitioned (items : List Json) (targets : List String) (target : String) :
    List Json × Nat :=
  match items.dropWhile fun item => !includesTarget target item with
  | [] => (items, 0)
  | first :: rest =>
      let front := items.takeWhile fun item => !includesTarget target item
      let moved := grouped targets rest
      let left := rest.filter fun item => !targets.any fun wanted => includesTarget wanted item
      (front ++ moved ++ first :: left, moved.length)

/-- A target that no item includes is passed over, so targets may be dropped
once their directives are taken. -/
theorem takeIncludes_without {target : String} {items : List Json}
    (h : ∀ item ∈ items, includesTarget target item = false) (targets : List String) :
    takeIncludes (targets.filter fun other => !other == target) items =
      takeIncludes targets items := by
  induction targets generalizing items with
  | nil => rfl
  | cons other targets ih =>
      by_cases hother : other = target
      · subst hother
        have hall : (items.filter fun item => !includesTarget other item) = items :=
          List.filter_eq_self.2 fun item hitem => by simp [h item hitem]
        have hnone : items.filter (includesTarget other) = [] :=
          List.filter_eq_nil_iff.2 fun item hitem => by simp [h item hitem]
        rw [List.filter_cons_of_neg (by simp), ih h, takeIncludes_cons, hall, hnone]
        rfl
      · have hleft : ∀ item ∈ items.filter fun item => !includesTarget other item,
            includesTarget target item = false := fun item hitem =>
          h item (List.mem_of_mem_filter hitem)
        rw [List.filter_cons_of_pos (by simpa using hother), takeIncludes_cons, takeIncludes_cons,
          ih hleft]

/-- What is taken stands in groups, one for each target at its first mention.
Within a group the order of the list is kept. -/
theorem takeIncludes_taken (targets : List String) (items : List Json) :
    (takeIncludes targets items).1 = grouped targets items := by
  match targets with
  | [] => rfl
  | target :: targets =>
      have hleft : ∀ item ∈ items.filter fun item => !includesTarget target item,
          includesTarget target item = false := fun item hitem => by
        simpa using List.of_mem_filter hitem
      have hgroups : grouped (targets.filter fun other => !other == target)
            (items.filter fun item => !includesTarget target item) =
          grouped (targets.filter fun other => !other == target) items := by
        refine List.flatMap_congr fun other hother => ?_
        have hne : other ≠ target := by
          simpa using List.of_mem_filter (List.mem_eraseDups.1 hother)
        rw [List.filter_filter]
        refine List.filter_congr fun item _ => ?_
        rw [Bool.and_eq_left_iff_imp]
        intro hincludes
        rw [not_includesTarget_of_ne hincludes hne.symm]
        rfl
      rw [takeIncludes_cons, ← takeIncludes_without hleft]
      dsimp only
      rw [takeIncludes_taken, hgroups, grouped, grouped, List.eraseDups_cons, List.flatMap_cons]
termination_by targets.length
decreasing_by exact Nat.lt_succ_of_le (List.length_filter_le _ _)

theorem reorderInPlace_eq (items : List Json) (targets : List String) (target : String) :
    reorderInPlace items targets target = reorder items targets target := by
  rcases exists_first (includesTarget target) items with
    ⟨front, first, rest, rfl, hfront, hfirst⟩ | hnone
  · -- The index runs behind the first include, so this include counts to what is passed.
    have hloop := foldl_takeInPlace targets (front ++ [first]) [] rest
    rw [List.length_append, List.append_assoc] at hloop
    simp only [List.length_singleton, List.singleton_append, List.nil_append] at hloop
    rw [reorder_first_eq targets rest hfront hfirst, reorderInPlace,
      findIdx?_first rest hfront hfirst]
    simp [hloop]
  · rw [reorder_no_target_eq targets hnone, reorderInPlace, List.findIdx?_eq_none_iff.2 hnone]

private theorem dropWhile_of_none {target : String} {items : List Json}
    (h : ∀ item ∈ items, includesTarget target item = false) :
    items.dropWhile (fun item => !includesTarget target item) = [] :=
  List.dropWhile_eq_nil_iff.2 fun item hitem => by simp [h item hitem]

theorem partitioned_of_first (targets : List String) {target : String} {front : List Json}
    {first : Json} (rest : List Json) (hfront : ∀ item ∈ front, includesTarget target item = false)
    (hfirst : includesTarget target first = true) :
    partitioned (front ++ first :: rest) targets target =
      (front ++ grouped targets rest ++ first ::
          rest.filter fun item => !targets.any fun wanted => includesTarget wanted item,
        (grouped targets rest).length) := by
  have hpassed : ∀ item ∈ front, (!includesTarget target item) = true := fun item hitem => by
    simp [hfront item hitem]
  simp [partitioned, List.dropWhile_append_of_pos hpassed, List.takeWhile_append_of_pos hpassed,
    hfirst]

theorem reorder_eq_partitioned (items : List Json) (targets : List String) (target : String) :
    reorder items targets target = partitioned items targets target := by
  rcases exists_first (includesTarget target) items with
    ⟨front, first, rest, rfl, hfront, hfirst⟩ | hnone
  · rw [reorder_first_eq targets rest hfront hfirst, partitioned_of_first targets rest hfront hfirst,
      takeIncludes_taken, takeIncludes_left, List.append_assoc]
  · rw [reorder_no_target_eq targets hnone, partitioned, dropWhile_of_none hnone]

/-- Behind the first include of a target that is not moved itself, nothing is
left to be moved. A second call finds the list as it leaves it. -/
theorem reorder_settles {targets : List String} {target : String} (h : target ∉ targets)
    (items : List Json) :
    let ordered := (reorder items targets target).1
    (∀ item ∈ ordered.dropWhile fun item => !includesTarget target item,
        ∀ wanted ∈ targets, includesTarget wanted item = false) ∧
      reorder ordered targets target = (ordered, 0) := by
  intro ordered
  rcases exists_first (includesTarget target) items with
    ⟨front, first, rest, rfl, hfront, hfirst⟩ | hnone
  · have hordered : ordered = (front ++ (takeIncludes targets rest).1) ++ first ::
        (takeIncludes targets rest).2 := by
      rw [List.append_assoc]
      exact reorder_first targets rest hfront hfirst
    have hahead : ∀ item ∈ front ++ (takeIncludes targets rest).1,
        includesTarget target item = false := by
      intro item hitem
      rcases List.mem_append.1 hitem with hitem | hitem
      · exact hfront item hitem
      · exact not_includesTarget_of_mem_taken h hitem
    have hbehind : ∀ item ∈ (takeIncludes targets rest).2, ∀ wanted ∈ targets,
        includesTarget wanted item = false := fun item => not_included_of_left
    constructor
    · have hpassed : ∀ item ∈ front ++ (takeIncludes targets rest).1,
          (!includesTarget target item) = true := fun item hitem => by simp [hahead item hitem]
      rw [hordered, List.dropWhile_append_of_pos hpassed,
        List.dropWhile_cons_of_neg (by simp [hfirst])]
      refine List.forall_mem_cons.2 ⟨fun wanted hwanted => ?_, hbehind⟩
      exact not_includesTarget_of_ne hfirst fun heq => h (heq ▸ hwanted)
    · rw [hordered, reorder_first_eq targets _ hahead hfirst, takeIncludes_of_none hbehind]
      rfl
  · have hordered : ordered = items :=
      reorder_no_target targets hnone
    rw [hordered]
    refine ⟨fun item hitem => ?_, reorder_no_target_eq targets hnone⟩
    rw [dropWhile_of_none hnone] at hitem
    cases hitem

/-- However it is told, reordering partitions the list behind the first
include of the target: it moves the listed directives in groups and keeps the
order of all else, so that nothing is lost or doubled. If the target is not
listed itself, nothing listed is left behind it, and to reorder once more
moves nothing. Items are any values; those that are no directives are never
moved. The number that comes with the list is that of the directives moved. -/
theorem reorder_partitions (items : List Json) (targets : List String) (target : String) :
    let ordered := (reorder items targets target).1
    reorderInPlace items targets target = reorder items targets target ∧
      reorder items targets target = partitioned items targets target ∧
      ordered.Perm items ∧
      (target ∉ targets →
        (∀ item ∈ ordered.dropWhile fun item => !includesTarget target item,
            ∀ wanted ∈ targets, includesTarget wanted item = false) ∧
          reorder ordered targets target = (ordered, 0)) :=
  ⟨reorderInPlace_eq items targets target, reorder_eq_partitioned items targets target,
    reorder_perm targets target items, fun h => reorder_settles h items⟩

/-- A target that is named twice moves its directives once, and a listed
target moves what includes it again. -/
example :
    let directive (target : String) : Json := .object [("include", .string target)]
    reorder (["#types", "#b", "#x", "#a", "#b", "#types"].map directive)
        ["#a", "#types", "#b", "#a"] "#types" =
      (["#a", "#types", "#b", "#b", "#types", "#x"].map directive, 4) := by
  decide +kernel

end SymbolPatterns.Grammar
