import Mathlib.Data.List.Basic
import SymbolPatterns.Grammar.Patterns

/-!
Which group a generated node belongs to. Only generated nodes belong to a group,
the nodes that are written for a group belong to it, and tags that are apart
share no node.
-/

namespace SymbolPatterns.Grammar

open Json (Fields)

theorem behind?_eq_some_iff {beginning text rest : List Char} :
    behind? beginning text = some rest ↔ text = beginning ++ rest := by
  unfold behind?
  split
  · next h =>
    obtain ⟨tail, rfl⟩ := List.isPrefixOf_iff_prefix.1 h
    simp
  · next h =>
    refine ⟨nofun, ?_⟩
    rintro rfl
    exact absurd (List.isPrefixOf_iff_prefix.2 (List.prefix_append _ _)) h

/-- A comment marks a group if the tag follows the marker and ends at a space
or with the comment. Nothing is asked of what follows, so comments written by
hand can mark a group as well. -/
theorem marksGroup_iff {comment group : String} :
    marksGroup comment group = true ↔
      ∃ tail, comment.toList = marker.toList ++ ' ' :: (group.toList ++ tail) ∧
        (tail = [] ∨ ∃ rest, tail = ' ' :: rest) := by
  constructor
  · intro h
    unfold marksGroup at h
    cases hmarker : behind? marker.toList comment.toList with
    | none => simp [hmarker] at h
    | some rest =>
        cases hspace : behind? [' '] rest with
        | none => simp [hmarker, hspace] at h
        | some named =>
            cases htail : behind? group.toList named with
            | none => simp [hmarker, hspace, htail] at h
            | some tail =>
                simp only [hmarker, hspace, htail, Option.bind_eq_bind, Option.bind_some] at h
                rw [behind?_eq_some_iff] at hmarker hspace htail
                refine ⟨tail, by rw [hmarker, hspace, htail]; rfl, ?_⟩
                cases tail with
                | nil => exact .inl rfl
                | cons c tail => exact .inr ⟨tail, by simpa using h⟩
  · rintro ⟨tail, hcomment, hend⟩
    have hmarker : behind? marker.toList comment.toList = some (' ' :: (group.toList ++ tail)) :=
      behind?_eq_some_iff.2 hcomment
    have hspace : behind? [' '] (' ' :: (group.toList ++ tail)) = some (group.toList ++ tail) :=
      behind?_eq_some_iff.2 rfl
    have htail : behind? group.toList (group.toList ++ tail) = some tail :=
      behind?_eq_some_iff.2 rfl
    unfold marksGroup
    simp only [hmarker, hspace, htail, Option.bind_eq_bind, Option.bind_some]
    rcases hend with rfl | ⟨rest, rfl⟩ <;> simp

/-- Neither tag is the other, nor the other's beginning up to a space. No
comment then marks both, and this is also what it takes. -/
def Apart (first second : String) : Prop :=
  first ≠ second ∧ ¬first.toList ++ [' '] <+: second.toList ∧
    ¬second.toList ++ [' '] <+: first.toList

theorem Apart.symm {first second : String} (h : Apart first second) : Apart second first :=
  ⟨h.1.symm, h.2.2, h.2.1⟩

/-- Of two tags in one comment the longer one is the shorter one, or goes on
with a space. Both are read from the same place in the comment. -/
private theorem tag_continues {first second firstTail secondTail : List Char}
    (h : first ++ firstTail = second ++ secondTail)
    (hend : secondTail = [] ∨ ∃ rest, secondTail = ' ' :: rest)
    (hle : second.length ≤ first.length) : first = second ∨ second ++ [' '] <+: first := by
  obtain ⟨middle, rfl⟩ : second <+: first :=
    List.prefix_of_prefix_length_le ⟨secondTail, h.symm⟩ (List.prefix_append _ _) hle
  cases middle with
  | nil => exact .inl (List.append_nil _)
  | cons c middle =>
      rw [List.append_assoc, List.append_cancel_left_eq] at h
      rcases hend with rfl | ⟨rest, rfl⟩
      · cases h
      · obtain ⟨rfl, -⟩ := List.cons.inj h
        exact .inr ⟨middle, by simp⟩

/-- No comment marks nodes of two groups whose tags are apart, whoever has
written it. The edits of the two groups then do not see each other's nodes. -/
theorem Apart.not_marksGroup {first second comment : String} (hapart : Apart first second)
    (h : marksGroup comment first = true) : marksGroup comment second = false := by
  cases hother : marksGroup comment second with
  | false => rfl
  | true =>
      obtain ⟨firstTail, hcomment, hfirst⟩ := marksGroup_iff.1 h
      obtain ⟨secondTail, hcomment', hsecond⟩ := marksGroup_iff.1 hother
      have hshared : first.toList ++ firstTail = second.toList ++ secondTail := by
        rw [hcomment, List.append_cancel_left_eq] at hcomment'
        exact (List.cons.inj hcomment').2
      rcases Nat.le_total second.toList.length first.toList.length with hle | hle
      · rcases tag_continues hshared hsecond hle with heq | hlonger
        · exact absurd (String.toList_inj.1 heq) hapart.1
        · exact absurd hlonger hapart.2.2
      · rcases tag_continues hshared.symm hfirst hle with heq | hlonger
        · exact absurd (String.toList_inj.1 heq) hapart.symm.1
        · exact absurd hlonger hapart.2.1

theorem belongsTo_object (group : String) (node : Fields) :
    belongsTo group (.object node) = isInGroup node group := rfl

theorem isGenerated_of_isInGroup {node : Fields} {group : String}
    (h : isInGroup node group = true) : isGenerated node = true := by
  unfold isInGroup at h
  unfold isGenerated
  cases hcomment : node.text? "comment" with
  | none => simp [hcomment] at h
  | some comment =>
      rw [hcomment] at h
      obtain ⟨tail, htext, -⟩ := marksGroup_iff.1 h
      simp only [Option.any_some]
      exact List.isPrefixOf_iff_prefix.2 (htext ▸ List.prefix_append _ _)

theorem Apart.not_belongsTo {first second : String} (hapart : Apart first second) {item : Json}
    (h : belongsTo first item = true) : belongsTo second item = false := by
  cases item with
  | object node =>
      simp only [belongsTo_object, isInGroup] at h ⊢
      cases hcomment : Fields.text? node "comment" with
      | none => rfl
      | some comment =>
          rw [hcomment] at h
          exact hapart.not_marksGroup h
  | _ => rfl

theorem belongsTo_eq_false_of_isAnchor {anchor group : String} {item : Json}
    (h : isAnchor anchor item = true) : belongsTo group item = false := by
  cases item with
  | object node =>
      cases hgroup : belongsTo group (.object node) with
      | false => rfl
      | true =>
          have hgen := isGenerated_of_isInGroup hgroup
          simp [isAnchor, Json.fields?, hgen] at h
  | _ => rfl

theorem isAnchor_eq_false_of_belongsTo {anchor group : String} {item : Json}
    (h : belongsTo group item = true) : isAnchor anchor item = false := by
  cases hanchor : isAnchor anchor item with
  | false => rfl
  | true =>
      rw [belongsTo_eq_false_of_isAnchor hanchor] at h
      cases h

theorem generatedNode_belongsTo (group : String) (index total : Nat) (scope regex : String) :
    belongsTo group (generatedNode group index total scope regex) = true := by
  refine marksGroup_iff.2 ⟨' ' :: (toString (index + 1) ++ "/" ++ toString total).toList, ?_,
    .inr ⟨_, rfl⟩⟩
  simp [markerText, toString]

end SymbolPatterns.Grammar
