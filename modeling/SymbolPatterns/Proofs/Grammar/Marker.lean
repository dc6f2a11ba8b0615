import SymbolPatterns.Proofs.Grammar.Group

/-!
What the comment of a generated node tells. Tag, number and total can be read
back from it, since the numbers contain no space. A tag may contain spaces,
though, so the comment marks every group whose tag it happens to spell.
-/

namespace SymbolPatterns.Grammar

open Json (Fields)

/-- The end of the comment of a generated node: its number and how many nodes
the group has, counted from one. -/
def numbering (index total : Nat) : List Char :=
  Nat.toDigits 10 (index + 1) ++ '/' :: Nat.toDigits 10 total

theorem toList_markerText (group : String) (index total : Nat) :
    (markerText group index total).toList =
      marker.toList ++ ' ' :: (group.toList ++ ' ' :: numbering index total) := by
  simp [markerText, numbering, toString, Nat.repr]

private theorem not_mem_toDigits {c : Char} (h : c.isDigit = false) (n : Nat) :
    c ∉ Nat.toDigits 10 n := by
  intro hmem
  rw [Nat.isDigit_of_mem_toDigits (by decide) (by decide) hmem] at h
  cases h

private theorem toDigits_inj {m n : Nat} (h : Nat.toDigits 10 m = Nat.toDigits 10 n) : m = n := by
  rw [← Nat.ofDigitChars_ten_toDigits (n := m), h, Nat.ofDigitChars_ten_toDigits]

theorem space_not_mem_numbering (index total : Nat) : ' ' ∉ numbering index total := by
  simp only [numbering, List.mem_append, List.mem_cons, not_or]
  exact ⟨not_mem_toDigits rfl _, by decide, not_mem_toDigits rfl _⟩

theorem numbering_inj {index total index' total' : Nat}
    (h : numbering index total = numbering index' total') : index = index' ∧ total = total' := by
  have hslash : ∀ n, '/' ∉ Nat.toDigits 10 n := not_mem_toDigits rfl
  obtain ⟨hnumber, -, htotal⟩ :=
    (List.append_cons_inj_of_notMem (hslash (index + 1)) (hslash total)).1 h
  exact ⟨Nat.succ.inj (toDigits_inj hnumber), toDigits_inj htotal⟩

/-- A text without spaces behind the last space of a longer text can be told
from it, and so can what is in front. -/
private theorem append_space_inj {front front' rest rest' : List Char} (hrest : ' ' ∉ rest)
    (hrest' : ' ' ∉ rest') (h : front ++ ' ' :: rest = front' ++ ' ' :: rest') :
    front = front' ∧ rest = rest' := by
  rw [List.append_eq_append_iff] at h
  rcases h with ⟨middle, rfl, hmiddle⟩ | ⟨middle, rfl, hmiddle⟩
  · cases middle with
    | nil => exact ⟨(List.append_nil _).symm, (List.cons.inj hmiddle).2⟩
    | cons c middle =>
        rw [(List.cons.inj hmiddle).2] at hrest
        exact absurd (List.mem_append_right _ List.mem_cons_self) hrest
  · cases middle with
    | nil => exact ⟨List.append_nil _, (List.cons.inj hmiddle).2.symm⟩
    | cons c middle =>
        rw [(List.cons.inj hmiddle).2] at hrest'
        exact absurd (List.mem_append_right _ List.mem_cons_self) hrest'

/-- Nodes with the same comment are of one group and have the same number in
it. Tags may contain spaces; it is the numbers that contain none. -/
theorem markerText_inj {group group' : String} {index total index' total' : Nat}
    (h : markerText group index total = markerText group' index' total') :
    group = group' ∧ index = index' ∧ total = total' := by
  have htext := congrArg String.toList h
  rw [toList_markerText, toList_markerText, List.append_cancel_left_eq] at htext
  obtain ⟨hgroup, hnumbering⟩ := append_space_inj (space_not_mem_numbering _ _)
    (space_not_mem_numbering _ _) (List.cons.inj htext).2
  exact ⟨String.toList_inj.1 hgroup, numbering_inj hnumbering⟩

/-- A comment written for one group marks another one if the other tag is the
beginning of the tag up to a space, or goes on to spell the number as well.
The second way needs a tag that was made for the purpose. -/
theorem marksGroup_markerText_iff {group other : String} {index total : Nat} :
    marksGroup (markerText group index total) other = true ↔
      other = group ∨ other.toList = group.toList ++ ' ' :: numbering index total ∨
        other.toList ++ [' '] <+: group.toList := by
  rw [marksGroup_iff, toList_markerText]
  constructor
  · rintro ⟨tail, htext, hend⟩
    rw [List.append_cancel_left_eq] at htext
    have hspelled := (List.cons.inj htext).2
    rcases hend with rfl | ⟨rest, rfl⟩
    · rw [List.append_nil] at hspelled
      exact .inr (.inl hspelled.symm)
    · rw [List.append_eq_append_iff] at hspelled
      rcases hspelled with ⟨middle, hother, hmiddle⟩ | ⟨middle, hgroup, hmiddle⟩
      · cases middle with
        | nil => exact .inl (String.toList_inj.1 (by rw [hother, List.append_nil]))
        | cons c middle =>
            -- The space that ends the tag would be one of the numbering.
            have hspace := space_not_mem_numbering index total
            rw [(List.cons.inj hmiddle).2] at hspace
            exact absurd (List.mem_append_right _ List.mem_cons_self) hspace
      · cases middle with
        | nil => exact .inl (String.toList_inj.1 (by rw [hgroup, List.append_nil]))
        | cons c middle =>
            obtain ⟨rfl, -⟩ := List.cons.inj hmiddle
            exact .inr (.inr ⟨middle, by rw [hgroup, List.append_assoc]; rfl⟩)
  · rintro (rfl | hother | ⟨middle, hgroup⟩)
    · exact ⟨' ' :: numbering index total, rfl, .inr ⟨_, rfl⟩⟩
    · exact ⟨[], by rw [hother, List.append_nil], .inl rfl⟩
    · refine ⟨' ' :: (middle ++ ' ' :: numbering index total), ?_, .inr ⟨_, rfl⟩⟩
      rw [← hgroup]
      simp

theorem isInGroup_markerText_iff {group other : String} {index total : Nat} {rest : Fields} :
    isInGroup (("comment", .string (markerText group index total)) :: rest) other = true ↔
      other = group ∨ other.toList = group.toList ++ ' ' :: numbering index total ∨
        other.toList ++ [' '] <+: group.toList :=
  marksGroup_markerText_iff

/-- A node is in two groups at once only where the tags are not apart, and
then the node that is written for the longer tag is in both. -/
theorem exists_shared_node_iff {group other : String} :
    (∃ node, isInGroup node group = true ∧ isInGroup node other = true) ↔ ¬Apart group other := by
  constructor
  · rintro ⟨node, hgroup, hother⟩ hapart
    have hitem : belongsTo group (.object node) = true := hgroup
    rw [← belongsTo_object, hapart.not_belongsTo hitem] at hother
    cases hother
  · intro h
    have hown : ∀ tag, isInGroup [("comment", .string (markerText tag 0 1))] tag = true :=
      fun tag => isInGroup_markerText_iff.2 (.inl rfl)
    by_cases heq : group = other
    · exact ⟨_, hown group, heq ▸ hown group⟩
    · by_cases hother : group.toList ++ [' '] <+: other.toList
      · exact ⟨_, isInGroup_markerText_iff.2 (.inr (.inr hother)), hown other⟩
      · have hgroup : other.toList ++ [' '] <+: group.toList := by
          by_contra hgroup
          exact h ⟨heq, hother, hgroup⟩
        exact ⟨_, hown group, isInGroup_markerText_iff.2 (.inr (.inr hgroup))⟩

theorem toList_numbered (group : String) (index total : Nat) :
    s!"{group} {index + 1}/{total}".toList = group.toList ++ ' ' :: numbering index total := by
  simp [numbering, toString, Nat.repr]

/-- A node that is written for a group counts as generated. It is in that
group, in the group that its tag and number spell together, in every group
whose tag begins its tag up to a space, and in no other one. Two different
groups can have a node in common, of whatever origin, only if one tag begins
the other up to a space, and then they can. A common beginning without the
space is not enough. Nothing here depends on the scope or the pattern of the
node. -/
theorem generatedNode_groups (group other : String) (index total : Nat) (scope regex : String) :
    (∃ node, generatedNode group index total scope regex = .object node ∧
      isGenerated node = true ∧
        (isInGroup node other = true ↔
          other = group ∨ other = s!"{group} {index + 1}/{total}" ∨
            other.toList ++ [' '] <+: group.toList)) ∧
      ((∃ node, isInGroup node group = true ∧ isInGroup node other = true) ↔
        group = other ∨ group.toList ++ [' '] <+: other.toList ∨
          other.toList ++ [' '] <+: group.toList) := by
  constructor
  · refine ⟨_, rfl, ?_, ?_⟩
    · exact isGenerated_of_isInGroup (generatedNode_belongsTo group index total scope regex)
    · rw [isInGroup_markerText_iff, ← toList_numbered, String.toList_inj]
  · rw [exists_shared_node_iff, Apart]
    tauto

end SymbolPatterns.Grammar
