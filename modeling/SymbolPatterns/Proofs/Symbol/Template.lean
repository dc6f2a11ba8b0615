import SymbolPatterns.Symbol.Template

/-!
What filling a template makes of it. Cut at its placeholders, a template is a
list of pieces with the placeholder between them; filled, it is the same pieces
with the alternation between them.
-/

namespace SymbolPatterns.Symbol

theorem mentions_iff {pattern text : List Char} :
    mentions pattern text = true ↔ pattern <:+: text := by
  induction text with
  | nil => rw [mentions, List.isEmpty_iff, List.infix_nil]
  | cons c rest ih =>
      rw [mentions, Bool.or_eq_true, List.isPrefixOf_iff_prefix, ih, List.infix_cons_iff]

/-- No placeholder begins in a text without one, not even if a placeholder
stands behind the text: it would have its first character inside as well. -/
theorem not_prefix_append {front : List Char} (hne : front ≠ [])
    (h : ¬placeholder.toList <:+: front) (rest : List Char) :
    ¬placeholder.toList <+: front ++ (placeholder.toList ++ rest) := by
  rintro ⟨after, hwhole⟩
  rcases List.append_eq_append_iff.1 hwhole with ⟨inner, hfront, -⟩ | ⟨inner, hholder, hinner⟩
  · exact h ⟨[], inner, hfront.symm⟩
  · cases inner with
    | nil => exact h ⟨[], [], by rw [hholder, List.append_nil, List.append_nil, List.nil_append]⟩
    | cons first inner =>
        obtain ⟨c, front, rfl⟩ := List.exists_cons_of_ne_nil hne
        have hfirst : first = '\x7b' := (List.cons.inj hinner).1.symm
        have hmem : '\x7b' ∈ placeholder.toList.tail := by
          rw [hholder, List.cons_append, List.tail_cons, hfirst]
          exact List.mem_append_right _ List.mem_cons_self
        revert hmem
        decide

theorem fillFrom_passed (alternation passed rest : List Char) :
    fillFrom alternation passed.length (passed ++ rest) = fillFrom alternation 0 rest := by
  induction passed with
  | nil => rfl
  | cons c passed ih =>
      rw [List.length_cons, List.cons_append, fillFrom]
      exact ih

theorem fillFrom_placeholder (alternation rest : List Char) :
    fillFrom alternation 0 (placeholder.toList ++ rest) =
      alternation ++ fillFrom alternation 0 rest := by
  have hbegins : placeholder.toList.isPrefixOf (placeholder.toList ++ rest) = true :=
    List.isPrefixOf_iff_prefix.2 (List.prefix_append _ _)
  have hpassed := fillFrom_passed alternation placeholder.toList.tail rest
  change (if placeholder.toList.isPrefixOf (placeholder.toList ++ rest) then _ else _) = _
  rw [if_pos hbegins]
  exact congrArg (alternation ++ ·) hpassed

/-- A text without a placeholder stays as it is, up to the first placeholder
behind it. The induction is on the text in front, which the walk passes
character by character. -/
theorem fillFrom_append (alternation : List Char) {front : List Char}
    (h : ¬placeholder.toList <:+: front) (rest : List Char) :
    fillFrom alternation 0 (front ++ (placeholder.toList ++ rest)) =
      front ++ (alternation ++ fillFrom alternation 0 rest) := by
  induction front with
  | nil => exact fillFrom_placeholder alternation rest
  | cons c front ih =>
      have hother := not_prefix_append (List.cons_ne_nil c front) h rest
      have hfront : ¬placeholder.toList <:+: front := fun hinfix =>
        h (List.infix_cons_iff.2 (.inr hinfix))
      rw [List.cons_append] at hother ⊢
      rw [fillFrom, if_neg (mt List.isPrefixOf_iff_prefix.1 hother), ih hfront, List.cons_append]

theorem fillFrom_eq_self (alternation : List Char) {text : List Char}
    (h : ¬placeholder.toList <:+: text) : fillFrom alternation 0 text = text := by
  induction text with
  | nil => rfl
  | cons c rest ih =>
      rw [List.infix_cons_iff, not_or] at h
      rw [fillFrom, if_neg (mt List.isPrefixOf_iff_prefix.1 h.1), ih h.2]

variable {text front : String}

theorem not_infix_of_hasPlaceholder (h : hasPlaceholder text = false) :
    ¬placeholder.toList <:+: text.toList :=
  fun hinfix => Bool.false_ne_true (h.symm.trans (mentions_iff.2 hinfix))

theorem fillTemplate_of_no_placeholder (h : hasPlaceholder text = false) (alternation : String) :
    fillTemplate text alternation = text := by
  rw [fillTemplate, fillFrom_eq_self _ (not_infix_of_hasPlaceholder h), String.ofList_toList]

/-- The first placeholder gives way to the alternation, and so do the
placeholders behind it, which are looked for in what follows alone. -/
theorem fillTemplate_append (h : hasPlaceholder front = false) (rest alternation : String) :
    fillTemplate (front ++ placeholder ++ rest) alternation =
      front ++ alternation ++ fillTemplate rest alternation := by
  apply String.toList_inj.1
  rw [fillTemplate, fillTemplate, String.toList_ofList, String.toList_append,
    String.toList_append, List.append_assoc,
    fillFrom_append _ (not_infix_of_hasPlaceholder h), String.toList_append, String.toList_append,
    String.toList_ofList, List.append_assoc]

/-- The pieces between placeholders are put together again with the
alternation between them. What an alternation holds is not looked at, so a
placeholder in it stays. -/
theorem fillTemplate_intercalate {pieces : List String}
    (h : ∀ piece ∈ pieces, hasPlaceholder piece = false) (alternation : String) :
    fillTemplate (placeholder.intercalate pieces) alternation = alternation.intercalate pieces := by
  induction pieces with
  | nil => rfl
  | cons piece rest ih =>
      obtain ⟨hpiece, hrest⟩ := List.forall_mem_cons.1 h
      cases rest with
      | nil =>
          rw [String.intercalate_singleton, String.intercalate_singleton]
          exact fillTemplate_of_no_placeholder hpiece alternation
      | cons next rest =>
          rw [String.intercalate_cons_cons, String.intercalate_cons_cons,
            fillTemplate_append hpiece, ih hrest]

theorem exists_first_placeholder {chars : List Char} (h : placeholder.toList <:+: chars) :
    ∃ front rest, chars = front ++ (placeholder.toList ++ rest) ∧
      ¬placeholder.toList <:+: front := by
  induction chars with
  | nil => exact absurd (List.infix_nil.1 h) (by decide)
  | cons c chars ih =>
      by_cases hbegins : placeholder.toList <+: c :: chars
      · obtain ⟨rest, hrest⟩ := hbegins
        exact ⟨[], rest, hrest.symm, fun hnil => absurd (List.infix_nil.1 hnil) (by decide)⟩
      · obtain ⟨front, rest, rfl, hfront⟩ := ih ((List.infix_cons_iff.1 h).resolve_left hbegins)
        refine ⟨c :: front, rest, rfl, fun hinfix => ?_⟩
        rcases List.infix_cons_iff.1 hinfix with ⟨more, hmore⟩ | hinfix
        · exact hbegins ⟨more ++ (placeholder.toList ++ rest), by
            rw [← List.append_assoc, hmore, List.cons_append]⟩
        · exact hfront hinfix

theorem exists_pieces (template : String) :
    ∃ pieces, pieces ≠ [] ∧ (∀ piece ∈ pieces, hasPlaceholder piece = false) ∧
      template = placeholder.intercalate pieces := by
  by_cases h : hasPlaceholder template = true
  · obtain ⟨front, rest, hsplit, hfront⟩ := exists_first_placeholder (mentions_iff.1 h)
    have hwhole : template = String.ofList front ++ placeholder ++ String.ofList rest :=
      String.toList_inj.1 (by simp [hsplit])
    have hshorter : rest.length < template.toList.length := by
      rw [hsplit, List.length_append, List.length_append]
      have hlength : 0 < placeholder.toList.length := by decide
      omega
    obtain ⟨pieces, hne, hpieces, hrest⟩ := exists_pieces (String.ofList rest)
    have hfree : hasPlaceholder (String.ofList front) = false := by
      rw [← Bool.not_eq_true, hasPlaceholder, mentions_iff, String.toList_ofList]
      exact hfront
    refine ⟨String.ofList front :: pieces, List.cons_ne_nil _ _,
      List.forall_mem_cons.2 ⟨hfree, hpieces⟩, ?_⟩
    rw [String.intercalate_cons_of_ne_nil hne, ← hrest]
    exact hwhole
  · refine ⟨[template], List.cons_ne_nil _ _, ?_, String.intercalate_singleton.symm⟩
    exact List.forall_mem_singleton.2 (Bool.eq_false_iff.2 h)
termination_by template.toList.length
decreasing_by rwa [String.toList_ofList]

/-- Filling a template is putting the alternation between the pieces of the
template, which are what its placeholders leave of it. So a filled template
holds the alternation as often as the template has placeholders, and its other
parts are the same for every alternation. Each template has such pieces; a
template without a placeholder is one piece and stays as it is. -/
theorem fillTemplate_eq_intercalate (template : String) :
    ∃ pieces, pieces ≠ [] ∧ (∀ piece ∈ pieces, hasPlaceholder piece = false) ∧
      template = placeholder.intercalate pieces ∧
      ∀ alternation, fillTemplate template alternation = alternation.intercalate pieces := by
  obtain ⟨pieces, hne, hpieces, rfl⟩ := exists_pieces template
  exact ⟨pieces, hne, hpieces, rfl, fillTemplate_intercalate hpieces⟩

/-- A template with one placeholder. The alternation stands where the
placeholder stood, and a layout is asked for one placeholder at least. -/
theorem fillTemplate_between {tail : String} (hfront : hasPlaceholder front = false)
    (htail : hasPlaceholder tail = false) (alternation : String) :
    fillTemplate (front ++ placeholder ++ tail) alternation = front ++ alternation ++ tail := by
  rw [fillTemplate_append hfront, fillTemplate_of_no_placeholder htail]

end SymbolPatterns.Symbol
