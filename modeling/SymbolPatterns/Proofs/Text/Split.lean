import SymbolPatterns.Text.Blank

/-!
The pieces of a text between separators.
-/

namespace SymbolPatterns.Text

variable {α : Type} [DecidableEq α]

theorem splitAt_ne_nil (separator : α) (text : List α) : splitAt separator text ≠ [] := by
  cases text with
  | nil => simp [splitAt]
  | cons c rest =>
      unfold splitAt
      split
      · simp
      · split <;> simp

theorem exists_splitAt (separator : α) (text : List α) :
    ∃ piece pieces, splitAt separator text = piece :: pieces :=
  List.exists_cons_of_ne_nil (splitAt_ne_nil separator text)

theorem splitAt_separator (separator : α) (rest : List α) :
    splitAt separator (separator :: rest) = [] :: splitAt separator rest := by
  obtain ⟨piece, pieces, h⟩ := exists_splitAt separator rest
  rw [splitAt, h]
  simp

/-- What is not the separator goes to the first piece, as nothing ends there. -/
theorem splitAt_append {separator : α} {front rest piece : List α}
    {pieces : List (List α)} (hfront : separator ∉ front)
    (h : splitAt separator rest = piece :: pieces) :
    splitAt separator (front ++ rest) = (front ++ piece) :: pieces := by
  induction front with
  | nil => exact h
  | cons c front ih =>
      have hc : c ≠ separator := fun hc => hfront (by simp [hc])
      have hrest : separator ∉ front := fun hmem => hfront (List.mem_cons_of_mem _ hmem)
      rw [List.cons_append, splitAt, ih hrest]
      simp [hc]

theorem splitAt_of_not_mem {separator : α} {text : List α} (h : separator ∉ text) :
    splitAt separator text = [text] := by
  have hall := splitAt_append h (rfl : splitAt separator [] = [[]])
  rwa [List.append_nil] at hall

/-- A piece ends where the separator stands, and the pieces behind it are
those of what follows. -/
theorem splitAt_append_separator {separator : α} {front : List α} (rest : List α)
    (h : separator ∉ front) :
    splitAt separator (front ++ separator :: rest) = front :: splitAt separator rest := by
  have hall := splitAt_append h (splitAt_separator separator rest)
  rwa [List.append_nil] at hall

/-- A text is split where the separator stands, whatever stands in front of
it. Both sides may have further separators. -/
theorem splitAt_append_cons (separator : α) (front rest : List α) :
    splitAt separator (front ++ separator :: rest) =
      splitAt separator front ++ splitAt separator rest := by
  induction front with
  | nil => exact splitAt_separator separator rest
  | cons c front ih =>
      obtain ⟨piece, pieces, hfront⟩ := exists_splitAt separator front
      rw [hfront] at ih
      rw [List.cons_append, splitAt, splitAt, ih, hfront]
      dsimp only [List.cons_append]
      split <;> rfl

/-- The pieces of a joined text come back, if there are any and none has the
separator in it. -/
theorem splitAt_joined {separator : α} {pieces : List (List α)} (hne : pieces ≠ [])
    (h : ∀ piece ∈ pieces, separator ∉ piece) :
    splitAt separator ([separator].intercalate pieces) = pieces := by
  induction pieces with
  | nil => exact absurd rfl hne
  | cons piece others ih =>
      obtain ⟨hpiece, hothers⟩ := List.forall_mem_cons.1 h
      by_cases hnil : others = []
      · rw [hnil, List.intercalate_singleton, splitAt_of_not_mem hpiece]
      · rw [List.intercalate_cons_of_ne_nil hnil, List.append_assoc, List.singleton_append,
          splitAt_append_separator _ hpiece, ih hnil hothers]

/-- The pieces of a joined text come back, before those of what follows it.
Several texts joined one behind the other are split by it. -/
theorem splitAt_intercalate {separator : α} {pieces : List (List α)} (rest : List α)
    (hne : pieces ≠ []) (h : ∀ piece ∈ pieces, separator ∉ piece) :
    splitAt separator ([separator].intercalate pieces ++ separator :: rest) =
      pieces ++ splitAt separator rest := by
  rw [splitAt_append_cons, splitAt_joined hne h]

theorem not_mem_of_mem_splitAt {separator : α} {text piece : List α}
    (h : piece ∈ splitAt separator text) : separator ∉ piece := by
  induction text generalizing piece with
  | nil =>
      rw [List.mem_singleton.1 h]
      exact List.not_mem_nil
  | cons c rest ih =>
      obtain ⟨first, pieces, hrest⟩ := exists_splitAt separator rest
      rw [hrest] at ih
      rw [splitAt, hrest] at h
      dsimp only at h
      split at h
      · rcases List.mem_cons.1 h with rfl | h
        · exact List.not_mem_nil
        · exact ih h
      · next hc =>
        rcases List.mem_cons.1 h with rfl | h
        · rw [List.mem_cons, not_or]
          exact ⟨Ne.symm hc, ih List.mem_cons_self⟩
        · exact ih (List.mem_cons_of_mem first h)

/-- What a first piece says about a text: it is all of it, or a separator
stands behind it and the other pieces are those of what follows. -/
theorem splitAt_eq_cons {separator : α} {text piece : List α} {pieces : List (List α)}
    (h : splitAt separator text = piece :: pieces) :
    text = piece ∧ pieces = [] ∨
      ∃ rest, text = piece ++ separator :: rest ∧ splitAt separator rest = pieces := by
  induction text generalizing piece with
  | nil =>
      obtain ⟨rfl, rfl⟩ := List.cons.inj h
      exact .inl ⟨rfl, rfl⟩
  | cons c text ih =>
      obtain ⟨first, others, hothers⟩ := exists_splitAt separator text
      rw [splitAt, hothers] at h
      dsimp only at h
      split at h
      · next hc =>
        obtain ⟨rfl, rfl⟩ := List.cons.inj h
        exact .inr ⟨text, by rw [hc, List.nil_append], hothers⟩
      · obtain ⟨rfl, rfl⟩ := List.cons.inj h
        rcases ih hothers with ⟨rfl, rfl⟩ | ⟨rest, rfl, hrest⟩
        · exact .inl ⟨rfl, rfl⟩
        · exact .inr ⟨rest, rfl, hrest⟩

/-- Names are told by their characters, and pieces by the names that they
spell. -/
theorem map_ofList_toList (names : List String) :
    (names.map String.toList).map String.ofList = names := by
  rw [List.map_map]
  exact (List.map_congr_left fun name _ => String.ofList_toList).trans (List.map_id names)

theorem map_toList_ofList (pieces : List (List Char)) :
    (pieces.map String.ofList).map String.toList = pieces := by
  rw [List.map_map]
  exact (List.map_congr_left fun piece _ => String.toList_ofList).trans (List.map_id pieces)

/-- The length of some pieces, each with the separator behind it. Positions in
a text are told by it. -/
def span : List (List α) → Nat
  | [] => 0
  | piece :: rest => piece.length + 1 + span rest

omit [DecidableEq α] in
theorem span_append (front rest : List (List α)) :
    span (front ++ rest) = span front + span rest := by
  induction front with
  | nil => simp [span]
  | cons piece front ih =>
      rw [List.cons_append, span, span, ih]
      omega

/-- A text that is cut at the end of a piece has the pieces up to this one.
The parent of a path is made by such a cut. -/
theorem splitAt_take {separator : α} {text piece : List α}
    {before after : List (List α)} (h : splitAt separator text = before ++ piece :: after) :
    splitAt separator (text.take (span before + piece.length)) = before ++ [piece] := by
  induction before generalizing text with
  | nil =>
      have hpiece : separator ∉ piece := by
        apply not_mem_of_mem_splitAt
        rw [h]
        exact List.mem_cons_self
      have hfront : text.take piece.length = piece := by
        rcases splitAt_eq_cons h with ⟨rfl, -⟩ | ⟨rest, rfl, -⟩ <;> simp
      simp [span, hfront, splitAt_of_not_mem hpiece]
  | cons first before ih =>
      have hfirst : separator ∉ first := by
        apply not_mem_of_mem_splitAt
        rw [h]
        exact List.mem_cons_self
      rcases splitAt_eq_cons h with ⟨-, hnil⟩ | ⟨rest, rfl, hrest⟩
      · exact absurd hnil (by simp)
      · have hlength : span (first :: before) + piece.length =
            first.length + (span before + piece.length + 1) := by
          simp [span]
          omega
        rw [hlength, List.take_length_add_append, List.take_succ_cons,
          splitAt_append_separator _ hfirst, ih hrest, List.cons_append]

end SymbolPatterns.Text
