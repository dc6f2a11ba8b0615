import SymbolPatterns.Grammar.Document
import SymbolPatterns.Proofs.Json.Reading
import SymbolPatterns.Proofs.Json.RoundTrip
import SymbolPatterns.Proofs.Text.Split

/-!
What is printed for a document is read back as the same document: the values of
its fields are read back, and the second line shows the unit with which the text
was indented.
-/

namespace SymbolPatterns

namespace Grammar

open Json

/-- One tab or some blanks. These are the units that are recognised; a
document indented in another way is printed with two blanks. -/
def IsUnit (unit : List Char) : Prop := unit = ['\t'] ∨ ∃ n, unit = List.replicate (n + 1) ' '

theorem IsUnit.isIndent {unit : List Char} (h : IsUnit unit) : ∀ c ∈ unit, isIndent c = true := by
  intro c hc
  rcases h with rfl | ⟨n, rfl⟩
  · rw [List.mem_singleton.1 hc]
    rfl
  · rw [List.eq_of_mem_replicate hc]
    rfl

theorem IsUnit.isSpace {unit : List Char} (h : IsUnit unit) : ∀ c ∈ unit, isSpace c = true := by
  intro c hc
  rcases h with rfl | ⟨n, rfl⟩
  · rw [List.mem_singleton.1 hc]
    rfl
  · rw [List.eq_of_mem_replicate hc]
    rfl

theorem isUnit_of_unitOfLine? {line unit : List Char} (h : unitOfLine? line = some unit) :
    IsUnit unit := by
  unfold unitOfLine? at h
  dsimp only at h
  split at h
  · cases h
  · next hleading =>
    split at h
    · exact Or.inl (Option.some.inj h).symm
    · refine Or.inr ⟨(line.takeWhile Grammar.isIndent).length - 1, ?_⟩
      have hpos : 0 < (line.takeWhile Grammar.isIndent).length := by
        rw [List.length_pos_iff]
        intro hnil
        simp [hnil] at hleading
      rw [Nat.sub_add_cancel hpos]
      exact (Option.some.inj h).symm

theorem isUnit_unitOf (text : List Char) : IsUnit (unitOf text) := by
  unfold unitOf
  cases h : ((lines text).drop 1).findSome? unitOfLine? with
  | none => exact Or.inr ⟨1, rfl⟩
  | some unit =>
      obtain ⟨line, -, hline⟩ := List.exists_of_findSome?_eq_some h
      exact isUnit_of_unitOfLine? hline

/-- A line that goes on with a quote shows the unit that it begins with. The
second line of a printed object is such a line, as it starts with the first
key. -/
theorem unitOfLine?_quoted {unit : List Char} (h : IsUnit unit) (rest : List Char) :
    unitOfLine? (unit ++ '"' :: rest) = some unit := by
  have htake : (unit ++ '"' :: rest).takeWhile isIndent = unit := by
    rw [List.takeWhile_append_of_pos h.isIndent]
    simp [isIndent]
  unfold unitOfLine?
  rw [htake]
  rcases h with rfl | ⟨n, rfl⟩
  · simp
  · simp [List.replicate_succ]

/-- The carriage return in front of a line feed does not belong to the line.
Lines of a printed text have none, but what follows the text may be anything. -/
private theorem exists_withoutReturn (front piece : List Char) :
    ∃ line, (if (front ++ '"' :: piece).getLast? = some '\r' then (front ++ '"' :: piece).dropLast
      else front ++ '"' :: piece) = front ++ '"' :: line := by
  split
  · next hlast =>
    have hne : piece ≠ [] := by
      rintro rfl
      simp at hlast
    obtain ⟨c, others, rfl⟩ := List.exists_cons_of_ne_nil hne
    exact ⟨(c :: others).dropLast, by simp [List.dropLast_append_of_ne_nil]⟩
  · exact ⟨piece, rfl⟩

theorem lines_quoted {unit : List Char} (h : IsUnit unit) (rest : List Char) :
    ∃ line others, lines ('{' :: '\n' :: (unit ++ '"' :: rest)) =
      ['{'] :: (unit ++ '"' :: line) :: others := by
  obtain ⟨piece, pieces, hrest⟩ := Text.exists_splitAt '\n' rest
  have hunit : '\n' ∉ unit ++ ['"'] := by
    intro hmem
    rcases List.mem_append.1 hmem with hmem | hmem
    · exact absurd (h.isIndent _ hmem) (by decide)
    · exact absurd (List.mem_singleton.1 hmem) (by decide)
  have hsplit : Text.splitAt '\n' ('{' :: '\n' :: (unit ++ '"' :: rest)) =
      ['{'] :: (unit ++ '"' :: piece) :: pieces := by
    have hsecond := Text.splitAt_append hunit hrest
    have hfirst := Text.splitAt_separator '\n' (unit ++ ['"'] ++ rest)
    rw [hsecond] at hfirst
    simpa using Text.splitAt_append (by decide : '\n' ∉ ['{']) hfirst
  unfold lines
  rw [hsplit]
  cases pieces with
  | nil => exact ⟨piece, [], by simp⟩
  | cons next pieces =>
      obtain ⟨line, hline⟩ := exists_withoutReturn unit piece
      simp only [List.dropLast_cons_cons, List.map_cons, hline]
      split
      · exact ⟨line, _, rfl⟩
      · exact ⟨line, _, rfl⟩
      · exact ⟨line, _, rfl⟩

/-- The text of an object that is not empty shows the unit that it is indented
with. The empty object is printed in one line and shows none. -/
theorem unitOf_prettyText {unit : List Char} (h : IsUnit unit) {fields : Fields}
    (hne : fields ≠ []) (behind : List Char) :
    unitOf (prettyText unit 0 (.object fields) ++ behind) = unit := by
  obtain ⟨⟨key, v⟩, others, rfl⟩ := List.exists_cons_of_ne_nil hne
  have htext : ∃ rest, prettyText unit 0 (.object ((key, v) :: others)) ++ behind =
      '{' :: '\n' :: (unit ++ '"' :: rest) := by
    rw [prettyText, lineStart, stringText]
    simp
  obtain ⟨rest, hrest⟩ := htext
  obtain ⟨line, more, hlines⟩ := lines_quoted h rest
  rw [hrest, unitOf, hlines]
  simp [unitOfLine?_quoted h]

namespace Document

theorem readWithin_of_parse {path : Path} {content : String} {document : Document}
    (h : parse path content = .ok document) :
    document.path = path ∧ document.readText = content ∧
      ReadWithin depthLimit (.object document.root) := by
  unfold parse at h
  split at h
  · cases h
  · next root hroot =>
    obtain rfl := Except.ok.inj h
    exact ⟨rfl, rfl, Json.readWithin_of_parse hroot⟩
  · cases h

theorem of_parse {path : Path} {content : String} {document : Document}
    (h : parse path content = .ok document) :
    document.path = path ∧ document.readText = content ∧ WellFormed (.object document.root) := by
  obtain ⟨hpath, htext, hroot⟩ := readWithin_of_parse h
  exact ⟨hpath, htext, hroot.wellFormed⟩

/-- What is printed for a printable object is read back as this object, and
the printed text is kept with it. Failures cannot happen, up to the depth that
reading goes to. -/
theorem parse_pretty (document : Document) (hprintable : Printable (.object document.root))
    (hheight : height (.object document.root) ≤ depthLimit) :
    parse document.path document.pretty =
      .ok ⟨document.path, document.root, document.pretty⟩ := by
  have hunit := isUnit_unitOf document.readText.toList
  have hfeed : ∀ c ∈ ['\n'], isSpace c = true := List.forall_mem_singleton.2 rfl
  have hread := parse_prettyText hunit.isSpace hfeed hprintable hheight
  have hmark : Text.withoutMark document.pretty.toList = document.pretty.toList := by
    rw [pretty, String.toList_ofList]
    cases document.root <;> rw [prettyText] <;> rfl
  rw [← pretty] at hread
  rw [parse, hmark, String.ofList_toList, hread]

/-- The same object is printed the same, whether it was read from the text
before or from the text that was printed for another object: only the unit is
taken from the old text, and printing keeps it. -/
theorem pretty_reread (document : Document) (hne : document.root ≠ []) (root : Fields) :
    (⟨document.path, root, document.pretty⟩ : Document).pretty =
      (⟨document.path, root, document.readText⟩ : Document).pretty := by
  have hunit := isUnit_unitOf document.readText.toList
  have hagain : unitOf document.pretty.toList = unitOf document.readText.toList := by
    rw [pretty, String.toList_ofList]
    exact unitOf_prettyText hunit hne _
  change String.ofList (prettyText (unitOf document.pretty.toList) 0 (.object root) ++ ['\n']) = _
  rw [hagain]
  rfl

end Document

end Grammar

end SymbolPatterns
