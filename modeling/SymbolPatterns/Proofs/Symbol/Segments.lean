import SymbolPatterns.Proofs.Symbol.Identifier
import SymbolPatterns.Proofs.Text.Split

/-!
Scoped identifiers as lists of segments. A text is accepted if it is some
segments with double colons between them, and then they are its pieces between
double colons.
-/

namespace SymbolPatterns.Symbol

def IsLetter (c : Char) : Prop := 'A' ≤ c ∧ c ≤ 'Z' ∨ 'a' ≤ c ∧ c ≤ 'z'

def IsDigit (c : Char) : Prop := '0' ≤ c ∧ c ≤ '9'

/-- A letter or an underscore, then letters, digits and underscores. The
characters are given by ranges and not by what the scanner calls. -/
def SpellsSegment (segment : String) : Prop :=
  ∃ first rest, segment.toList = first :: rest ∧ (IsLetter first ∨ first = '_') ∧
    ∀ c ∈ rest, IsLetter c ∨ IsDigit c ∨ c = '_'

/-- One or more segments, and the text that they make with double colons
between them. -/
structure Joins (segments : List String) (name : String) : Prop where
  notEmpty : segments ≠ []
  spelled : ∀ segment ∈ segments, SpellsSegment segment
  joined : "::".intercalate segments = name

/-- The pieces between double colons, which are taken from the left: of three
colons the third one goes to the next piece. -/
def splitColons : List Char → List (List Char)
  | [] => [[]]
  | ':' :: ':' :: rest => [] :: splitColons rest
  | c :: rest => (splitColons rest).modifyHead (c :: ·)

/-- The pieces of a name between double colons. For a text that is no name
they may be anything. -/
def segmentsOf (name : String) : List String := (splitColons name.toList).map String.ofList

theorem between_iff {c first last : Char} :
    (decide (c.val ≥ first.val) && decide (c.val ≤ last.val)) = true ↔ first ≤ c ∧ c ≤ last :=
  Bool.and_eq_true_iff.trans (and_congr decide_eq_true_iff decide_eq_true_iff)

theorem isAlpha_iff {c : Char} : c.isAlpha = true ↔ IsLetter c :=
  Bool.or_eq_true_iff.trans (or_congr decide_eq_true_iff between_iff)

theorem isAlphanum_iff {c : Char} : c.isAlphanum = true ↔ IsLetter c ∨ IsDigit c :=
  Bool.or_eq_true_iff.trans (or_congr isAlpha_iff between_iff)

theorem isSegment_iff {segment : String} : IsSegment segment.toList ↔ SpellsSegment segment := by
  constructor
  · intro h
    cases hchars : segment.toList with
    | nil =>
        rw [hchars] at h
        exact h.elim
    | cons first rest =>
        rw [hchars] at h
        refine ⟨first, rest, hchars, ?_, fun c hc => ?_⟩
        · simpa [startsSegment, isAlpha_iff] using h.1
        · simpa [continuesSegment, isAlphanum_iff, or_assoc] using h.2 c hc
  · rintro ⟨first, rest, hchars, hfirst, hrest⟩
    rw [hchars]
    refine ⟨?_, fun c hc => ?_⟩
    · simpa [startsSegment, isAlpha_iff] using hfirst
    · simpa [continuesSegment, isAlphanum_iff, or_assoc] using hrest c hc

/-- No colon belongs to a segment, so one that is split stays whole, and
joined segments are split where they were joined. -/
theorem IsSegment.colon_not_mem {text : List Char} (h : IsSegment text) : ':' ∉ text := by
  intro hmem
  cases text with
  | nil => cases hmem
  | cons first rest =>
      rcases List.mem_cons.1 hmem with rfl | hmem
      · exact absurd h.1 (by decide)
      · exact absurd (h.2 ':' hmem) (by decide)

theorem splitColons_append {front : List Char} (rest : List Char) (h : ':' ∉ front) :
    splitColons (front ++ rest) = (splitColons rest).modifyHead (front ++ ·) := by
  induction front with
  | nil => cases hpieces : splitColons rest <;> simp [hpieces]
  | cons c front ih =>
      rw [List.mem_cons, not_or] at h
      rw [List.cons_append, splitColons, ih h.2, List.modifyHead_modifyHead]
      · rfl
      · exact fun _ hcons _ => h.1 hcons.symm

/-- The pieces of a joined text come back, if there are any and none has a
colon. -/
theorem splitColons_joined {pieces : List (List Char)} (hne : pieces ≠ [])
    (h : ∀ piece ∈ pieces, ':' ∉ piece) :
    splitColons ([':', ':'].intercalate pieces) = pieces := by
  induction pieces with
  | nil => exact absurd rfl hne
  | cons piece others ih =>
      obtain ⟨hpiece, hothers⟩ := List.forall_mem_cons.1 h
      by_cases hnil : others = []
      · rw [hnil, List.intercalate_singleton, ← List.append_nil piece, splitColons_append _ hpiece]
        simp [splitColons]
      · rw [List.intercalate_cons_of_ne_nil hnil, List.append_assoc, splitColons_append _ hpiece,
          List.cons_append, List.cons_append, List.nil_append, splitColons, ih hnil hothers]
        simp

theorem scoped_intercalate {pieces : List (List Char)} (hne : pieces ≠ [])
    (h : ∀ piece ∈ pieces, IsSegment piece) : Scoped ([':', ':'].intercalate pieces) := by
  induction pieces with
  | nil => exact absurd rfl hne
  | cons piece others ih =>
      obtain ⟨hpiece, hothers⟩ := List.forall_mem_cons.1 h
      by_cases hnil : others = []
      · rw [hnil, List.intercalate_singleton]
        exact .segment hpiece
      · rw [List.intercalate_cons_of_ne_nil hnil, List.append_assoc]
        exact .nested hpiece (ih hnil hothers)

theorem exists_pieces_of_scoped {text : List Char} (h : Scoped text) :
    ∃ pieces, pieces ≠ [] ∧ (∀ piece ∈ pieces, IsSegment piece) ∧
      [':', ':'].intercalate pieces = text := by
  induction h with
  | @segment text h =>
      exact ⟨[text], List.cons_ne_nil _ _, List.forall_mem_singleton.2 h,
        List.intercalate_singleton⟩
  | @nested text rest h _ ih =>
      obtain ⟨pieces, hne, hpieces, rfl⟩ := ih
      refine ⟨text :: pieces, List.cons_ne_nil _ _, List.forall_mem_cons.2 ⟨h, hpieces⟩, ?_⟩
      rw [List.intercalate_cons_of_ne_nil hne, List.append_assoc]
      rfl

theorem joins_iff {segments : List String} {name : String} :
    Joins segments name ↔ segments ≠ [] ∧ (∀ piece ∈ segments.map String.toList, IsSegment piece) ∧
      [':', ':'].intercalate (segments.map String.toList) = name.toList := by
  have hspelled : (∀ piece ∈ segments.map String.toList, IsSegment piece) ↔
      ∀ segment ∈ segments, SpellsSegment segment := by
    simp only [List.forall_mem_map, isSegment_iff]
  have hjoined : [':', ':'].intercalate (segments.map String.toList) = name.toList ↔
      "::".intercalate segments = name := by
    rw [← String.toList_inj, String.toList_intercalate]
    rfl
  rw [hspelled, hjoined]
  exact ⟨fun h => ⟨h.notEmpty, h.spelled, h.joined⟩, fun h => ⟨h.1, h.2.1, h.2.2⟩⟩

theorem Joins.isScopedIdentifier {segments : List String} {name : String}
    (h : Joins segments name) : isScopedIdentifier name = true := by
  obtain ⟨hne, hpieces, hjoined⟩ := joins_iff.1 h
  rw [isScopedIdentifier_iff, ← hjoined]
  exact scoped_intercalate (by simpa using hne) hpieces

theorem exists_joins {name : String} (h : isScopedIdentifier name = true) :
    ∃ segments, Joins segments name := by
  obtain ⟨pieces, hne, hpieces, hjoined⟩ := exists_pieces_of_scoped (isScopedIdentifier_iff.1 h)
  refine ⟨pieces.map String.ofList, joins_iff.2 ⟨by simpa using hne, ?_⟩⟩
  rw [Text.map_toList_ofList]
  exact ⟨hpieces, hjoined⟩

theorem Joins.eq_segmentsOf {segments : List String} {name : String} (h : Joins segments name) :
    segments = segmentsOf name := by
  obtain ⟨hne, hpieces, hjoined⟩ := joins_iff.1 h
  rw [segmentsOf, ← hjoined, splitColons_joined (by simpa using hne) fun piece hpiece =>
    (hpieces piece hpiece).colon_not_mem]
  exact (Text.map_ofList_toList segments).symm

theorem joins_singleton {segment : String} (h : SpellsSegment segment) :
    Joins [segment] segment where
  notEmpty := List.cons_ne_nil _ _
  spelled := List.forall_mem_singleton.2 h
  joined := String.intercalate_singleton

theorem Joins.append {segments others : List String} {name other : String}
    (h : Joins segments name) (hother : Joins others other) :
    Joins (segments ++ others) ("::".intercalate (segments ++ others)) where
  notEmpty := by simp [h.notEmpty]
  spelled := List.forall_mem_append.2 ⟨h.spelled, hother.spelled⟩
  joined := rfl

/-- A text is accepted just if some segments make it, with double colons
between them. These are then its pieces between double colons, so there is one
such list, and each of them is accepted. The segments of two accepted texts,
one list behind the other, make an accepted text again. Blanks and empty
segments are refused, and so are letters beyond ASCII. -/
theorem accepts_joined_segments (name : String) :
    (isScopedIdentifier name = true ↔ ∃ segments, Joins segments name) ∧
    (∀ segments, Joins segments name →
      segments = segmentsOf name ∧ ∀ segment ∈ segments, isScopedIdentifier segment = true) ∧
    ∀ other, isScopedIdentifier name = true → isScopedIdentifier other = true →
      isScopedIdentifier ("::".intercalate (segmentsOf name ++ segmentsOf other)) = true := by
  refine ⟨⟨exists_joins, ?_⟩, fun segments h => ⟨h.eq_segmentsOf, fun segment hsegment => ?_⟩, ?_⟩
  · rintro ⟨segments, h⟩
    exact h.isScopedIdentifier
  · exact (joins_singleton (h.spelled segment hsegment)).isScopedIdentifier
  · intro other hname hother
    obtain ⟨segments, hsegments⟩ := exists_joins hname
    obtain ⟨others, hothers⟩ := exists_joins hother
    rw [← hsegments.eq_segmentsOf, ← hothers.eq_segmentsOf]
    exact (hsegments.append hothers).isScopedIdentifier

/-- A name of two segments, and the name of three that it makes with one in
front of it. -/
theorem accepts_nested_name :
    Joins ["Net", "Http"] "Net::Http" ∧ isScopedIdentifier "Http" = true ∧
      isScopedIdentifier "Http::Net::Http" = true := by
  have hpieces : segmentsOf "Net::Http" = ["Net", "Http"] := by decide
  have hwhole : isScopedIdentifier "Net::Http" = true := by decide
  obtain ⟨⟨hexists, -⟩, hunique, -⟩ := accepts_joined_segments "Net::Http"
  obtain ⟨segments, hjoins⟩ := hexists hwhole
  obtain ⟨hsegments, hparts⟩ := hunique segments hjoins
  rw [hpieces] at hsegments
  rw [hsegments] at hjoins hparts
  have hlast : isScopedIdentifier "Http" = true := hparts "Http" (by decide)
  obtain ⟨-, -, hjoined⟩ := accepts_joined_segments "Http"
  exact ⟨hjoins, hlast, hjoined "Net::Http" hlast hwhole⟩

end SymbolPatterns.Symbol
