import SymbolPatterns.Symbol.Identifier

/-!
The grammar of scoped identifiers, and that the scanner of names accepts exactly
the texts that the grammar derives.
-/

namespace SymbolPatterns.Symbol

/-- A letter or an underscore, then letters, digits and underscores, all of
ASCII. -/
def IsSegment : List Char → Prop
  | [] => False
  | c :: rest => startsSegment c = true ∧ ∀ d ∈ rest, continuesSegment d = true

/-- Segments with double colons between them, as a grammar with one rule for a
name of one segment and one for a longer name. -/
inductive Scoped : List Char → Prop where
  | segment {text : List Char} (h : IsSegment text) : Scoped text
  | nested {text rest : List Char} (h : IsSegment text) (hrest : Scoped rest) :
      Scoped (text ++ ':' :: ':' :: rest)

theorem IsSegment.snoc {text : List Char} {c : Char} (h : IsSegment text)
    (hc : continuesSegment c = true) : IsSegment (text ++ [c]) := by
  cases text with
  | nil => exact h.elim
  | cons first rest =>
      refine ⟨h.1, fun d hd => ?_⟩
      rcases List.mem_append.1 hd with hd | hd
      · exact h.2 d hd
      · rwa [List.mem_singleton.1 hd]

/-- What the scanner accepts behind an open segment continues that segment,
and what it accepts at a fresh start is a name. Both are proved together, as
the scanner goes from one to the other. -/
theorem scoped_of_scopedFrom {fresh : Bool} {text : List Char}
    (h : scopedFrom fresh text = true) :
    (fresh = true → Scoped text) ∧
      (fresh = false → ∀ run, IsSegment run → Scoped (run ++ text)) := by
  fun_induction scopedFrom fresh text with
  | case1 fresh =>
      refine ⟨fun hfresh => ?_, fun _ run hrun => ?_⟩
      · rw [hfresh] at h
        cases h
      · rw [List.append_nil]
        exact .segment hrun
  | case2 c rest ih =>
      rw [Bool.and_eq_true] at h
      exact ⟨fun _ => (ih h.2).2 rfl [c] ⟨h.1, nofun⟩, nofun⟩
  | case3 rest ih => exact ⟨nofun, fun _ run hrun => .nested hrun ((ih h).1 rfl)⟩
  | case4 c rest _ ih =>
      rw [Bool.and_eq_true] at h
      refine ⟨nofun, fun _ run hrun => ?_⟩
      have hscoped := (ih h.2).2 rfl (run ++ [c]) (hrun.snoc h.1)
      rwa [List.append_assoc] at hscoped

theorem scopedFrom_append {run rest : List Char} (h : ∀ c ∈ run, continuesSegment c = true) :
    scopedFrom false (run ++ rest) = scopedFrom false rest := by
  induction run with
  | nil => rfl
  | cons c run ih =>
      have hc : continuesSegment c = true := h c List.mem_cons_self
      have hcolon : c ≠ ':' := by
        rintro rfl
        exact absurd hc (by decide)
      rw [List.cons_append, scopedFrom, hc, Bool.true_and]
      · exact ih fun d hd => h d (List.mem_cons_of_mem c hd)
      · exact fun _ hcons _ => hcolon hcons

theorem scopedFrom_of_scoped {text : List Char} (h : Scoped text) :
    scopedFrom true text = true := by
  induction h with
  | @segment text h =>
      cases text with
      | nil => exact h.elim
      | cons c rest =>
          have hrest : scopedFrom false (rest ++ []) = true := scopedFrom_append h.2
          rw [List.append_nil] at hrest
          rw [scopedFrom, h.1, hrest]
          rfl
  | @nested text rest h _ ih =>
      cases text with
      | nil => exact h.elim
      | cons c tail =>
          rw [List.cons_append, scopedFrom, h.1, scopedFrom_append h.2, scopedFrom, ih]
          rfl

theorem isScopedIdentifier_iff {name : String} :
    isScopedIdentifier name = true ↔ Scoped name.toList :=
  ⟨fun h => (scoped_of_scopedFrom h).1 rfl, scopedFrom_of_scoped⟩

end SymbolPatterns.Symbol
