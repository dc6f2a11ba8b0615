/-!
Lists in a given order without repetition, built by insertion. What such a list
holds does not depend on the order of insertion.
-/

namespace SymbolPatterns.Symbol

variable {α : Type} [DecidableEq α]

/-- Puts a value in front of the first one that it precedes, unless it is met
before. -/
def arrange (precedes : α → α → Bool) (x : α) : List α → List α
  | [] => [x]
  | y :: rest =>
      if x = y then y :: rest
      else if precedes x y then x :: y :: rest
      else y :: arrange precedes x rest

def arranged (precedes : α → α → Bool) (xs : List α) : List α :=
  xs.foldr (arrange precedes) []

theorem mem_arrange (precedes : α → α → Bool) {x y : α} {xs : List α} :
    y ∈ arrange precedes x xs ↔ y = x ∨ y ∈ xs := by
  induction xs with
  | nil => simp [arrange]
  | cons z rest ih =>
      unfold arrange
      split
      · next h => subst h; simp
      · split
        · simp
        · simp only [List.mem_cons, ih]
          constructor
          · rintro (h | h | h) <;> simp [h]
          · rintro (h | h | h) <;> simp [h]

theorem mem_arranged (precedes : α → α → Bool) {y : α} {xs : List α} :
    y ∈ arranged precedes xs ↔ y ∈ xs := by
  induction xs with
  | nil => simp [arranged]
  | cons x rest ih =>
      change y ∈ arrange precedes x (arranged precedes rest) ↔ _
      rw [mem_arrange, ih, List.mem_cons]

/-- Insertion keeps an ascending list ascending, in any order that is
transitive and compares any two different values. -/
theorem pairwise_arrange {precedes : α → α → Bool}
    (trans : ∀ a b c, precedes a b = true → precedes b c = true → precedes a c = true)
    (total : ∀ a b, a ≠ b → precedes a b = true ∨ precedes b a = true)
    {x : α} {xs : List α} (h : xs.Pairwise (precedes · · = true)) :
    (arrange precedes x xs).Pairwise (precedes · · = true) := by
  induction xs with
  | nil => simp [arrange]
  | cons y rest ih =>
      have hy := List.pairwise_cons.1 h
      unfold arrange
      split
      · exact h
      · next hne =>
        split
        · next hxy =>
          refine List.pairwise_cons.2 ⟨?_, h⟩
          intro z hz
          rcases List.mem_cons.1 hz with hz | hz
          · exact hz ▸ hxy
          · exact trans x y z hxy (hy.1 z hz)
        · next hxy =>
          refine List.pairwise_cons.2 ⟨?_, ih hy.2⟩
          intro z hz
          rcases (mem_arrange precedes).1 hz with hz | hz
          · subst hz
            exact (total _ _ hne).resolve_left hxy
          · exact hy.1 z hz

end SymbolPatterns.Symbol
