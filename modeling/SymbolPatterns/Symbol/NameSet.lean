import SymbolPatterns.Symbol.Arranged

/-!
Sets of names, kept in ascending order of their code points.
-/

namespace SymbolPatterns.Symbol

def nameBefore (a b : String) : Bool := a < b

theorem nameBefore_trans (a b c : String) (hab : nameBefore a b = true)
    (hbc : nameBefore b c = true) : nameBefore a c = true := by
  simp only [nameBefore, decide_eq_true_eq] at *
  exact String.lt_trans hab hbc

theorem nameBefore_total (a b : String) (h : a ≠ b) :
    nameBefore a b = true ∨ nameBefore b a = true := by
  simp only [nameBefore, decide_eq_true_eq]
  rcases String.le_total a b with hab | hba
  · by_cases hlt : a < b
    · exact .inl hlt
    · exact absurd (String.le_antisymm hab (String.not_lt.1 hlt)) h
  · by_cases hlt : b < a
    · exact .inr hlt
    · exact absurd (String.le_antisymm (String.not_lt.1 hlt) hba) h

/-- Names in ascending order, each of them once. -/
structure NameSet where
  names : List String
  ascending : names.Pairwise (nameBefore · · = true)
  deriving DecidableEq

namespace NameSet

def empty : NameSet := ⟨[], List.Pairwise.nil⟩

instance : EmptyCollection NameSet := ⟨empty⟩

instance : Inhabited NameSet := ⟨empty⟩

instance : Membership String NameSet := ⟨fun set name => name ∈ set.names⟩

instance (name : String) (set : NameSet) : Decidable (name ∈ set) :=
  inferInstanceAs (Decidable (name ∈ set.names))

def size (set : NameSet) : Nat := set.names.length

def insert (set : NameSet) (name : String) : NameSet :=
  ⟨arrange nameBefore name set.names,
    pairwise_arrange nameBefore_trans nameBefore_total set.ascending⟩

def union (set other : NameSet) : NameSet := other.names.foldl insert set

def ofList (names : List String) : NameSet := names.foldl insert ∅

@[simp] theorem mem_insert {set : NameSet} {name other : String} :
    other ∈ set.insert name ↔ other = name ∨ other ∈ set :=
  mem_arrange nameBefore

end NameSet

end SymbolPatterns.Symbol
