import Mathlib.Data.List.Nodup
import SymbolPatterns.Symbol.SymbolSet

/-!
Symbol sets are told apart by what they hold alone. Each way of putting symbols
into a set is described by what the set holds afterwards.
-/

namespace SymbolPatterns.Symbol.NameSet

theorem nodup (set : NameSet) : set.names.Nodup := by
  refine set.ascending.imp fun {a b} hab heq => ?_
  subst heq
  simp [nameBefore] at hab

@[ext] theorem ext {set other : NameSet} (h : ∀ name, name ∈ set ↔ name ∈ other) : set = other := by
  have hperm : set.names.Perm other.names :=
    (List.perm_ext_iff_of_nodup set.nodup other.nodup).2 h
  have hnames : set.names = other.names := by
    refine hperm.eq_of_pairwise (fun a b _ _ hab hba => ?_) set.ascending other.ascending
    simp only [nameBefore, decide_eq_true_eq] at hab hba
    exact absurd (String.lt_trans hab hba) (String.lt_irrefl a)
  cases set
  cases other
  cases hnames
  rfl

@[simp] theorem mem_union {set other : NameSet} {name : String} :
    name ∈ set.union other ↔ name ∈ set ∨ name ∈ other := by
  suffices h : ∀ names : List String,
      name ∈ names.foldl insert set ↔ name ∈ set ∨ name ∈ names from h other.names
  intro names
  induction names generalizing set with
  | nil => simp
  | cons first rest ih =>
      rw [List.foldl_cons, ih, mem_insert, List.mem_cons]
      tauto

end SymbolPatterns.Symbol.NameSet

namespace SymbolPatterns.SymbolSet

attribute [ext] SymbolSet

theorem not_holds_empty (symbol : Symbol) : (∅ : SymbolSet).holds symbol = false := by
  cases symbol <;> rfl

theorem holds_add (set : SymbolSet) (symbol other : Symbol) :
    (set.add symbol).holds other = true ↔
      set.holds other = true ∨ other = symbol ∧ symbol.isValid = true := by
  unfold add
  split
  · next hvalid =>
    cases symbol <;> cases other <;> simp [holds, hvalid, or_comm]
  · next hvalid => simp [hvalid]

theorem holds_addAll (set : SymbolSet) (symbols : List Symbol) (other : Symbol) :
    (set.addAll symbols).holds other = true ↔
      set.holds other = true ∨ other ∈ symbols ∧ other.isValid = true := by
  unfold addAll
  induction symbols generalizing set with
  | nil => simp
  | cons symbol rest ih =>
      rw [List.foldl_cons, ih, holds_add, List.mem_cons]
      constructor
      · rintro ((h | ⟨rfl, h⟩) | ⟨hmem, h⟩)
        · exact .inl h
        · exact .inr ⟨.inl rfl, h⟩
        · exact .inr ⟨.inr hmem, h⟩
      · rintro (h | ⟨rfl | hmem, h⟩)
        · exact .inl (.inl h)
        · exact .inl (.inr ⟨rfl, h⟩)
        · exact .inr ⟨hmem, h⟩

theorem addAll_addAll (set : SymbolSet) (symbols more : List Symbol) :
    (set.addAll symbols).addAll more = set.addAll (symbols ++ more) :=
  (List.foldl_append ..).symm

theorem holds_union (set other : SymbolSet) (symbol : Symbol) :
    (set.union other).holds symbol = true ↔
      set.holds symbol = true ∨ other.holds symbol = true := by
  cases symbol <;> simp [union, holds]

/-- A set is determined by the symbols that it holds, so equations between
sets are proved symbol by symbol. -/
theorem eq_of_holds_iff {set other : SymbolSet}
    (h : ∀ symbol, set.holds symbol = true ↔ other.holds symbol = true) : set = other := by
  have hnamespaces : set.namespaces = other.namespaces := by
    ext name
    simpa [holds] using h (.namespaceName name)
  have htypes : set.types = other.types := by
    ext name
    simpa [holds] using h (.typeName name)
  have hfunctions : set.functions = other.functions := by
    ext name
    simpa [holds] using h (.functionName name)
  exact SymbolSet.ext hnamespaces htypes hfunctions

/-- Every name in the set is a scoped identifier. Adding symbols keeps this,
whatever they are, since the others are dropped. -/
structure Plain (set : SymbolSet) : Prop where
  namespaces : ∀ name ∈ set.namespaces.names, Symbol.isScopedIdentifier name = true
  types : ∀ name ∈ set.types.names, Symbol.isScopedIdentifier name = true
  functions : ∀ name ∈ set.functions.names, Symbol.isScopedIdentifier name = true

theorem plain_of_valid {set : SymbolSet}
    (h : ∀ symbol, set.holds symbol = true → symbol.isValid = true) : set.Plain where
  namespaces name hname := h (.namespaceName name) (decide_eq_true hname)
  types name hname := (Bool.and_eq_true_iff.1 (h (.typeName name) (decide_eq_true hname))).2
  functions name hname := h (.functionName name) (decide_eq_true hname)

theorem plain_addAll (symbols : List Symbol) : (addAll ∅ symbols).Plain := by
  refine plain_of_valid fun symbol hsymbol => ?_
  rw [holds_addAll, not_holds_empty] at hsymbol
  exact (hsymbol.resolve_left (by decide)).2

end SymbolPatterns.SymbolSet
