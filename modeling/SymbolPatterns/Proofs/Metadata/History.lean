import SymbolPatterns.Metadata.Reading
import SymbolPatterns.Proofs.Symbol.Alternation
import SymbolPatterns.Proofs.Symbol.SymbolSet

/-!
Whatever metadata is read, in whatever order sets are grown and merged, a symbol
set holds the valid ones among the symbols that were offered to it, and no
others. So its names are scoped identifiers, and the expressions made from them
mean the names and nothing else.
-/

namespace SymbolPatterns

/-- How a symbol set comes about. Every way in which a set can be made or
grown is a rule here, so what holds of all histories holds of all sets. -/
inductive History where
  | empty
  | seeded
  | add (before : History) (symbol : Symbol)
  | merge (before other : History)
  | read (before : History) (kind : SourceKind) (origin : Path) (content : String)

namespace History

/-- The set at the end. A source that cannot be read leaves the set as it was,
so failures are part of a history. -/
def set : History → SymbolSet
  | empty => ∅
  | seeded => SymbolSet.seeded
  | add before symbol => before.set.add symbol
  | merge before other => before.set.union other.set
  | read before kind origin content =>
      match Metadata.read kind origin content before.set with
      | .ok grown => grown
      | .error _ => before.set

/-- Whether the set that was grown began with the namespaces that are always
included. What was merged into it does not count, though it may hold them as
well. -/
def IsSeeded : History → Prop
  | empty => False
  | seeded => True
  | add before _ | merge before _ | read before _ _ _ => before.IsSeeded

/-- Every symbol that was to be put into the set, valid or not, by whichever
way. -/
def offered : History → List Symbol
  | empty => []
  | seeded => SymbolSet.alwaysIncluded.map .namespaceName
  | add before symbol => before.offered ++ [symbol]
  | merge before other => before.offered ++ other.offered
  | read before kind origin content =>
      before.offered ++ ((Metadata.symbolsOf kind origin content).toOption).getD []

theorem set_read (before : History) (kind : SourceKind) (origin : Path) (content : String) :
    (before.read kind origin content).set =
      before.set.addAll ((Metadata.symbolsOf kind origin content).toOption.getD []) := by
  rw [set, Metadata.read]
  cases Metadata.symbolsOf kind origin content <;> rfl

/-- What a set holds depends on the symbols offered alone, not on the way they
took. The induction is on the history, with one case for each way to grow. -/
theorem holds_set (history : History) (symbol : Symbol) :
    history.set.holds symbol = true ↔ symbol ∈ history.offered ∧ symbol.isValid = true := by
  induction history with
  | empty => simp [set, offered, SymbolSet.not_holds_empty]
  | seeded => simp [set, offered, SymbolSet.seeded, SymbolSet.holds_addAll,
      SymbolSet.not_holds_empty]
  | add before added ih =>
      rw [set, offered, SymbolSet.holds_add, ih, List.mem_append, List.mem_singleton, or_and_right]
      exact or_congr_right (and_congr_right fun h => by rw [h])
  | merge before other ih ihother =>
      rw [set, offered, SymbolSet.holds_union, ih, ihother, List.mem_append, or_and_right]
  | read before kind origin content ih =>
      rw [set_read, offered, SymbolSet.holds_addAll, ih, List.mem_append, or_and_right]

theorem plain_set (history : History) : history.set.Plain :=
  SymbolSet.plain_of_valid fun symbol hsymbol => ((history.holds_set symbol).1 hsymbol).2

theorem not_reserved_of_mem_types {history : History} {name : String}
    (h : name ∈ history.set.types) : name ∉ Symbol.reservedPrimitives := by
  have hvalid := ((history.holds_set (.typeName name)).1 (decide_eq_true h)).2
  rw [Symbol.isValid, Bool.and_eq_true, Bool.not_eq_true', Symbol.isReservedPrimitive] at hvalid
  exact fun hmem => by simp [hmem] at hvalid

theorem offered_of_isSeeded {history : History} (h : history.IsSeeded) {name : String}
    (hname : name ∈ SymbolSet.alwaysIncluded) : .namespaceName name ∈ history.offered := by
  induction history with
  | empty => exact h.elim
  | seeded => exact List.mem_map_of_mem hname
  | add before symbol ih => exact List.mem_append_left _ (ih h)
  | merge before other ih _ => exact List.mem_append_left _ (ih h)
  | read before kind origin content ih => exact List.mem_append_left _ (ih h)

theorem mem_namespaces_of_isSeeded {history : History} (h : history.IsSeeded) {name : String}
    (hname : name ∈ SymbolSet.alwaysIncluded) : name ∈ history.set.namespaces := by
  have hvalid : ∀ name ∈ SymbolSet.alwaysIncluded, Symbol.isScopedIdentifier name = true := by
    decide
  have hholds := (history.holds_set (.namespaceName name)).2
    ⟨offered_of_isSeeded h hname, hvalid name hname⟩
  exact of_decide_eq_true hholds

/-- Every name in the set, whatever it names: these are what can come into an
expression. -/
def storedNames (history : History) : List String :=
  history.set.namespaces.names ++ history.set.types.names ++ history.set.functions.names

theorem isScopedIdentifier_of_mem_storedNames {history : History} {name : String}
    (h : name ∈ history.storedNames) : Symbol.isScopedIdentifier name = true := by
  have hplain := history.plain_set
  rcases List.mem_append.1 h with h | h
  · rcases List.mem_append.1 h with h | h
    · exact hplain.namespaces name h
    · exact hplain.types name h
  · exact hplain.functions name h

/-- No metadata can put anything but names into the expressions of a grammar:
neither into an alternation nor into a chunk of any selection of the names
that are stored. The texts that are read may be anything, and reading them may
fail. The names are scoped identifiers, those of types are not reserved, and
the namespaces that are always included stay. Templates come from the options
and are not restricted by this. -/
theorem stored_names_inert (history : History) :
    (∀ name ∈ history.storedNames, Symbol.Scoped name.toList) ∧
      (∀ name ∈ history.set.types, name ∉ Symbol.reservedPrimitives) ∧
      (history.IsSeeded → ∀ name ∈ SymbolSet.alwaysIncluded, name ∈ history.set.namespaces) ∧
      ∀ names : List String, names ⊆ history.storedNames →
        (∀ name ∈ names, Symbol.escape name = name) ∧
          Symbol.Inert (Symbol.alternation names) ∧
          ∀ limit chunks, Symbol.chunks limit names = .ok chunks →
            ∀ chunk ∈ chunks, Symbol.Inert chunk := by
  refine ⟨fun name hname => ?_, fun name => not_reserved_of_mem_types,
    fun hseeded name => mem_namespaces_of_isSeeded hseeded, fun names hsub => ?_⟩
  · exact Symbol.isScopedIdentifier_iff.1 (isScopedIdentifier_of_mem_storedNames hname)
  · have hscoped : ∀ name ∈ names, Symbol.isScopedIdentifier name = true := fun name hname =>
      isScopedIdentifier_of_mem_storedNames (hsub hname)
    have hescape : ∀ name ∈ names, Symbol.escape name = name := fun name hname =>
      Symbol.escape_eq_self (Symbol.isPlain_of_scopedFrom (hscoped name hname))
    exact ⟨hescape, Symbol.inert_alternation hscoped,
      fun limit chunks => Symbol.inert_of_mem_chunks hscoped⟩

/-- Operators, reserved types and letters beyond ASCII are dropped with the
names they stand in. -/
example :
    ((History.seeded.read .application ⟨"a.json"⟩
          "\x7b\"ns\": \x7b\"Net|Web\": [\"void\", \"Socket\", \"S(\"], \"Net\": []\x7d\x7d").merge
        (History.empty.read .header ⟨"b.h"⟩
          "namespace Bär \x7b class x; enum class Net :: Mode \x7b\x7d \x7d")).storedNames =
      ["Camera", "Controls", "NadeoServices", "Net", "VehicleState",
        "Mode", "Net", "Socket", "x"] := by
  decide +kernel

end History

end SymbolPatterns
