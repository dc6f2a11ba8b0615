import SymbolPatterns.Generation
import SymbolPatterns.Proofs.Source.Respelling
import SymbolPatterns.Proofs.Symbol.SymbolSet

/-!
What is collected from several sources. Reading succeeds if every source can be
read, and what is collected then are the symbols of all of them, whatever their
order and spelling.
-/

namespace SymbolPatterns

namespace Metadata

variable {fs : FileSystem}

/-- The symbols named in the file of a source, valid or not. -/
def symbolsAt (fs : FileSystem) (source : Source) : Except Failure (List Symbol) :=
  match fs.read source.path with
  | .error cause => .error (.access source.path cause)
  | .ok content => symbolsOf source.kind source.path (decodeFile content)

theorem readSource_eq (source : Source) (symbols : SymbolSet) :
    readSource fs source symbols = (symbolsAt fs source).map symbols.addAll := by
  unfold readSource symbolsAt
  cases fs.read source.path <;> rfl

/-- The path of a document is told in refusals only, so the spelling of a path
does not reach the symbols. -/
theorem toOption_symbolsOf (kind : SourceKind) (origin other : Path) (content : String) :
    (symbolsOf kind origin content).toOption = (symbolsOf kind other content).toOption := by
  have hobject : (readObject origin content).toOption = (readObject other content).toOption := by
    unfold readObject
    split <;> rfl
  cases kind with
  | core => rw [symbolsOf, symbolsOf, toOption_map, toOption_map, hobject]
  | application => rw [symbolsOf, symbolsOf, toOption_map, toOption_map, hobject]
  | header => rfl

theorem toOption_symbolsAt {source twin : Source} (hkind : source.kind = twin.kind)
    (hsame : fs.SameFile source.path twin.path) :
    (symbolsAt fs source).toOption = (symbolsAt fs twin).toOption := by
  unfold symbolsAt
  rw [hsame.read_eq, hkind]
  cases fs.read twin.path with
  | error cause => rfl
  | ok content => exact toOption_symbolsOf twin.kind source.path twin.path (decodeFile content)

/-- The symbols that a source contributes: none if it cannot be read. It
serves for sets of sources of which all can be read. -/
def contributed (fs : FileSystem) (source : Source) : List Symbol :=
  (symbolsAt fs source).toOption.getD []

end Metadata

open Metadata

/-- Reading goes through if each source can be read, and collects what they
contribute. The sources are read one after the other, but the set does not
show it. -/
theorem Collection.readAll_eq_ok_iff {fs : FileSystem} {c : Collection} {sources : List Source}
    {set : SymbolSet} :
    ((c.readAll fs sources).2.map fun _ => (c.readAll fs sources).1.symbols) = .ok set ↔
      (∀ source ∈ sources, (symbolsAt fs source).toOption.isSome) ∧
        set = c.symbols.addAll (sources.flatMap (contributed fs)) := by
  induction sources generalizing c with
  | nil =>
      constructor
      · intro h
        exact ⟨nofun, (Except.ok.inj h).symm⟩
      · rintro ⟨-, rfl⟩
        rfl
  | cons source rest ih =>
      rw [List.forall_mem_cons, List.flatMap_cons]
      cases hsource : symbolsAt fs source with
      | error failure =>
          have hread : c.readSource fs source = .error failure := by
            rw [readSource, readSource_eq, hsource]
            rfl
          simp [readAll, hread, Except.map, Except.toOption]
      | ok symbols =>
          have hread : c.readSource fs source = .ok ⟨c.symbols.addAll symbols,
              fun kind => c.counts kind + if kind = source.kind then 1 else 0⟩ := by
            rw [readSource, readSource_eq, hsource]
            rfl
          have hcontributed : contributed fs source = symbols := by
            rw [contributed, hsource]
            rfl
          simp only [readAll, hread]
          rw [ih, SymbolSet.addAll_addAll, hcontributed]
          simp [Except.toOption]

theorem Host.collect_eq_ok_iff {host : Host} {sources : SourceSet} {set : SymbolSet} :
    host.collect sources = .ok set ↔
      (∀ source ∈ sources.sources, (symbolsAt host.files source).toOption.isSome) ∧
        set = SymbolSet.seeded.addAll (sources.sources.flatMap (contributed host.files)) :=
  Collection.readAll_eq_ok_iff

theorem Respells.mem_contributed {fs : FileSystem} {set other : SourceSet}
    (h : Respells fs set other) {symbol : Symbol}
    (hsymbol : symbol ∈ set.sources.flatMap (contributed fs)) :
    symbol ∈ other.sources.flatMap (contributed fs) := by
  obtain ⟨source, hsource, hmem⟩ := List.mem_flatMap.1 hsymbol
  obtain ⟨twin, htwin, hkind, hsame⟩ := h.covered source hsource
  rw [contributed, toOption_symbolsAt hkind hsame] at hmem
  exact List.mem_flatMap.2 ⟨twin, htwin, hmem⟩

/-- What is collected does not depend on the order and spelling of the
sources. The two sets of sources name the same files, as often in each kind. -/
theorem Host.collect_respelled {host : Host} {sources other : SourceSet} {set : SymbolSet}
    (hrespells : Respells host.files sources other) (h : host.collect sources = .ok set) :
    host.collect other = .ok set := by
  obtain ⟨hread, rfl⟩ := collect_eq_ok_iff.1 h
  refine collect_eq_ok_iff.2 ⟨fun twin htwin => ?_, SymbolSet.eq_of_holds_iff fun symbol => ?_⟩
  · obtain ⟨source, hsource, hkind, hsame⟩ := hrespells.covers twin htwin
    rw [toOption_symbolsAt hkind hsame]
    exact hread source hsource
  · rw [SymbolSet.holds_addAll, SymbolSet.holds_addAll]
    have hmem : symbol ∈ sources.sources.flatMap (contributed host.files) ↔
        symbol ∈ other.sources.flatMap (contributed host.files) :=
      ⟨hrespells.mem_contributed, hrespells.symm.mem_contributed⟩
    rw [hmem]

end SymbolPatterns
