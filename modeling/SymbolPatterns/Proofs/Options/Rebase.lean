import Mathlib.Data.List.Forall2
import SymbolPatterns.Options
import SymbolPatterns.Proofs.Path

/-!
Rebased options name the same places. A path that is read from a file and
rebased to the directory of that file leads, from wherever one starts, to the
place that the path led to from that directory. This is associativity of
joining, for every path that options hold.
-/

namespace SymbolPatterns.Options

/-- Options of which one has the paths of the other moved. What stands in the
same place is related, as many paths are given, and all that is no path is the
same. The relation is any one, so that several facts about a path go through
the fields together. -/
structure Moved (related : Path → Path → Prop) (options moved : Options) : Prop where
  core : Option.Rel related options.core moved.core
  game : List.Forall₂ related options.game moved.game
  header : Option.Rel related options.header moved.header
  installDirs : List.Forall₂ related options.installDirs moved.installDirs
  grammar : Option.Rel related options.grammar moved.grammar
  includeHeaders : moved.includeHeaders = options.includeHeaders
  chunkLimit : moved.chunkLimit = options.chunkLimit
  layout : moved.layout = options.layout

/-- What holds of a path and the same path rebased holds throughout the
options. This is the only lemma that goes through the fields. -/
theorem moved_rebase {related : Path → Path → Prop} {base : Path}
    (h : ∀ path, related path (base.rebase path)) (options : Options) :
    Moved related options (options.rebase base) := by
  have hsetting : ∀ setting : Option Path,
      Option.Rel related setting (setting.map base.rebase) := by
    intro setting
    cases setting with
    | none => exact .none
    | some path => exact .some (h path)
  have hlist : ∀ paths : List Path, List.Forall₂ related paths (paths.map base.rebase) :=
    fun paths => List.forall₂_map_right_iff.2 (List.forall₂_same.2 fun path _ => h path)
  exact {
    core := hsetting options.core
    game := hlist options.game
    header := hsetting options.header
    installDirs := hlist options.installDirs
    grammar := hsetting options.grammar
    includeHeaders := rfl
    chunkLimit := rfl
    layout := rfl }

/-- Rebasing twice is rebasing once, to the joined bases. A file of options
may be named by a path that is itself rebased. -/
theorem rebase_rebase (start base : Path) (options : Options) :
    (options.rebase base).rebase start = options.rebase (start.join base) := by
  have hpath : start.rebase ∘ base.rebase = (start.join base).rebase := by
    funext path
    simp only [Function.comp_apply, Path.rebase_eq_join, Path.join_assoc]
  simp only [rebase, Option.map_map, List.map_map, hpath]

/-- From any directory, each path of the rebased options leads to the very
path that the old one leads to from the base in that directory. Absolute paths
stay as they are, and so does all that is no path. Behind an absolute base
every path is absolute, and rebasing again changes nothing. Paths are compared
as they are written, so dots and repeated slashes are kept, and no file system
is asked. -/
theorem rebase_keeps_places (base : Path) (options : Options) :
    Moved
      (fun path moved =>
        (∀ start : Path, start.join moved = (start.join base).join path) ∧
        (path.isAbsolute = true → moved = path) ∧
        (base.isAbsolute = true → moved.isAbsolute = true))
      options (options.rebase base) ∧
    (base.isAbsolute = true →
      ∀ other : Path, (options.rebase base).rebase other = options.rebase base) := by
  constructor
  · refine moved_rebase (fun path => ?_) options
    rw [Path.rebase_eq_join]
    refine ⟨fun start => ?_, fun habsolute => ?_, fun hbase => ?_⟩
    · exact (Path.join_assoc start base path).symm
    · exact Path.join_of_isAbsolute habsolute base
    · rw [Path.isAbsolute_join, hbase, Bool.or_true]
  · intro hbase other
    rw [rebase_rebase, Path.join_of_isAbsolute hbase]

/-- Options with a path of each kind: relative ones, an absolute and an empty
one. -/
def mixedPaths : Options where
  core := some ⟨"meta/OpenplanetCore.json"⟩
  game := [⟨""⟩, ⟨"/abs/OpenplanetNext.json"⟩]
  installDirs := [⟨"../Openplanet/"⟩]

theorem mixedPaths_rebase_project :
    (⟨"/project"⟩ : Path).isAbsolute = true ∧
      (mixedPaths.rebase ⟨"/project"⟩).core = some ⟨"/project/meta/OpenplanetCore.json"⟩ ∧
      (mixedPaths.rebase ⟨"/project"⟩).game =
        [⟨"/project/"⟩, ⟨"/abs/OpenplanetNext.json"⟩] ∧
      (mixedPaths.rebase ⟨"/project"⟩).rebase ⟨"elsewhere/"⟩ = mixedPaths.rebase ⟨"/project"⟩ := by
  have habsolute : (⟨"/project"⟩ : Path).isAbsolute = true := by decide
  exact ⟨habsolute, by decide, by decide,
    (rebase_keeps_places ⟨"/project"⟩ mixedPaths).2 habsolute ⟨"elsewhere/"⟩⟩

end SymbolPatterns.Options
