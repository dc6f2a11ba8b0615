import SymbolPatterns.Proofs.Generation
import SymbolPatterns.Proofs.Metadata.Collection

/-!
The order in which application files are named makes no difference to a run, nor
does naming a file twice or in two spellings, as long as different files have
different keys.
-/

namespace SymbolPatterns.Host

open Resolution (KeysTell)

variable {host : Host} {options : Options} {game : List Path}

/-- Before they write, the two runs know the same but for the spelling of
their sources. The spelling shows in no summary and in no grammar. -/
theorem prepare_respelled (hwork : FileSystem.Spelled host.files.workDir)
    (hgame : SameFiles host.files options.game game)
    (hkeys : KeysTell host.files (· ∈ options.game ++ game)) {prepared : Prepared}
    (h : host.prepare options = .ok prepared) :
    ∃ other, host.prepare { options with game := game } = .ok other ∧
      other.document = prepared.document ∧ other.summary = prepared.summary := by
  obtain ⟨hvalid, hsources, hsymbols, hpatch⟩ := prepare_eq_ok_iff.1 h
  obtain ⟨sources, hresolve, hrespells⟩ := resolve_respelled hwork hgame hkeys hsources
  refine ⟨{ prepared with sources := sources }, ?_, rfl, ?_⟩
  · exact prepare_eq_ok_iff.2
      ⟨hvalid, hresolve, collect_respelled hrespells hsymbols, hpatch⟩
  · funext written
    simp only [Prepared.summary, hrespells.installDirs, hrespells.count]

theorem run_respelled (hwork : FileSystem.Spelled host.files.workDir)
    (hgame : SameFiles host.files options.game game)
    (hkeys : KeysTell host.files (· ∈ options.game ++ game)) {after : Host} {summary : Summary}
    (h : host.run options = (after, .ok summary)) :
    host.run { options with game := game } = (after, .ok summary) := by
  cases hprepare : host.prepare options with
  | error failure =>
      rw [run, hprepare] at h
      cases h
  | ok prepared =>
      obtain ⟨other, hother, hdocument, hsummary⟩ := prepare_respelled hwork hgame hkeys hprepare
      rw [run, hprepare] at h
      rw [run, hother, ← h]
      dsimp only
      rw [hdocument, hsummary]

/-- Options that name the same application files, in any order, as often and
in whatever words, make runs that succeed alike: with one summary, and one
host afterwards. The paths have to lead to the files, over no more links than
the system follows, and the keys have to tell the files apart, as they do
wherever names are texts. Of two files with one key the run reads the one that
is named first, so nothing is said of those. No name of the working directory
may be empty or hold a slash, which canonical paths need to tell files apart.
Runs that fail may do so with different failures. -/
theorem run_eq_ok_iff_of_sameFiles (host : Host) (options : Options) (game : List Path)
    (hwork : FileSystem.Spelled host.files.workDir)
    (hgame : SameFiles host.files options.game game)
    (hkeys : KeysTell host.files (· ∈ options.game ++ game)) (after : Host) (summary : Summary) :
    host.run options = (after, .ok summary) ↔
      host.run { options with game := game } = (after, .ok summary) := by
  refine ⟨run_respelled hwork hgame hkeys, run_respelled hwork hgame.symm (hkeys.imp ?_)⟩
  exact fun path hpath => List.mem_append.2 (List.mem_append.1 hpath).symm

/-- A host with some files beside a grammar that is as small as can be: its
root takes the nodes of both groups, and its one node the namespaces. -/
def besideGrammar (nodes : List (Location × Node)) : Host where
  settings := []
  files := {
    workDir := ["work"]
    nodes := ([
      (["work"], .directory),
      (["work", "g.json"], .file
        "\x7b\"name\": \"root\", \"patterns\": [\x7b\"name\": \"spaces\"\x7d]\x7d".toUTF8)] :
      List (Location × Node)) ++ nodes }

/-- A file that declares a type in a namespace. -/
def declaresSocket : Node := .file "\x7b\"ns\": \x7b\"Net\": [\"Socket\"]\x7d\x7d".toUTF8

/-- Two application files and a link to one of them. -/
def twoApplications : Host :=
  besideGrammar [
    (["work", "a.json"], declaresSocket),
    (["work", "b.json"], .file "\x7b\"ns\": \x7b\"UI\": [\"Font\"]\x7d\x7d".toUTF8),
    (["work", "link.json"], .link ⟨"a.json"⟩)]

/-- The least options that fit the grammar, with the application files of a
list. -/
def namedOptions (game : List Path) : Options where
  game := game
  grammar := some ⟨"g.json"⟩
  layout := {
    namespaces := ⟨"spaces", Symbol.placeholder⟩
    types := ⟨"t", "root", "", .after, "", Symbol.placeholder⟩
    functions := ⟨"f", "root", "", .after, "", Symbol.placeholder⟩
    includeOrder := [] }

theorem exists_run_of_map {α : Type} {f : Summary → α} {value : α}
    (h : (host.run options).2.toOption.map f = some value) :
    ∃ after summary, host.run options = (after, .ok summary) ∧ f summary = value := by
  obtain ⟨summary, hsummary, hvalue⟩ := Option.map_eq_some_iff.1 h
  exact ⟨_, summary, Prod.ext rfl (eq_ok_of_toOption hsummary), hvalue⟩

theorem twoApplications_run :
    (twoApplications.run (namedOptions [⟨"a.json"⟩, ⟨"b.json"⟩])).2.toOption.map
      Summary.applicationFiles = some 2 := by
  decide +kernel

theorem twoApplications_sameFiles :
    SameFiles twoApplications.files [⟨"a.json"⟩, ⟨"b.json"⟩]
      [⟨"b.json"⟩, ⟨"link.json"⟩, ⟨"a.json"⟩, ⟨"./a.json"⟩, ⟨"b.json"⟩] := by
  have hperm : [(⟨"b.json"⟩ : Path), ⟨"link.json"⟩, ⟨"a.json"⟩, ⟨"./a.json"⟩, ⟨"b.json"⟩].Perm
      ([⟨"a.json"⟩, ⟨"b.json"⟩] ++ [⟨"link.json"⟩, ⟨"./a.json"⟩, ⟨"b.json"⟩]) := by
    decide
  have hplace : ∀ path ∈ [(⟨"a.json"⟩ : Path), ⟨"link.json"⟩, ⟨"./a.json"⟩],
      (twoApplications.files.resolve .follow path).toOption = some ["work", "a.json"] := by
    decide +kernel
  have hsame : ∀ path ∈ [(⟨"link.json"⟩ : Path), ⟨"./a.json"⟩],
      twoApplications.files.SameFile path ⟨"a.json"⟩ := fun path hpath =>
    .inr ⟨_, eq_ok_of_toOption (hplace path (List.mem_cons_of_mem _ hpath)),
      eq_ok_of_toOption (hplace _ List.mem_cons_self)⟩
  refine sameFiles_of_perm hperm fun path hpath => ?_
  rcases List.mem_append.1 (show path ∈ [⟨"link.json"⟩, ⟨"./a.json"⟩] ++ [⟨"b.json"⟩] from hpath)
    with hpath | hpath
  · exact ⟨⟨"a.json"⟩, List.mem_cons_self, hsame path hpath⟩
  · exact ⟨path, List.mem_cons_of_mem _ hpath, .inl rfl⟩

theorem twoApplications_keysTell :
    KeysTell twoApplications.files (· ∈ [(⟨"a.json"⟩ : Path), ⟨"b.json"⟩] ++
      [⟨"b.json"⟩, ⟨"link.json"⟩, ⟨"a.json"⟩, ⟨"./a.json"⟩, ⟨"b.json"⟩]) := by
  have hsound : twoApplications.files.Sound :=
    { inDirectory := rfl
      rooted := (FileSystem.rooted_nil _).snoc rfl "work"
      isName := List.forall_mem_singleton.2 ⟨by decide, by decide, by decide, by decide⟩
      spells := List.forall_mem_singleton.2 (by decide)
      spellsNodes := by decide }
  have hnames : twoApplications.files.NamesAreTexts := by
    unfold FileSystem.NamesAreTexts
    decide +kernel
  refine Resolution.keysTell_of_namesAreTexts hsound hnames fun path hpath => .inl ?_
  revert path
  decide +kernel

/-- The second run meets the link before the file that it leads to, and that
behind the other file. Both runs read two application files. -/
theorem twoApplications_run_again :
    ∃ after summary, summary.applicationFiles = 2 ∧
      twoApplications.run (namedOptions [⟨"a.json"⟩, ⟨"b.json"⟩]) = (after, .ok summary) ∧
      twoApplications.run (namedOptions
          [⟨"b.json"⟩, ⟨"link.json"⟩, ⟨"a.json"⟩, ⟨"./a.json"⟩, ⟨"b.json"⟩]) =
        (after, .ok summary) := by
  have hwork : FileSystem.Spelled twoApplications.files.workDir := by
    unfold FileSystem.Spelled
    decide
  obtain ⟨after, summary, hrun, hcount⟩ := exists_run_of_map twoApplications_run
  exact ⟨after, summary, hcount, hrun,
    (run_eq_ok_iff_of_sameFiles twoApplications _ _ hwork twoApplications_sameFiles
      twoApplications_keysTell _ summary).1 hrun⟩

/-- The name of a link over so many links. -/
def chainName (links : Nat) : RawText := .ofList (List.replicate links 0x6c) ++ "a.json"

/-- An application file at the end of a chain of links, one link longer than
the system follows. -/
def chainedApplication : Host :=
  besideGrammar ((["work", "a.json"], declaresSocket) ::
    (List.range 41).map fun links =>
      (["work", chainName (links + 1)], .link ⟨chainName links⟩))

theorem chainedApplication_runs :
    (chainedApplication.run (namedOptions [⟨chainName 40⟩])).2.toOption.map
        Summary.applicationFiles = some 1 ∧
      (chainedApplication.run (namedOptions [⟨chainName 40⟩, ⟨chainName 41⟩])).2.toOption = none := by
  decide +kernel

/-- A name that is not a text. Whatever the octet is, the name is shown alike. -/
def oddName (octet : UInt8) : RawText := "a" ++ .ofList [octet] ++ ".json"

/-- Two application files with different namespaces in them, and names that
are shown alike, so that they have one key. -/
def shownAlike : Host :=
  besideGrammar [
    (["work", oddName 0xfe], declaresSocket),
    (["work", oddName 0xff], .file "\x7b\"ns\": \x7b\x7d\x7d".toUTF8)]

theorem shownAlike_runs :
    (shownAlike.run (namedOptions [⟨oddName 0xfe⟩, ⟨oddName 0xff⟩])).2.toOption.map
        Summary.namespaces = some 5 ∧
      (shownAlike.run (namedOptions [⟨oddName 0xff⟩, ⟨oddName 0xfe⟩])).2.toOption.map
        Summary.namespaces = some 4 := by
  decide +kernel

/-- A run succeeds with the last path that the system follows to a file, and
fails if a link to this path is named as well. And of two names that are shown
alike the first one is read, so their order makes a difference. Neither
premise of the result above can be dropped, then. -/
theorem relisted_runs_differ :
    (chainedApplication.files.node? ["work", chainName 41] = some (.link ⟨chainName 40⟩) ∧
      ¬∀ after summary,
        chainedApplication.run (namedOptions [⟨chainName 40⟩]) = (after, .ok summary) ↔
          chainedApplication.run (namedOptions [⟨chainName 40⟩, ⟨chainName 41⟩]) =
            (after, .ok summary)) ∧
    ¬∀ after summary,
      shownAlike.run (namedOptions [⟨oddName 0xfe⟩, ⟨oddName 0xff⟩]) = (after, .ok summary) ↔
        shownAlike.run (namedOptions [⟨oddName 0xff⟩, ⟨oddName 0xfe⟩]) = (after, .ok summary) := by
  obtain ⟨hchain, hlonger⟩ := chainedApplication_runs
  obtain ⟨hfirst, hswapped⟩ := shownAlike_runs
  refine ⟨⟨rfl, fun h => ?_⟩, fun h => ?_⟩
  · obtain ⟨after, summary, hrun, -⟩ := exists_run_of_map hchain
    rw [(h after summary).1 hrun] at hlonger
    cases hlonger
  · obtain ⟨after, summary, hrun, hnamespaces⟩ := exists_run_of_map hfirst
    rw [(h after summary).1 hrun] at hswapped
    have hother : summary.namespaces = 4 := Option.some.inj hswapped
    rw [hnamespaces] at hother
    cases hother

end SymbolPatterns.Host
