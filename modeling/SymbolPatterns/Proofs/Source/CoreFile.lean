import SymbolPatterns.Proofs.Source.Selection

/-!
When a core file keeps its kind. A file that is met under several names is kept
under the first of them, and that name tells its kind; so the file is read as a
core file if its own name is met before every other one with its key.
-/

namespace SymbolPatterns.Resolution

variable {fs : FileSystem} {headers : Bool}

/-- The name of a core file tells its kind, and no other name tells it. The
name of an application file could be read as one, but the reserved name is
asked first. -/
theorem nameTells_core_iff {name : RawText} {kind : SourceKind} (h : NameTells headers name kind) :
    kind = .core ↔ name = coreFileName := by
  cases h with
  | core => exact iff_of_true rfl rfl
  | application middle hcore => exact iff_of_false nofun hcore
  | header => exact iff_of_false nofun (by decide)

/-- Some source of the core kind is the file at a path. The source may go by
another path to it. -/
def HasCoreSource (fs : FileSystem) (sources : List Source) (file : Path) : Prop :=
  ∃ source ∈ sources, source.kind = .core ∧ fs.canonical source.path = fs.canonical file

/-- The file at a path is met as a core file of some directory, and whatever
is met before with its key is this file too, under the name of a core file.
Headers count among what is met only if they are searched for. -/
def MetAsCore (fs : FileSystem) (headers : Bool) (directories : List Path) (file : Path) : Prop :=
  ∃ holder ∈ directories, fs.isFile (holder.join ⟨coreFileName⟩) = true ∧
    fs.canonical (holder.join ⟨coreFileName⟩) = fs.canonical file ∧
    ∀ earlier name kind, MetBefore directories earlier name holder coreFileName →
      Stands fs headers earlier name kind →
      fileKey fs (earlier.join ⟨name⟩) = fileKey fs file →
        name = coreFileName ∧ fs.canonical (earlier.join ⟨name⟩) = fs.canonical file

/-- Where directories are searched, a file is among the sources as a core file
just if it is met as one first. The order of the directories and the names in
them decide it, and not the name that is reserved for core files: another name
for the file that comes first takes the kind away, and so does a different
file that has the same key. Files that are named one by one have their kinds
from the settings and are not covered. -/
theorem core_kept_iff (hsound : fs.Sound) {environment usual : List Path} {options : Options}
    (hsearched : options.hasExplicitFiles = false) {set : SourceSet}
    (hset : resolveWith fs environment usual options = .ok set) (file : Path) :
    HasCoreSource fs set.sources file ↔
      MetAsCore fs options.includeHeaders set.installDirs file := by
  have hinstall := @installDirs_of_searched fs (searchedDirs options environment usual)
  obtain ⟨rfl, -⟩ := (resolveWith_eq_ok_iff_of_searched hsearched rfl).1 hset
  have hkey : ∀ path, fs.isFile path = true → fs.canonical path = fs.canonical file →
      fileKey fs file = fileKey fs path := by
    intro path hfile hsame
    obtain ⟨place, hplace⟩ := FileSystem.exists_place_of_isFile hfile
    exact fileKey_eq_of_canonical_eq hplace hsame.symm
  rw [HasCoreSource, exists_kept_scanned_iff hsound hinstall]
  constructor
  · rintro ⟨holder, hholder, name, kind, hstands, ⟨hkind, hsame⟩, hothers⟩
    obtain rfl := (nameTells_core_iff hstands.tells).1 hkind
    refine ⟨holder, hholder, hstands.isFile, hsame, ?_⟩
    intro earlier other otherKind hbefore hother hshared
    obtain ⟨hcore, hcanonical⟩ := hothers earlier other otherKind hbefore hother
      (hshared.trans (hkey _ hstands.isFile hsame))
    exact ⟨(nameTells_core_iff hother.tells).1 hcore, hcanonical⟩
  · rintro ⟨holder, hholder, hfile, hsame, hothers⟩
    have hstands : Stands fs options.includeHeaders holder coreFileName .core :=
      ⟨by decide, .core, hfile⟩
    refine ⟨holder, hholder, coreFileName, .core, hstands, ⟨rfl, hsame⟩, ?_⟩
    intro earlier other otherKind hbefore hother hshared
    obtain ⟨hname, hcanonical⟩ := hothers earlier other otherKind hbefore hother
      (hshared.trans (hkey _ hfile hsame).symm)
    exact ⟨(nameTells_core_iff hother.tells).2 hname, hcanonical⟩

/-- An install directory with a core file that has an application name as
well, and another one whose core file is a link to that name. -/
def sharedCore : FileSystem :=
  coreFiles [(["work", "op", "OpenplanetNext.json"], .link ⟨coreFileName⟩),
    (["work", "next"], .directory),
    (["work", "next", coreFileName], .link ⟨"../op/OpenplanetNext.json"⟩)]

/-- The core file is met as one in the first directory, and under the
application name later, where it is dropped. -/
theorem sharedCore_keeps_core :
    ∃ set, resolveWith sharedCore [] [] { installDirs := [⟨"next"⟩, ⟨"op"⟩] } = .ok set ∧
      set.count .core = 1 ∧ set.count .application = 0 ∧
      HasCoreSource sharedCore set.sources ⟨"op/OpenplanetCore.json"⟩ ∧
      MetAsCore sharedCore false set.installDirs ⟨"op/OpenplanetCore.json"⟩ := by
  have hsound : sharedCore.Sound := coreFiles_sound (by decide)
  have hresolve : resolveWith sharedCore [] [] { installDirs := [⟨"next"⟩, ⟨"op"⟩] } =
      .ok ⟨[⟨⟨"next/OpenplanetCore.json"⟩, .core⟩], [⟨"next"⟩, ⟨"op"⟩]⟩ :=
    eq_ok_of_toOption (by decide +kernel)
  have hcanonical : ∀ path ∈ [(⟨"next/OpenplanetCore.json"⟩ : Path), ⟨"op/OpenplanetCore.json"⟩],
      (sharedCore.canonical path).toOption = some ⟨"/work/op/OpenplanetCore.json"⟩ := by
    decide +kernel
  have hsame : sharedCore.canonical ⟨"next/OpenplanetCore.json"⟩ =
      sharedCore.canonical ⟨"op/OpenplanetCore.json"⟩ :=
    (eq_ok_of_toOption (hcanonical _ (by simp))).trans
      (eq_ok_of_toOption (hcanonical _ (by simp))).symm
  have hcore : HasCoreSource sharedCore [⟨⟨"next/OpenplanetCore.json"⟩, .core⟩]
      ⟨"op/OpenplanetCore.json"⟩ := ⟨_, List.mem_singleton_self _, rfl, hsame⟩
  exact ⟨_, hresolve, by decide, by decide, hcore, (core_kept_iff hsound rfl hresolve _).1 hcore⟩

/-- A core file with an application name that comes before its own. -/
def renamedCore : FileSystem :=
  coreFiles [(["work", "op", "OpenplanetA.json"], .link ⟨coreFileName⟩)]

/-- Resolution succeeds, and the core file of the directory is no core file
among the sources. It is read as an application file instead. -/
theorem earlier_name_demotes_core :
    ¬∀ set, resolveWith renamedCore [] [] { installDirs := [⟨"op"⟩] } = .ok set →
      ∀ directory ∈ set.installDirs, renamedCore.isFile (directory.join ⟨coreFileName⟩) = true →
        HasCoreSource renamedCore set.sources (directory.join ⟨coreFileName⟩) := by
  intro h
  have hresolve : resolveWith renamedCore [] [] { installDirs := [⟨"op"⟩] } =
      .ok ⟨[⟨⟨"op/OpenplanetA.json"⟩, .application⟩], [⟨"op"⟩]⟩ :=
    eq_ok_of_toOption (by decide +kernel)
  obtain ⟨source, hsource, hkind, -⟩ :=
    h _ hresolve ⟨"op"⟩ (List.mem_singleton_self _) (by decide +kernel)
  rw [List.mem_singleton.1 hsource] at hkind
  cases hkind

end SymbolPatterns.Resolution
