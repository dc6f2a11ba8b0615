import Mathlib.Data.List.Pairwise
import SymbolPatterns.Proofs.Source.Candidates
import SymbolPatterns.Proofs.Source.Order

/-!
What resolution selects. One list of directories is searched; each directory in
it counts once; and each candidate is represented by one source, under the name
by which the file is met first. Files and directories count as one if they have
one key, which is to say one canonical path where keys tell. So a header that is
met before the metadata file it is a link to takes the place of that file, and
nothing but a header may be left.
-/

namespace SymbolPatterns.Resolution

variable {fs : FileSystem}

section

variable {α : Type} {path : α → Path}

theorem distinct_sublist (seen : List String) (xs : List α) :
    (distinct fs path seen xs).Sublist xs := by
  induction xs generalizing seen with
  | nil => exact List.Sublist.refl []
  | cons x rest ih =>
      rw [distinct]
      split
      · exact (ih seen).cons x
      · exact (ih _).cons_cons x

/-- What is kept is the first with its key, which was not seen before. The
converse holds too and is stated for a start without keys seen. -/
theorem exists_split_of_mem_distinct {seen : List String} {xs : List α} {x : α}
    (h : x ∈ distinct fs path seen xs) :
    ∃ front rest, xs = front ++ x :: rest ∧ fileKey fs (path x) ∉ fileKeys fs path front ∧
      fileKey fs (path x) ∉ seen := by
  induction xs generalizing seen with
  | nil => cases h
  | cons first others ih =>
      rw [distinct] at h
      split at h
      · next hseen =>
        obtain ⟨front, rest, rfl, hfront, hkey⟩ := ih h
        rw [List.contains_iff_mem] at hseen
        refine ⟨first :: front, rest, rfl, ?_, hkey⟩
        rw [fileKeys, List.map_cons, List.mem_cons, not_or]
        exact ⟨fun heq => hkey (heq ▸ hseen), hfront⟩
      · next hseen =>
        rw [List.contains_iff_mem] at hseen
        rcases List.mem_cons.1 h with rfl | h
        · exact ⟨[], others, rfl, List.not_mem_nil, hseen⟩
        · obtain ⟨front, rest, rfl, hfront, hkey⟩ := ih h
          rw [List.mem_cons, not_or] at hkey
          refine ⟨first :: front, rest, rfl, ?_, hkey.2⟩
          rw [fileKeys, List.map_cons, List.mem_cons, not_or]
          exact ⟨hkey.1, hfront⟩

theorem mem_distinct_append {front rest : List α} {x : α}
    (h : fileKey fs (path x) ∉ fileKeys fs path front) :
    x ∈ distinct fs path [] (front ++ x :: rest) := by
  rw [distinct_append]
  refine List.mem_append_right _ ?_
  rw [distinct, if_neg (by simpa using h)]
  exact List.mem_cons_self

/-- Kept is what has no other with its key in front. This describes the loop
over the candidates, so the results below need not unfold it. -/
theorem mem_distinct_iff {xs : List α} {x : α} :
    x ∈ distinct fs path [] xs ↔ ∃ front rest, xs = front ++ x :: rest ∧
      ∀ y ∈ front, fileKey fs (path y) ≠ fileKey fs (path x) := by
  have hfree : ∀ front : List α, fileKey fs (path x) ∉ fileKeys fs path front ↔
      ∀ y ∈ front, fileKey fs (path y) ≠ fileKey fs (path x) := by
    intro front
    simp [fileKeys]
  constructor
  · intro h
    obtain ⟨front, rest, hsplit, hfront, -⟩ := exists_split_of_mem_distinct h
    exact ⟨front, rest, hsplit, (hfree front).1 hfront⟩
  · rintro ⟨front, rest, rfl, hfront⟩
    exact mem_distinct_append ((hfree front).2 hfront)

/-- An item is kept, or one in front of it with its key is. So a key that is
there at all is kept by some item. -/
theorem kept_or_earlier (fs : FileSystem) (path : α → Path) (front rest : List α) (x : α) :
    x ∈ distinct fs path [] (front ++ x :: rest) ∨
      ∃ y ∈ front, y ∈ distinct fs path [] (front ++ x :: rest) ∧
        fileKey fs (path y) = fileKey fs (path x) := by
  by_cases hseen : fileKey fs (path x) ∈ fileKeys fs path front
  · obtain ⟨y, hy, hkey⟩ :=
      List.mem_map.1 (mem_fileKeys_distinct.2 ⟨hseen, List.not_mem_nil⟩)
    refine .inr ⟨y, mem_of_mem_distinct hy, ?_, hkey⟩
    rw [distinct_append]
    exact List.mem_append_left _ hy
  · exact .inl (mem_distinct_append hseen)

theorem pairwise_fileKey_distinct (xs : List α) :
    (distinct fs path [] xs).Pairwise fun x y => fileKey fs (path x) ≠ fileKey fs (path y) :=
  List.pairwise_map.1 (nodup_fileKeys_distinct [] xs)

end

section

variable {κ : Type} {tell : Path → κ}

/-- The directories that are there among the searched ones, and that have no
other in front which `tell` takes for the same. It is stated for any such
function, as keys and canonical paths both serve. -/
structure InstallDirs (fs : FileSystem) (tell : Path → κ) (searched directories : List Path) :
    Prop where
  inOrder : directories.Sublist searched
  mem_iff : ∀ directory, directory ∈ directories ↔ fs.isDirectory directory = true ∧
    ∃ front rest, searched = front ++ directory :: rest ∧
      ∀ other ∈ front, tell other ≠ tell directory
  apart : directories.Pairwise fun directory other => tell directory ≠ tell other

theorem InstallDirs.nodup {searched directories : List Path}
    (h : InstallDirs fs tell searched directories) : directories.Nodup :=
  h.apart.imp fun hne heq => hne (congrArg tell heq)

theorem InstallDirs.areThere {searched directories : List Path}
    (h : InstallDirs fs tell searched directories) :
    ∀ directory ∈ directories, fs.isDirectory directory = true :=
  fun directory hmem => ((h.mem_iff directory).1 hmem).1

/-- Sources in strict order that are candidates, one of them for each
candidate: those that `tell` takes for one file have one source. The source
may be of another kind than the candidate, if it is met first. -/
structure Selects (tell : Path → κ) (candidate : Source → Prop) (sources : List Source) :
    Prop where
  ascends : sources.Pairwise fun source other =>
    source.precedes other = true ∧ other.precedes source = false
  areCandidates : ∀ source ∈ sources, candidate source
  complete : ∀ source, candidate source →
    ∃! kept, kept ∈ sources ∧ tell kept.path = tell source.path

/-- A header that is met before a file and is taken for one file with it. The
file is then read as a header. -/
def TakenByHeader (fs : FileSystem) (tell : Path → κ) (headers : Bool) (directories : List Path)
    (directory : Path) (name : RawText) : Prop :=
  ∃ earlier other, MetBefore directories earlier other directory name ∧
    Stands fs headers earlier other .header ∧
    tell (earlier.join ⟨other⟩) = tell (directory.join ⟨name⟩)

/-- What the search of some directories comes to. It succeeds if more than a
header is left, which a header that is met early can take away. -/
structure Searches (fs : FileSystem) (tell : Path → κ) (headers : Bool)
    (searched directories : List Path) (outcome : Except Failure SourceSet) : Prop where
  installDirs : InstallDirs fs tell searched directories
  succeeds_iff : (∃ set, outcome = .ok set) ↔
    ∃ directory ∈ directories, ∃ name kind, Stands fs headers directory name kind ∧
      kind ≠ .header ∧ ¬TakenByHeader fs tell headers directories directory name
  selects : ∀ set, outcome = .ok set → set.installDirs = directories ∧
    Selects tell (Candidate fs headers directories) set.sources

end

theorem installDirs_of_searched (searched : List Path) :
    InstallDirs fs (fileKey fs) searched
      ((distinct fs id [] searched).filter fs.isDirectory) where
  inOrder := List.filter_sublist.trans (distinct_sublist [] searched)
  mem_iff directory := by
    rw [List.mem_filter, mem_distinct_iff, and_comm]
    rfl
  apart := (pairwise_fileKey_distinct searched).sublist List.filter_sublist

theorem selects_kept {candidates : List Source}
    (hfiles : ∀ source ∈ candidates, fs.isFile source.path = true) :
    Selects (fileKey fs) (· ∈ candidates) (kept fs candidates) where
  ascends := by
    refine (sorted_ascends ((pairwise_fileKey_distinct candidates).imp_of_mem ?_)).imp
      fun h => ⟨h, Source.precedes_asymm h⟩
    intro source other hsource hother hne
    by_contra hapart
    rw [Apart, not_or, Bool.not_eq_true, Bool.not_eq_true] at hapart
    obtain ⟨-, hcomponents⟩ := Source.eq_of_not_precedes hapart.1 hapart.2
    obtain ⟨place, hplace⟩ :=
      FileSystem.exists_place_of_isFile (hfiles source (mem_of_mem_distinct hsource))
    obtain ⟨stop, hstop⟩ :=
      FileSystem.exists_place_of_isFile (hfiles other (mem_of_mem_distinct hother))
    exact hne (FileSystem.sameFile_of_components_eq hcomponents hplace hstop).fileKey_eq
  areCandidates := fun source => mem_of_mem_kept
  complete := by
    intro source hsource
    obtain ⟨first, hfirst, hkey⟩ := List.mem_map.1
      (mem_fileKeys_distinct.2 ⟨List.mem_map_of_mem hsource, List.not_mem_nil⟩)
    refine ⟨first, ⟨mem_kept_iff.2 hfirst, hkey⟩, ?_⟩
    rintro other ⟨hother, hsame⟩
    exact List.inj_on_of_nodup_map (nodup_fileKeys_distinct [] candidates)
      (mem_kept_iff.1 hother) hfirst (hsame.trans hkey.symm)

theorem selects_scanned (hsound : fs.Sound) (headers : Bool) {directories : List Path}
    (hthere : ∀ directory ∈ directories, fs.isDirectory directory = true) :
    Selects (fileKey fs) (Candidate fs headers directories)
      (kept fs (directories.flatMap (scan fs headers))) := by
  have hcandidate : (· ∈ directories.flatMap (scan fs headers)) =
      Candidate fs headers directories :=
    funext fun source => propext (mem_candidates_iff hsound hthere)
  rw [← hcandidate]
  refine selects_kept fun source hsource => ?_
  obtain ⟨directory, -, name, kind, hstands, rfl⟩ := (mem_candidates_iff hsound hthere).1 hsource
  exact hstands.isFile

theorem hasMetadata_iff {set : SourceSet} :
    set.count .core + set.count .application ≠ 0 ↔
      ∃ source ∈ set.sources, source.kind ≠ .header := by
  have hkind : ∀ kind, set.count kind ≠ 0 ↔ ∃ source ∈ set.sources, source.kind = kind := by
    intro kind
    simp [SourceSet.count, SourceSet.ofKind]
  have hsum : set.count .core + set.count .application ≠ 0 ↔
      set.count .core ≠ 0 ∨ set.count .application ≠ 0 := by omega
  rw [hsum, hkind, hkind]
  constructor
  · rintro (⟨source, hsource, hkind⟩ | ⟨source, hsource, hkind⟩)
    · exact ⟨source, hsource, hkind ▸ nofun⟩
    · exact ⟨source, hsource, hkind ▸ nofun⟩
  · rintro ⟨source, hsource, hne⟩
    cases hkind : source.kind with
    | core => exact .inl ⟨source, hsource, hkind⟩
    | application => exact .inr ⟨source, hsource, hkind⟩
    | header => exact absurd hkind hne

/-- A source with a property is kept if some candidate has it, and so does
each candidate in front of that one with its key. -/
theorem exists_kept_iff {P : Source → Prop} {candidates : List Source} :
    (∃ source ∈ kept fs candidates, P source) ↔
      ∃ front source rest, candidates = front ++ source :: rest ∧ P source ∧
        ∀ other ∈ front, fileKey fs other.path = fileKey fs source.path → P other := by
  constructor
  · rintro ⟨source, hsource, hP⟩
    obtain ⟨front, rest, hsplit, hfront, -⟩ :=
      exists_split_of_mem_distinct (mem_kept_iff.1 hsource)
    refine ⟨front, source, rest, hsplit, hP, fun other hother heq => absurd ?_ hfront⟩
    exact heq ▸ List.mem_map_of_mem hother
  · rintro ⟨front, source, rest, rfl, hP, hothers⟩
    rcases kept_or_earlier fs Source.path front rest source with
      hkept | ⟨other, hfront, hkept, hkey⟩
    · exact ⟨source, mem_kept_iff.2 hkept, hP⟩
    · exact ⟨other, mem_kept_iff.2 hkept, hothers other hfront hkey⟩

/-- Among the files of install directories: a source with a property is kept
if some file has it, and so does each name that is met before with the key of
that file. Both the success of a search and the kind of a file are asked in
this way. -/
theorem exists_kept_scanned_iff (hsound : fs.Sound) {headers : Bool}
    {searched directories : List Path} (hinstall : InstallDirs fs (fileKey fs) searched directories)
    {P : Source → Prop} :
    (∃ source ∈ kept fs (directories.flatMap (scan fs headers)), P source) ↔
      ∃ directory ∈ directories, ∃ name kind, Stands fs headers directory name kind ∧
        P ⟨directory.join ⟨name⟩, kind⟩ ∧
        ∀ earlier other otherKind, MetBefore directories earlier other directory name →
          Stands fs headers earlier other otherKind →
          fileKey fs (earlier.join ⟨other⟩) = fileKey fs (directory.join ⟨name⟩) →
          P ⟨earlier.join ⟨other⟩, otherKind⟩ := by
  rw [exists_kept_iff]
  constructor
  · rintro ⟨front, source, rest, hsplit, hP, hothers⟩
    obtain ⟨before, directory, after, names, name, others, rfl, hlist, hfound, rfl⟩ :=
      exists_met hinstall.areThere hsplit
    have hname := (hsound.list_spec hlist).2 name (by simp)
    obtain ⟨kind, hstands, rfl⟩ := (found_eq_some_iff hname).1 hfound
    refine ⟨directory, by simp, name, kind, hstands, hP, ?_⟩
    intro earlier other otherKind hbefore hother hkey
    exact hothers _ ((mem_front_iff hsound hinstall.areThere hinstall.nodup hlist).2
      ⟨earlier, other, otherKind, hbefore, hother, rfl⟩) hkey
  · rintro ⟨directory, hmem, name, kind, hstands, hP, hothers⟩
    obtain ⟨listed, hlist⟩ := exists_list (hinstall.areThere directory hmem)
    obtain ⟨before, after, rfl⟩ := List.append_of_mem hmem
    obtain ⟨names, others, rfl⟩ :=
      List.append_of_mem (hsound.mem_list hlist hstands.inside hstands.isFile)
    have hfound := (found_eq_some_iff hstands.inside).2 ⟨kind, hstands, rfl⟩
    refine ⟨before.flatMap (scan fs headers) ++ names.filterMap (found fs headers directory),
      ⟨directory.join ⟨name⟩, kind⟩,
      others.filterMap (found fs headers directory) ++ after.flatMap (scan fs headers), ?_, hP, ?_⟩
    · rw [List.flatMap_append, List.flatMap_cons, scan_eq hlist, List.filterMap_append,
        List.filterMap_cons_some hfound]
      simp
    · intro source hfront hkey
      obtain ⟨earlier, other, otherKind, hbefore, hother, rfl⟩ :=
        (mem_front_iff hsound hinstall.areThere hinstall.nodup hlist).1 hfront
      exact hothers earlier other otherKind hbefore hother hkey

theorem scanned_metadata_iff (hsound : fs.Sound) {headers : Bool} {searched directories : List Path}
    (hinstall : InstallDirs fs (fileKey fs) searched directories) :
    (∃ source ∈ kept fs (directories.flatMap (scan fs headers)), source.kind ≠ .header) ↔
      ∃ directory ∈ directories, ∃ name kind, Stands fs headers directory name kind ∧
        kind ≠ .header ∧ ¬TakenByHeader fs (fileKey fs) headers directories directory name := by
  have hfree : ∀ directory name,
      ¬TakenByHeader fs (fileKey fs) headers directories directory name ↔
        ∀ earlier other otherKind, MetBefore directories earlier other directory name →
          Stands fs headers earlier other otherKind →
          fileKey fs (earlier.join ⟨other⟩) = fileKey fs (directory.join ⟨name⟩) →
          otherKind ≠ .header := by
    intro directory name
    constructor
    · rintro htaken earlier other otherKind hbefore hother hkey rfl
      exact htaken ⟨earlier, other, hbefore, hother, hkey⟩
    · rintro hothers ⟨earlier, other, hbefore, hother, hkey⟩
      exact hothers earlier other .header hbefore hother hkey rfl
  rw [exists_kept_scanned_iff hsound hinstall]
  simp only [hfree]

/-- Named headers stand behind all other files that are named, so no header
takes the place of one of these. -/
theorem explicit_metadata_iff {options : Options} :
    (∃ source ∈ kept fs (explicitSources options), source.kind ≠ .header) ↔
      ∃ source, Named options source ∧ source.kind ≠ .header := by
  constructor
  · rintro ⟨source, hsource, hkind⟩
    exact ⟨source, mem_explicitSources_iff.1 (mem_of_mem_kept hsource), hkind⟩
  · rintro ⟨source, hnamed, hkind⟩
    have hmem := mem_explicitSources_iff.2 hnamed
    rw [explicitSources, List.mem_append] at hmem
    rcases hmem with hmem | hmem
    · obtain ⟨front, rest, hsplit⟩ := List.append_of_mem hmem
      have hwhole : explicitSources options =
          front ++ source :: (rest ++ options.header.toList.map (Source.mk · .header)) := by
        rw [explicitSources, hsplit, List.append_assoc, List.cons_append]
      refine exists_kept_iff.2 ⟨front, source, _, hwhole, hkind, fun other hother _ hheader => ?_⟩
      have hfront := hsplit ▸ List.mem_append_left (source :: rest) hother
      simp only [List.mem_append, List.mem_map, Option.mem_toList] at hfront
      rcases hfront with ⟨path, -, rfl⟩ | ⟨path, -, rfl⟩ <;> cases hheader
    · obtain ⟨path, -, rfl⟩ := List.mem_map.1 hmem
      exact absurd rfl hkind

/-- The first of several lists that is not empty, or the last one if all are
empty. Which directories are searched is chosen like this; a list that is
chosen may still have no directory that is there. -/
def FirstNotEmpty (lists : List (List Path)) (chosen : List Path) : Prop :=
  ∃ before after, lists = before ++ chosen :: after ∧ (∀ list ∈ before, list = []) ∧
    (chosen ≠ [] ∨ after = [])

theorem searchedDirs_first (options : Options) (environment usual : List Path) :
    FirstNotEmpty [options.installDirs, environment, usual]
      (searchedDirs options environment usual) := by
  unfold searchedDirs
  split
  · next hoptions => exact ⟨[], [environment, usual], rfl, nofun, .inl (by simpa using hoptions)⟩
  · next hoptions =>
    split
    · next henvironment =>
      exact ⟨[options.installDirs], [usual], rfl, by simpa using hoptions,
        .inl (by simpa using henvironment)⟩
    · next henvironment =>
      exact ⟨[options.installDirs, environment], [], rfl,
        by simpa using ⟨by simpa using hoptions, by simpa using henvironment⟩, .inr rfl⟩

theorem resolveWith_eq_ok_iff_of_searched {environment usual : List Path} {options : Options}
    (hsearched : options.hasExplicitFiles = false) {directories : List Path}
    (hdirectories : directories = (distinct fs id []
      (searchedDirs options environment usual)).filter fs.isDirectory) {set : SourceSet} :
    resolveWith fs environment usual options = .ok set ↔
      ⟨kept fs (directories.flatMap (scan fs options.includeHeaders)), directories⟩ = set ∧
        set.count .core + set.count .application ≠ 0 := by
  rw [resolveWith, hsearched, if_neg Bool.false_ne_true, hdirectories]
  dsimp only
  refine checkMetadata_eq_ok_iff.trans (and_congr_right ?_)
  rintro rfl
  rfl

theorem searches_of_searched (hsound : fs.Sound) (environment usual : List Path)
    {options : Options} (hsearched : options.hasExplicitFiles = false) :
    Searches fs (fileKey fs) options.includeHeaders (searchedDirs options environment usual)
      ((distinct fs id [] (searchedDirs options environment usual)).filter fs.isDirectory)
      (resolveWith fs environment usual options) where
  installDirs := installDirs_of_searched _
  succeeds_iff := by
    have hinstall := @installDirs_of_searched fs (searchedDirs options environment usual)
    have hmetadata := @scanned_metadata_iff fs hsound options.includeHeaders _ _ hinstall
    constructor
    · rintro ⟨set, hset⟩
      obtain ⟨rfl, hcount⟩ := (resolveWith_eq_ok_iff_of_searched hsearched rfl).1 hset
      exact hmetadata.1 (hasMetadata_iff.1 hcount)
    · intro hfree
      exact ⟨_, (resolveWith_eq_ok_iff_of_searched hsearched rfl).2
        ⟨rfl, hasMetadata_iff.2 (hmetadata.2 hfree)⟩⟩
  selects set hset := by
    obtain ⟨rfl, -⟩ := (resolveWith_eq_ok_iff_of_searched hsearched rfl).1 hset
    exact ⟨rfl, selects_scanned hsound options.includeHeaders (installDirs_of_searched _).areThere⟩

section

variable {κ ι : Type} {tell : Path → κ} {same : Path → ι}

theorem InstallDirs.congr {searched directories : List Path}
    (h : InstallDirs fs tell searched directories)
    (hsame : ∀ directory ∈ searched, ∀ other ∈ searched, fs.isDirectory directory = true →
      (tell other = tell directory ↔ same other = same directory)) :
    InstallDirs fs same searched directories where
  inOrder := h.inOrder
  mem_iff directory := by
    refine (h.mem_iff directory).trans (and_congr_right fun hthere => ?_)
    refine exists_congr fun front => exists_congr fun rest => and_congr_right ?_
    rintro rfl
    exact forall₂_congr fun other hother =>
      (hsame directory (by simp) other (List.mem_append_left _ hother) hthere).not
  apart := h.apart.imp_of_mem fun {directory other} hdirectory hother hne heq =>
    hne ((hsame other (h.inOrder.subset hother) directory (h.inOrder.subset hdirectory)
      (h.areThere other hother)).2 heq)

theorem Selects.congr {candidate : Source → Prop} {sources : List Source}
    (h : Selects tell candidate sources)
    (hsame : ∀ source other, candidate source → candidate other →
      (tell other.path = tell source.path ↔ same other.path = same source.path)) :
    Selects same candidate sources where
  ascends := h.ascends
  areCandidates := h.areCandidates
  complete source hsource := by
    refine (existsUnique_congr fun kept => and_congr_right fun hkept => ?_).1
      (h.complete source hsource)
    exact hsame source kept hsource (h.areCandidates kept hkept)

theorem MetBefore.mem {directories : List Path} {earlier directory : Path} {name other : RawText}
    (h : MetBefore directories earlier name directory other) (hmem : directory ∈ directories) :
    earlier ∈ directories := by
  rcases h with hfront | ⟨rfl, -⟩
  · exact hfront.subset List.mem_cons_self
  · exact hmem

/-- The paths that a search comes across: the searched directories and the
files in them. Keys have to tell these apart, and no others. -/
def Met (fs : FileSystem) (headers : Bool) (searched : List Path) (path : Path) : Prop :=
  path ∈ searched ∨ ∃ source, Candidate fs headers searched source ∧ source.path = path

theorem Candidate.isFile {headers : Bool} {directories : List Path} {source : Source}
    (h : Candidate fs headers directories source) : fs.isFile source.path = true := by
  obtain ⟨directory, -, name, kind, hstands, rfl⟩ := h
  exact hstands.isFile

theorem Candidate.met {headers : Bool} {searched directories : List Path} {source : Source}
    (h : Candidate fs headers directories source) (hdirectories : directories ⊆ searched) :
    Met fs headers searched source.path := by
  obtain ⟨directory, hmem, hstands⟩ := h
  exact .inr ⟨source, ⟨directory, hdirectories hmem, hstands⟩, rfl⟩

theorem keysTell_met (hsound : fs.Sound) (hnames : fs.NamesAreTexts) {headers : Bool}
    {searched : List Path} (hsearched : ∀ directory ∈ searched, directory.raw.isText = true) :
    KeysTell fs (Met fs headers searched) := by
  refine keysTell_of_namesAreTexts hsound hnames ?_
  rintro path (hmem | ⟨source, hcandidate, rfl⟩)
  · exact .inr (hsearched path hmem)
  · exact .inl hcandidate.isFile

/-- What tells the paths that a search comes across as they are told in it,
tells what comes of the search. So a statement by keys becomes one by
canonical paths where the two agree. -/
theorem Searches.congr {headers : Bool} {searched directories : List Path}
    {outcome : Except Failure SourceSet}
    (h : Searches fs tell headers searched directories outcome)
    (hsame : ∀ path other, Met fs headers searched path → Met fs headers searched other →
      fs.isFile path = true ∨ fs.isDirectory path = true →
      (tell other = tell path ↔ same other = same path)) :
    Searches fs same headers searched directories outcome where
  installDirs := h.installDirs.congr fun directory hdirectory other hother hthere =>
    hsame directory other (.inl hdirectory) (.inl hother) (.inr hthere)
  succeeds_iff := by
    have hdirectories := h.installDirs.inOrder.subset
    refine h.succeeds_iff.trans (exists_congr fun directory => and_congr_right fun hmem => ?_)
    refine exists_congr fun name => exists_congr fun kind => and_congr_right fun hstands => ?_
    refine and_congr_right fun _ => not_congr ?_
    have hfile : Candidate fs headers directories ⟨directory.join ⟨name⟩, kind⟩ :=
      ⟨directory, hmem, name, kind, hstands, rfl⟩
    refine exists_congr fun earlier => exists_congr fun other => and_congr_right fun hbefore =>
      and_congr_right fun hheader => ?_
    have hother : Candidate fs headers directories ⟨earlier.join ⟨other⟩, .header⟩ :=
      ⟨earlier, hbefore.mem hmem, other, .header, hheader, rfl⟩
    exact hsame _ _ (hfile.met hdirectories) (hother.met hdirectories) (.inl hstands.isFile)
  selects set hset := by
    obtain ⟨hinstall, hselects⟩ := h.selects set hset
    have hdirectories := h.installDirs.inOrder.subset
    refine ⟨hinstall, hselects.congr fun source other hsource hother => ?_⟩
    exact hsame _ _ (hsource.met hdirectories) (hother.met hdirectories) (.inl hsource.isFile)

end

/-- Nothing that is searched is lost: each directory counts by one path, and
each file in it has one source, also where the directory counts by another
path to it, if that path leads to the file as well. The last condition is
about chains of links that are as long as can be followed. -/
structure Represents (fs : FileSystem) (headers : Bool) (searched directories : List Path)
    (outcome : Except Failure SourceSet) : Prop where
  oneDirectory : ∀ directory ∈ searched, fs.isDirectory directory = true →
    ∃! kept, kept ∈ directories ∧ fs.canonical kept = fs.canonical directory
  oneSource : ∀ set, outcome = .ok set → ∀ directory ∈ searched, ∀ kept ∈ directories,
    fs.canonical kept = fs.canonical directory → ∀ name kind,
    Stands fs headers directory name kind → fs.isFile (kept.join ⟨name⟩) = true →
      ∃! source, source ∈ set.sources ∧
        fs.canonical source.path = fs.canonical (directory.join ⟨name⟩)

theorem InstallDirs.existsUnique_canonical (hsound : fs.Sound) {searched directories : List Path}
    (h : InstallDirs fs fs.canonical searched directories) {directory : Path}
    (hmem : directory ∈ searched) (hthere : fs.isDirectory directory = true) :
    ∃! kept, kept ∈ directories ∧ fs.canonical kept = fs.canonical directory := by
  classical
  have hfound : (searched.find? fun other => fs.canonical other = fs.canonical directory).isSome :=
    List.find?_isSome.2 ⟨directory, hmem, by simp⟩
  obtain ⟨first, hfirst⟩ := Option.isSome_iff_exists.1 hfound
  obtain ⟨hsame, front, rest, rfl, hfront⟩ := List.find?_eq_some_iff_append.1 hfirst
  simp only [decide_eq_true_eq] at hsame
  simp only [Bool.not_eq_true', decide_eq_false_iff_not] at hfront
  obtain ⟨place, hplace, hdirectory⟩ := FileSystem.isDirectory_iff.1 hthere
  have hstop := FileSystem.resolve_eq_of_canonical_eq hsound.spelled hplace hsame.symm
  have hkept : first ∈ directories := (h.mem_iff first).2
    ⟨FileSystem.isDirectory_iff.2 ⟨place, hstop, hdirectory⟩, front, rest, rfl, hsame ▸ hfront⟩
  refine ⟨first, ⟨hkept, hsame⟩, ?_⟩
  rintro other ⟨hother, hcanonical⟩
  by_contra hne
  have hsymm : Std.Symm fun directory other : Path =>
      fs.canonical directory ≠ fs.canonical other := ⟨fun _ _ => Ne.symm⟩
  exact h.apart.forall hother hkept hne (hcanonical.trans hsame.symm)

theorem Searches.represents (hsound : fs.Sound) {headers : Bool} {searched directories : List Path}
    {outcome : Except Failure SourceSet}
    (h : Searches fs fs.canonical headers searched directories outcome) :
    Represents fs headers searched directories outcome where
  oneDirectory directory := h.installDirs.existsUnique_canonical hsound
  oneSource := by
    intro set hset directory _ kept hkept hcanonical name kind hstands hfile
    obtain ⟨place, hplace, -⟩ :=
      FileSystem.isDirectory_iff.1 (h.installDirs.areThere kept hkept)
    have hsame : fs.canonical (kept.join ⟨name⟩) = fs.canonical (directory.join ⟨name⟩) :=
      hsound.canonical_join_eq hplace hcanonical hstands.inside hfile hstands.isFile
    rw [← hsame]
    exact (h.selects set hset).2.complete ⟨kept.join ⟨name⟩, kind⟩
      ⟨kept, hkept, name, kind, ⟨hstands.inside, hstands.tells, hfile⟩, rfl⟩

/-- Files that are named are the candidates, and each has to be there for
resolution to succeed; else one list of directories is searched, and it
succeeds if more than a header is left. Files and directories with one key
count as one, under the path that is met first. Where keys tell what is named
or come across, these are the files and directories with one canonical path,
and then none of them is lost. Names that are not texts can be shown alike;
nothing is said to be kept of those. -/
theorem resolveWith_selects (hsound : fs.Sound) (environment usual : List Path)
    (options : Options) :
    (options.hasExplicitFiles = true →
      ((∃ set, resolveWith fs environment usual options = .ok set) ↔
        (∀ source, Named options source → fs.isFile source.path = true) ∧
          ∃ source, Named options source ∧ source.kind ≠ .header) ∧
      ∀ set, resolveWith fs environment usual options = .ok set →
        set.installDirs = [] ∧ Selects (fileKey fs) (Named options) set.sources ∧
        (KeysTell fs (fun path => ∃ source, Named options source ∧ source.path = path) →
          Selects fs.canonical (Named options) set.sources)) ∧
    (options.hasExplicitFiles = false → ∃ searched directories,
      FirstNotEmpty [options.installDirs, environment, usual] searched ∧
      Searches fs (fileKey fs) options.includeHeaders searched directories
        (resolveWith fs environment usual options) ∧
      (KeysTell fs (Met fs options.includeHeaders searched) →
        Searches fs fs.canonical options.includeHeaders searched directories
          (resolveWith fs environment usual options) ∧
        Represents fs options.includeHeaders searched directories
          (resolveWith fs environment usual options))) := by
  constructor
  · intro hexplicit
    have hfiles : (∀ source ∈ explicitSources options, fs.isFile source.path = true) ↔
        ∀ source, Named options source → fs.isFile source.path = true := by
      simp only [mem_explicitSources_iff]
    refine ⟨⟨?_, ?_⟩, fun set hset => ?_⟩
    · rintro ⟨set, hset⟩
      obtain ⟨hthere, rfl, hmetadata⟩ := (resolveWith_eq_ok_iff_of_explicit hexplicit).1 hset
      exact ⟨hfiles.1 hthere, explicit_metadata_iff.1 (hasMetadata_iff.1 hmetadata)⟩
    · rintro ⟨hthere, hmetadata⟩
      exact ⟨_, (resolveWith_eq_ok_iff_of_explicit hexplicit).2
        ⟨hfiles.2 hthere, rfl, hasMetadata_iff.2 (explicit_metadata_iff.2 hmetadata)⟩⟩
    · obtain ⟨hthere, rfl, -⟩ := (resolveWith_eq_ok_iff_of_explicit hexplicit).1 hset
      have hselects := selects_kept hthere
      simp only [mem_explicitSources_iff] at hselects
      refine ⟨rfl, hselects, fun hkeys => hselects.congr fun source other hsource hother => ?_⟩
      exact hkeys.fileKey_eq_iff ⟨source, hsource, rfl⟩ ⟨other, hother, rfl⟩
        (.inl (hfiles.1 hthere source hsource))
  · intro hsearched
    have hsearches := searches_of_searched hsound environment usual hsearched
    refine ⟨_, _, searchedDirs_first options environment usual, hsearches, fun hkeys => ?_⟩
    have hcanonical := hsearches.congr fun path other hpath hother hthere =>
      hkeys.fileKey_eq_iff hpath hother hthere
    exact ⟨hcanonical, hcanonical.represents hsound⟩

/-- An install directory with a core file, and what else there is. -/
def coreFiles (others : List (Location × Node)) : FileSystem where
  nodes := ([(["work"], .directory), (["work", "op"], .directory),
    (["work", "op", coreFileName], .file .empty)] : List (Location × Node)) ++ others
  workDir := ["work"]

theorem coreFiles_sound {others : List (Location × Node)}
    (h : ∀ entry ∈ others, ∀ name ∈ entry.1, Path.slash ∉ name.toList ∧ 0 ∉ name.toList) :
    (coreFiles others).Sound where
  inDirectory := rfl
  rooted := (FileSystem.rooted_nil (coreFiles others)).snoc rfl "work"
  isName := List.forall_mem_singleton.2 ⟨by decide, by decide, by decide, by decide⟩
  spells := List.forall_mem_singleton.2 (by decide)
  spellsNodes := List.forall_mem_append.2 ⟨by decide, h⟩

/-- A second path to the directory, and an application file in it. -/
def aliasedFiles : FileSystem :=
  coreFiles [(["work", "again"], .link ⟨"op"⟩),
    (["work", "op", "OpenplanetNext.json"], .file .empty)]

theorem aliasedFiles_sound : aliasedFiles.Sound := coreFiles_sound (by decide)

theorem aliasedFiles_namesAreTexts : aliasedFiles.NamesAreTexts := by
  unfold FileSystem.NamesAreTexts
  decide +kernel

/-- The directory counts once, and both files are sources, by the path under
which the directory comes first. -/
theorem aliasedFiles_selects :
    ∃ set, resolveWith aliasedFiles [] []
        { installDirs := [⟨"op"⟩, ⟨"gone"⟩, ⟨"again"⟩] } = .ok set ∧
      set.installDirs = [⟨"op"⟩] ∧ set.count .core = 1 ∧ set.count .application = 1 ∧
      Selects aliasedFiles.canonical (Candidate aliasedFiles false [⟨"op"⟩]) set.sources := by
  obtain ⟨-, hscan⟩ := resolveWith_selects aliasedFiles_sound [] []
    { installDirs := [⟨"op"⟩, ⟨"gone"⟩, ⟨"again"⟩] }
  obtain ⟨searched, directories, ⟨before, after, hlists, hbefore, -⟩, -, hsearches⟩ := hscan rfl
  have hsearched : searched = [⟨"op"⟩, ⟨"gone"⟩, ⟨"again"⟩] := by
    cases before with
    | nil => exact (List.cons.inj hlists).1.symm
    | cons first before =>
        rw [← (List.cons.inj hlists).1] at hbefore
        cases hbefore _ List.mem_cons_self
  have hkeys : KeysTell aliasedFiles (Met aliasedFiles false searched) :=
    keysTell_met aliasedFiles_sound aliasedFiles_namesAreTexts (hsearched ▸ by decide +kernel)
  have hresolve : resolveWith aliasedFiles [] []
      { installDirs := [⟨"op"⟩, ⟨"gone"⟩, ⟨"again"⟩] } = .ok
        ⟨[⟨⟨"op/OpenplanetCore.json"⟩, .core⟩, ⟨⟨"op/OpenplanetNext.json"⟩, .application⟩],
          [⟨"op"⟩]⟩ := eq_ok_of_toOption (by decide +kernel)
  obtain ⟨rfl, hselects⟩ := (hsearches hkeys).1.selects _ hresolve
  exact ⟨_, hresolve, rfl, by decide, by decide, hselects⟩

/-- A core file, with a header that is a link to it. -/
def hiddenCore : FileSystem :=
  coreFiles [(["work", "op", headerFileName], .link ⟨coreFileName⟩)]

/-- The core file is a candidate and no header, and yet resolution fails: the
header is met first and takes its place, and a header alone is too little. -/
theorem header_hides_core :
    ¬((∃ set, resolveWith hiddenCore [] []
        { installDirs := [⟨"op"⟩], includeHeaders := true } = .ok set) ↔
      ∃ source, Candidate hiddenCore true [⟨"op"⟩] source ∧ source.kind ≠ .header) := by
  have hfails : (resolveWith hiddenCore [] []
      { installDirs := [⟨"op"⟩], includeHeaders := true }).toOption = none := by decide +kernel
  have hcore : Stands hiddenCore true ⟨"op"⟩ coreFileName .core :=
    ⟨by decide, .core, by decide +kernel⟩
  intro h
  obtain ⟨set, hset⟩ := h.2
    ⟨_, ⟨⟨"op"⟩, List.mem_singleton_self _, coreFileName, .core, hcore, rfl⟩, nofun⟩
  rw [hset] at hfails
  cases hfails

end SymbolPatterns.Resolution
