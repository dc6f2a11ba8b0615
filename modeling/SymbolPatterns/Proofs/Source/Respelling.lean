import SymbolPatterns.Proofs.Source.Resolution

/-!
Runs that name the same application files in other words: in another order,
repeatedly, or by other spellings and links. They resolve to sources that differ
in spelling and order alone.
-/

namespace SymbolPatterns

open Resolution

/-- Each path of one list is a path of the other, or leads to where a path of
the other leads. Neither order nor how often a file is named matters. -/
structure SameFiles (fs : FileSystem) (paths others : List Path) : Prop where
  covered : ∀ path ∈ paths, ∃ other ∈ others, fs.SameFile path other
  covers : ∀ other ∈ others, ∃ path ∈ paths, fs.SameFile other path

/-- Files may be named in another order, and each of them again in any words.
This is how lists that name the same files come about. -/
theorem sameFiles_of_perm {fs : FileSystem} {paths others more : List Path}
    (hperm : others.Perm (paths ++ more))
    (hmore : ∀ other ∈ more, ∃ path ∈ paths, fs.SameFile other path) :
    SameFiles fs paths others where
  covered path hpath := ⟨path, hperm.mem_iff.2 (List.mem_append_left more hpath), .inl rfl⟩
  covers other hother := by
    rcases List.mem_append.1 (hperm.mem_iff.1 hother) with hpath | hother
    · exact ⟨other, hpath, .inl rfl⟩
    · exact hmore other hother

/-- Two sets of sources that differ in spelling and order alone: as many
sources of each kind, and the same files under each kind. -/
structure Respells (fs : FileSystem) (set other : SourceSet) : Prop where
  installDirs : set.installDirs = other.installDirs
  count : ∀ kind, set.count kind = other.count kind
  covered : ∀ source ∈ set.sources, ∃ twin ∈ other.sources,
    source.kind = twin.kind ∧ fs.SameFile source.path twin.path
  covers : ∀ twin ∈ other.sources, ∃ source ∈ set.sources,
    twin.kind = source.kind ∧ fs.SameFile twin.path source.path

variable {fs : FileSystem}

theorem Respells.refl (set : SourceSet) : Respells fs set set where
  installDirs := rfl
  count _ := rfl
  covered source hsource := ⟨source, hsource, rfl, .inl rfl⟩
  covers source hsource := ⟨source, hsource, rfl, .inl rfl⟩

theorem Respells.symm {set other : SourceSet} (h : Respells fs set other) :
    Respells fs other set :=
  ⟨h.installDirs.symm, fun kind => (h.count kind).symm, h.covers, h.covered⟩

namespace SameFiles

variable {paths others : List Path}

theorem symm (h : SameFiles fs paths others) : SameFiles fs others paths := ⟨h.covers, h.covered⟩

theorem eq_nil (h : SameFiles fs paths []) : paths = [] := by
  refine List.eq_nil_iff_forall_not_mem.2 fun path hpath => ?_
  obtain ⟨other, hother, -⟩ := h.covered path hpath
  cases hother

theorem isEmpty_eq (h : SameFiles fs paths others) : paths.isEmpty = others.isEmpty := by
  rw [Bool.eq_iff_iff, List.isEmpty_iff, List.isEmpty_iff]
  constructor
  · rintro rfl
    exact h.symm.eq_nil
  · rintro rfl
    exact h.eq_nil

theorem isFile (h : SameFiles fs paths others) (hpaths : ∀ path ∈ paths, fs.isFile path = true) :
    ∀ other ∈ others, fs.isFile other = true := by
  intro other hother
  obtain ⟨path, hpath, hsame⟩ := h.covers other hother
  rw [hsame.isFile_eq]
  exact hpaths path hpath

end SameFiles

namespace Resolution

/-- What is left of a source when its spelling is disregarded: its kind, and
the key by which repetitions are found. -/
def tag (fs : FileSystem) (source : Source) : SourceKind × String :=
  (source.kind, fileKey fs source.path)

/-- Sources with one tag are one file, or they have one path where only one is
of their kind. That tags say as much is a premise: it is where different files
with one key would do harm. -/
private theorem exists_twin {sources others : List Source}
    (htell : ∀ source ∈ sources, ∀ other ∈ others, source.kind = other.kind →
      fileKey fs source.path = fileKey fs other.path → fs.SameFile source.path other.path)
    (hperm : (sources.map (tag fs)).Perm (others.map (tag fs))) :
    ∀ source ∈ sources, ∃ twin ∈ others,
      source.kind = twin.kind ∧ fs.SameFile source.path twin.path := by
  intro source hsource
  obtain ⟨twin, htwin, htag⟩ := List.mem_map.1 (hperm.mem_iff.1 (List.mem_map_of_mem hsource))
  obtain ⟨hkind, hkey⟩ := Prod.mk.inj htag.symm
  exact ⟨twin, htwin, hkind, htell source hsource twin htwin hkind hkey⟩

theorem count_eq_countP_tag (fs : FileSystem) (set : SourceSet) (kind : SourceKind) :
    set.count kind = (set.sources.map (tag fs)).countP fun mark => mark.1 = kind := by
  rw [List.countP_map, SourceSet.count, SourceSet.ofKind, ← List.countP_eq_length_filter]
  rfl

theorem respells_of_perm {sources others : List Source} (installDirs : List Path)
    (htell : ∀ source ∈ sources, ∀ other ∈ others, source.kind = other.kind →
      fileKey fs source.path = fileKey fs other.path → fs.SameFile source.path other.path)
    (hperm : (sources.map (tag fs)).Perm (others.map (tag fs))) :
    Respells fs ⟨sources, installDirs⟩ ⟨others, installDirs⟩ where
  installDirs := rfl
  count kind := by
    rw [count_eq_countP_tag fs, count_eq_countP_tag fs]
    exact hperm.countP_eq _
  covered := exists_twin htell hperm
  covers := exists_twin (fun other hother source hsource hkind hkey =>
    (htell source hsource other hother hkind.symm hkey.symm).symm) hperm.symm

def sourcesOf (kind : SourceKind) (paths : List Path) : List Source :=
  paths.map (Source.mk · kind)

theorem mem_fileKeys_sourcesOf {kind : SourceKind} {paths : List Path} {key : String} :
    key ∈ fileKeys fs Source.path (sourcesOf kind paths) ↔
      ∃ path ∈ paths, fileKey fs path = key := by
  simp [fileKeys, sourcesOf]

theorem mem_fileKeys_of_sameFiles {kind : SourceKind} {paths others : List Path}
    (h : SameFiles fs paths others) {key : String}
    (hkey : key ∈ fileKeys fs Source.path (sourcesOf kind paths)) :
    key ∈ fileKeys fs Source.path (sourcesOf kind others) := by
  obtain ⟨path, hpath, rfl⟩ := mem_fileKeys_sourcesOf.1 hkey
  obtain ⟨other, hother, hsame⟩ := h.covered path hpath
  exact mem_fileKeys_sourcesOf.2 ⟨other, hother, hsame.symm.fileKey_eq⟩

theorem map_tag_distinct (kind : SourceKind) (seen : List String) (paths : List Path) :
    (distinct fs Source.path seen (sourcesOf kind paths)).map (tag fs) =
      (fileKeys fs Source.path (distinct fs Source.path seen (sourcesOf kind paths))).map
        (Prod.mk kind) := by
  rw [fileKeys, List.map_map]
  refine List.map_congr_left fun source hsource => ?_
  obtain ⟨path, -, rfl⟩ := List.mem_map.1 (mem_of_mem_distinct hsource)
  rfl

/-- Amid the same other candidates, the same files of one kind leave the same
sources. Those in front may take files of the list away, and those behind may
be taken by it, alike in both cases. -/
theorem tags_distinct_perm {paths others : List Path} (h : SameFiles fs paths others)
    (kind : SourceKind) (front back : List Source) :
    ((distinct fs Source.path [] (front ++ sourcesOf kind paths ++ back)).map (tag fs)).Perm
      ((distinct fs Source.path [] (front ++ sourcesOf kind others ++ back)).map (tag fs)) := by
  have hkeys : ∀ key, key ∈ fileKeys fs Source.path (sourcesOf kind paths) ↔
      key ∈ fileKeys fs Source.path (sourcesOf kind others) :=
    fun key => ⟨mem_fileKeys_of_sameFiles h, mem_fileKeys_of_sameFiles h.symm⟩
  have hback : distinct fs Source.path
        (fileKeys fs Source.path (front ++ sourcesOf kind paths) ++ []) back =
      distinct fs Source.path
        (fileKeys fs Source.path (front ++ sourcesOf kind others) ++ []) back := by
    refine distinct_congr (fun key => ?_) back
    simp only [fileKeys, List.map_append, List.mem_append] at hkeys ⊢
    rw [hkeys key]
  have hmiddle : ((distinct fs Source.path (fileKeys fs Source.path front ++ [])
        (sourcesOf kind paths)).map (tag fs)).Perm
      ((distinct fs Source.path (fileKeys fs Source.path front ++ [])
        (sourcesOf kind others)).map (tag fs)) := by
    rw [map_tag_distinct, map_tag_distinct]
    exact (fileKeys_distinct_perm hkeys _).map _
  simp only [distinct_append, hback, List.map_append]
  exact (hmiddle.append_left _).append_right _

theorem explicitSources_eq (options : Options) :
    explicitSources options =
      options.core.toList.map (Source.mk · .core) ++ sourcesOf .application options.game ++
        options.header.toList.map (Source.mk · .header) := rfl

theorem kept_explicitSources_perm {options : Options} {game : List Path}
    (hgame : SameFiles fs options.game game) :
    ((kept fs (explicitSources options)).map (tag fs)).Perm
      ((kept fs (explicitSources { options with game := game })).map (tag fs)) := by
  have hdistinct := tags_distinct_perm hgame .application
    (options.core.toList.map (Source.mk · .core)) (options.header.toList.map (Source.mk · .header))
  exact ((sorted_perm _).map _).trans (hdistinct.trans ((sorted_perm _).map _).symm)

theorem isFile_explicitSources {options : Options} {game : List Path}
    (hgame : SameFiles fs options.game game)
    (h : ∀ source ∈ explicitSources options, fs.isFile source.path = true) :
    ∀ source ∈ explicitSources { options with game := game }, fs.isFile source.path = true := by
  rw [explicitSources_eq, List.forall_mem_append, List.forall_mem_append] at h ⊢
  obtain ⟨⟨hcore, happlications⟩, hheader⟩ := h
  refine ⟨⟨hcore, List.forall_mem_map.2 ?_⟩, hheader⟩
  exact hgame.isFile (List.forall_mem_map.1 happlications)

/-- Among the sources of both lists, those of one kind with one key are one
file: there is but one path to a core file and to a header, and application
files are told by their keys. -/
theorem sameFile_of_kept {options : Options} {game : List Path}
    (hwork : FileSystem.Spelled fs.workDir)
    (hkeys : KeysTell fs (· ∈ options.game ++ game))
    (hfiles : ∀ source ∈ explicitSources options, fs.isFile source.path = true)
    {source other : Source} (hsource : source ∈ kept fs (explicitSources options))
    (hother : other ∈ kept fs (explicitSources { options with game := game }))
    (hkind : source.kind = other.kind) (hkey : fileKey fs source.path = fileKey fs other.path) :
    fs.SameFile source.path other.path := by
  have hmem := mem_of_mem_kept hsource
  have hnamed := mem_explicitSources_iff.1 hmem
  have htwin := mem_explicitSources_iff.1 (mem_of_mem_kept hother)
  rw [Named, ← hkind] at htwin
  rw [Named] at hnamed
  cases hsort : source.kind with
  | core =>
      rw [hsort] at hnamed htwin
      exact .inl (Option.some.inj (hnamed.symm.trans htwin))
  | application =>
      rw [hsort] at hnamed htwin
      exact hkeys.sameFile hwork (List.mem_append_left game hnamed)
        (List.mem_append_right options.game htwin) (hfiles source hmem) hkey
  | header =>
      rw [hsort] at hnamed htwin
      exact .inl (Option.some.inj (hnamed.symm.trans htwin))

end Resolution

/-- Where some options resolve to sources, options that name the same
application files resolve to sources that differ from them in spelling and
order alone, if keys tell these files. Without the last condition a different
file could stand for one that is dropped. -/
theorem Host.resolve_respelled {host : Host} {options : Options} {game : List Path}
    {set : SourceSet} (hwork : FileSystem.Spelled host.files.workDir)
    (hgame : SameFiles host.files options.game game)
    (hkeys : KeysTell host.files (· ∈ options.game ++ game)) (h : host.resolve options = .ok set) :
    ∃ other, host.resolve { options with game := game } = .ok other ∧
      Respells host.files set other := by
  have hnamed : { options with game := game }.hasExplicitFiles = options.hasExplicitFiles := by
    rw [Options.hasExplicitFiles, Options.hasExplicitFiles, hgame.isEmpty_eq]
  by_cases hexplicit : options.hasExplicitFiles = true
  · obtain ⟨hfiles, rfl, hmetadata⟩ := (resolve_eq_ok_iff hexplicit).1 h
    have hothers := isFile_explicitSources hgame hfiles
    have hrespells := respells_of_perm []
      (fun source hsource other hother => sameFile_of_kept hwork hkeys hfiles hsource hother)
      (kept_explicitSources_perm hgame)
    refine ⟨_, (resolve_eq_ok_iff (hnamed.trans hexplicit)).2 ⟨hothers, rfl, ?_⟩, hrespells⟩
    rwa [← hrespells.count, ← hrespells.count]
  · refine ⟨set, ?_, Respells.refl set⟩
    rw [resolve, resolveWith, if_neg hexplicit] at h
    rw [resolve, resolveWith, if_neg (hnamed ▸ hexplicit)]
    exact h

end SymbolPatterns
