import SymbolPatterns.Proofs.Source.Selection
import SymbolPatterns.Proofs.Watch.Loop

/-!
What a watch loop hears of its sources. Each source stands in a directory that
is watched, no directory is watched twice, and a change to a source that its
name tells to be metadata is followed by a run, if the path of the source is
told apart from that of the grammar.
-/

namespace SymbolPatterns

namespace FileSystem

variable {fs : FileSystem}

/-- A path from the root to what a path leads to from the working directory.
Changes are told by such paths, whatever the source was named by. -/
def absolute (fs : FileSystem) (path : Path) : Path := (pathTo fs.workDir).join path

theorem pieces_eq (path : Path) : path.pieces = (pathPieces path).map RawText.toList :=
  (RawText.map_toList_ofList path.pieces).symm

theorem IsName.ofPiece? {name : RawText} (h : IsName name) :
    Path.Component.ofPiece? name.toList = some (.name name) := by
  unfold Path.Component.ofPiece?
  split
  · next hnil => exact absurd (RawText.toList_inj.1 hnil) h.notEmpty
  · next hdot => exact absurd (RawText.toList_inj.1 hdot) h.notHere
  · next hdots => exact absurd (RawText.toList_inj.1 hdots) h.notUp
  · rfl

/-- A path to a file ends in a name, so it has a parent and a file name. -/
theorem exists_name_of_isFile (hsound : fs.Sound) {path : Path} (h : fs.isFile path = true) :
    ∃ directory name, path.pieces = directory ++ [name.toList] ∧ IsName name := by
  obtain ⟨place, content, hplace, hcontent⟩ := exists_file_of_isFile h
  obtain ⟨-, directory, name, -, -, -, -, hpieces, hname, -⟩ :=
    exists_of_read hsound.rooted (read_eq_ok_iff.2 ⟨place, hplace, hcontent⟩)
  refine ⟨directory.map RawText.toList, name, ?_, hname⟩
  rw [pieces_eq, hpieces, List.map_append, List.map_singleton]

/-- From the root, a path to a file has the same file name, and with it the
same extension. -/
theorem fileName?_absolute (hsound : fs.Sound) {path : Path} (h : fs.isFile path = true) :
    (fs.absolute path).fileName? = path.fileName? := by
  cases habsolute : path.isAbsolute with
  | true => rw [absolute, Path.join, if_pos habsolute]
  | false =>
      obtain ⟨directory, name, hpieces, hname⟩ := exists_name_of_isFile hsound h
      have hwhole : (fs.absolute path).pieces =
          ((("" : RawText) :: fs.workDir).map RawText.toList ++ directory) ++ [name.toList] := by
        rw [absolute, pieces_eq, pathPieces_join hsound.spelled habsolute, List.map_append,
          ← pieces_eq, hpieces, List.append_assoc]
      rw [Path.fileName?_of_pieces hwhole hname.ofPiece?,
        Path.fileName?_of_pieces hpieces hname.ofPiece?]

/-- The file at a name in a directory has this file name. A name with a slash
in it would be a path of its own. -/
theorem fileName?_join (hsound : fs.Sound) {directory : Path} {name : RawText}
    (hname : Path.slash ∉ name.toList) (h : fs.isFile (directory.join ⟨name⟩) = true) :
    (directory.join ⟨name⟩).fileName? = some name := by
  obtain ⟨front, last, hpieces, hlast⟩ := exists_name_of_isFile hsound h
  have hjoined : ∃ before, (directory.join ⟨name⟩).pieces = before ++ [name.toList] := by
    by_cases hempty : directory.raw = ""
    · have hwhole : directory.join ⟨name⟩ = ⟨name⟩ := by
        unfold Path.join
        split
        · rfl
        · rw [hempty]
          rfl
      exact ⟨[], by rw [hwhole, Path.pieces, Text.splitAt_of_not_mem hname, List.nil_append]⟩
    · obtain ⟨base, htext, -⟩ := toList_join_name hempty hname
      exact ⟨Text.splitAt Path.slash base, by
        rw [Path.pieces, htext, Text.splitAt_append_cons, Text.splitAt_of_not_mem hname]⟩
  obtain ⟨before, hbefore⟩ := hjoined
  obtain ⟨-, hsame⟩ := List.append_inj' (hpieces.symm.trans hbefore) rfl
  obtain rfl : last = name := RawText.toList_inj.1 (List.singleton_inj.1 hsame)
  exact Path.fileName?_of_pieces hbefore hlast.ofPiece?

theorem resolve_absolute (hsound : fs.Sound) {path : Path} {place : Location}
    (h : fs.resolve .follow path = .ok place) :
    fs.resolve .follow (fs.absolute path) = .ok place := by
  obtain ⟨hzero, hempty, links, hlinks, hleads⟩ := leads_of_resolve h
  exact hsound.resolve_join hzero hempty hlinks hleads

end FileSystem

namespace SourceSet

theorem mem_addRoot {roots : List Path} {root : Path} (source : Source) (h : root ∈ roots) :
    root ∈ addRoot roots source := by
  unfold addRoot
  split
  · split
    · exact h
    · exact List.mem_append_left _ h
  · exact h

/-- The directory of a source is watched, by this path or by an equal one that
was added before. -/
theorem exists_root_of_parent {source : Source} {directory : Path}
    (h : source.path.parent? = some directory) (roots : List Path) :
    ∃ root ∈ addRoot roots source, root.agrees directory = true := by
  unfold addRoot
  rw [h]
  dsimp only
  split
  · next hthere => exact List.any_eq_true.1 hthere
  · exact ⟨directory, by simp, by simp [Path.agrees]⟩

/-- No directory is watched by two equal paths. Two paths to one directory
that differ in their components may both be there. -/
def RootsApart (roots : List Path) : Prop :=
  roots.Pairwise fun root other => root.agrees other = false

theorem RootsApart.addRoot {roots : List Path} (h : RootsApart roots) (source : Source) :
    RootsApart (addRoot roots source) := by
  unfold SourceSet.addRoot
  split
  · next directory hdirectory =>
    split
    · exact h
    · next hnew =>
      rw [Bool.not_eq_true, List.any_eq_false] at hnew
      refine List.pairwise_append.2
        ⟨h, List.pairwise_singleton _ _, fun root hroot other hother => ?_⟩
      rw [List.mem_singleton.1 hother]
      exact Bool.not_eq_true _ ▸ hnew root hroot
  · exact h

theorem RootsApart.foldl {roots : List Path} (h : RootsApart roots) (sources : List Source) :
    RootsApart (sources.foldl SourceSet.addRoot roots) := by
  induction sources generalizing roots with
  | nil => exact h
  | cons source rest ih => exact ih (h.addRoot source)

theorem mem_foldl_addRoot {roots : List Path} {root : Path} (sources : List Source)
    (h : root ∈ roots) : root ∈ sources.foldl addRoot roots := by
  induction sources generalizing roots with
  | nil => exact h
  | cons source rest ih => exact ih (mem_addRoot source h)

theorem exists_watchRoot {set : SourceSet} {source : Source} (hsource : source ∈ set.sources)
    {directory : Path} (h : source.path.parent? = some directory) :
    ∃ root ∈ set.watchRoots, root.agrees directory = true := by
  obtain ⟨front, rest, hsplit⟩ := List.append_of_mem hsource
  obtain ⟨root, hroot, hagrees⟩ :=
    exists_root_of_parent h (front.foldl addRoot set.installDirs)
  refine ⟨root, ?_, hagrees⟩
  rw [watchRoots, hsplit, List.foldl_append, List.foldl_cons]
  exact mem_foldl_addRoot rest hroot

end SourceSet

/-- Install directories have different keys, so no two of the paths are equal.
The roots of sources are added to these. -/
theorem Resolution.InstallDirs.rootsApart {fs : FileSystem} {searched directories : List Path}
    (h : InstallDirs fs (fileKey fs) searched directories) :
    SourceSet.RootsApart directories := by
  refine h.apart.imp_of_mem fun {directory other} hdirectory hother hne => ?_
  obtain ⟨place, hplace, -⟩ := FileSystem.isDirectory_iff.1 (h.areThere directory hdirectory)
  obtain ⟨stop, hstop, -⟩ := FileSystem.isDirectory_iff.1 (h.areThere other hother)
  refine decide_eq_false fun hcomponents => hne ?_
  exact (FileSystem.sameFile_of_components_eq hcomponents hplace hstop).fileKey_eq

/-- A file name with the extension of metadata, which is `json` or `h` in
letters of either case. What stands in front of the dot need not be a text. -/
def TellsMetadata (path : Path) : Prop :=
  ∃ (stem : RawText) (ending : String), stem ≠ "" ∧
    path.fileName? = some (stem ++ "." ++ ending) ∧
    (ending.toLower = "json" ∨ ending.toLower = "h")

namespace Watch

theorem toList_toLower (text : String) : text.toLower.toList = text.toList.map Char.toLower :=
  String.toList_map

theorem isMetadataExtension_iff {ending : String} :
    metadataExtensions.contains (String.ofList (ending.toList.map Char.toLower)) = true ↔
      ending.toLower = "json" ∨ ending.toLower = "h" := by
  rw [← toList_toLower, String.ofList_toList, metadataExtensions]
  simp

/-- Such an extension has no character but those of the two that are listed
and their capitals. No dot is among them, so it is what stands behind the last
dot. -/
theorem not_mem_of_metadata {ending : String}
    (h : ending.toLower = "json" ∨ ending.toLower = "h") {c : Char} (hlower : c.toLower = c)
    (hother : c ∉ "json".toList ++ "h".toList) : c ∉ ending.toList := by
  intro hmem
  have hc : c ∈ ending.toLower.toList := by
    rw [toList_toLower, ← hlower]
    exact List.mem_map_of_mem hmem
  rcases h with h | h
  · exact hother (List.mem_append_left _ (h ▸ hc))
  · exact hother (List.mem_append_right _ (h ▸ hc))

theorem isMetadataPath_iff {path : Path} : isMetadataPath path = true ↔ TellsMetadata path := by
  constructor
  · intro h
    obtain ⟨ending, hending, hmetadata⟩ := (Option.any_eq_true _ _).1 h
    cases hname : path.fileName? with
    | none => simp [Path.extension?, hname] at hending
    | some name =>
        by_cases hdot : Path.dot ∈ name.toList
        · obtain ⟨stem, rest, hsplit, hrest⟩ := Path.exists_last_dot hdot
          rw [Path.extension?_of_dot hname hsplit hrest, Option.ite_none_left_eq_some] at hending
          obtain ⟨hstem, hending⟩ := hending
          obtain rfl := Option.some.inj hending
          have hlisted := isMetadataExtension_iff.1 hmetadata
          have hraw := RawText.eq_ofText_of_shown rfl
            (not_mem_of_metadata hlisted (by decide) (by decide))
          refine ⟨.ofList stem, (RawText.ofList rest).shown,
            mt RawText.toList_eq_nil_iff.2 hstem, ?_, hlisted⟩
          rw [hname, ← hraw]
          refine congrArg some (RawText.toList_inj.1 ?_)
          rw [hsplit, RawText.toList_append, RawText.toList_append, List.append_assoc]
          rfl
        · rw [Path.extension?_of_no_dot hname hdot] at hending
          cases hending
  · rintro ⟨stem, ending, hstem, hname, hending⟩
    have hoctets : (stem ++ "." ++ ending : RawText).toList =
        stem.toList ++ Path.dot :: (RawText.ofText ending).toList := by
      rw [RawText.toList_append, RawText.toList_append, List.append_assoc]
      rfl
    have hdot : Path.dot ∉ (RawText.ofText ending).toList := fun hmem =>
      not_mem_of_metadata hending (by decide) (by decide)
        (RawText.mem_of_mem_ofText (by decide) hmem)
    rw [isMetadataPath, Path.extension?_of_dot hname hoctets hdot,
      if_neg (mt RawText.toList_eq_nil_iff.1 hstem)]
    refine (Option.any_some ..).trans ?_
    rw [RawText.shown_ofText]
    exact isMetadataExtension_iff.2 hending

/-- What the loop makes of a change goes by the components of the path, so it
does not matter how the path of a change is spelled. -/
theorem isRelevant_congr {grammar path other : Path} (h : path.components = other.components) :
    isRelevant grammar path = isRelevant grammar other := by
  simp only [isRelevant, isMetadataPath, Path.extension?, Path.fileName?, Path.endsWith, h]

/-- How a file is told apart from the grammar. A relative path of a grammar is
compared with the end of the path, and so may be taken for another file with
that ending; such files are in none of the cases. -/
inductive ToldApart (fs : FileSystem) (grammar path : Path) : Prop
  /-- The path of the grammar is absolute and leads to another file. -/
  | otherFile {file : Path} (absolute : grammar.isAbsolute = true)
      (leads : fs.canonical grammar = .ok file) (other : fs.canonical path ≠ .ok file)
  /-- The path of the grammar is absolute and is not the one of the file. A path with a separator
  at its end leads to no file, but its components are those of a path to one. -/
  | otherPath (absolute : grammar.isAbsolute = true)
      (other : grammar.agrees (fs.absolute path) = false)
  /-- The path of the grammar is relative, and the one of the file does not end with it. -/
  | otherEnd (relative : grammar.isAbsolute = false)
      (other : (fs.absolute path).endsWith grammar = false)

variable {fs : FileSystem} {grammar path changed : Path}

theorem ToldApart.not_endsWith (h : ToldApart fs grammar path) (hsound : fs.Sound)
    (hfile : fs.isFile path = true) : (fs.absolute path).endsWith grammar = false := by
  rw [← Bool.not_eq_true]
  intro hends
  cases h with
  | @otherFile file habsolute hgrammar hother =>
      have hcomponents := Path.components_eq_of_endsWith habsolute hends
      obtain ⟨place, hplace⟩ := FileSystem.exists_place_of_isFile hfile
      have hwhole := FileSystem.resolve_absolute hsound hplace
      cases hstop : fs.resolve .follow grammar with
      | error cause =>
          rw [FileSystem.canonical, hstop] at hgrammar
          cases hgrammar
      | ok stop =>
          have hsame := FileSystem.sameFile_of_components_eq hcomponents hwhole hstop
          rw [FileSystem.canonical, ← hsame.resolve_eq, hwhole, ← hplace] at hgrammar
          exact hother hgrammar
  | otherPath habsolute hother =>
      have hcomponents := Path.components_eq_of_endsWith habsolute hends
      exact absurd hcomponents.symm (of_decide_eq_false hother)
  | otherEnd _ hother =>
      rw [hother] at hends
      cases hends

/-- The loop listens to a file that is told apart from the grammar just if its
name tells it to be metadata. The path of the change is any one that is equal
to the absolute path of the file. -/
theorem ToldApart.isRelevant_iff (h : ToldApart fs grammar path) (hsound : fs.Sound)
    (hfile : fs.isFile path = true) (hchanged : changed.agrees (fs.absolute path) = true) :
    isRelevant grammar changed = true ↔ TellsMetadata path := by
  have hname := FileSystem.fileName?_absolute hsound hfile
  rw [isRelevant_congr (of_decide_eq_true hchanged), isRelevant, h.not_endsWith hsound hfile,
    Bool.not_false, Bool.and_true, isMetadataPath_iff, TellsMetadata, TellsMetadata, hname]

/-- A change starts the timer whenever it comes; and once the timer is off
again and no run is in flight, a run has started since. -/
def Triggers (grammar changed : Path) : Prop :=
  ∀ front rest last, Loop.initial.after grammar (front ++ .change changed :: rest) = some last →
    ∃ heard, Loop.initial.after grammar (front ++ [.change changed]) = some heard ∧
      heard.armed = true ∧
      (last.armed = false → last.queue.inFlight = false → heard.started < last.started)

theorem armed_of_change {front : List Event} {heard : Loop}
    (hrelevant : isRelevant grammar changed = true)
    (h : Loop.initial.after grammar (front ++ [.change changed]) = some heard) :
    heard.armed = true := by
  rw [Loop.after_append] at h
  obtain ⟨before, -, h⟩ := Option.bind_eq_some_iff.1 h
  obtain ⟨next, hstep, hnext⟩ := Option.bind_eq_some_iff.1 h
  obtain rfl := Option.some.inj hnext
  cases Loop.step_eq_some_iff.1 hstep with
  | relevant => rfl
  | irrelevant _ hirrelevant =>
      rw [hrelevant] at hirrelevant
      cases hirrelevant

theorem triggers_of_isRelevant (h : isRelevant grammar changed = true) :
    Triggers grammar changed := by
  intro front rest last hlast
  obtain ⟨heard, hheard, hheeds⟩ := Loop.exists_heeds_after h hlast
  exact ⟨heard, hheard, armed_of_change h hheard, hheeds.lt_of_quiet (Loop.orderly_after hlast)⟩

end Watch

namespace Resolution

open Watch

variable {fs : FileSystem} {environment usual : List Path} {options : Options} {set : SourceSet}

/-- Where directories are searched, the sources are files in them whose names
tell their kinds. So their names have extensions of metadata. -/
theorem candidate_of_mem_sources (hsound : fs.Sound)
    (hsearched : options.hasExplicitFiles = false)
    (hset : resolveWith fs environment usual options = .ok set) {source : Source}
    (hsource : source ∈ set.sources) :
    Candidate fs options.includeHeaders set.installDirs source := by
  have hinstall := @installDirs_of_searched fs (searchedDirs options environment usual)
  obtain ⟨rfl, -⟩ := (resolveWith_eq_ok_iff_of_searched hsearched rfl).1 hset
  exact (selects_scanned hsound _ hinstall.areThere).areCandidates source hsource

theorem isFile_of_mem_sources (hsound : fs.Sound)
    (hset : resolveWith fs environment usual options = .ok set) {source : Source}
    (hsource : source ∈ set.sources) : fs.isFile source.path = true := by
  cases hexplicit : options.hasExplicitFiles with
  | true =>
      obtain ⟨hfiles, rfl, -⟩ := (resolveWith_eq_ok_iff_of_explicit hexplicit).1 hset
      exact hfiles source (mem_of_mem_kept hsource)
  | false => exact (candidate_of_mem_sources hsound hexplicit hset hsource).isFile

theorem watchRoots_apart (hset : resolveWith fs environment usual options = .ok set) :
    SourceSet.RootsApart set.watchRoots := by
  cases hexplicit : options.hasExplicitFiles with
  | true =>
      obtain ⟨-, rfl, -⟩ := (resolveWith_eq_ok_iff_of_explicit hexplicit).1 hset
      exact SourceSet.RootsApart.foldl List.Pairwise.nil _
  | false =>
      have hinstall := @installDirs_of_searched fs (searchedDirs options environment usual)
      obtain ⟨rfl, -⟩ := (resolveWith_eq_ok_iff_of_searched hexplicit rfl).1 hset
      exact hinstall.rootsApart.foldl _

/-- The names by which files in an install directory are taken for metadata
have one of its extensions, and something in front of it. -/
theorem extension_of_nameTells {headers : Bool} {name : RawText} {kind : SourceKind}
    (h : NameTells headers name kind) :
    ∃ (stem : RawText) (ending : String), stem ≠ "" ∧ name = stem ++ "." ++ ending ∧
      (ending.toLower = "json" ∨ ending.toLower = "h") := by
  have hjson : "json".toLower = "json" ∨ "json".toLower = "h" :=
    isMetadataExtension_iff.1 (by decide)
  have hheader : "h".toLower = "json" ∨ "h".toLower = "h" := isMetadataExtension_iff.1 (by decide)
  cases h with
  | core => exact ⟨"OpenplanetCore", "json", by decide, by decide, hjson⟩
  | application middle =>
      refine ⟨"Openplanet" ++ middle, "json", ?_, ?_, hjson⟩
      · exact fun hempty => absurd (congrArg RawText.toList hempty) nofun
      · refine RawText.toList_inj.1 ?_
        simp only [RawText.toList_append, List.append_assoc]
        rfl
  | header => exact ⟨"Openplanet", "h", by decide, by decide, hheader⟩

theorem Stands.tellsMetadata (hsound : fs.Sound) {headers : Bool} {directory : Path} {name : RawText}
    {kind : SourceKind} (h : Stands fs headers directory name kind) :
    TellsMetadata (directory.join ⟨name⟩) := by
  obtain ⟨stem, ending, hstem, hname, hending⟩ := extension_of_nameTells h.tells
  refine ⟨stem, ending, hstem, ?_, hending⟩
  rw [← hname]
  exact FileSystem.fileName?_join hsound h.inside h.isFile

/-- Each source stands in a directory that is watched, and no two of these
have equal paths. A change to a source that is told apart from the grammar is
heard just if the name of the source has an extension of metadata, as it has
in install directories, and then a run follows. Files that are named one by
one may have any name; changes to one without such an extension are not
listened to. It is taken for granted that the system reports changes in the
directories that are watched. -/
theorem sources_watched (hsound : fs.Sound)
    (hset : resolveWith fs environment usual options = .ok set) :
    (set.watchRoots.Pairwise fun root other => root.agrees other = false) ∧
    ∀ source ∈ set.sources,
      (∃ directory, source.path.parent? = some directory ∧
        ∃ root ∈ set.watchRoots, root.agrees directory = true) ∧
      (options.hasExplicitFiles = false → TellsMetadata source.path) ∧
      (ToldApart fs options.grammarPath source.path →
        ∀ changed, changed.agrees (fs.absolute source.path) = true →
          (isRelevant options.grammarPath changed = true ↔ TellsMetadata source.path) ∧
          (TellsMetadata source.path → Triggers options.grammarPath changed)) := by
  refine ⟨watchRoots_apart hset, fun source hsource => ⟨?_, fun hsearched => ?_, ?_⟩⟩
  · obtain ⟨lead, name, hpieces, hname⟩ :=
      FileSystem.exists_name_of_isFile hsound (isFile_of_mem_sources hsound hset hsource)
    obtain ⟨directory, hdirectory, -⟩ := Path.exists_parent hpieces hname.isStep
    exact ⟨directory, hdirectory, SourceSet.exists_watchRoot hsource hdirectory⟩
  · obtain ⟨directory, -, name, kind, hstands, rfl⟩ :=
      candidate_of_mem_sources hsound hsearched hset hsource
    exact hstands.tellsMetadata hsound
  · intro hapart changed hchanged
    have hrelevant := hapart.isRelevant_iff hsound (isFile_of_mem_sources hsound hset hsource)
      hchanged
    exact ⟨hrelevant, fun hmetadata => triggers_of_isRelevant (hrelevant.2 hmetadata)⟩

/-- An install directory with other files beside its core file, and a grammar
with the name of one of them. -/
def besideCore : FileSystem :=
  coreFiles [(["work", "lang.json"], .file .empty), (["work", "op", "lang.json"], .file .empty),
    (["work", "op", "notes.txt"], .file .empty)]

theorem besideCore_sound : besideCore.Sound := coreFiles_sound (by decide)

/-- Of two named files, the loop listens to the one with an extension of
metadata, although the other one is the core file. -/
theorem besideCore_watched :
    ∃ set, resolveWith besideCore [] []
        { core := some ⟨"op/notes.txt"⟩, game := [⟨"op/lang.json"⟩],
          grammar := some ⟨"/work/lang.json"⟩ } = .ok set ∧
      set.watchRoots = [⟨"op"⟩] ∧
      isRelevant ⟨"/work/lang.json"⟩ ⟨"/work/op/notes.txt"⟩ = false ∧
      Triggers ⟨"/work/lang.json"⟩ ⟨"/work/op/lang.json"⟩ := by
  have hresolve : resolveWith besideCore [] []
      { core := some ⟨"op/notes.txt"⟩, game := [⟨"op/lang.json"⟩],
        grammar := some ⟨"/work/lang.json"⟩ } = .ok
        ⟨[⟨⟨"op/notes.txt"⟩, .core⟩, ⟨⟨"op/lang.json"⟩, .application⟩], []⟩ :=
    eq_ok_of_toOption (by decide +kernel)
  have hgrammar : besideCore.canonical ⟨"/work/lang.json"⟩ = .ok ⟨"/work/lang.json"⟩ :=
    eq_ok_of_toOption (by decide +kernel)
  have hother : besideCore.canonical ⟨"op/lang.json"⟩ = .ok ⟨"/work/op/lang.json"⟩ :=
    eq_ok_of_toOption (by decide +kernel)
  have hapart : ToldApart besideCore ⟨"/work/lang.json"⟩ ⟨"op/lang.json"⟩ :=
    .otherFile (by decide) hgrammar (by rw [hother]; decide)
  obtain ⟨-, hsources⟩ := sources_watched besideCore_sound hresolve
  obtain ⟨-, -, hheard⟩ := hsources ⟨⟨"op/lang.json"⟩, .application⟩ (by decide)
  obtain ⟨hrelevant, htriggers⟩ := hheard hapart ⟨"/work/op/lang.json"⟩ (by decide +kernel)
  exact ⟨_, hresolve, by decide +kernel, by decide +kernel,
    htriggers (hrelevant.1 (by decide +kernel))⟩

/-- The loop listens to every source that is not the grammar. This is what one
might expect of it, and it is refuted below. -/
def HearsAll (fs : FileSystem) (options : Options) : Prop :=
  ∀ set, resolveWith fs [] [] options = .ok set → ∀ source ∈ set.sources,
    fs.canonical source.path ≠ fs.canonical options.grammarPath →
      isRelevant options.grammarPath (fs.absolute source.path) = true

theorem not_hearsAll {source : Source} (hset : resolveWith fs [] [] options = .ok set)
    (hsource : source ∈ set.sources) (hgrammar : fs.isFile options.grammarPath = true)
    (hother : fileKey fs source.path ≠ fileKey fs options.grammarPath)
    (hunheard : isRelevant options.grammarPath (fs.absolute source.path) = false) :
    ¬HearsAll fs options := by
  intro h
  obtain ⟨place, hplace⟩ := FileSystem.exists_place_of_isFile hgrammar
  have hcanonical := mt (fileKey_eq_of_canonical_eq hplace) hother
  rw [h set hset source hsource hcanonical] at hunheard
  cases hunheard

/-- A named file may have another extension, and the path of one may end with
that of the grammar. So not every source is listened to. -/
theorem named_file_unheard :
    ¬HearsAll besideCore
        { core := some ⟨"op/notes.txt"⟩, grammar := some ⟨"/work/lang.json"⟩ } ∧
      ¬HearsAll besideCore
        { core := some ⟨"op/lang.json"⟩, grammar := some ⟨"lang.json"⟩ } := by
  have hextension : resolveWith besideCore [] []
      { core := some ⟨"op/notes.txt"⟩, grammar := some ⟨"/work/lang.json"⟩ } =
        .ok ⟨[⟨⟨"op/notes.txt"⟩, .core⟩], []⟩ := eq_ok_of_toOption (by decide +kernel)
  have hend : resolveWith besideCore [] []
      { core := some ⟨"op/lang.json"⟩, grammar := some ⟨"lang.json"⟩ } =
        .ok ⟨[⟨⟨"op/lang.json"⟩, .core⟩], []⟩ := eq_ok_of_toOption (by decide +kernel)
  exact ⟨not_hearsAll hextension (List.mem_singleton_self _) (by decide +kernel)
      (by decide +kernel) (by decide +kernel),
    not_hearsAll hend (List.mem_singleton_self _) (by decide +kernel) (by decide +kernel)
      (by decide +kernel)⟩

end Resolution

end SymbolPatterns
