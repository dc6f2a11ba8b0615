import SymbolPatterns.Proofs.FileSystem.Canonical
import SymbolPatterns.Proofs.Outcome
import SymbolPatterns.Source.Resolution

/-!
What the keys of paths say about where the paths lead. Paths to one file have
one key. The converse needs names that are texts: names that are not can be
shown alike, and then two files have one key.
-/

namespace SymbolPatterns

namespace FileSystem

variable {fs : FileSystem}

/-- Every name in the file system is a text. It is so on most machines, but
nothing makes it so: a name may be any octets without a slash or a zero. -/
def NamesAreTexts (fs : FileSystem) : Prop :=
  ∀ entry ∈ fs.nodes, ∀ name ∈ entry.1, name.isText = true

theorem isText_pathTo {place : Location} (h : ∀ name ∈ place, name.isText = true) :
    (pathTo place).raw.isText = true := by
  have hslash : RawText.isText "/" = true := RawText.isText_ofText "/"
  have hjoined :
      (RawText.ofList ([Path.slash].intercalate (place.map RawText.toList))).isText = true := by
    induction place with
    | nil => exact RawText.isText_ofText ""
    | cons name rest ih =>
        obtain ⟨hname, hrest⟩ := List.forall_mem_cons.1 h
        cases rest with
        | nil =>
            rw [List.map_singleton, List.intercalate_singleton]
            exact hname
        | cons next rest =>
            rw [List.map_cons, List.map_cons, List.intercalate_cons_cons, ← List.map_cons]
            exact RawText.isText_append (RawText.isText_append hname hslash) (ih hrest)
  exact RawText.isText_append hslash hjoined

/-- Where all names are texts, so is every canonical path, and its key is the
path itself. -/
theorem Sound.isText_pathTo (hsound : fs.Sound) (hnames : fs.NamesAreTexts) {path : Path}
    {place : Location} (h : fs.resolve .follow path = .ok place) :
    (pathTo place).raw.isText = true := by
  have hthere : ∀ place node, place ≠ [] → fs.node? place = some node →
      ∀ name ∈ place, name.isText = true := by
    intro place node hne hnode
    have hmem := mem_nodes_of_node?_ne_none hne (hnode ▸ Option.some_ne_none node)
    obtain ⟨entry, hentry, rfl⟩ := List.mem_map.1 hmem
    exact hnames entry hentry
  obtain ⟨-, -, links, -, hleads⟩ := leads_of_resolve h
  refine FileSystem.isText_pathTo (hleads.forall_names (fun place name node _ hnode =>
    hthere _ node (by simp) hnode name (by simp)) fun name hname => ?_)
  unfold startOf at hname
  split at hname
  · cases hname
  · exact hthere _ .directory (List.ne_nil_of_mem hname)
      (node?_of_isDirectoryAt hsound.inDirectory) name hname

end FileSystem

namespace Resolution

variable {fs : FileSystem}

theorem standing_of_resolve {path : Path} {place : Location}
    (h : fs.resolve .follow path = .ok place) : standing fs path = FileSystem.pathTo place := by
  rw [standing, FileSystem.canonical, h]
  rfl

theorem standing_of_error {path : Path} {cause : AccessError}
    (h : fs.resolve .follow path = .error cause) : standing fs path = path := by
  rw [standing, FileSystem.canonical, h]
  rfl

theorem exists_node_of_there {path : Path}
    (h : fs.isFile path = true ∨ fs.isDirectory path = true) :
    ∃ place node, fs.resolve .follow path = .ok place ∧ fs.node? place = some node ∧
      ∀ target, node ≠ .link target := by
  rcases h with hfile | hdirectory
  · obtain ⟨place, content, hplace, hcontent⟩ := FileSystem.exists_file_of_isFile hfile
    exact ⟨place, .file content, hplace, hcontent, nofun⟩
  · obtain ⟨place, hplace, hdirectory⟩ := FileSystem.isDirectory_iff.1 hdirectory
    exact ⟨place, .directory, hplace, FileSystem.node?_of_isDirectoryAt hdirectory,
      FileSystem.directory_ne_link⟩

/-- The keys of some paths tell where they lead: with one that leads to a file
or directory, each other one with its key leads there. Results that speak of
files and not of keys have this as a premise, for the paths that they come
across. Two files whose paths are shown alike break it. -/
def KeysTell (fs : FileSystem) (among : Path → Prop) : Prop :=
  ∀ path other, among path → among other → fs.isFile path = true ∨ fs.isDirectory path = true →
    fileKey fs other = fileKey fs path → fs.canonical other = fs.canonical path

theorem fileKey_eq_of_canonical_eq {path other : Path} {place : Location}
    (hplace : fs.resolve .follow path = .ok place) (h : fs.canonical other = fs.canonical path) :
    fileKey fs other = fileKey fs path := by
  have hcanonical : fs.canonical path = .ok (FileSystem.pathTo place) := by
    rw [FileSystem.canonical, hplace]
    rfl
  rw [fileKey, fileKey, standing, standing, h, hcanonical]

theorem KeysTell.imp {among fewer : Path → Prop} (h : KeysTell fs among)
    (hsub : ∀ path, fewer path → among path) : KeysTell fs fewer :=
  fun path other hpath hother => h path other (hsub path hpath) (hsub other hother)

/-- Where keys tell, they tell the same as canonical paths. One direction
holds anyway: a canonical path has one key. -/
theorem KeysTell.fileKey_eq_iff {among : Path → Prop} (h : KeysTell fs among) {path other : Path}
    (hpath : among path) (hother : among other)
    (hthere : fs.isFile path = true ∨ fs.isDirectory path = true) :
    fileKey fs other = fileKey fs path ↔ fs.canonical other = fs.canonical path := by
  obtain ⟨place, -, hplace, -, -⟩ := exists_node_of_there hthere
  exact ⟨h path other hpath hother hthere, fileKey_eq_of_canonical_eq hplace⟩

/-- Where all names are texts the keys tell where paths lead, as long as those
that lead nowhere are texts themselves: no such path is spelled as the
canonical path of a file or directory. A path that leads nowhere has itself as
key, and only as a text can it be told from the canonical paths. -/
theorem keysTell_of_namesAreTexts (hsound : fs.Sound) (hnames : fs.NamesAreTexts)
    {among : Path → Prop}
    (hpaths : ∀ path, among path → fs.isFile path = true ∨ path.raw.isText = true) :
    KeysTell fs among := by
  intro path other _ hother hthere hkey
  obtain ⟨place, node, hplace, hnode, hnolink⟩ := exists_node_of_there hthere
  have hcanonical := hsound.resolve_pathTo hplace hnode hnolink
  have htext := hsound.isText_pathTo hnames hplace
  rw [fileKey, fileKey, standing_of_resolve hplace] at hkey
  cases hstop : fs.resolve .follow other with
  | ok stop =>
      rw [standing_of_resolve hstop] at hkey
      have hsame := (RawText.shown_inj (hsound.isText_pathTo hnames hstop) htext).1 hkey
      rw [FileSystem.canonical, FileSystem.canonical, hplace, hstop]
      exact congrArg Except.ok (congrArg Path.ofRaw hsame)
  | error cause =>
      rw [standing_of_error hstop] at hkey
      have hraw : other.raw.isText = true := by
        refine (hpaths other hother).resolve_left fun hfile => ?_
        obtain ⟨stop, hok⟩ := FileSystem.exists_place_of_isFile hfile
        rw [hok] at hstop
        cases hstop
      have hsame := congrArg Path.ofRaw ((RawText.shown_inj hraw htext).1 hkey)
      rw [show other = FileSystem.pathTo place from hsame, hcanonical] at hstop
      cases hstop

end Resolution

theorem FileSystem.SameFile.fileKey_eq {fs : FileSystem} {path other : Path}
    (h : fs.SameFile path other) : Resolution.fileKey fs path = Resolution.fileKey fs other := by
  rcases h with rfl | ⟨place, hplace, hstop⟩
  · rfl
  · rw [Resolution.fileKey, Resolution.fileKey, Resolution.standing_of_resolve hplace,
      Resolution.standing_of_resolve hstop]

/-- Files with one key are one file where the keys tell. With this, what is
dropped for its key has been read already. -/
theorem Resolution.KeysTell.sameFile {fs : FileSystem} {among : Path → Prop}
    (h : KeysTell fs among) (hwork : FileSystem.Spelled fs.workDir) {path other : Path}
    (hpath : among path) (hother : among other) (hfile : fs.isFile path = true)
    (hkey : fileKey fs path = fileKey fs other) : fs.SameFile path other := by
  obtain ⟨place, hplace⟩ := FileSystem.exists_place_of_isFile hfile
  have hcanonical := h path other hpath hother (.inl hfile) hkey.symm
  exact .inr ⟨place, hplace,
    FileSystem.resolve_eq_of_canonical_eq hwork hplace hcanonical.symm⟩

end SymbolPatterns
