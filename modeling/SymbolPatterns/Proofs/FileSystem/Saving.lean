import SymbolPatterns.Proofs.FileSystem.Replace
import SymbolPatterns.Proofs.FileSystem.SameFile
import SymbolPatterns.Proofs.FileSystem.Steps

/-!
A file that can be read can be replaced. Its directory can be reached, also from
the root by way of the working directory, so the temporary file is made; and the
name in the last place of the path does not stand for a directory, so the rename
is not refused.
-/

namespace SymbolPatterns.FileSystem

variable {fs : FileSystem}

/-- The working directory can be spelled, and is a directory as is each one
above it. Temporary files are made by a path that goes through it from the
root. -/
structure WorksIn (fs : FileSystem) : Prop where
  inDirectory : fs.isDirectoryAt fs.workDir = true
  rooted : fs.Rooted fs.workDir
  isName : ∀ name ∈ fs.workDir, IsName name
  spells : ∀ name ∈ fs.workDir, Path.slash ∉ name.toList ∧ 0 ∉ name.toList

/-- A joined text ends as its last piece does, unless that piece is empty and
a separator stands at the end. -/
private theorem getLast?_intercalate {separator piece : List UInt8} (pieces : List (List UInt8))
    (h : piece ≠ []) :
    (separator.intercalate (pieces ++ [piece])).getLast? = piece.getLast? := by
  induction pieces with
  | nil => rw [List.nil_append, List.intercalate_singleton]
  | cons first pieces ih =>
      rw [List.cons_append, List.intercalate_cons_of_ne_nil (by simp), List.getLast?_append, ih]
      cases hlast : piece.getLast? with
      | none => exact absurd (List.getLast?_eq_none_iff.1 hlast) h
      | some c => rfl

private theorem endsInSlash_pathTo {place : Location} (h : Spelled place) :
    (pathTo place).raw.toList.getLast? = some Path.slash ↔ place = [] := by
  rcases List.eq_nil_or_concat' place with rfl | ⟨names, name, rfl⟩
  · simp [toList_pathTo]
  · obtain ⟨hne, hslash⟩ := h name (by simp)
    have hoctets : name.toList ≠ [] := mt RawText.toList_eq_nil_iff.1 hne
    rw [toList_pathTo, List.map_append, List.getLast?_cons, List.map_singleton,
      getLast?_intercalate _ hoctets, List.getLast?_eq_some_getLast hoctets]
    simpa using fun heq : name.toList.getLast hoctets = Path.slash =>
      hslash (heq ▸ List.getLast_mem hoctets)

/-- A relative path from a location, spelled out from the root. The root
itself is a slash already and gets no second one. -/
theorem toList_join {place : Location} {path : Path} (hplace : Spelled place)
    (hrelative : path.isAbsolute = false) :
    ((pathTo place).join path).raw.toList =
      if place = [] then Path.slash :: path.raw.toList
      else Path.slash :: ([Path.slash].intercalate (place.map RawText.toList) ++
        Path.slash :: path.raw.toList) := by
  have hempty : (pathTo place).raw.isEmpty = false := rfl
  have hslash := endsInSlash_pathTo hplace
  unfold Path.join
  rw [hrelative, hempty, if_neg Bool.false_ne_true, Bool.false_or]
  by_cases hnil : place = []
  · rw [if_pos hnil, if_pos (beq_iff_eq.2 (hslash.2 hnil)), RawText.toList_append, toList_pathTo,
      hnil]
    rfl
  · rw [if_neg hnil, if_neg (mt beq_iff_eq.1 (mt hslash.1 hnil)), RawText.toList_append,
      RawText.toList_append, toList_pathTo, List.cons_append, List.cons_append, List.append_assoc]
    rfl

theorem pathPieces_join {place : Location} {path : Path} (hplace : Spelled place)
    (hrelative : path.isAbsolute = false) :
    pathPieces ((pathTo place).join path) = RawText.ofText "" :: place ++ pathPieces path := by
  have hback : (place.map RawText.toList).map RawText.ofList = place :=
    RawText.map_ofList_toList place
  unfold pathPieces Path.pieces
  rw [toList_join hplace hrelative]
  split
  · next hnil =>
    rw [hnil, Text.splitAt_separator]
    rfl
  · next hnil =>
    have hslash : ∀ piece ∈ place.map RawText.toList, Path.slash ∉ piece := by
      intro piece hpiece
      obtain ⟨name, hname, rfl⟩ := List.mem_map.1 hpiece
      exact (hplace name hname).2
    rw [Text.splitAt_separator, Text.splitAt_intercalate _ (by simpa using hnil) hslash,
      List.map_cons, List.map_append, hback]
    rfl

theorem mem_intercalate {separator : List UInt8} {pieces : List (List UInt8)} {c : UInt8}
    (h : c ∈ separator.intercalate pieces) : c ∈ separator ∨ ∃ piece ∈ pieces, c ∈ piece := by
  induction pieces with
  | nil => cases h
  | cons piece others ih =>
      by_cases hnil : others = []
      · rw [hnil, List.intercalate_singleton] at h
        exact .inr ⟨piece, List.mem_cons_self, h⟩
      · rw [List.intercalate_cons_of_ne_nil hnil, List.append_assoc, List.mem_append,
          List.mem_append] at h
        rcases h with h | h | h
        · exact .inr ⟨piece, List.mem_cons_self, h⟩
        · exact .inl h
        · refine (ih h).imp_right ?_
          rintro ⟨other, hother, hc⟩
          exact ⟨other, List.mem_cons_of_mem piece hother, hc⟩

theorem mem_toList_join {place : Location} {path : Path} (hplace : Spelled place)
    (hrelative : path.isAbsolute = false) {c : UInt8}
    (h : c ∈ ((pathTo place).join path).raw.toList) :
    c = Path.slash ∨ (∃ name ∈ place, c ∈ name.toList) ∨ c ∈ path.raw.toList := by
  rw [toList_join hplace hrelative] at h
  split at h
  · exact (List.mem_cons.1 h).imp_right .inr
  · rw [List.mem_cons, List.mem_append, List.mem_cons] at h
    rcases h with h | h | h | h
    · exact .inl h
    · rcases mem_intercalate h with h | ⟨piece, hpiece, hc⟩
      · exact .inl (List.mem_singleton.1 h)
      · obtain ⟨name, hname, rfl⟩ := List.mem_map.1 hpiece
        exact .inr (.inl ⟨name, hname, hc⟩)
    · exact .inl h
    · exact .inr (.inr h)

theorem isAbsolute_join {place : Location} {path : Path} (hplace : Spelled place)
    (hrelative : path.isAbsolute = false) : ((pathTo place).join path).isAbsolute = true := by
  rw [Path.isAbsolute, toList_join hplace hrelative]
  split <;> simp

theorem WorksIn.spelled (h : fs.WorksIn) : Spelled fs.workDir := fun name hname =>
  ⟨(h.isName name hname).notEmpty, (h.spells name hname).1⟩

theorem pathPieces_ne_nil (path : Path) : pathPieces path ≠ [] := by
  simp [pathPieces, Path.pieces, Text.splitAt_ne_nil]

theorem text_ne_of_isAbsolute {path : Path} (h : path.isAbsolute = true) : path.raw ≠ "" := by
  intro hempty
  rw [Path.isAbsolute, hempty] at h
  cases h

/-- The resolution of a path, once its text is known to be usable. It goes
from the relation back to what programs call. -/
theorem resolve_of_leads {path : Path} {place : Location} {links : Nat}
    (hzero : 0 ∉ path.raw.toList) (hempty : path.raw ≠ "") (hlinks : links ≤ linkBudget)
    (h : fs.Leads .follow links (startOf fs.workDir path) (pathPieces path) place) :
    fs.resolve .follow path = .ok place := by
  rw [resolve_eq_resolveFrom (by simpa using hzero)
    (Bool.eq_false_iff.2 (mt RawText.isEmpty_iff.1 hempty))]
  exact h.resolveFrom hlinks

/-- Spelled out from the root, a path leads where it leads from the working
directory. No links stand above the working directory, so the budget of links
is the same. -/
theorem WorksIn.resolve_join (h : fs.WorksIn) {path : Path} {place : Location} {links : Nat}
    (hzero : 0 ∉ path.raw.toList) (hempty : path.raw ≠ "") (hlinks : links ≤ linkBudget)
    (hleads : fs.Leads .follow links (startOf fs.workDir path) (pathPieces path) place) :
    fs.resolve .follow ((pathTo fs.workDir).join path) = .ok place := by
  cases habsolute : path.isAbsolute with
  | true =>
      rw [Path.join, if_pos habsolute]
      exact resolve_of_leads hzero hempty hlinks hleads
  | false =>
      have hroot := isAbsolute_join h.spelled habsolute
      have hfree : 0 ∉ ((pathTo fs.workDir).join path).raw.toList := by
        intro hmem
        rcases mem_toList_join h.spelled habsolute hmem with hslash | ⟨name, hname, hmem⟩ | hmem
        · cases hslash
        · exact (h.spells name hname).2 hmem
        · exact hzero hmem
      have hstart : startOf fs.workDir path = fs.workDir := by
        rw [startOf, habsolute, if_neg Bool.false_ne_true]
      have hfront := leads_of_rooted h.rooted (node?_of_isDirectoryAt h.inDirectory)
        directory_ne_link h.isName
      rw [hstart] at hleads
      have hwhole := Leads.stay rfl (.inl rfl) (hfront.append hleads (pathPieces_ne_nil path))
      refine resolve_of_leads hfree (text_ne_of_isAbsolute hroot) hlinks ?_
      rwa [startOf, if_pos hroot, pathPieces_join h.spelled habsolute]

/-- A path that a file can be read from: a directory is reached by the pieces
in front, and the last piece is a name in it that leads to the file. No slash
stands behind it then, and neither do dots. -/
theorem exists_of_read {path : Path} {octets : ByteArray} (hrooted : fs.Rooted fs.workDir)
    (hread : fs.read path = .ok octets) :
    0 ∉ path.raw.toList ∧ ∃ directory name place stop before after,
      pathPieces path = directory ++ [name] ∧ IsName name ∧ before + after ≤ linkBudget ∧
        fs.Leads .follow before (startOf fs.workDir path) directory place ∧
        fs.Leads .follow after place [name] stop ∧ fs.isDirectoryAt stop = false := by
  obtain ⟨stop, hresolve, hfile⟩ := read_eq_ok_iff.1 hread
  have hstop := isDirectoryAt_of_file hfile
  obtain ⟨hzero, -, links, hlinks, hleads⟩ := leads_of_resolve hresolve
  obtain ⟨directory, name, hpieces⟩ : ∃ directory name, pathPieces path = directory ++ [name] :=
    (List.eq_nil_or_concat' _).resolve_left (pathPieces_ne_nil path)
  rw [hpieces] at hleads
  obtain ⟨place, before, after, hsum, hfront, hlast⟩ := hleads.split_links
  have hname := hlast.isName (hfront.rooted (hrooted.startOf path)) hstop
  exact ⟨hzero, directory, name, place, stop, before, after, hpieces, hname, by omega, hfront,
    hlast, hstop⟩

/-- A path to the directory that some first pieces of another path lead to: it
takes the same steps from the same start. Both spellings of the working
directory are covered, the empty one and the dot. -/
structure DirectoryOf (directory path : Path) (front : List RawText) : Prop where
  notEmpty : directory.raw ≠ ""
  noZero : 0 ∉ path.raw.toList → 0 ∉ directory.raw.toList
  isAbsolute : directory.isAbsolute = path.isAbsolute
  steps : steps (pathPieces directory) = steps front

theorem createTemporary_eq_ok (hwork : fs.WorksIn) {directory : Path} {place : Location}
    {links : Nat} (hzero : 0 ∉ directory.raw.toList) (hempty : directory.raw ≠ "")
    (hlinks : links ≤ linkBudget) (hplace : fs.isDirectoryAt place = true)
    (h : fs.Leads .follow links (startOf fs.workDir directory) (pathPieces directory) place)
    (content : ByteArray) :
    ∃ temporary, fs.createTemporary directory content =
      .ok (fs.setNode temporary (.file content), temporary) := by
  refine ⟨place ++ [fs.unusedName place], ?_⟩
  unfold createTemporary
  simp only [hwork.resolve_join hzero hempty hlinks h, hplace, if_true]

theorem RenamesTo.renameTarget {path : Path} {directory : List RawText} {place : Location}
    {name : RawText} (h : fs.RenamesTo path directory place name) :
    fs.renameTarget path = .ok (place ++ [name]) := by
  obtain ⟨links, hlinks, hleads⟩ := h.leads
  have hkept : (pathPieces path).reverse.dropWhile RawText.isEmpty = name :: directory.reverse := by
    rw [h.pieces, List.reverse_append, List.reverse_singleton, List.singleton_append,
      List.dropWhile_cons_of_neg (by simpa using h.isName.notEmpty)]
  have hresolve := hleads.resolveFrom hlinks
  have hfits := Nat.not_lt.2 h.isName.fits
  have hslashed : ¬(name :: directory.reverse).length < (pathPieces path).length := by
    rw [h.pieces]
    simp
  unfold FileSystem.renameTarget
  simp only [h.noZero, hkept, List.reverse_reverse, hresolve, h.inDirectory, h.isName.notHere,
    h.isName.notUp, hslashed, hfits, h.noDirectory, bind, Except.bind, Bool.not_true, decide_false,
    Bool.or_false, Bool.false_eq_true, if_false]

/-- An entry that is missing is on no way, so the temporary file takes a place
that no path went through. -/
theorem blocks_of_missing {entry : Location} (h : fs.node? entry = none) (goal : Location) :
    fs.Blocks entry goal := by
  rintro links place piece rest rfl hname hleads
  cases hleads with
  | stay _ hpiece _ => exact hpiece.elim hname.notEmpty hname.notHere
  | up _ _ => exact hname.notUp rfl
  | enter _ _ hfound _ _ => cases h.symm.trans hfound
  | jump _ _ hfound _ _ => cases h.symm.trans hfound
  | keep _ _ hfound _ => cases h.symm.trans hfound
  | miss _ _ _ hmiss => cases hmiss

theorem isDirectoryAt_of_missing {place : Location} (h : fs.node? place = none) :
    fs.isDirectoryAt place = false := by
  simp [FileSystem.isDirectoryAt, h]

/-- A file put where nothing was takes nothing away from the directories, and
is none itself. -/
theorem isDirectoryAt_setNode {temporary : Location} (hfree : fs.node? temporary = none)
    (content : ByteArray) (place : Location) :
    (fs.setNode temporary (.file content)).isDirectoryAt place = fs.isDirectoryAt place := by
  by_cases hplace : place = temporary
  · have hfile := node?_setNode_self fs (.file content) (ne_nil_of_node?_eq_none hfree)
    rw [hplace, isDirectoryAt_of_file hfile, isDirectoryAt_of_missing hfree]
  · exact isDirectoryAt_congr (node?_setNode_of_ne fs _ hplace)

/-- A file that can be read is replaced, by way of a temporary file in its
directory. Rights and full disks are not in the model, so only the shape of
the path can stand in the way, and here it does not. -/
theorem replace_of_read (hwork : fs.WorksIn) {directory path : Path} {octets : ByteArray}
    (hread : fs.read path = .ok octets)
    (hfits : ∀ front name, pathPieces path = front ++ [name] → IsName name →
      DirectoryOf directory path front) (content : ByteArray) :
    ∃ after, fs.replace directory path content = (after, .ok ()) ∧
      fs.Replaced after path content := by
  obtain ⟨hzero, front, name, place, stop, before, after, hpieces, hname, hlinks, hfront, hlast,
    hstop⟩ := exists_of_read hwork.rooted hread
  have hdirectory := hfits front name hpieces hname
  have hplace := hlast.isDirectoryAt
  have hstart : startOf fs.workDir directory = startOf fs.workDir path := by
    rw [startOf, startOf, hdirectory.isAbsolute]
  have hthere := hfront.respell hplace hdirectory.steps
  rw [← hstart] at hthere
  obtain ⟨temporary, hcreate⟩ := createTemporary_eq_ok hwork (hdirectory.noZero hzero)
    hdirectory.notEmpty (by omega) hplace hthere content
  obtain ⟨hfree, -⟩ := createTemporary_ok hcreate
  have hrename : (fs.setNode temporary (.file content)).RenamesTo path front place name := {
    noZero := by simpa using hzero
    pieces := hpieces
    isName := hname
    leads := ⟨before, by omega,
      hfront.transfer (fun other hne => node?_setNode_of_ne fs _ hne)
        (isDirectoryAt_of_missing hfree) (blocks_of_missing hfree place)⟩
    inDirectory := by rw [isDirectoryAt_setNode hfree, hplace]
    noDirectory := by rw [isDirectoryAt_setNode hfree, hlast.noDirectory hname hstop] }
  exact ⟨_, replace_eq_ok hcreate hrename.renameTarget,
    replaced_setNode hread hfree hrename.renameTarget⟩

end SymbolPatterns.FileSystem
