import SymbolPatterns.FileSystem.Access
import SymbolPatterns.Proofs.FileSystem.Walk
import SymbolPatterns.Proofs.Text.Split

/-!
When two paths name one file, and that the canonical path of a file tells files
apart. It does so because every location that a path leads to can be spelled: no
name in it is empty or has a slash in it.
-/

namespace SymbolPatterns.FileSystem

/-- A location that a path can spell: its names are not empty and have no
slash in them. Every location that a path leads to is one. -/
def Spelled (place : Location) : Prop := ∀ name ∈ place, name ≠ "" ∧ Path.slash ∉ name.toList

theorem Spelled.snoc {place : Location} {name : RawText} (h : Spelled place) (hne : name ≠ "")
    (hslash : Path.slash ∉ name.toList) : Spelled (place ++ [name]) := by
  intro other hother
  rcases List.mem_append.1 hother with hother | hother
  · exact h other hother
  · rw [List.mem_singleton.1 hother]
    exact ⟨hne, hslash⟩

theorem Spelled.startOf {directory : Location} (h : Spelled directory) (path : Path) :
    Spelled (startOf directory path) := by
  unfold FileSystem.startOf
  split
  · exact nofun
  · exact h

theorem slash_not_mem_of_mem_pathPieces {path : Path} {piece : RawText}
    (h : piece ∈ pathPieces path) : Path.slash ∉ piece.toList := by
  obtain ⟨text, htext, rfl⟩ := List.mem_map.1 h
  exact Text.not_mem_of_mem_splitAt htext

/-- Pieces without a slash lead from where a path can lead to where a path can
lead. The targets of links are paths and have such pieces as well. -/
theorem Leads.spelled {fs : FileSystem} {last : LastPiece} {links : Nat} {place goal : Location}
    {pieces : List RawText} (h : fs.Leads last links place pieces goal) (hplace : Spelled place)
    (hpieces : ∀ piece ∈ pieces, Path.slash ∉ piece.toList) : Spelled goal := by
  induction h with
  | arrive place => exact hplace
  | stay _ _ _ ih => exact ih hplace (List.forall_mem_cons.1 hpieces).2
  | @up _ place _ _ _ _ ih =>
      exact ih (fun name hname => hplace name (List.dropLast_subset place hname))
        (List.forall_mem_cons.1 hpieces).2
  | enter _ hname _ _ _ ih =>
      obtain ⟨hpiece, hrest⟩ := List.forall_mem_cons.1 hpieces
      exact ih (hplace.snoc hname.notEmpty hpiece) hrest
  | @jump _ _ _ _ _ target _ _ _ _ _ ih =>
      refine ih (hplace.startOf target) fun piece hpiece => ?_
      rcases List.mem_append.1 hpiece with hpiece | hpiece
      · exact slash_not_mem_of_mem_pathPieces hpiece
      · exact (List.forall_mem_cons.1 hpieces).2 piece hpiece
  | keep _ hname _ _ => exact hplace.snoc hname.notEmpty (hpieces _ List.mem_cons_self)
  | miss _ hname _ _ => exact hplace.snoc hname.notEmpty (hpieces _ List.mem_cons_self)

theorem spelled_of_resolve {fs : FileSystem} {last : LastPiece} {path : Path} {place : Location}
    (hwork : Spelled fs.workDir) (h : fs.resolve last path = .ok place) : Spelled place := by
  obtain ⟨-, -, links, -, hleads⟩ := leads_of_resolve h
  exact hleads.spelled (hwork.startOf path) fun piece => slash_not_mem_of_mem_pathPieces

theorem toList_pathTo (place : Location) :
    (pathTo place).raw.toList =
      Path.slash :: [Path.slash].intercalate (place.map RawText.toList) := rfl

theorem pieces_pathTo {place : Location} (h : Spelled place) :
    (pathTo place).pieces = [] :: if place = [] then [[]] else place.map RawText.toList := by
  have hslash : ∀ piece ∈ place.map RawText.toList, Path.slash ∉ piece := by
    intro piece hpiece
    obtain ⟨name, hname, rfl⟩ := List.mem_map.1 hpiece
    exact (h name hname).2
  rw [Path.pieces, toList_pathTo, Text.splitAt_separator]
  split
  · next hnil =>
    rw [hnil]
    rfl
  · next hne => rw [Text.splitAt_joined (by simpa using hne) hslash]

/-- Spelled out, a location can be read back, so different locations have
different canonical paths. -/
theorem pathTo_inj {place other : Location} (hplace : Spelled place) (hother : Spelled other)
    (h : pathTo place = pathTo other) : place = other := by
  have hempty : ∀ location, Spelled location → [[]] ≠ location.map RawText.toList := by
    intro location hlocation hnames
    obtain ⟨name, hname, hoctets⟩ := List.mem_map.1 (hnames ▸ List.mem_singleton_self [])
    exact (hlocation name hname).1 (RawText.toList_eq_nil_iff.1 hoctets)
  have hpieces := congrArg Path.pieces h
  rw [pieces_pathTo hplace, pieces_pathTo hother] at hpieces
  obtain ⟨-, hnames⟩ := List.cons.inj hpieces
  -- No names and one empty name are spelled alike, and an empty name is in neither.
  by_cases hnil : place = [] <;> by_cases hnil' : other = []
  · rw [hnil, hnil']
  · rw [if_pos hnil, if_neg hnil'] at hnames
    exact absurd hnames (hempty other hother)
  · rw [if_neg hnil, if_pos hnil'] at hnames
    exact absurd hnames.symm (hempty place hplace)
  · rw [if_neg hnil, if_neg hnil'] at hnames
    rw [← RawText.map_ofList_toList place, hnames, RawText.map_ofList_toList]

/-- What paths lead to is told apart by canonical paths. These are octets;
what is shown of them need not tell as much. -/
theorem place_eq_of_pathTo_eq {fs : FileSystem} {path other : Path} {place stop : Location}
    (hwork : Spelled fs.workDir) (hplace : fs.resolve .follow path = .ok place)
    (hstop : fs.resolve .follow other = .ok stop) (h : pathTo place = pathTo stop) :
    place = stop :=
  pathTo_inj (spelled_of_resolve hwork hplace) (spelled_of_resolve hwork hstop) h

/-- Two paths to one file or directory: one spelling twice, or two that end at
one location. A path that leads nowhere is the same file as itself, which lets
missing files be listed. -/
def SameFile (fs : FileSystem) (path other : Path) : Prop :=
  path = other ∨
    ∃ place, fs.resolve .follow path = .ok place ∧ fs.resolve .follow other = .ok place

variable {fs : FileSystem} {path other : Path}

theorem SameFile.symm (h : fs.SameFile path other) : fs.SameFile other path := by
  rcases h with rfl | ⟨place, hpath, hother⟩
  · exact .inl rfl
  · exact .inr ⟨place, hother, hpath⟩

theorem SameFile.resolve_eq (h : fs.SameFile path other) :
    fs.resolve .follow path = fs.resolve .follow other := by
  rcases h with rfl | ⟨place, hpath, hother⟩
  · rfl
  · rw [hpath, hother]

theorem SameFile.look_eq (h : fs.SameFile path other) : fs.look path = fs.look other := by
  rw [look, look, h.resolve_eq]

theorem SameFile.isFile_eq (h : fs.SameFile path other) : fs.isFile path = fs.isFile other := by
  rw [isFile, isFile, h.look_eq]

theorem SameFile.read_eq (h : fs.SameFile path other) : fs.read path = fs.read other := by
  rw [read, read, h.look_eq]

theorem exists_place_of_isFile (h : fs.isFile path = true) :
    ∃ place, fs.resolve .follow path = .ok place := by
  unfold isFile look at h
  cases hresolve : fs.resolve .follow path with
  | error cause =>
      rw [hresolve] at h
      cases h
  | ok place => exact ⟨place, rfl⟩

end SymbolPatterns.FileSystem
