import Mathlib.Data.List.Nodup
import Mathlib.Data.List.Perm.Subperm
import SymbolPatterns.Proofs.FileSystem.Walk

/-!
What replacing a file changes. The temporary file gets a name that is not taken,
so taking it away again gives back the file system as it was; a rename that
succeeds changes the entry that its path names and no other.
-/

namespace SymbolPatterns.FileSystem

variable {fs : FileSystem}

theorem node?_of_ne_nil (fs : FileSystem) {place : Location} (h : place ≠ []) :
    fs.node? place = fs.nodes.lookup place := if_neg h

theorem ne_nil_of_node?_eq_none {place : Location} (h : fs.node? place = none) : place ≠ [] := by
  rintro rfl
  cases h

private theorem lookup_filter_ne {place other : Location} (h : other ≠ place)
    (nodes : List (Location × Node)) :
    (nodes.filter fun entry => entry.1 ≠ place).lookup other = nodes.lookup other := by
  induction nodes with
  | nil => rfl
  | cons entry rest ih =>
      obtain ⟨key, node⟩ := entry
      by_cases hkey : key = place
      · have hother : (other == key) = false := beq_eq_false_iff_ne.2 fun heq => h (heq.trans hkey)
        rw [List.filter_cons_of_neg (by simpa using hkey), List.lookup_cons, hother]
        exact ih
      · rw [List.filter_cons_of_pos (by simpa using hkey), List.lookup_cons, List.lookup_cons, ih]

theorem node?_setNode_self (fs : FileSystem) {place : Location} (node : Node) (h : place ≠ []) :
    (fs.setNode place node).node? place = some node := by
  rw [node?_of_ne_nil _ h]
  simp [setNode]

theorem node?_setNode_name (fs : FileSystem) (place : Location) (name : RawText) (node : Node) :
    (fs.setNode (place ++ [name]) node).node? (place ++ [name]) = some node :=
  node?_setNode_self fs node (by simp)

theorem node?_setNode_of_ne (fs : FileSystem) {place other : Location} (node : Node)
    (h : other ≠ place) : (fs.setNode place node).node? other = fs.node? other := by
  by_cases hother : other = []
  · rw [hother]
    rfl
  · have hne : (other == place) = false := beq_eq_false_iff_ne.2 h
    rw [node?_of_ne_nil _ hother, node?_of_ne_nil _ hother, setNode, List.lookup_cons, hne]
    exact lookup_filter_ne h fs.nodes

/-- An entry that was not there is taken away without a trace, so a temporary
file that was renamed or given up leaves the file system as it was. -/
theorem dropNode_setNode {place : Location} (node : Node) (h : fs.node? place = none) :
    (fs.setNode place node).dropNode place = fs := by
  rw [node?_of_ne_nil _ (ne_nil_of_node?_eq_none h), List.lookup_eq_none_iff] at h
  have hkept : fs.nodes.filter (fun entry => entry.1 ≠ place) = fs.nodes := by
    apply List.filter_eq_self.2
    intro entry hentry
    have hne : place ≠ entry.1 := by simpa using h entry hentry
    simpa using Ne.symm hne
  unfold setNode dropNode
  rw [List.filter_cons_of_neg (by simp), hkept, hkept]

theorem temporaryName_injective {index other : Nat}
    (h : temporaryName index = temporaryName other) : index = other := by
  have hlength := congrArg (fun name => name.toList.length) h
  simpa [temporaryName] using hlength

theorem mem_nodes_of_node?_ne_none {place : Location} (hplace : place ≠ [])
    (h : fs.node? place ≠ none) : place ∈ fs.nodes.map Prod.fst := by
  rw [node?_of_ne_nil _ hplace] at h
  by_contra hfree
  refine h (List.lookup_eq_none_iff.2 fun entry hentry => ?_)
  have hne : place ≠ entry.1 := fun heq => hfree (heq ▸ List.mem_map_of_mem hentry)
  simpa using hne

/-- There are more names to choose from than entries. The search for a name
therefore ends, and needs no bound of its own. -/
theorem exists_free_name (fs : FileSystem) (directory : Location) :
    ∃ index ∈ List.range (fs.nodes.length + 1),
      fs.node? (directory ++ [temporaryName index]) = none := by
  by_contra hnone
  let names := (List.range (fs.nodes.length + 1)).map fun index =>
    directory ++ [temporaryName index]
  have htaken : names ⊆ fs.nodes.map Prod.fst := by
    intro place hplace
    obtain ⟨index, hindex, rfl⟩ := List.mem_map.1 hplace
    exact mem_nodes_of_node?_ne_none (by simp) fun hfree => hnone ⟨index, hindex, hfree⟩
  have hnodup : names.Nodup := by
    refine List.Nodup.map (fun index other heq => ?_) List.nodup_range
    exact temporaryName_injective (List.singleton_inj.1 (List.append_cancel_left heq))
  have hlength := (hnodup.subperm htaken).length_le
  simp only [names, List.length_map, List.length_range] at hlength
  omega

theorem unusedName_free (fs : FileSystem) (directory : Location) :
    fs.node? (directory ++ [fs.unusedName directory]) = none := by
  obtain ⟨index, hindex, hfree⟩ := exists_free_name fs directory
  unfold unusedName
  dsimp only
  cases hfind : (List.range (fs.nodes.length + 1)).find? fun index =>
      (fs.node? (directory ++ [temporaryName index])).isNone with
  | some found => simpa using List.find?_some hfind
  | none =>
      have htaken := List.find?_eq_none.1 hfind index hindex
      rw [hfree] at htaken
      exact absurd rfl htaken

theorem createTemporary_ok {directory : Path} {content : ByteArray} {filled : FileSystem}
    {temporary : Location} (h : fs.createTemporary directory content = .ok (filled, temporary)) :
    fs.node? temporary = none ∧ filled = fs.setNode temporary (.file content) := by
  unfold createTemporary at h
  dsimp only at h
  split at h
  · cases h
  · split at h
    · obtain ⟨rfl, rfl⟩ := Prod.mk.inj (Except.ok.inj h)
      exact ⟨unusedName_free fs _, rfl⟩
    · cases h

/-- The pieces of a path that a rename takes: a directory, and a name in it
that is free or does not stand for a directory. A link in the last place is
replaced and not followed. -/
structure RenamesTo (fs : FileSystem) (path : Path) (directory : List RawText) (place : Location)
    (name : RawText) : Prop where
  noZero : path.raw.toList.contains 0 = false
  pieces : pathPieces path = directory ++ [name]
  isName : IsName name
  leads : ∃ links ≤ linkBudget,
    fs.Leads .follow links (startOf fs.workDir path) directory place
  inDirectory : fs.isDirectoryAt place = true
  noDirectory : fs.isDirectoryAt (place ++ [name]) = false

private theorem pieces_of_kept {pieces directory : List RawText} {name : RawText}
    (h : pieces.reverse.dropWhile RawText.isEmpty = name :: directory)
    (hlength : pieces.length ≤ (pieces.reverse.dropWhile RawText.isEmpty).length) :
    pieces = directory.reverse ++ [name] := by
  have hsuffix : pieces.reverse.dropWhile RawText.isEmpty <:+ pieces.reverse :=
    List.dropWhile_suffix _
  have hsame := hsuffix.eq_of_length_le (by rwa [List.length_reverse])
  rw [h] at hsame
  rw [← List.reverse_cons, hsame, List.reverse_reverse]

private theorem notEmpty_of_kept {pieces directory : List RawText} {name : RawText}
    (h : pieces.dropWhile RawText.isEmpty = name :: directory) : name ≠ "" := by
  have hhead := List.head?_dropWhile_not RawText.isEmpty pieces
  rw [h] at hhead
  simpa [← RawText.isEmpty_iff] using hhead

theorem renameTarget_ok {path : Path} {target : Location}
    (h : fs.renameTarget path = .ok target) :
    ∃ directory place name, target = place ++ [name] ∧ fs.RenamesTo path directory place name := by
  unfold renameTarget at h
  dsimp only at h
  split at h
  · cases h
  · next hzero =>
    split at h
    · split at h <;> cases h
    · next name directory hkept =>
      cases hplace : fs.resolveFrom .follow linkBudget (startOf fs.workDir path)
          directory.reverse with
      | error cause => simp [hplace, bind, Except.bind] at h
      | ok place =>
          simp only [hplace, bind, Except.bind] at h
          split at h
          · cases h
          split at h
          · cases h
          split at h
          · cases h
          split at h
          · cases h
          split at h
          · cases h
          next hinside hdots hslash hlong hfree =>
          obtain rfl := Except.ok.inj h
          simp only [Bool.or_eq_true, decide_eq_true_eq, not_or] at hdots hslash
          exact ⟨directory.reverse, place, name, rfl, {
            noZero := by simpa using hzero
            pieces := pieces_of_kept hkept (Nat.not_lt.1 hslash)
            isName := ⟨notEmpty_of_kept hkept, hdots.1, hdots.2, Nat.not_lt.1 hlong⟩
            leads := resolveFrom_eq_ok_iff.1 hplace
            inDirectory := by simpa using hinside
            noDirectory := by simpa using hfree }⟩

/-- With the temporary file made and the rename allowed, the content is put at
the target of the rename, and nothing of the temporary file is left. -/
theorem replace_eq_ok {directory path : Path} {content : ByteArray} {filled : FileSystem}
    {temporary target : Location}
    (hcreate : fs.createTemporary directory content = .ok (filled, temporary))
    (htarget : filled.renameTarget path = .ok target) :
    fs.replace directory path content = (fs.setNode target (.file content), .ok ()) := by
  obtain ⟨hfree, rfl⟩ := createTemporary_ok hcreate
  have hdrop := dropNode_setNode (.file content) hfree
  have hthere := node?_setNode_self fs (.file content) (ne_nil_of_node?_eq_none hfree)
  unfold replace
  simp [hcreate, rename, htarget, hthere, hdrop]

/-- A replacement is refused and leaves everything as it was, or puts the
content at the target of the rename. There is no outcome with a part of the
content. -/
theorem replace_cases (fs : FileSystem) (directory path : Path) (content : ByteArray) :
    (∃ refusal, fs.replace directory path content = (fs, .error refusal)) ∨
      ∃ temporary target, fs.node? temporary = none ∧
        (fs.setNode temporary (.file content)).renameTarget path = .ok target ∧
        fs.replace directory path content = (fs.setNode target (.file content), .ok ()) := by
  cases hcreate : fs.createTemporary directory content with
  | error cause =>
      refine .inl ⟨(directory, cause), ?_⟩
      simp [replace, hcreate]
  | ok made =>
      obtain ⟨filled, temporary⟩ := made
      obtain ⟨hfree, rfl⟩ := createTemporary_ok hcreate
      cases htarget : (fs.setNode temporary (.file content)).renameTarget path with
      | error cause =>
          refine .inl ⟨(path, cause), ?_⟩
          simp [replace, hcreate, rename, htarget, dropNode_setNode _ hfree]
      | ok target =>
          exact .inr ⟨temporary, target, hfree, htarget, replace_eq_ok hcreate htarget⟩

/-- The file system after a file was replaced: the entry that the path names
holds the content, and reading the path gives it; every other entry is as
before. If the entry was a link, what it led to keeps its content. -/
structure Replaced (before after : FileSystem) (path : Path) (content : ByteArray) : Prop where
  workDir : after.workDir = before.workDir
  entry : ∃ place, before.resolve .keepLink path = .ok place ∧
    after.node? place = some (.file content) ∧
    ∀ other, other ≠ place → after.node? other = before.node? other
  reads : after.read path = .ok content

private theorem text_ne_empty {path : Path} {directory : List RawText} {name : RawText}
    (h : pathPieces path = directory ++ [name]) (hname : IsName name) :
    path.raw.isEmpty = false := by
  cases hempty : path.raw.isEmpty with
  | false => rfl
  | true =>
      have htext : path.raw = "" := by simpa using hempty
      have hpieces : pathPieces path = [] ++ [RawText.ofText ""] := by
        rw [pathPieces, Path.pieces, htext]
        rfl
      obtain ⟨-, hlast⟩ := List.append_inj' (h.symm.trans hpieces) rfl
      exact absurd (List.singleton_inj.1 hlast) hname.notEmpty

theorem resolve_eq_resolveFrom {path : Path} {last : LastPiece}
    (hzero : path.raw.toList.contains 0 = false) (hempty : path.raw.isEmpty = false) :
    fs.resolve last path =
      fs.resolveFrom last linkBudget (startOf fs.workDir path) (pathPieces path) := by
  simp only [resolve, hzero, hempty, Bool.false_eq_true, if_false]

theorem read_eq_ok_iff {path : Path} {content : ByteArray} :
    fs.read path = .ok content ↔
      ∃ place, fs.resolve .follow path = .ok place ∧ fs.node? place = some (.file content) := by
  unfold read look
  cases hplace : fs.resolve .follow path with
  | error cause => simp [bind, Except.bind]
  | ok place =>
      cases hnode : fs.node? place with
      | none => simp [bind, Except.bind, hnode]
      | some node => cases node <;> simp [bind, Except.bind, hnode]

/-- The directory of a rename is reached without the temporary file, which is
new and on no way to it. So the rename can be described in the file system
from before. -/
theorem RenamesTo.withoutTemporary {path : Path} {content : ByteArray} {temporary place : Location}
    {directory : List RawText} {name : RawText} (hfree : fs.node? temporary = none)
    (h : (fs.setNode temporary (.file content)).RenamesTo path directory place name) :
    (∃ links ≤ linkBudget, fs.Leads .follow links (startOf fs.workDir path) directory place) ∧
      fs.isDirectoryAt place = true := by
  have hfile := node?_setNode_self fs (.file content) (ne_nil_of_node?_eq_none hfree)
  have hagree : ∀ other, other ≠ temporary →
      fs.node? other = (fs.setNode temporary (.file content)).node? other :=
    fun other hne => (node?_setNode_of_ne fs _ hne).symm
  have hstop := isDirectoryAt_of_file hfile
  obtain ⟨links, hlinks, hleads⟩ := h.leads
  refine ⟨⟨links, hlinks, hleads.transfer hagree hstop (blocks_of_file hfile h.inDirectory)⟩, ?_⟩
  rw [isDirectoryAt_congr (hagree place (ne_of_isDirectoryAt h.inDirectory hstop))]
  exact h.inDirectory

/-- With a file put at an entry, the way through its directory leads to this
file, if the entry did not lead to a directory before. A way that came by the
entry might otherwise be cut off. -/
theorem leads_setNode {links more : Nat} {start place stop : Location} {directory : List RawText}
    {name : RawText} (content : ByteArray)
    (hdirectory : fs.Leads .follow links start directory place)
    (hinside : fs.isDirectoryAt place = true) (hname : IsName name)
    (hlast : fs.Leads .follow more place [name] stop) (hstop : fs.isDirectoryAt stop = false) :
    (fs.setNode (place ++ [name]) (.file content)).Leads .follow links start
      (directory ++ [name]) (place ++ [name]) := by
  have hentry := hlast.noDirectory hname hstop
  have hagree : ∀ other, other ≠ place ++ [name] →
      (fs.setNode (place ++ [name]) (.file content)).node? other = fs.node? other :=
    fun other hne => node?_setNode_of_ne fs _ hne
  have hthere := hdirectory.transfer hagree hentry (blocks_of_leads hlast hstop hinside)
  have hfile := node?_setNode_name fs place name (.file content)
  have hstill : (fs.setNode (place ++ [name]) (.file content)).isDirectoryAt place = true := by
    rw [isDirectoryAt_congr (hagree place (ne_of_isDirectoryAt hinside hentry)), hinside]
  have hend : (fs.setNode (place ++ [name]) (.file content)).Leads .follow 0 place [name]
      (place ++ [name]) := .enter hstill hname hfile nofun (.arrive _)
  have hwhole := hthere.append hend (List.cons_ne_nil _ _)
  rwa [Nat.zero_add] at hwhole

/-- A file that can be read is replaced at the entry that its path names, also
where that is a link. That the rename succeeds is taken as given here. -/
theorem replaced_setNode {path : Path} {old content : ByteArray} {temporary target : Location}
    (hread : fs.read path = .ok old) (hfree : fs.node? temporary = none)
    (htarget : (fs.setNode temporary (.file content)).renameTarget path = .ok target) :
    Replaced fs (fs.setNode target (.file content)) path content := by
  obtain ⟨directory, place, name, rfl, hrename⟩ := renameTarget_ok htarget
  obtain ⟨⟨links, hlinks, hdirectory⟩, hinside⟩ := hrename.withoutTemporary hfree
  have hresolve : ∀ (files : FileSystem) (last : LastPiece), files.resolve last path =
      files.resolveFrom last linkBudget (startOf files.workDir path) (directory ++ [name]) := by
    intro files last
    rw [resolve_eq_resolveFrom hrename.noZero (text_ne_empty hrename.pieces hrename.isName),
      hrename.pieces]
  obtain ⟨stop, hstop, hold⟩ := read_eq_ok_iff.1 hread
  rw [hresolve] at hstop
  obtain ⟨_, -, hwhole⟩ := leads_of_resolveFrom hstop
  obtain ⟨through, _, _, hfirst, hlast⟩ := hwhole.split
  obtain rfl := hfirst.unique hdirectory
  have hkept := hdirectory.append (hlast.keepLink hrename.isName) (List.cons_ne_nil _ _)
  have hnew := leads_setNode content hdirectory hinside hrename.isName hlast
    (isDirectoryAt_of_file hold)
  have hfile := node?_setNode_name fs through name (.file content)
  refine ⟨rfl, ⟨through ++ [name], ?_, hfile, fun other hne => node?_setNode_of_ne fs _ hne⟩, ?_⟩
  · rw [hresolve]
    exact hkept.resolveFrom (by omega)
  · refine read_eq_ok_iff.2 ⟨through ++ [name], ?_, hfile⟩
    rw [hresolve]
    exact hnew.resolveFrom hlinks

end SymbolPatterns.FileSystem
