import SymbolPatterns.Proofs.FileSystem.Saving

/-!
Which paths have one canonical path. Paths with the same components have, if
both lead somewhere; and the canonical path of a directory leads back to it, so
it has itself as canonical path. What a directory is found to list is what paths
into it lead to.
-/

namespace SymbolPatterns.FileSystem

variable {fs : FileSystem}

theorem isDirectory_iff {path : Path} :
    fs.isDirectory path = true ↔
      ∃ place, fs.resolve .follow path = .ok place ∧ fs.isDirectoryAt place = true := by
  unfold isDirectory look
  cases fs.resolve .follow path with
  | error cause => simp [bind, Except.bind]
  | ok place =>
      have hplace : (∃ other, Except.ok place = (.ok other : Except AccessError Location) ∧
          fs.isDirectoryAt other = true) ↔ fs.isDirectoryAt place = true := by simp
      rw [hplace, isDirectoryAt]
      cases hnode : fs.node? place with
      | none => simp [bind, Except.bind, hnode]
      | some node => cases node <;> simp [bind, Except.bind, hnode]

theorem exists_file_of_isFile {path : Path} (h : fs.isFile path = true) :
    ∃ place content, fs.resolve .follow path = .ok place ∧
      fs.node? place = some (.file content) := by
  obtain ⟨place, hplace⟩ := exists_place_of_isFile h
  unfold isFile look at h
  rw [hplace] at h
  cases hnode : fs.node? place with
  | none => simp [bind, Except.bind, hnode] at h
  | some node =>
      cases node with
      | file content => exact ⟨place, content, hplace, hnode⟩
      | directory => simp [bind, Except.bind, hnode] at h
      | link target => simp [bind, Except.bind, hnode] at h

theorem Leads.tail_of_stay {links : Nat} {place goal : Location} {piece : RawText}
    {rest : List RawText} (h : fs.Leads .follow links place (piece :: rest) goal)
    (hpiece : piece = "" ∨ piece = ".") : fs.Leads .follow links place rest goal := by
  cases h with
  | stay _ _ next => exact next
  | up _ _ => exact absurd hpiece (by decide)
  | enter _ hname _ _ _ => exact (hpiece.elim hname.notEmpty hname.notHere).elim
  | jump _ hname _ _ _ => exact (hpiece.elim hname.notEmpty hname.notHere).elim
  | keep _ _ _ hkeep => cases hkeep
  | miss _ _ _ hmiss => cases hmiss

theorem Leads.tail_of_stays {links : Nat} {place goal : Location} {skips rest : List RawText}
    (h : fs.Leads .follow links place (skips ++ rest) goal)
    (hskips : ∀ skip ∈ skips, skip = "" ∨ skip = ".") : fs.Leads .follow links place rest goal := by
  induction skips with
  | nil => exact h
  | cons skip skips ih =>
      obtain ⟨hskip, hskips⟩ := List.forall_mem_cons.1 hskips
      exact ih (h.tail_of_stay hskip) hskips

theorem Leads.tail_of_up {links : Nat} {place goal : Location} {rest : List RawText}
    (h : fs.Leads .follow links place (".." :: rest) goal) :
    fs.Leads .follow links place.dropLast rest goal := by
  cases h with
  | stay _ hpiece _ => exact absurd hpiece (by decide)
  | up _ next => exact next
  | enter _ hname _ _ _ => exact absurd rfl hname.notUp
  | jump _ hname _ _ _ => exact absurd rfl hname.notUp
  | keep _ _ _ hkeep => cases hkeep
  | miss _ _ _ hmiss => cases hmiss

/-- From a name the way goes on as what stands there says: on from the place
itself, or over a link from where its target leads. -/
theorem Leads.tail_of_name {links : Nat} {place goal : Location} {piece : RawText}
    {rest : List RawText} (h : fs.Leads .follow links place (piece :: rest) goal)
    (hname : IsName piece) :
    ∃ node, fs.node? (place ++ [piece]) = some node ∧
      ((∀ target, node ≠ .link target) ∧ fs.Leads .follow links (place ++ [piece]) rest goal ∨
        ∃ target less, node = .link target ∧
          fs.Leads .follow less (startOf place target) (pathPieces target ++ rest) goal) := by
  cases h with
  | stay _ hpiece _ => exact (hpiece.elim hname.notEmpty hname.notHere).elim
  | up _ _ => exact absurd rfl hname.notUp
  | enter _ _ hnode hnolink next => exact ⟨_, hnode, .inl ⟨hnolink, next⟩⟩
  | jump _ _ hlink _ next => exact ⟨_, hlink, .inr ⟨_, _, rfl, next⟩⟩
  | keep _ _ _ hkeep => cases hkeep
  | miss _ _ _ hmiss => cases hmiss

/-- Pieces that take the same steps lead to one location. Unlike ways with the
same pieces they need not fail alike: a file with a slash behind it leads
nowhere. -/
theorem Leads.unique_of_steps {links more : Nat} {place goal other : Location}
    {pieces others : List RawText} (h : fs.Leads .follow links place pieces goal)
    (hother : fs.Leads .follow more place others other) (hsteps : steps others = steps pieces) :
    goal = other := by
  induction h generalizing others more with
  | arrive place =>
      have hskips : ∀ skip ∈ others, skip = "" ∨ skip = "." := fun skip hskip =>
        isStep_eq_false_iff.1 (Bool.not_eq_true _ ▸ List.filter_eq_nil_iff.1 hsteps skip hskip)
      rw [← List.append_nil others] at hother
      cases hother.tail_of_stays hskips
      rfl
  | stay hdirectory hpiece _ ih => exact ih hother (hsteps.trans (steps_cons_of_stay hpiece _))
  | up hdirectory _ ih =>
      rw [steps_cons_of_isStep (by decide)] at hsteps
      obtain ⟨skips, tail, rfl, hskips, htail⟩ := exists_of_steps_eq_cons hsteps
      exact ih (hother.tail_of_stays hskips).tail_of_up htail
  | enter hdirectory hname hnode hnolink _ ih =>
      rw [steps_cons_of_isStep hname.isStep] at hsteps
      obtain ⟨skips, tail, rfl, hskips, htail⟩ := exists_of_steps_eq_cons hsteps
      obtain ⟨node, hfound, ⟨-, hnext⟩ | ⟨target, -, rfl, -⟩⟩ :=
        (hother.tail_of_stays hskips).tail_of_name hname
      · exact ih hnext htail
      · exact absurd (Option.some.inj (hnode.symm.trans hfound)) (hnolink target)
  | @jump _ _ _ _ rest target hdirectory hname hlink _ _ ih =>
      rw [steps_cons_of_isStep hname.isStep] at hsteps
      obtain ⟨skips, tail, rfl, hskips, htail⟩ := exists_of_steps_eq_cons hsteps
      obtain ⟨node, hfound, ⟨hnolink, -⟩ | ⟨aim, less, rfl, hnext⟩⟩ :=
        (hother.tail_of_stays hskips).tail_of_name hname
      · exact absurd (Option.some.inj (hfound.symm.trans hlink)) (hnolink target)
      · obtain rfl := Node.link.inj (Option.some.inj (hlink.symm.trans hfound))
        have hsame : steps (pathPieces target ++ tail) = steps (pathPieces target ++ rest) := by
          rw [steps_append, steps_append, htail]
        exact ih hnext hsame
  | keep _ _ _ hkeep => cases hkeep
  | miss _ _ _ hmiss => cases hmiss

/-- Paths with the same components that lead somewhere lead to one location.
So two sources with one place in the order of reading are one file. -/
theorem sameFile_of_components_eq {path other : Path} {place stop : Location}
    (h : path.components = other.components) (hpath : fs.resolve .follow path = .ok place)
    (hother : fs.resolve .follow other = .ok stop) : fs.SameFile path other := by
  obtain ⟨habsolute, hpieces⟩ := Path.steps_eq_of_components_eq h
  obtain ⟨-, -, links, -, hleads⟩ := leads_of_resolve hpath
  obtain ⟨-, -, more, -, hmore⟩ := leads_of_resolve hother
  have hstart : startOf fs.workDir other = startOf fs.workDir path := by
    rw [startOf, startOf, habsolute]
  have hsteps : steps (pathPieces other) = steps (pathPieces path) := by
    rw [pathPieces, pathPieces, steps_map_ofList, steps_map_ofList, hpieces]
  rw [hstart] at hmore
  obtain rfl := hleads.unique_of_steps hmore hsteps
  exact .inr ⟨place, hpath, hother⟩

/-- The files are there by names that a path can spell, and the working
directory is a directory as is each one above it. File systems that programs
meet are of this kind; the type would allow others. -/
structure Sound (fs : FileSystem) : Prop extends WorksIn fs where
  spellsNodes : ∀ entry ∈ fs.nodes, ∀ name ∈ entry.1, Path.slash ∉ name.toList ∧ 0 ∉ name.toList

theorem Sound.spells_of_node? (h : fs.Sound) {place : Location} {name : RawText} {node : Node}
    (hnode : fs.node? (place ++ [name]) = some node) :
    Path.slash ∉ name.toList ∧ 0 ∉ name.toList := by
  have hmem := mem_nodes_of_node?_ne_none (by simp) (hnode ▸ Option.some_ne_none node)
  obtain ⟨entry, hentry, hplace⟩ := List.mem_map.1 hmem
  exact h.spellsNodes entry hentry name (by simp [hplace])

/-- What holds of the names where a way begins, and of each name that
something stands at, holds of the names where it ends. Links may lead anywhere
on the way, but they end at names of the file system. -/
theorem Leads.forall_names {spells : RawText → Prop}
    (hspells : ∀ place name node, IsName name → fs.node? (place ++ [name]) = some node →
      spells name)
    {links : Nat} {place goal : Location} {pieces : List RawText}
    (h : fs.Leads .follow links place pieces goal) (hplace : ∀ name ∈ place, spells name) :
    ∀ name ∈ goal, spells name := by
  induction h with
  | arrive place => exact hplace
  | stay _ _ _ ih => exact ih hplace
  | up _ _ ih => exact ih fun name hname => hplace name (List.dropLast_subset _ hname)
  | enter _ hpiece hnode _ _ ih =>
      refine ih fun name hname => ?_
      rcases List.mem_append.1 hname with hname | hname
      · exact hplace name hname
      · rw [List.mem_singleton.1 hname]
        exact hspells _ _ _ hpiece hnode
  | @jump _ _ _ _ _ target _ _ _ _ _ ih =>
      refine ih fun name hname => ?_
      unfold FileSystem.startOf at hname
      split at hname
      · cases hname
      · exact hplace name hname
  | keep _ _ _ hkeep => cases hkeep
  | miss _ _ _ hmiss => cases hmiss

theorem leads_pathPieces_pathTo {place : Location} (hspelled : Spelled place)
    (h : fs.Leads .follow 0 [] place place) :
    fs.Leads .follow 0 [] (pathPieces (pathTo place)) place := by
  have hpieces : pathPieces (pathTo place) =
      RawText.ofText "" :: if place = [] then [RawText.ofText ""] else place := by
    rw [pathPieces, pieces_pathTo hspelled, List.map_cons]
    refine congrArg (List.cons (RawText.ofText "")) ?_
    split
    · rfl
    · exact RawText.map_ofList_toList place
  rw [hpieces]
  refine .stay rfl (.inl rfl) ?_
  split
  · exact .stay rfl (.inl rfl) (by simp_all)
  · exact h

/-- The canonical path of a file or directory leads to it. What stands there
must not be a link, which following would not stop at; it never is for a path
that was followed to its end. -/
theorem Sound.resolve_pathTo (hsound : fs.Sound) {path : Path} {place : Location} {node : Node}
    (h : fs.resolve .follow path = .ok place) (hplace : fs.node? place = some node)
    (hnolink : ∀ target, node ≠ .link target) :
    fs.resolve .follow (pathTo place) = .ok place := by
  obtain ⟨-, -, links, -, hleads⟩ := leads_of_resolve h
  have hnames : ∀ name ∈ place, IsName name ∧ Path.slash ∉ name.toList ∧ 0 ∉ name.toList := by
    refine hleads.forall_names (fun _ name _ hname hnode =>
      ⟨hname, hsound.spells_of_node? hnode⟩) fun name hname => ?_
    unfold startOf at hname
    split at hname
    · cases hname
    · exact ⟨hsound.isName name hname, hsound.spells name hname⟩
  have hspelled : Spelled place := fun name hname =>
    ⟨(hnames name hname).1.notEmpty, (hnames name hname).2.1⟩
  have habsolute : (pathTo place).isAbsolute = true := rfl
  have hzero : 0 ∉ (pathTo place).raw.toList := by
    rw [toList_pathTo, List.mem_cons, not_or]
    refine ⟨by decide, fun hmem => ?_⟩
    rcases mem_intercalate hmem with hslash | ⟨piece, hpiece, hmem⟩
    · exact absurd hslash (by decide)
    · obtain ⟨name, hname, rfl⟩ := List.mem_map.1 hpiece
      exact (hnames name hname).2.2 hmem
  have hroot := leads_of_rooted (hleads.rooted (hsound.rooted.startOf path)) hplace hnolink
    fun name hname => (hnames name hname).1
  refine resolve_of_leads hzero (text_ne_of_isAbsolute habsolute) (Nat.zero_le _) ?_
  rw [startOf, if_pos habsolute]
  exact leads_pathPieces_pathTo hspelled hroot

theorem insertName_spec (name : RawText) {names : List RawText} (h : names.Pairwise (· < ·)) :
    (insertName name names).Pairwise (· < ·) ∧
      ∀ other, other ∈ insertName name names ↔ other = name ∨ other ∈ names := by
  induction names with
  | nil => simp [insertName]
  | cons first rest ih =>
      obtain ⟨hfirst, hrest⟩ := List.pairwise_cons.1 h
      obtain ⟨hsorted, hmem⟩ := ih hrest
      rw [insertName]
      split
      · next hbefore =>
        refine ⟨List.pairwise_cons.2 ⟨List.forall_mem_cons.2 ⟨hbefore, fun later hlater => ?_⟩, h⟩,
          fun other => List.mem_cons⟩
        exact RawText.lt_trans hbefore (hfirst later hlater)
      · next hbehind =>
        split
        · next heq =>
          rw [heq]
          exact ⟨h, fun other => by simp⟩
        · next hne =>
          have hlate : first < name := Classical.byContradiction fun h =>
            hne (RawText.eq_of_not_lt hbehind h)
          refine ⟨List.pairwise_cons.2 ⟨fun other hother => ?_, hsorted⟩, fun other => ?_⟩
          · rcases (hmem other).1 hother with rfl | hother
            · exact hlate
            · exact hfirst other hother
          · rw [List.mem_cons, List.mem_cons, hmem other]
            exact or_left_comm

/-- The names in a directory ascend, and are those that something stands at. A
name that stands there twice is listed once. -/
theorem entries_spec (fs : FileSystem) (directory : Location) :
    (fs.entries directory).Pairwise (· < ·) ∧
      ∀ name, name ∈ fs.entries directory ↔ directory ++ [name] ∈ fs.nodes.map Prod.fst := by
  unfold entries
  induction fs.nodes with
  | nil => exact ⟨List.Pairwise.nil, fun name => iff_of_false List.not_mem_nil List.not_mem_nil⟩
  | cons entry rest ih =>
      obtain ⟨hsorted, hmem⟩ := ih
      rw [List.foldr_cons]
      rcases List.eq_nil_or_concat' entry.1 with hnil | ⟨above, last, hentry⟩
      · simp only [hnil, List.getLast?_nil]
        refine ⟨hsorted, fun name => ?_⟩
        rw [List.map_cons, List.mem_cons, hmem, hnil]
        exact (or_iff_right (by simp)).symm
      · simp only [hentry, List.getLast?_concat, List.dropLast_concat]
        split
        · next heq =>
          obtain ⟨hinserted, hwhole⟩ := insertName_spec last hsorted
          refine ⟨hinserted, fun name => ?_⟩
          rw [List.map_cons, List.mem_cons, hwhole, hmem, hentry, heq]
          simp
        · next hne =>
          refine ⟨hsorted, fun name => ?_⟩
          rw [List.map_cons, List.mem_cons, hmem, hentry]
          exact (or_iff_right fun h : directory ++ [name] = above ++ [last] =>
            hne (List.append_inj' h rfl).1.symm).symm

theorem list_eq_ok_iff {path : Path} {names : List RawText} :
    fs.list path = .ok names ↔ ∃ place, fs.resolve .follow path = .ok place ∧
      fs.isDirectoryAt place = true ∧ fs.entries place = names := by
  unfold list
  cases fs.resolve .follow path with
  | error cause => simp [bind, Except.bind]
  | ok place =>
      cases hplace : fs.isDirectoryAt place <;> simp [bind, Except.bind, hplace]

/-- A name is put behind the path of a directory, with one slash between them,
whether the directory was spelled with one at its end or not. -/
theorem toList_join_name {directory : Path} {name : RawText} (hdirectory : directory.raw ≠ "")
    (hname : Path.slash ∉ name.toList) :
    ∃ base, (directory.join ⟨name⟩).raw.toList = base ++ Path.slash :: name.toList ∧
      (directory.raw.toList = base ∨ directory.raw.toList = base ++ [Path.slash]) := by
  have hrelative : (Path.ofRaw name).isAbsolute = false := by
    rw [Path.isAbsolute, beq_eq_false_iff_ne]
    exact fun h => hname (List.mem_of_mem_head? h)
  have hempty : directory.raw.isEmpty = false :=
    Bool.eq_false_iff.2 (mt RawText.isEmpty_iff.1 hdirectory)
  unfold Path.join
  rw [hrelative, hempty, if_neg Bool.false_ne_true, Bool.false_or]
  split
  · next hslash =>
    obtain ⟨base, hbase⟩ := List.getLast?_eq_some_iff.1 (beq_iff_eq.1 hslash)
    exact ⟨base, by simp [hbase], .inr hbase⟩
  · refine ⟨directory.raw.toList, ?_, .inl rfl⟩
    rw [RawText.toList_append, RawText.toList_append, List.append_assoc]
    rfl

/-- A name behind the path of a directory comes last, behind the steps of the
directory. The pieces in front may differ from those of the directory in empty
ones, which are no steps. -/
theorem pathPieces_join_name {directory : Path} {name : RawText} (hdirectory : directory.raw ≠ "")
    (hname : Path.slash ∉ name.toList) :
    startOf fs.workDir (directory.join ⟨name⟩) = startOf fs.workDir directory ∧
      ∃ front, pathPieces (directory.join ⟨name⟩) = front ++ [name] ∧
        steps front = steps (pathPieces directory) := by
  have hoctets : directory.raw.toList ≠ [] := mt RawText.toList_eq_nil_iff.1 hdirectory
  obtain ⟨base, htext, hbase⟩ := toList_join_name hdirectory hname
  have hpieces : pathPieces (directory.join ⟨name⟩) =
      (Text.splitAt Path.slash base).map RawText.ofList ++ [name] := by
    rw [pathPieces, Path.pieces, htext, Text.splitAt_append_cons, Text.splitAt_of_not_mem hname,
      List.map_append, List.map_singleton]
  unfold startOf Path.isAbsolute
  rw [htext]
  refine ⟨?_, _, hpieces, ?_⟩
  · rcases hbase with hbase | hbase
    · rw [hbase, List.head?_append_of_ne_nil _ (hbase ▸ hoctets)]
    · rw [hbase]
      cases base <;> rfl
  · unfold pathPieces Path.pieces
    rcases hbase with hbase | hbase
    · rw [hbase]
    · rw [hbase, Text.splitAt_append_cons, List.map_append, steps_append]
      exact (List.append_nil _).symm

/-- What a path into a directory leads to is what the name leads to from the
directory. The budget of links counts the whole way, so it is not clear that
another path to the directory leads there as well. -/
theorem exists_leads_of_isFile_join {directory : Path} {name : RawText} {place : Location}
    (hdirectory : fs.resolve .follow directory = .ok place) (hname : Path.slash ∉ name.toList)
    (hfile : fs.isFile (directory.join ⟨name⟩) = true) :
    ∃ stop content links, fs.resolve .follow (directory.join ⟨name⟩) = .ok stop ∧
      fs.node? stop = some (.file content) ∧ fs.Leads .follow links place [name] stop := by
  obtain ⟨stop, content, hstop, hcontent⟩ := exists_file_of_isFile hfile
  obtain ⟨-, hempty, more, -, hmore⟩ := leads_of_resolve hdirectory
  obtain ⟨-, -, links, -, hleads⟩ := leads_of_resolve hstop
  obtain ⟨hstart, front, hpieces, hsteps⟩ := pathPieces_join_name hempty hname
  rw [hstart, hpieces] at hleads
  obtain ⟨through, before, after, hfront, hlast⟩ := hleads.split
  obtain rfl := hmore.unique_of_steps hfront hsteps
  exact ⟨stop, content, after, hstop, hcontent, hlast⟩

/-- Paths with one canonical path lead to one place, if one of them leads
anywhere; the other then does as well, over however many links. -/
theorem resolve_eq_of_canonical_eq (hwork : Spelled fs.workDir) {path other : Path}
    {place : Location} (hplace : fs.resolve .follow path = .ok place)
    (h : fs.canonical path = fs.canonical other) : fs.resolve .follow other = .ok place := by
  unfold canonical at h
  rw [hplace] at h
  cases hstop : fs.resolve .follow other with
  | error cause =>
      rw [hstop] at h
      cases h
  | ok stop =>
      rw [hstop] at h
      exact congrArg Except.ok
        (place_eq_of_pathTo_eq hwork hstop hplace (Except.ok.inj h).symm)

/-- One name in one directory is one file, by whichever path the directory is
reached. Both paths have to lead to the file, as the links of the longer one
may be too many. -/
theorem Sound.canonical_join_eq (hsound : fs.Sound) {directory other : Path} {name : RawText}
    {place : Location} (hplace : fs.resolve .follow directory = .ok place)
    (h : fs.canonical directory = fs.canonical other) (hname : Path.slash ∉ name.toList)
    (hfile : fs.isFile (directory.join ⟨name⟩) = true)
    (hother : fs.isFile (other.join ⟨name⟩) = true) :
    fs.canonical (directory.join ⟨name⟩) = fs.canonical (other.join ⟨name⟩) := by
  obtain ⟨stop, -, links, hstop, -, hleads⟩ := exists_leads_of_isFile_join hplace hname hfile
  obtain ⟨goal, -, more, hgoal, -, hmore⟩ :=
    exists_leads_of_isFile_join (resolve_eq_of_canonical_eq hsound.spelled hplace h) hname hother
  obtain rfl := hleads.unique hmore
  rw [canonical, canonical, hstop, hgoal]

/-- A directory lists the files that paths into it lead to, links to files
among them. -/
theorem Sound.mem_list (hsound : fs.Sound) {directory : Path} {name : RawText}
    {names : List RawText} (hlist : fs.list directory = .ok names) (hname : Path.slash ∉ name.toList)
    (hfile : fs.isFile (directory.join ⟨name⟩) = true) : name ∈ names := by
  obtain ⟨place, hplace, -, rfl⟩ := list_eq_ok_iff.1 hlist
  obtain ⟨stop, content, links, -, hcontent, hleads⟩ :=
    exists_leads_of_isFile_join hplace hname hfile
  obtain ⟨-, -, more, -, hmore⟩ := leads_of_resolve hplace
  have hrooted := hmore.rooted (hsound.rooted.startOf directory)
  have hisName := hleads.isName hrooted (isDirectoryAt_of_file hcontent)
  obtain ⟨node, hnode, -⟩ := hleads.tail_of_name hisName
  exact ((entries_spec fs place).2 name).2
    (mem_nodes_of_node?_ne_none (by simp) (hnode ▸ Option.some_ne_none node))

/-- The names that a directory lists ascend, and none has a slash in it. -/
theorem Sound.list_spec (hsound : fs.Sound) {directory : Path} {names : List RawText}
    (hlist : fs.list directory = .ok names) :
    names.Pairwise (· < ·) ∧ ∀ name ∈ names, Path.slash ∉ name.toList := by
  obtain ⟨place, -, -, rfl⟩ := list_eq_ok_iff.1 hlist
  obtain ⟨hsorted, hmem⟩ := entries_spec fs place
  refine ⟨hsorted, fun name hname => ?_⟩
  obtain ⟨entry, hentry, hplace⟩ := List.mem_map.1 ((hmem name).1 hname)
  exact (hsound.spellsNodes entry hentry name (by simp [hplace])).1

end SymbolPatterns.FileSystem
