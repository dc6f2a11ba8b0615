import SymbolPatterns.Proofs.Source.Resolution

/-!
Which files of the install directories are candidates, and in which order they
are met: one directory after the other, and by ascending name in each.
-/

namespace SymbolPatterns

/-- The names by which files in an install directory are taken for metadata.
The rules are about octets; what is between the fixed ends of a name is free. -/
inductive NameTells (headers : Bool) : RawText → SourceKind → Prop where
  | core : NameTells headers coreFileName .core
  | application (middle : RawText)
      (notCore : ("Openplanet" ++ middle ++ ".json" : RawText) ≠ coreFileName) :
      NameTells headers ("Openplanet" ++ middle ++ ".json") .application
  | header (included : headers = true) : NameTells headers headerFileName .header

theorem isApplicationName_iff {name : String} :
    isApplicationName name = true ↔ ∃ middle, name = "Openplanet" ++ middle ++ ".json" := by
  unfold isApplicationName
  rw [Bool.and_eq_true, List.isPrefixOf_iff_prefix, List.isSuffixOf_iff_suffix]
  constructor
  · rintro ⟨⟨after, hname⟩, middle, hafter⟩
    rw [← hname, List.drop_left] at hafter
    refine ⟨String.ofList middle, String.toList_inj.1 ?_⟩
    rw [← hname, ← hafter]
    simp
  · rintro ⟨middle, rfl⟩
    refine ⟨⟨middle.toList ++ ".json".toList, by simp⟩, ⟨middle.toList, ?_⟩⟩
    rw [String.toList_append, String.toList_append, List.append_assoc, List.drop_left]

/-- A name is shown as that of an application file if it begins and ends as
one. What stands between need not be a text. Replacement characters come from
octets that are no part of the fixed ends, so these are not hidden. -/
theorem isApplicationName_shown_iff {name : RawText} :
    isApplicationName name.shown = true ↔
      ∃ middle : RawText, name = "Openplanet" ++ middle ++ ".json" :=
  isApplicationName_iff.trans
    (RawText.shown_between_iff (by decide) (by decide) (String.toList_ofList) (by decide))

/-- A name tells its kind by how it is shown, and no name that is not a text
is shown as that of a core file. -/
theorem classify?_eq_some_iff {headers : Bool} {name : RawText} {kind : SourceKind} :
    classify? headers name.shown = some kind ↔ NameTells headers name kind := by
  have hcore : name.shown = coreFileName ↔ name = coreFileName := RawText.shown_eq_iff (by decide)
  have hheader : name.shown = headerFileName ↔ name = headerFileName :=
    RawText.shown_eq_iff (by decide)
  unfold classify?
  constructor
  · intro h
    split at h
    · next hname =>
      obtain rfl := Option.some.inj h
      rw [hcore.1 hname]
      exact .core
    · next hother =>
      split at h
      · next hname =>
        obtain ⟨middle, rfl⟩ := isApplicationName_shown_iff.1 hname
        obtain rfl := Option.some.inj h
        exact .application middle (mt hcore.2 hother)
      · split at h
        · next hname =>
          rw [Bool.and_eq_true, decide_eq_true_iff] at hname
          obtain rfl := Option.some.inj h
          rw [hheader.1 hname.2]
          exact .header hname.1
        · cases h
  · intro h
    cases h with
    | core => rw [if_pos (hcore.2 rfl)]
    | application middle hother =>
        rw [if_neg (mt hcore.1 hother), if_pos (isApplicationName_shown_iff.2 ⟨middle, rfl⟩)]
    | header hincluded =>
        rw [hheader.2 rfl, hincluded]
        decide

namespace Resolution

variable {fs : FileSystem} {headers : Bool} {directory : Path}

/-- A file directly inside a directory, with a name that tells its kind. Links
to files count as files; what is deeper inside is not looked at. -/
structure Stands (fs : FileSystem) (headers : Bool) (directory : Path) (name : RawText)
    (kind : SourceKind) : Prop where
  inside : Path.slash ∉ name.toList
  tells : NameTells headers name kind
  isFile : fs.isFile (directory.join ⟨name⟩) = true

/-- The source that a name in a directory stands for, if it stands for any. -/
def found (fs : FileSystem) (headers : Bool) (directory : Path) (name : RawText) : Option Source :=
  if fs.isFile (directory.join ⟨name⟩) then
    (classify? headers name.shown).map (Source.mk (directory.join ⟨name⟩))
  else none

theorem scan_eq {names : List RawText} (h : fs.list directory = .ok names) :
    scan fs headers directory = names.filterMap (found fs headers directory) := by
  rw [scan, h]
  rfl

theorem found_eq_some_iff {name : RawText} {source : Source} (hname : Path.slash ∉ name.toList) :
    found fs headers directory name = some source ↔
      ∃ kind, Stands fs headers directory name kind ∧ source = ⟨directory.join ⟨name⟩, kind⟩ := by
  unfold found
  constructor
  · intro h
    split at h
    · next hfile =>
      obtain ⟨kind, hkind, rfl⟩ := Option.map_eq_some_iff.1 h
      exact ⟨kind, ⟨hname, classify?_eq_some_iff.1 hkind, hfile⟩, rfl⟩
    · cases h
  · rintro ⟨kind, hstands, rfl⟩
    rw [if_pos hstands.isFile, classify?_eq_some_iff.2 hstands.tells]
    rfl

theorem exists_list (h : fs.isDirectory directory = true) :
    ∃ names, fs.list directory = .ok names := by
  obtain ⟨place, hplace, hdirectory⟩ := FileSystem.isDirectory_iff.1 h
  exact ⟨_, FileSystem.list_eq_ok_iff.2 ⟨place, hplace, hdirectory, rfl⟩⟩

/-- Scanning a directory finds the files in it whose names tell a kind, each
by the path of the directory with the name behind it. -/
theorem mem_scan_iff (hsound : fs.Sound) (hdirectory : fs.isDirectory directory = true)
    {source : Source} :
    source ∈ scan fs headers directory ↔ ∃ name kind,
      Stands fs headers directory name kind ∧ source = ⟨directory.join ⟨name⟩, kind⟩ := by
  obtain ⟨names, hlist⟩ := exists_list hdirectory
  obtain ⟨-, hslash⟩ := hsound.list_spec hlist
  rw [scan_eq hlist, List.mem_filterMap]
  constructor
  · rintro ⟨name, hname, hfound⟩
    exact ⟨name, (found_eq_some_iff (hslash name hname)).1 hfound⟩
  · rintro ⟨name, kind, hstands, hsource⟩
    exact ⟨name, hsound.mem_list hlist hstands.inside hstands.isFile,
      (found_eq_some_iff hstands.inside).2 ⟨kind, hstands, hsource⟩⟩

/-- The files that stand in the directories. One file may be a candidate
several times, by several names or directories and of several kinds. -/
def Candidate (fs : FileSystem) (headers : Bool) (directories : List Path) (source : Source) :
    Prop :=
  ∃ directory ∈ directories, ∃ name kind,
    Stands fs headers directory name kind ∧ source = ⟨directory.join ⟨name⟩, kind⟩

/-- One name is met before another: its directory comes first, or else it does
in the same one. Names in one directory are met in the order of their octets. -/
def MetBefore (directories : List Path) (earlier : Path) (name : RawText) (directory : Path)
    (other : RawText) : Prop :=
  [earlier, directory].Sublist directories ∨ earlier = directory ∧ name < other

variable {directories : List Path}

theorem mem_candidates_iff (hsound : fs.Sound)
    (hdirectories : ∀ directory ∈ directories, fs.isDirectory directory = true) {source : Source} :
    source ∈ directories.flatMap (scan fs headers) ↔ Candidate fs headers directories source := by
  rw [List.mem_flatMap]
  constructor
  · rintro ⟨directory, hmem, hsource⟩
    exact ⟨directory, hmem, (mem_scan_iff hsound (hdirectories directory hmem)).1 hsource⟩
  · rintro ⟨directory, hmem, hstands⟩
    exact ⟨directory, hmem, (mem_scan_iff hsound (hdirectories directory hmem)).2 hstands⟩

/-- What stands in front of an item that was collected part by part: the parts
before its own, and what its part has in front of it. -/
theorem flatMap_eq_append_cons {α β : Type} {f : α → List β} {parts : List α} {front rest : List β}
    {x : β} (h : parts.flatMap f = front ++ x :: rest) :
    ∃ before part after left right, parts = before ++ part :: after ∧ f part = left ++ x :: right ∧
      front = before.flatMap f ++ left := by
  induction parts generalizing front with
  | nil => simp at h
  | cons part parts ih =>
      rw [List.flatMap_cons, List.append_eq_append_iff] at h
      rcases h with ⟨more, rfl, hmore⟩ | ⟨more, hpart, hmore⟩
      · obtain ⟨before, other, after, left, right, rfl, hother, rfl⟩ := ih hmore
        exact ⟨part :: before, other, after, left, right, rfl, hother, by simp⟩
      · cases more with
        | nil =>
            obtain ⟨before, other, after, left, right, rfl, hother, hleft⟩ :=
              @ih [] (by simpa using hmore.symm)
            refine ⟨part :: before, other, after, left, right, rfl, hother, ?_⟩
            rw [List.flatMap_cons, List.append_assoc, ← hleft, hpart]
            simp
        | cons first more =>
            obtain ⟨rfl, -⟩ := List.cons.inj hmore
            exact ⟨[], part, parts, front, more, rfl, hpart, rfl⟩

/-- Where a candidate is met: in one of the directories, behind some of its
names. -/
theorem exists_met {front rest : List Source} {source : Source}
    (hdirectories : ∀ directory ∈ directories, fs.isDirectory directory = true)
    (h : directories.flatMap (scan fs headers) = front ++ source :: rest) :
    ∃ before directory after names name others, directories = before ++ directory :: after ∧
      fs.list directory = .ok (names ++ name :: others) ∧
      found fs headers directory name = some source ∧
      front = before.flatMap (scan fs headers) ++ names.filterMap (found fs headers directory) := by
  obtain ⟨before, directory, after, left, right, rfl, hscan, rfl⟩ := flatMap_eq_append_cons h
  obtain ⟨listed, hlist⟩ := exists_list (hdirectories directory (by simp))
  rw [scan_eq hlist] at hscan
  obtain ⟨names, others, rfl, rfl, hothers⟩ := List.filterMap_eq_append_iff.1 hscan
  obtain ⟨skipped, name, others, rfl, hskipped, hfound, -⟩ := List.filterMap_eq_cons_iff.1 hothers
  refine ⟨before, directory, after, names ++ skipped, name, others, rfl, by simpa using hlist,
    hfound, ?_⟩
  rw [List.filterMap_append, List.filterMap_eq_nil_iff.2 hskipped, List.append_nil]

theorem sublist_pair_iff {α : Type} {before after : List α} {x y : α}
    (h : (before ++ x :: after).Nodup) :
    [y, x].Sublist (before ++ x :: after) ↔ y ∈ before := by
  constructor
  · intro hpair
    obtain ⟨left, right, hsplit, hleft, hright⟩ := List.sublist_append_iff.1 hpair
    cases left with
    | cons first left =>
        obtain ⟨rfl, -⟩ := List.cons.inj hsplit
        exact hleft.subset List.mem_cons_self
    | nil =>
        rw [List.nil_append] at hsplit
        rw [← hsplit] at hright
        have hafter : x ∉ after := (List.nodup_cons.1 (List.nodup_append.1 h).2.1).1
        cases hright with
        | cons _ hright => exact absurd (hright.subset (by simp)) hafter
        | cons_cons _ hright => exact absurd (hright.subset (by simp)) hafter
  · intro hmem
    exact (List.singleton_sublist.2 hmem).append (List.singleton_sublist.2 List.mem_cons_self)

/-- The candidates in front of a name are those that are met before it. With
this, what is kept can be told without lists. -/
theorem mem_front_iff (hsound : fs.Sound) {before after : List Path} {names others : List RawText}
    {name : RawText} {source : Source}
    (hdirectories : ∀ other ∈ before ++ directory :: after, fs.isDirectory other = true)
    (hnodup : (before ++ directory :: after).Nodup)
    (hlist : fs.list directory = .ok (names ++ name :: others)) :
    source ∈ before.flatMap (scan fs headers) ++ names.filterMap (found fs headers directory) ↔
      ∃ earlier other kind, MetBefore (before ++ directory :: after) earlier other directory name ∧
        Stands fs headers earlier other kind ∧ source = ⟨earlier.join ⟨other⟩, kind⟩ := by
  obtain ⟨hsorted, hslash⟩ := hsound.list_spec hlist
  obtain ⟨-, hbehind, hfront⟩ := List.pairwise_append.1 hsorted
  rw [List.mem_append, mem_candidates_iff hsound fun other hother =>
    hdirectories other (List.mem_append_left _ hother), List.mem_filterMap]
  constructor
  · rintro (⟨earlier, hearlier, other, kind, hstands⟩ | ⟨other, hother, hfound⟩)
    · exact ⟨earlier, other, kind, .inl ((sublist_pair_iff hnodup).2 hearlier), hstands⟩
    · obtain ⟨kind, hstands⟩ := (found_eq_some_iff (hslash other (by simp [hother]))).1 hfound
      have hbefore := hfront other hother name List.mem_cons_self
      exact ⟨directory, other, kind, .inr ⟨rfl, hbefore⟩, hstands⟩
  · rintro ⟨earlier, other, kind, hbefore | ⟨rfl, hbefore⟩, hstands, hsource⟩
    · exact .inl ⟨earlier, (sublist_pair_iff hnodup).1 hbefore, other, kind, hstands, hsource⟩
    · refine .inr ⟨other, ?_, (found_eq_some_iff hstands.inside).2 ⟨kind, hstands, hsource⟩⟩
      have hlisted := hsound.mem_list hlist hstands.inside hstands.isFile
      refine (List.mem_append.1 hlisted).resolve_right fun hlate => ?_
      rcases List.mem_cons.1 hlate with rfl | hlate
      · exact RawText.lt_irrefl _ hbefore
      · exact RawText.lt_asymm hbefore ((List.pairwise_cons.1 hbehind).1 other hlate)

end Resolution

end SymbolPatterns
