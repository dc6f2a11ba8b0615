import SymbolPatterns.FileSystem.Access
import SymbolPatterns.Proofs.Text.RawText

/-!
Where the pieces of a path lead, as a relation that counts the links on the way.
Resolving a path succeeds exactly if its pieces lead somewhere over as many
links as its budget allows, so what is proved of the relation holds of every
resolution.
-/

namespace SymbolPatterns.FileSystem

/-- A piece that is a name, and not a step to where one is or to the directory
above. Names that are too long for an entry are not among them. -/
structure IsName (piece : RawText) : Prop where
  notEmpty : piece ≠ ""
  notHere : piece ≠ "."
  notUp : piece ≠ ".."
  fits : piece.toList.length ≤ longestName

/-- From a location the pieces lead to another one, over a number of links.
The last piece may be followed if it is a link, or named as it is. The
relation has no budget and no failures, so inductions on it need not speak of
them. -/
inductive Leads (fs : FileSystem) (last : LastPiece) :
    Nat → Location → List RawText → Location → Prop where
  | arrive (place : Location) : Leads fs last 0 place [] place
  | stay {links : Nat} {place goal : Location} {piece : RawText} {rest : List RawText}
      (inDirectory : fs.isDirectoryAt place = true) (isStay : piece = "" ∨ piece = ".")
      (next : Leads fs last links place rest goal) : Leads fs last links place (piece :: rest) goal
  | up {links : Nat} {place goal : Location} {rest : List RawText}
      (inDirectory : fs.isDirectoryAt place = true)
      (next : Leads fs last links place.dropLast rest goal) :
      Leads fs last links place (".." :: rest) goal
  | enter {links : Nat} {place goal : Location} {piece : RawText} {rest : List RawText} {node : Node}
      (inDirectory : fs.isDirectoryAt place = true) (isName : IsName piece)
      (found : fs.node? (place ++ [piece]) = some node) (noLink : ∀ target, node ≠ .link target)
      (next : Leads fs last links (place ++ [piece]) rest goal) :
      Leads fs last links place (piece :: rest) goal
  | jump {links : Nat} {place goal : Location} {piece : RawText} {rest : List RawText}
      {target : Path} (inDirectory : fs.isDirectoryAt place = true) (isName : IsName piece)
      (found : fs.node? (place ++ [piece]) = some (.link target))
      (follows : ¬(rest = [] ∧ last = .keepLink))
      (next : Leads fs last links (startOf place target) (pathPieces target ++ rest) goal) :
      Leads fs last (links + 1) place (piece :: rest) goal
  | keep {place : Location} {piece : RawText} {target : Path}
      (inDirectory : fs.isDirectoryAt place = true) (isName : IsName piece)
      (found : fs.node? (place ++ [piece]) = some (.link target)) (keeps : last = .keepLink) :
      Leads fs last 0 place [piece] (place ++ [piece])
  | miss {place : Location} {piece : RawText} (inDirectory : fs.isDirectoryAt place = true)
      (isName : IsName piece) (missing : fs.node? (place ++ [piece]) = none)
      (mayMiss : last = .mayBeMissing) : Leads fs last 0 place [piece] (place ++ [piece])

variable {fs : FileSystem} {last : LastPiece}

theorem walk_stay {place : Location} {piece : RawText} (rest : List RawText)
    (hdirectory : fs.isDirectoryAt place = true) (hpiece : piece = "" ∨ piece = ".") :
    fs.walk last place (piece :: rest) = fs.walk last place rest := by
  rcases hpiece with rfl | rfl <;> simp [walk, hdirectory]

theorem walk_up {place : Location} (rest : List RawText)
    (hdirectory : fs.isDirectoryAt place = true) :
    fs.walk last place (".." :: rest) = fs.walk last place.dropLast rest := by
  simp [walk, hdirectory]

/-- A walk over a name is decided by what stands there: nothing, a file, a
directory or a link, and whether the name is the last piece. -/
theorem walk_name (last : LastPiece) {place : Location} {piece : RawText} (rest : List RawText)
    (hdirectory : fs.isDirectoryAt place = true) (hname : IsName piece) :
    fs.walk last place (piece :: rest) =
      match fs.node? (place ++ [piece]) with
      | none =>
          if rest = [] && last = .mayBeMissing then .ok (.arrived (place ++ [piece]))
          else .error .notFound
      | some (.link target) =>
          if rest = [] && last = .keepLink then .ok (.arrived (place ++ [piece]))
          else .ok (.stopped place target rest)
      | some _ => fs.walk last (place ++ [piece]) rest := by
  have hfits : ¬longestName < piece.toList.length := Nat.not_lt.2 hname.fits
  have hstay : (piece = "" || piece = ".") = false := by simp [hname.notEmpty, hname.notHere]
  cases hnode : fs.node? (place ++ [piece]) with
  | none =>
      simp only [walk, hdirectory, hstay, hname.notUp, hfits, hnode, Bool.not_true,
        Bool.false_eq_true, if_false]
  | some node =>
      cases node <;> simp only [walk, hdirectory, hstay, hname.notUp, hfits, hnode, Bool.not_true,
        Bool.false_eq_true, if_false]

/-- A walk that does not fail starts in a directory, and its first piece is no
name or a name that is short enough. -/
theorem walk_cons_ok {place : Location} {piece : RawText} {rest : List RawText} {outcome : Walk}
    (h : fs.walk last place (piece :: rest) = .ok outcome) :
    fs.isDirectoryAt place = true ∧
      ((piece = "" ∨ piece = ".") ∨ piece = ".." ∨ IsName piece) := by
  rw [walk] at h
  split at h
  · cases h
  · next hdirectory =>
    refine ⟨by simpa using hdirectory, ?_⟩
    split at h
    · next hstay => exact .inl (by simpa using hstay)
    · next hstay =>
      split at h
      · next hup => exact .inr (.inl hup)
      · next hup =>
        split at h
        · cases h
        · next hfits =>
          simp only [Bool.or_eq_true, decide_eq_true_eq, not_or] at hstay
          exact .inr (.inr ⟨hstay.1, hstay.2, hup, Nat.not_lt.1 hfits⟩)

/-- What the outcome of a walk says about its pieces: where it arrives they
lead over no link, and where it stops they lead on over one more. A walk ends
at the first link, and resolving starts the next one. -/
def LeadsOn (fs : FileSystem) (last : LastPiece) (place : Location) (pieces : List RawText) :
    Walk → Prop
  | .arrived goal => fs.Leads last 0 place pieces goal
  | .stopped directory target rest => ∀ links goal,
      fs.Leads last links (startOf directory target) (pathPieces target ++ rest) goal →
      fs.Leads last (links + 1) place pieces goal

private theorem LeadsOn.imp {place other : Location} {pieces others : List RawText}
    {outcome : Walk} (h : fs.LeadsOn last place pieces outcome)
    (hstep : ∀ {links goal}, fs.Leads last links place pieces goal →
      fs.Leads last links other others goal) : fs.LeadsOn last other others outcome := by
  cases outcome with
  | arrived goal => exact hstep h
  | stopped directory target rest => exact fun links goal hleads => hstep (h links goal hleads)

theorem leadsOn_of_walk {place : Location} {pieces : List RawText} {outcome : Walk}
    (h : fs.walk last place pieces = .ok outcome) : fs.LeadsOn last place pieces outcome := by
  induction pieces generalizing place with
  | nil =>
      obtain rfl := Except.ok.inj h
      exact .arrive place
  | cons piece rest ih =>
      obtain ⟨hdirectory, hpiece | rfl | hname⟩ := walk_cons_ok h
      · rw [walk_stay rest hdirectory hpiece] at h
        exact (ih h).imp fun hleads => .stay hdirectory hpiece hleads
      · rw [walk_up rest hdirectory] at h
        exact (ih h).imp fun hleads => .up hdirectory hleads
      · rw [walk_name last rest hdirectory hname] at h
        split at h
        · next hnone =>
          split at h
          · next hlast =>
            simp only [Bool.and_eq_true, decide_eq_true_eq] at hlast
            obtain ⟨rfl, hmiss⟩ := hlast
            rw [← Except.ok.inj h]
            exact .miss hdirectory hname hnone hmiss
          · cases h
        · next target hlink =>
          split at h
          · next hlast =>
            simp only [Bool.and_eq_true, decide_eq_true_eq] at hlast
            obtain ⟨rfl, hkeep⟩ := hlast
            rw [← Except.ok.inj h]
            exact .keep hdirectory hname hlink hkeep
          · next hlast =>
            simp only [Bool.and_eq_true, decide_eq_true_eq] at hlast
            rw [← Except.ok.inj h]
            exact fun links goal hleads => .jump hdirectory hname hlink hlast hleads
        · next node hnolink hnode =>
          exact (ih h).imp fun hleads => .enter hdirectory hname hnode hnolink hleads

private theorem resolveFrom_congr {place other : Location} {pieces others : List RawText}
    (h : fs.walk last place pieces = fs.walk last other others) (budget : Nat) :
    fs.resolveFrom last budget place pieces = fs.resolveFrom last budget other others := by
  unfold resolveFrom
  rw [h]

private theorem resolveFrom_arrived {place goal : Location} {pieces : List RawText}
    (h : fs.walk last place pieces = .ok (.arrived goal)) (budget : Nat) :
    fs.resolveFrom last budget place pieces = .ok goal := by
  unfold resolveFrom
  rw [h]
  rfl

private theorem resolveFrom_stopped {place directory : Location} {pieces rest : List RawText}
    {target : Path} (h : fs.walk last place pieces = .ok (.stopped directory target rest))
    (budget : Nat) :
    fs.resolveFrom last (budget + 1) place pieces =
      fs.resolveFrom last budget (startOf directory target) (pathPieces target ++ rest) := by
  rw [resolveFrom, h]
  rfl

theorem leads_of_resolveFrom {budget : Nat} {place goal : Location} {pieces : List RawText}
    (h : fs.resolveFrom last budget place pieces = .ok goal) :
    ∃ links ≤ budget, fs.Leads last links place pieces goal := by
  induction budget generalizing place pieces with
  | zero =>
      unfold resolveFrom at h
      cases hwalk : fs.walk last place pieces with
      | error cause =>
          rw [hwalk] at h
          cases h
      | ok outcome =>
          rw [hwalk] at h
          have hon := leadsOn_of_walk hwalk
          cases outcome with
          | arrived goal =>
              obtain rfl := Except.ok.inj h
              exact ⟨0, Nat.le_refl 0, hon⟩
          | stopped directory target rest => cases h
  | succ budget ih =>
      cases hwalk : fs.walk last place pieces with
      | error cause =>
          rw [resolveFrom, hwalk] at h
          cases h
      | ok outcome =>
          have hon := leadsOn_of_walk hwalk
          cases outcome with
          | arrived goal =>
              rw [resolveFrom_arrived hwalk] at h
              obtain rfl := Except.ok.inj h
              exact ⟨0, Nat.zero_le _, hon⟩
          | stopped directory target rest =>
              rw [resolveFrom_stopped hwalk] at h
              obtain ⟨links, hlinks, hleads⟩ := ih h
              exact ⟨links + 1, Nat.succ_le_succ hlinks, hon links goal hleads⟩

theorem Leads.resolveFrom {links budget : Nat} {place goal : Location} {pieces : List RawText}
    (h : fs.Leads last links place pieces goal) (hlinks : links ≤ budget) :
    fs.resolveFrom last budget place pieces = .ok goal := by
  induction h generalizing budget with
  | arrive place => exact resolveFrom_arrived rfl budget
  | stay hdirectory hpiece _ ih =>
      rw [resolveFrom_congr (walk_stay _ hdirectory hpiece)]
      exact ih hlinks
  | up hdirectory _ ih =>
      rw [resolveFrom_congr (walk_up _ hdirectory)]
      exact ih hlinks
  | @enter _ _ _ _ rest node hdirectory hname hnode hnolink _ ih =>
      have hwalk := walk_name last rest hdirectory hname
      rw [hnode] at hwalk
      cases node with
      | link target => exact absurd rfl (hnolink target)
      | file content =>
          rw [resolveFrom_congr hwalk]
          exact ih hlinks
      | directory =>
          rw [resolveFrom_congr hwalk]
          exact ih hlinks
  | @jump _ place _ piece rest target hdirectory hname hlink hlast _ ih =>
      obtain ⟨less, rfl⟩ : ∃ less, budget = less + 1 := ⟨budget - 1, by omega⟩
      have hwalk : fs.walk last place (piece :: rest) = .ok (.stopped place target rest) := by
        rw [walk_name last rest hdirectory hname, hlink]
        simpa using hlast
      rw [resolveFrom_stopped hwalk]
      exact ih (by omega)
  | keep hdirectory hname hlink hkeep =>
      refine resolveFrom_arrived ?_ budget
      rw [walk_name last _ hdirectory hname, hlink]
      simp [hkeep]
  | miss hdirectory hname hnone hmiss =>
      refine resolveFrom_arrived ?_ budget
      rw [walk_name last _ hdirectory hname, hnone]
      simp [hmiss]

/-- A path is resolved to where its pieces lead, if the budget is enough for
the links. Circles of links lead nowhere, and the budget only decides how soon
this is found out. -/
theorem resolveFrom_eq_ok_iff {budget : Nat} {place goal : Location} {pieces : List RawText} :
    fs.resolveFrom last budget place pieces = .ok goal ↔
      ∃ links ≤ budget, fs.Leads last links place pieces goal :=
  ⟨leads_of_resolveFrom, fun ⟨_, hlinks, hleads⟩ => hleads.resolveFrom hlinks⟩

/-- A path that is resolved can be used, and its pieces lead to the location,
over no more links than allowed. -/
theorem leads_of_resolve {path : Path} {place : Location} (h : fs.resolve last path = .ok place) :
    0 ∉ path.raw.toList ∧ path.raw ≠ "" ∧ ∃ links ≤ linkBudget,
      fs.Leads last links (startOf fs.workDir path) (pathPieces path) place := by
  unfold resolve at h
  split at h
  · cases h
  · next hzero =>
    split at h
    · cases h
    · next hempty =>
      exact ⟨by simpa using hzero, by simpa using hempty, leads_of_resolveFrom h⟩

/-- Pieces lead to one location only, by whichever rules and over however many
links. -/
theorem Leads.unique {links more : Nat} {place goal other : Location} {pieces : List RawText}
    (h : fs.Leads last links place pieces goal) (hother : fs.Leads last more place pieces other) :
    goal = other := by
  have hfirst := h.resolveFrom (Nat.le_max_left links more)
  have hsecond := hother.resolveFrom (Nat.le_max_right links more)
  rw [hfirst] at hsecond
  exact Except.ok.inj hsecond

/-- Pieces lead where the first part of them leads, and the second part from
there. Links add up, and the second part must not be empty if the last piece
is not to be followed. -/
theorem Leads.append {links more : Nat} {place through goal : Location}
    {front rest : List RawText} (h : fs.Leads .follow links place front through)
    (hrest : fs.Leads last more through rest goal) (hne : rest ≠ []) :
    fs.Leads last (more + links) place (front ++ rest) goal := by
  induction h with
  | arrive place => exact hrest
  | stay hdirectory hpiece _ ih => exact .stay hdirectory hpiece (ih hrest)
  | up hdirectory _ ih => exact .up hdirectory (ih hrest)
  | enter hdirectory hname hnode hnolink _ ih =>
      exact .enter hdirectory hname hnode hnolink (ih hrest)
  | jump hdirectory hname hlink _ _ ih =>
      refine .jump hdirectory hname hlink (fun h => hne (List.append_eq_nil_iff.1 h.1).2) ?_
      have hnext := ih hrest
      rwa [List.append_assoc] at hnext
  | keep _ _ _ hkeep => cases hkeep
  | miss _ _ _ hmiss => cases hmiss

/-- Where pieces lead, their first part leads somewhere, and the second part
on from there, over as many links in all. The directory in front of a file is
found in this way. -/
theorem Leads.split_links {links : Nat} {place goal : Location} {front rest : List RawText}
    (h : fs.Leads .follow links place (front ++ rest) goal) :
    ∃ through before after, before + after = links ∧ fs.Leads .follow before place front through ∧
      fs.Leads .follow after through rest goal := by
  generalize hpieces : front ++ rest = pieces at h
  induction h generalizing front with
  | arrive place =>
      obtain ⟨rfl, rfl⟩ := List.append_eq_nil_iff.1 hpieces
      exact ⟨place, 0, 0, rfl, .arrive place, .arrive place⟩
  | @stay links place goal piece others hdirectory hpiece next ih =>
      rcases List.append_eq_cons_iff.1 hpieces with ⟨rfl, rfl⟩ | ⟨front, rfl, rfl⟩
      · exact ⟨place, 0, links, Nat.zero_add _, .arrive place, .stay hdirectory hpiece next⟩
      · obtain ⟨through, before, after, hsum, hfirst, hsecond⟩ := ih rfl
        exact ⟨through, before, after, hsum, .stay hdirectory hpiece hfirst, hsecond⟩
  | @up links place goal others hdirectory next ih =>
      rcases List.append_eq_cons_iff.1 hpieces with ⟨rfl, rfl⟩ | ⟨front, rfl, rfl⟩
      · exact ⟨place, 0, links, Nat.zero_add _, .arrive place, .up hdirectory next⟩
      · obtain ⟨through, before, after, hsum, hfirst, hsecond⟩ := ih rfl
        exact ⟨through, before, after, hsum, .up hdirectory hfirst, hsecond⟩
  | @enter links place goal piece others node hdirectory hname hnode hnolink next ih =>
      rcases List.append_eq_cons_iff.1 hpieces with ⟨rfl, rfl⟩ | ⟨front, rfl, rfl⟩
      · exact ⟨place, 0, links, Nat.zero_add _, .arrive place,
          .enter hdirectory hname hnode hnolink next⟩
      · obtain ⟨through, before, after, hsum, hfirst, hsecond⟩ := ih rfl
        exact ⟨through, before, after, hsum, .enter hdirectory hname hnode hnolink hfirst, hsecond⟩
  | @jump links place goal piece others target hdirectory hname hlink hlast next ih =>
      rcases List.append_eq_cons_iff.1 hpieces with ⟨rfl, rfl⟩ | ⟨front, rfl, rfl⟩
      · exact ⟨place, 0, links + 1, Nat.zero_add _, .arrive place,
          .jump hdirectory hname hlink hlast next⟩
      · obtain ⟨through, before, after, hsum, hfirst, hsecond⟩ := ih (List.append_assoc ..)
        have hfollows : ¬(front = [] ∧ LastPiece.follow = .keepLink) := fun h => by cases h.2
        exact ⟨through, before + 1, after, by omega,
          .jump hdirectory hname hlink hfollows hfirst, hsecond⟩
  | keep _ _ _ hkeep => cases hkeep
  | miss _ _ _ hmiss => cases hmiss

theorem Leads.split {links : Nat} {place goal : Location} {front rest : List RawText}
    (h : fs.Leads .follow links place (front ++ rest) goal) :
    ∃ through before after, fs.Leads .follow before place front through ∧
      fs.Leads .follow after through rest goal := by
  obtain ⟨through, before, after, -, hfirst, hsecond⟩ := h.split_links
  exact ⟨through, before, after, hfirst, hsecond⟩

theorem Leads.isDirectoryAt {links : Nat} {place goal : Location} {piece : RawText}
    {rest : List RawText} (h : fs.Leads last links place (piece :: rest) goal) :
    fs.isDirectoryAt place = true := by
  cases h <;> assumption

/-- Pieces lead no further from what is not a directory; at most there are
none left. -/
theorem Leads.eq_of_not_directory {links : Nat} {place goal : Location} {pieces : List RawText}
    (h : fs.Leads last links place pieces goal) (hplace : fs.isDirectoryAt place = false) :
    goal = place := by
  cases pieces with
  | nil =>
      cases h
      rfl
  | cons piece rest =>
      rw [h.isDirectoryAt] at hplace
      cases hplace

/-- No way to a goal passes through an entry. Such an entry may be replaced,
and the goal is reached as before. -/
def Blocks (fs : FileSystem) (entry goal : Location) : Prop :=
  ∀ links place piece rest, place ++ [piece] = entry → IsName piece →
    ¬fs.Leads .follow links place (piece :: rest) goal

/-- A name that leads to something else than a directory is on no way to a
directory. This is how a file that is replaced stays out of the way to its own
directory. -/
theorem blocks_of_leads {links : Nat} {place stop goal : Location} {piece : RawText}
    (h : fs.Leads .follow links place [piece] stop) (hstop : fs.isDirectoryAt stop = false)
    (hgoal : fs.isDirectoryAt goal = true) : fs.Blocks (place ++ [piece]) goal := by
  intro more start name rest hentry _ hleads
  obtain ⟨rfl, hname⟩ := List.append_inj' hentry rfl
  obtain rfl := List.singleton_inj.1 hname
  obtain ⟨through, before, after, hfirst, hrest⟩ :=
    (show fs.Leads .follow more start ([name] ++ rest) goal from hleads).split
  obtain rfl := hfirst.unique h
  obtain rfl := hrest.eq_of_not_directory hstop
  rw [hgoal] at hstop
  cases hstop

/-- What a name leads to over links is named by it without them: the entry is
the name in its directory, link or not. -/
theorem Leads.keepLink {links : Nat} {place stop : Location} {piece : RawText}
    (h : fs.Leads .follow links place [piece] stop) (hname : IsName piece) :
    fs.Leads .keepLink 0 place [piece] (place ++ [piece]) := by
  cases h with
  | stay _ hpiece _ => exact (hpiece.elim hname.notEmpty hname.notHere).elim
  | up _ _ => exact absurd rfl hname.notUp
  | enter hdirectory _ hnode hnolink _ => exact .enter hdirectory hname hnode hnolink (.arrive _)
  | jump hdirectory _ hlink _ _ => exact .keep hdirectory hname hlink rfl
  | keep _ _ _ hkeep => cases hkeep
  | miss _ _ _ hmiss => cases hmiss

theorem isDirectoryAt_congr {other : FileSystem} {place : Location}
    (h : other.node? place = fs.node? place) :
    other.isDirectoryAt place = fs.isDirectoryAt place := by
  simp [FileSystem.isDirectoryAt, h]

/-- A name that does not lead to a directory stands for none, so a rename may
replace it. -/
theorem Leads.noDirectory {links : Nat} {place stop : Location} {piece : RawText}
    (h : fs.Leads .follow links place [piece] stop) (hname : IsName piece)
    (hstop : fs.isDirectoryAt stop = false) : fs.isDirectoryAt (place ++ [piece]) = false := by
  cases h with
  | stay _ hpiece _ => exact (hpiece.elim hname.notEmpty hname.notHere).elim
  | up _ _ => exact absurd rfl hname.notUp
  | enter _ _ _ _ next =>
      cases next
      exact hstop
  | jump _ _ hlink _ _ => simp [FileSystem.isDirectoryAt, hlink]
  | keep _ _ _ hkeep => cases hkeep
  | miss _ _ _ hmiss => cases hmiss

theorem ne_of_isDirectoryAt {place other : Location} (hplace : fs.isDirectoryAt place = true)
    (hother : fs.isDirectoryAt other = false) : place ≠ other := by
  rintro rfl
  rw [hplace] at hother
  cases hother

theorem isDirectoryAt_of_file {place : Location} {content : ByteArray}
    (h : fs.node? place = some (.file content)) : fs.isDirectoryAt place = false := by
  simp [FileSystem.isDirectoryAt, h]

theorem blocks_of_file {entry goal : Location} {content : ByteArray}
    (h : fs.node? entry = some (.file content)) (hgoal : fs.isDirectoryAt goal = true) :
    fs.Blocks entry goal := by
  rintro links place piece rest rfl hname hleads
  have hend : fs.Leads .follow 0 place [piece] (place ++ [piece]) :=
    .enter hleads.isDirectoryAt hname h nofun (.arrive _)
  exact blocks_of_leads hend (isDirectoryAt_of_file h) hgoal links place piece rest rfl hname hleads

/-- Ways that do not pass through the entry stay as they are when it is
replaced. Nothing is said about ways that did, which may lead anywhere now. -/
theorem Leads.transfer {other : FileSystem} {entry : Location}
    (hagree : ∀ place, place ≠ entry → other.node? place = fs.node? place)
    (hentry : fs.isDirectoryAt entry = false) {links : Nat} {place goal : Location}
    {pieces : List RawText} (h : fs.Leads .follow links place pieces goal)
    (hblocks : fs.Blocks entry goal) : other.Leads .follow links place pieces goal := by
  have hdirectories : ∀ place, fs.isDirectoryAt place = true →
      other.isDirectoryAt place = true := by
    intro place hplace
    rw [isDirectoryAt_congr (hagree place (ne_of_isDirectoryAt hplace hentry)), hplace]
  induction h with
  | arrive place => exact .arrive place
  | stay hdirectory hpiece _ ih => exact .stay (hdirectories _ hdirectory) hpiece (ih hblocks)
  | up hdirectory _ ih => exact .up (hdirectories _ hdirectory) (ih hblocks)
  | enter hdirectory hname hnode hnolink next ih =>
      have hne := fun heq => hblocks _ _ _ _ heq hname (.enter hdirectory hname hnode hnolink next)
      exact .enter (hdirectories _ hdirectory) hname ((hagree _ hne).trans hnode) hnolink
        (ih hblocks)
  | jump hdirectory hname hlink hlast next ih =>
      have hne := fun heq => hblocks _ _ _ _ heq hname (.jump hdirectory hname hlink hlast next)
      exact .jump (hdirectories _ hdirectory) hname ((hagree _ hne).trans hlink) hlast (ih hblocks)
  | keep _ _ _ hkeep => cases hkeep
  | miss _ _ _ hmiss => cases hmiss

end SymbolPatterns.FileSystem
