import Mathlib.Data.List.Basic
import Mathlib.Data.List.Induction
import SymbolPatterns.Proofs.FileSystem.Walk
import SymbolPatterns.Proofs.Path

/-!
Ways that take the same steps, and the directories above a place that a path
leads to. Empty pieces and single dots make no difference to where a path leads,
as long as it leads to a directory; and what a path leads to stands in a
directory if the path starts in one.
-/

namespace SymbolPatterns.FileSystem

variable {fs : FileSystem} {last : LastPiece}

/-- The pieces that lead somewhere: names, and the step to the directory
above. Empty pieces and single dots are left out. -/
def steps (pieces : List RawText) : List RawText :=
  pieces.filter fun piece => Path.isStep piece.toList

theorem steps_append (front rest : List RawText) :
    steps (front ++ rest) = steps front ++ steps rest :=
  List.filter_append ..

theorem steps_map_ofList (pieces : List (List UInt8)) :
    steps (pieces.map RawText.ofList) = (pieces.filter Path.isStep).map RawText.ofList := by
  rw [steps, List.filter_map]
  rfl

theorem isStep_eq_false_iff {piece : RawText} :
    Path.isStep piece.toList = false ↔ piece = "" ∨ piece = "." := by
  have hdot : piece.toList = [Path.dot] ↔ piece = "." := @RawText.toList_inj piece "."
  rw [Path.isStep_eq_false_iff, RawText.toList_eq_nil_iff, hdot]

theorem IsName.isStep {piece : RawText} (h : IsName piece) : Path.isStep piece.toList = true := by
  rw [← Bool.not_eq_false, isStep_eq_false_iff, not_or]
  exact ⟨h.notEmpty, h.notHere⟩

theorem steps_cons_of_stay {piece : RawText} (h : piece = "" ∨ piece = ".") (rest : List RawText) :
    steps (piece :: rest) = steps rest :=
  List.filter_cons_of_neg (by simp [isStep_eq_false_iff.2 h])

theorem steps_cons_of_isStep {piece : RawText} (h : Path.isStep piece.toList = true)
    (rest : List RawText) : steps (piece :: rest) = piece :: steps rest :=
  List.filter_cons_of_pos h

/-- Where a step comes first, pieces that are no steps stand in front of it.
The inductions on ways go by steps and skip these. -/
theorem exists_of_steps_eq_cons {pieces rest : List RawText} {piece : RawText}
    (h : steps pieces = piece :: rest) :
    ∃ skips others, pieces = skips ++ piece :: others ∧ (∀ skip ∈ skips, skip = "" ∨ skip = ".") ∧
      steps others = rest := by
  obtain ⟨skips, others, rfl, hskips, -, hrest⟩ := List.filter_eq_cons_iff.1 h
  refine ⟨skips, others, rfl, fun skip hskip => ?_, hrest⟩
  exact isStep_eq_false_iff.1 (Bool.not_eq_true _ ▸ hskips skip hskip)

theorem Leads.stays {links : Nat} {place goal : Location} {skips rest : List RawText}
    (h : fs.Leads last links place rest goal) (hplace : fs.isDirectoryAt place = true)
    (hskips : ∀ skip ∈ skips, skip = "" ∨ skip = ".") :
    fs.Leads last links place (skips ++ rest) goal := by
  induction skips with
  | nil => exact h
  | cons skip skips ih =>
      obtain ⟨hskip, hskips⟩ := List.forall_mem_cons.1 hskips
      exact .stay hplace hskip (ih hskips)

/-- Pieces that take the same steps lead to the same directory. For a file
this fails: an empty piece behind its name makes the path lead nowhere. -/
theorem Leads.respell {links : Nat} {place goal : Location} {pieces others : List RawText}
    (h : fs.Leads .follow links place pieces goal) (hgoal : fs.isDirectoryAt goal = true)
    (hsteps : steps others = steps pieces) : fs.Leads .follow links place others goal := by
  induction h generalizing others with
  | arrive place =>
      have hskips : ∀ skip ∈ others, skip = "" ∨ skip = "." := fun skip hskip =>
        isStep_eq_false_iff.1 (Bool.not_eq_true _ ▸ List.filter_eq_nil_iff.1 hsteps skip hskip)
      have hend : fs.Leads .follow 0 place [] place := .arrive place
      have hwhole := hend.stays hgoal hskips
      rwa [List.append_nil] at hwhole
  | stay hdirectory hpiece _ ih => exact ih hgoal (hsteps.trans (steps_cons_of_stay hpiece _))
  | up hdirectory _ ih =>
      rw [steps_cons_of_isStep (by decide)] at hsteps
      obtain ⟨skips, tail, rfl, hskips, htail⟩ := exists_of_steps_eq_cons hsteps
      exact (Leads.up hdirectory (ih hgoal htail)).stays hdirectory hskips
  | enter hdirectory hname hnode hnolink _ ih =>
      rw [steps_cons_of_isStep hname.isStep] at hsteps
      obtain ⟨skips, tail, rfl, hskips, htail⟩ := exists_of_steps_eq_cons hsteps
      exact (Leads.enter hdirectory hname hnode hnolink (ih hgoal htail)).stays hdirectory hskips
  | @jump _ _ _ _ rest target hdirectory hname hlink _ _ ih =>
      rw [steps_cons_of_isStep hname.isStep] at hsteps
      obtain ⟨skips, tail, rfl, hskips, htail⟩ := exists_of_steps_eq_cons hsteps
      have hsame : steps (pathPieces target ++ tail) = steps (pathPieces target ++ rest) := by
        rw [steps_append, steps_append, htail]
      have hnext := Leads.jump hdirectory hname hlink (fun h => by cases h.2) (ih hgoal hsame)
      exact hnext.stays hdirectory hskips
  | keep _ _ _ hkeep => cases hkeep
  | miss _ _ _ hmiss => cases hmiss

/-- Each location above is a directory. Where paths lead it is so by itself; a
working directory has to be told. -/
def Rooted (fs : FileSystem) (place : Location) : Prop :=
  ∀ above, above <+: place → above ≠ place → fs.isDirectoryAt above = true

theorem rooted_nil (fs : FileSystem) : fs.Rooted [] := fun _ habove hne =>
  absurd (List.prefix_nil.1 habove) hne

theorem Rooted.snoc {place : Location} (h : fs.Rooted place)
    (hplace : fs.isDirectoryAt place = true) (name : RawText) : fs.Rooted (place ++ [name]) := by
  intro above habove hne
  rcases List.prefix_concat_iff.1 habove with heq | habove
  · exact absurd heq hne
  · by_cases heq : above = place
    · rw [heq, hplace]
    · exact h above habove heq

theorem Rooted.dropLast {place : Location} (h : fs.Rooted place) :
    fs.Rooted place.dropLast ∧ fs.isDirectoryAt place.dropLast = true := by
  rcases List.eq_nil_or_concat' place with rfl | ⟨above, name, rfl⟩
  · exact ⟨rooted_nil fs, rfl⟩
  · rw [List.dropLast_concat]
    have hstrict : ∀ higher, higher <+: above → higher ≠ above ++ [name] := by
      rintro higher habove rfl
      have hlength := habove.length_le
      rw [List.length_append, List.length_singleton] at hlength
      omega
    exact ⟨fun higher habove _ =>
      h higher (habove.trans (List.prefix_append ..)) (hstrict higher habove),
      h above (List.prefix_append ..) (hstrict above List.prefix_rfl)⟩

theorem Rooted.startOf {directory : Location} (h : fs.Rooted directory) (path : Path) :
    fs.Rooted (startOf directory path) := by
  unfold FileSystem.startOf
  split
  · exact rooted_nil fs
  · exact h

/-- What pieces lead to stands in directories if they start in one, links
included, as those start anew from a directory or the root. -/
theorem Leads.rooted {links : Nat} {place goal : Location} {pieces : List RawText}
    (h : fs.Leads last links place pieces goal) (hplace : fs.Rooted place) : fs.Rooted goal := by
  induction h with
  | arrive place => exact hplace
  | stay _ _ _ ih => exact ih hplace
  | up _ _ ih => exact ih hplace.dropLast.1
  | enter hdirectory _ _ _ _ ih => exact ih (hplace.snoc hdirectory _)
  | jump _ _ _ _ _ ih => exact ih (hplace.startOf _)
  | keep hdirectory _ _ _ => exact hplace.snoc hdirectory _
  | miss hdirectory _ _ _ => exact hplace.snoc hdirectory _

/-- The piece that leads to a file is a name: the other pieces stay in a
directory or go up to one. -/
theorem Leads.isName {links : Nat} {place goal : Location} {piece : RawText}
    (h : fs.Leads .follow links place [piece] goal) (hplace : fs.Rooted place)
    (hgoal : fs.isDirectoryAt goal = false) : IsName piece := by
  cases h with
  | stay hdirectory _ next =>
      cases next
      exact absurd rfl (ne_of_isDirectoryAt hdirectory hgoal)
  | up _ next =>
      cases next
      exact absurd rfl (ne_of_isDirectoryAt hplace.dropLast.2 hgoal)
  | enter _ hname _ _ _ => exact hname
  | jump _ hname _ _ _ => exact hname
  | keep _ _ _ hkeep => cases hkeep
  | miss _ _ _ hmiss => cases hmiss

theorem node?_of_isDirectoryAt {place : Location} (h : fs.isDirectoryAt place = true) :
    fs.node? place = some .directory := by
  unfold FileSystem.isDirectoryAt at h
  split at h
  · assumption
  · cases h

theorem directory_ne_link (target : Path) : Node.directory ≠ .link target := nofun

/-- The names of a location lead to it from the root if something other than a
link stands there. No link is met on the way, since all that stands above are
directories. -/
theorem leads_of_rooted {place : Location} {node : Node} (hrooted : fs.Rooted place)
    (hplace : fs.node? place = some node) (hnolink : ∀ target, node ≠ .link target)
    (hnames : ∀ name ∈ place, IsName name) : fs.Leads .follow 0 [] place place := by
  induction place using List.reverseRecOn generalizing node with
  | nil => exact .arrive []
  | append_singleton above name ih =>
      have habove := hrooted.dropLast
      rw [List.dropLast_concat] at habove
      have hfront := ih habove.1 (node?_of_isDirectoryAt habove.2) directory_ne_link
        fun other hother => hnames other (List.mem_append_left _ hother)
      have hlast : fs.Leads .follow 0 above [name] (above ++ [name]) :=
        .enter habove.2 (hnames name (by simp)) hplace hnolink (.arrive _)
      exact hfront.append hlast (List.cons_ne_nil _ _)

end SymbolPatterns.FileSystem
