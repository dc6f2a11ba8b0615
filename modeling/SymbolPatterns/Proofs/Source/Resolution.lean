import Mathlib.Data.List.Nodup
import SymbolPatterns.Proofs.Source.Keys

/-!
Which of several candidates are kept, and in which order. Of the candidates with
one key one is kept, so what is kept is settled by the keys among the
candidates, up to spelling and order.
-/

namespace SymbolPatterns

open Resolution

namespace Resolution

variable {fs : FileSystem}

section

variable {α : Type} {path : α → Path}

/-- The keys among candidates, in their order and with repetitions. -/
def fileKeys (fs : FileSystem) (path : α → Path) (xs : List α) : List String :=
  xs.map fun x => fileKey fs (path x)

theorem distinct_congr {seen other : List String} (h : ∀ key, key ∈ seen ↔ key ∈ other)
    (xs : List α) : distinct fs path seen xs = distinct fs path other xs := by
  induction xs generalizing seen other with
  | nil => rfl
  | cons x rest ih =>
      have hhead : seen.contains (fileKey fs (path x)) =
          other.contains (fileKey fs (path x)) := by
        rw [Bool.eq_iff_iff, List.contains_iff_mem, List.contains_iff_mem]
        exact h (fileKey fs (path x))
      have hgrown : ∀ key,
          key ∈ fileKey fs (path x) :: seen ↔ key ∈ fileKey fs (path x) :: other :=
        fun key => by rw [List.mem_cons, List.mem_cons, h key]
      rw [distinct, distinct, hhead, ih h, ih hgrown]

theorem distinct_append (seen : List String) (xs ys : List α) :
    distinct fs path seen (xs ++ ys) =
      distinct fs path seen xs ++ distinct fs path (fileKeys fs path xs ++ seen) ys := by
  induction xs generalizing seen with
  | nil => rfl
  | cons x rest ih =>
      rw [List.cons_append, distinct, distinct]
      split
      · next hseen =>
        rw [List.contains_iff_mem] at hseen
        rw [ih]
        refine congrArg _ (distinct_congr (fun key => ?_) ys)
        simp only [fileKeys, List.map_cons, List.cons_append, List.mem_cons, List.mem_append]
        exact ⟨.inr, fun h => h.elim (fun hkey => .inr (hkey ▸ hseen)) id⟩
      · rw [ih, List.cons_append]
        refine congrArg (x :: distinct fs path _ rest ++ ·) (distinct_congr (fun key => ?_) ys)
        simp only [fileKeys, List.map_cons, List.cons_append, List.mem_cons, List.mem_append]
        exact or_left_comm

theorem mem_of_mem_distinct {seen : List String} {xs : List α} {x : α}
    (h : x ∈ distinct fs path seen xs) : x ∈ xs := by
  induction xs generalizing seen with
  | nil => exact h
  | cons first rest ih =>
      rw [distinct] at h
      split at h
      · exact List.mem_cons_of_mem first (ih h)
      · rcases List.mem_cons.1 h with rfl | h
        · exact List.mem_cons_self
        · exact List.mem_cons_of_mem first (ih h)

theorem mem_fileKeys_distinct {seen : List String} {xs : List α} {key : String} :
    key ∈ fileKeys fs path (distinct fs path seen xs) ↔
      key ∈ fileKeys fs path xs ∧ key ∉ seen := by
  induction xs generalizing seen with
  | nil => simp [distinct, fileKeys]
  | cons x rest ih =>
      have hcons : ∀ ys : List α, fileKeys fs path (x :: ys) =
          fileKey fs (path x) :: fileKeys fs path ys := fun _ => rfl
      rw [distinct]
      split
      · next hseen =>
        rw [List.contains_iff_mem] at hseen
        rw [ih, hcons, List.mem_cons]
        refine and_congr_left fun hkey => ⟨.inr, fun h => h.resolve_left ?_⟩
        exact fun heq => hkey (heq ▸ hseen)
      · next hseen =>
        rw [List.contains_iff_mem] at hseen
        rw [hcons, hcons, List.mem_cons, List.mem_cons, ih, List.mem_cons, not_or]
        constructor
        · rintro (rfl | ⟨hrest, -, hkey⟩)
          · exact ⟨.inl rfl, hseen⟩
          · exact ⟨.inr hrest, hkey⟩
        · rintro ⟨hmem, hkey⟩
          by_cases heq : key = fileKey fs (path x)
          · exact .inl heq
          · exact .inr ⟨hmem.resolve_left heq, heq, hkey⟩

theorem nodup_fileKeys_distinct (seen : List String) (xs : List α) :
    (fileKeys fs path (distinct fs path seen xs)).Nodup := by
  induction xs generalizing seen with
  | nil => exact List.nodup_nil
  | cons x rest ih =>
      rw [distinct]
      split
      · exact ih seen
      · refine List.nodup_cons.2 ⟨fun hmem => ?_, ih _⟩
        exact (mem_fileKeys_distinct.1 hmem).2 List.mem_cons_self

/-- What is kept of two lists with the same keys has the same keys, once each.
Neither order nor repetition of candidates shows, but which candidate is kept
for a key does depend on them. -/
theorem fileKeys_distinct_perm {xs ys : List α}
    (h : ∀ key, key ∈ fileKeys fs path xs ↔ key ∈ fileKeys fs path ys) (seen : List String) :
    (fileKeys fs path (distinct fs path seen xs)).Perm
      (fileKeys fs path (distinct fs path seen ys)) := by
  refine (List.perm_ext_iff_of_nodup (nodup_fileKeys_distinct seen xs)
    (nodup_fileKeys_distinct seen ys)).2 fun key => ?_
  rw [mem_fileKeys_distinct, mem_fileKeys_distinct, h key]

end

theorem insertSource_perm (source : Source) (sources : List Source) :
    (insertSource source sources).Perm (source :: sources) := by
  induction sources with
  | nil => exact List.Perm.refl _
  | cons other rest ih =>
      rw [insertSource]
      split
      · exact List.Perm.refl _
      · exact (ih.cons other).trans (List.Perm.swap source other rest)

theorem sorted_perm (sources : List Source) : (sorted sources).Perm sources := by
  suffices h : ∀ done : List Source,
      (sources.foldl (fun done source => insertSource source done) done).Perm (sources ++ done) by
    simpa [sorted] using h []
  induction sources with
  | nil => exact List.Perm.refl
  | cons source rest ih =>
      intro done
      exact (ih _).trans (((insertSource_perm source done).append_left rest).trans List.perm_middle)

/-- The files that options name, each of the kind that its setting stands for.
Their names are not looked at, so a header may be named as an application
file. -/
def Named (options : Options) (source : Source) : Prop :=
  match source.kind with
  | .core => options.core = some source.path
  | .application => source.path ∈ options.game
  | .header => options.header = some source.path

theorem mem_explicitSources_iff {options : Options} {source : Source} :
    source ∈ explicitSources options ↔ Named options source := by
  obtain ⟨path, kind⟩ := source
  cases kind <;> simp [explicitSources, Named]

theorem checkSources_eq_ok_iff {sources : List Source} :
    checkSources fs sources = .ok () ↔ ∀ source ∈ sources, fs.isFile source.path = true := by
  induction sources with
  | nil => simp [checkSources]
  | cons source rest ih =>
      rw [checkSources, List.forall_mem_cons]
      split
      · next hfile => rw [ih, and_iff_right hfile]
      · next hfile => simp [hfile]

theorem checkMetadata_eq_ok_iff {set other : SourceSet} {searched : List Path} :
    checkMetadata set searched = .ok other ↔
      set = other ∧ set.count .core + set.count .application ≠ 0 := by
  unfold checkMetadata
  split
  · next hnone =>
    exact ⟨nofun, fun h => absurd hnone h.2⟩
  · next hsome =>
    rw [Except.ok.injEq, and_iff_left hsome]

/-- What is kept of candidates, in the order of reading: the first with each
key, sorted. -/
def kept (fs : FileSystem) (candidates : List Source) : List Source :=
  sorted (distinct fs Source.path [] candidates)

theorem mem_kept_iff {candidates : List Source} {source : Source} :
    source ∈ kept fs candidates ↔ source ∈ distinct fs Source.path [] candidates :=
  (sorted_perm _).mem_iff

theorem mem_of_mem_kept {candidates : List Source} {source : Source}
    (h : source ∈ kept fs candidates) : source ∈ candidates :=
  mem_of_mem_distinct (mem_kept_iff.1 h)

/-- Files that are named resolve to what is kept of them, if each is there and
one is more than a header. No directory is searched then, whatever else the
options say. -/
theorem resolveWith_eq_ok_iff_of_explicit {environment usual : List Path} {options : Options}
    {set : SourceSet} (hexplicit : options.hasExplicitFiles = true) :
    resolveWith fs environment usual options = .ok set ↔
      (∀ source ∈ explicitSources options, fs.isFile source.path = true) ∧
        ⟨kept fs (explicitSources options), []⟩ = set ∧
        set.count .core + set.count .application ≠ 0 := by
  rw [resolveWith, if_pos hexplicit]
  constructor
  · intro h
    obtain ⟨⟨⟩, hfiles, h⟩ := bind_eq_ok h
    obtain ⟨rfl, hmetadata⟩ := checkMetadata_eq_ok_iff.1 h
    exact ⟨checkSources_eq_ok_iff.1 hfiles, rfl, hmetadata⟩
  · rintro ⟨hfiles, rfl, hmetadata⟩
    dsimp only
    rw [checkSources_eq_ok_iff.2 hfiles]
    exact checkMetadata_eq_ok_iff.2 ⟨rfl, hmetadata⟩

end Resolution

theorem Host.resolve_eq_ok_iff {host : Host} {options : Options} {set : SourceSet}
    (hexplicit : options.hasExplicitFiles = true) :
    host.resolve options = .ok set ↔
      (∀ source ∈ explicitSources options, host.files.isFile source.path = true) ∧
        ⟨kept host.files (explicitSources options), []⟩ = set ∧
        set.count .core + set.count .application ≠ 0 :=
  resolveWith_eq_ok_iff_of_explicit hexplicit

end SymbolPatterns
