import SymbolPatterns.Proofs.Metadata.Collection

/-!
Reading several sources against reading each of them alone. As long as sources
can be read, the collection is the union of what they yield alone with what it
began with; the first one that cannot be read ends the reading and leaves the
collection of those in front of it.
-/

namespace SymbolPatterns

open Metadata

/-- What a source yields by itself: the set that reading it into an empty one
makes. -/
def Metadata.readAlone (fs : FileSystem) (source : Source) : Except Failure SymbolSet :=
  readSource fs source ∅

theorem SymbolSet.addAll_eq_union (set : SymbolSet) (symbols : List Symbol) :
    set.addAll symbols = set.union (addAll ∅ symbols) :=
  eq_of_holds_iff fun symbol => by
    rw [holds_union, holds_addAll, holds_addAll, not_holds_empty, or_iff_right Bool.false_ne_true]

namespace Collection

variable {fs : FileSystem} {c d : Collection}

/-- A collection with what one more source yields. Symbols are united, and the
count of the kind goes up. -/
def join (c : Collection) (kind : SourceKind) (yielded : SymbolSet) : Collection :=
  ⟨c.symbols.union yielded, fun k => c.counts k + if k = kind then 1 else 0⟩

/-- A source is read into any collection as it is read alone. What was read
before it changes neither its symbols nor whether it can be read. -/
theorem readSource_eq_join (c : Collection) (source : Source) :
    c.readSource fs source = (readAlone fs source).map (c.join source.kind) := by
  rw [readSource, readAlone, readSource_eq, readSource_eq]
  cases symbolsAt fs source with
  | error failure => rfl
  | ok symbols =>
      change Except.ok _ = Except.ok _
      rw [join, SymbolSet.addAll_eq_union]

/-- What a collection holds once some sources have been read into it: what it
held, what they yield, and one more of each kind for each source. -/
structure Unites (fs : FileSystem) (c : Collection) (sources : List Source) (d : Collection) :
    Prop where
  symbols : ∀ symbol, d.symbols.holds symbol = true ↔ c.symbols.holds symbol = true ∨
    ∃ source ∈ sources, ∃ yielded, readAlone fs source = .ok yielded ∧ yielded.holds symbol = true
  counts : ∀ kind, d.counts kind = c.counts kind + sources.countP fun source => source.kind = kind

theorem Unites.unique {e : Collection} {sources : List Source} (h : Unites fs c sources d)
    (hother : Unites fs c sources e) : d = e := by
  have hsymbols : d.symbols = e.symbols :=
    SymbolSet.eq_of_holds_iff fun symbol => (h.symbols symbol).trans (hother.symbols symbol).symm
  have hcounts : d.counts = e.counts :=
    funext fun kind => (h.counts kind).trans (hother.counts kind).symm
  cases d
  cases e
  cases hsymbols
  cases hcounts
  rfl

theorem unites_nil (fs : FileSystem) (c : Collection) : Unites fs c [] c where
  symbols symbol := by simp
  counts kind := by simp

theorem Unites.cons {source : Source} {rest : List Source} {yielded : SymbolSet}
    (hsource : readAlone fs source = .ok yielded)
    (hrest : Unites fs (c.join source.kind yielded) rest d) : Unites fs c (source :: rest) d where
  symbols symbol := by
    rw [hrest.symbols, join, SymbolSet.holds_union]
    simp [hsource, or_assoc]
  counts kind := by
    rw [hrest.counts, List.countP_cons, join]
    simp only [decide_eq_true_eq, eq_comm (a := kind)]
    omega

theorem readAll_cons_of_ok {source : Source} {yielded : SymbolSet}
    (h : readAlone fs source = .ok yielded) (c : Collection) (rest : List Source) :
    c.readAll fs (source :: rest) = (c.join source.kind yielded).readAll fs rest := by
  rw [readAll, readSource_eq_join, h]
  rfl

theorem readAll_cons_of_error {source : Source} {failure : Failure}
    (h : readAlone fs source = .error failure) (c : Collection) (rest : List Source) :
    c.readAll fs (source :: rest) = (c, .error failure) := by
  rw [readAll, readSource_eq_join, h]
  rfl

/-- Readable sources are all read, and unite with what was there before. -/
theorem exists_readAll {sources : List Source}
    (h : ∀ source ∈ sources, ∃ yielded, readAlone fs source = .ok yielded) (c : Collection) :
    ∃ d, c.readAll fs sources = (d, .ok ()) ∧ Unites fs c sources d := by
  induction sources generalizing c with
  | nil => exact ⟨c, rfl, unites_nil fs c⟩
  | cons source rest ih =>
      obtain ⟨⟨yielded, hsource⟩, hrest⟩ := List.forall_mem_cons.1 h
      obtain ⟨d, hread, hunites⟩ := ih hrest (c.join source.kind yielded)
      exact ⟨d, (readAll_cons_of_ok hsource c rest).trans hread, .cons hsource hunites⟩

theorem readAll_append_of_ok {front : List Source} (h : c.readAll fs front = (d, .ok ()))
    (rest : List Source) : c.readAll fs (front ++ rest) = d.readAll fs rest := by
  induction front generalizing c with
  | nil =>
      obtain ⟨rfl, -⟩ := Prod.mk.inj h
      rfl
  | cons source front ih =>
      cases hsource : readAlone fs source with
      | error failure =>
          rw [readAll_cons_of_error hsource] at h
          cases (Prod.mk.inj h).2
      | ok yielded =>
          rw [readAll_cons_of_ok hsource] at h
          rw [List.cons_append, readAll_cons_of_ok hsource, ih h]

/-- Sources are all readable, or there is a first one that is not, with
readable ones in front of it. -/
theorem readable_or_exists_bad (fs : FileSystem) (sources : List Source) :
    (∀ source ∈ sources, ∃ yielded, readAlone fs source = .ok yielded) ∨
      ∃ front bad rest failure, sources = front ++ bad :: rest ∧
        (∀ source ∈ front, ∃ yielded, readAlone fs source = .ok yielded) ∧
        readAlone fs bad = .error failure := by
  induction sources with
  | nil => exact .inl nofun
  | cons source rest ih =>
      cases hsource : readAlone fs source with
      | error failure => exact .inr ⟨[], source, rest, failure, rfl, nofun, hsource⟩
      | ok yielded =>
          rcases ih with hall | ⟨front, bad, rest, failure, rfl, hfront, hbad⟩
          · exact .inl (List.forall_mem_cons.2 ⟨⟨yielded, hsource⟩, hall⟩)
          · exact .inr ⟨source :: front, bad, rest, failure, rfl,
              List.forall_mem_cons.2 ⟨⟨yielded, hsource⟩, hfront⟩, hbad⟩

/-- Reading fails at the first source that cannot be read, with its failure,
and what was collected by then are the sources in front of it. -/
theorem readAll_eq_error_iff {sources : List Source} {failure : Failure} :
    c.readAll fs sources = (d, .error failure) ↔ ∃ front bad rest, sources = front ++ bad :: rest ∧
      c.readAll fs front = (d, .ok ()) ∧ readAlone fs bad = .error failure := by
  constructor
  · intro h
    rcases readable_or_exists_bad fs sources with hall | ⟨front, bad, rest, cause, rfl, hfront, hbad⟩
    · obtain ⟨e, hread, -⟩ := exists_readAll hall c
      cases (Prod.mk.inj (hread.symm.trans h)).2
    · obtain ⟨e, hread, -⟩ := exists_readAll hfront c
      rw [readAll_append_of_ok hread, readAll_cons_of_error hbad] at h
      obtain ⟨rfl, hcause⟩ := Prod.mk.inj h
      exact ⟨front, bad, rest, rfl, hread, hbad.trans (congrArg _ (Except.error.inj hcause))⟩
  · rintro ⟨front, bad, rest, rfl, hread, hbad⟩
    rw [readAll_append_of_ok hread, readAll_cons_of_error hbad]

theorem readAll_eq_ok_iff_readable {sources : List Source} :
    (c.readAll fs sources).2 = .ok () ↔
      ∀ source ∈ sources, ∃ yielded, readAlone fs source = .ok yielded := by
  constructor
  · intro h
    rcases readable_or_exists_bad fs sources with hall | ⟨front, bad, rest, cause, rfl, hfront, hbad⟩
    · exact hall
    · obtain ⟨e, hread, -⟩ := exists_readAll hfront c
      rw [readAll_append_of_ok hread, readAll_cons_of_error hbad] at h
      cases h
  · intro h
    obtain ⟨d, hread, -⟩ := exists_readAll h c
    rw [hread]

theorem unites_of_readAll {sources : List Source} (h : c.readAll fs sources = (d, .ok ())) :
    Unites fs c sources d := by
  obtain ⟨e, hread, hunites⟩ := exists_readAll (readAll_eq_ok_iff_readable.1 (by rw [h])) c
  obtain ⟨rfl, -⟩ := Prod.mk.inj (hread.symm.trans h)
  exact hunites

/-- Sources read again, in whatever order and however often, yield the symbols
that they yielded. Only the counts tell that they were read again. -/
theorem readAll_same_sources {sources others : List Source}
    (h : c.readAll fs sources = (d, .ok ())) (hsame : ∀ source, source ∈ others ↔ source ∈ sources) :
    ∃ e, c.readAll fs others = (e, .ok ()) ∧ Unites fs c others e ∧ e.symbols = d.symbols := by
  have hreadable := readAll_eq_ok_iff_readable.1 (congrArg Prod.snd h)
  obtain ⟨e, hread, hunites⟩ := exists_readAll
    (fun source hsource => hreadable source ((hsame source).1 hsource)) c
  refine ⟨e, hread, hunites, SymbolSet.eq_of_holds_iff fun symbol => ?_⟩
  rw [hunites.symbols, (unites_of_readAll h).symbols]
  simp only [hsame]

theorem readAll_perm {sources others : List Source} (h : c.readAll fs sources = (d, .ok ()))
    (hperm : others.Perm sources) : c.readAll fs others = (d, .ok ()) := by
  obtain ⟨e, hread, hunites, hsymbols⟩ := readAll_same_sources h fun source => hperm.mem_iff
  have hd : Unites fs c others d := by
    refine ⟨fun symbol => ?_, fun kind => ?_⟩
    · rw [← hsymbols]
      exact hunites.symbols symbol
    · rw [hperm.countP_eq]
      exact (unites_of_readAll h).counts kind
  rw [hread, hunites.unique hd]

/-- Reading all sources succeeds exactly if each can be read by itself. Then
the collection is the union of what they yield with the namespaces that are
always included, in whatever order they come, and reading some of them again
adds no symbol. Else the first bad source is what is reported, and the
collection is that of the sources in front of it. All sources are read from
one state of the files; what changes in between is not followed. -/
theorem readAll_unites_sources (fs : FileSystem) (sources : List Source) :
    ((seeded.readAll fs sources).2 = .ok () ↔
      ∀ source ∈ sources, ∃ yielded, readAlone fs source = .ok yielded) ∧
    (∀ collection, seeded.readAll fs sources = (collection, .ok ()) →
      Unites fs seeded sources collection ∧
      (∀ kind, collection.counts kind = sources.countP fun source => source.kind = kind) ∧
      (∀ others : List Source, others.Perm sources →
        seeded.readAll fs others = (collection, .ok ())) ∧
      ∀ others : List Source, (∀ source, source ∈ others ↔ source ∈ sources) →
        ∃ again, seeded.readAll fs others = (again, .ok ()) ∧
          again.symbols = collection.symbols) ∧
    ∀ collection failure, seeded.readAll fs sources = (collection, .error failure) ↔
      ∃ front bad rest, sources = front ++ bad :: rest ∧
        seeded.readAll fs front = (collection, .ok ()) ∧ readAlone fs bad = .error failure := by
  refine ⟨readAll_eq_ok_iff_readable, fun collection h => ?_,
    fun collection failure => readAll_eq_error_iff⟩
  have hunites := unites_of_readAll h
  refine ⟨hunites, fun kind => (hunites.counts kind).trans (Nat.zero_add _),
    fun others => readAll_perm h, fun others hsame => ?_⟩
  obtain ⟨again, hread, -, hsymbols⟩ := readAll_same_sources h hsame
  exact ⟨again, hread, hsymbols⟩

end Collection

end SymbolPatterns
