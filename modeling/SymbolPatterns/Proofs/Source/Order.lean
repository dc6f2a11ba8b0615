import Mathlib.Data.List.Lex
import SymbolPatterns.Proofs.Source.Resolution

/-!
Sources are read in a strict order, by kind and then by the components of the
path. Sorted, sources ascend in it if no two of them have one place in the
order.
-/

namespace SymbolPatterns

namespace Path

theorem Component.precedes_iff {a b : Component} :
    a.precedes b = true ↔ a.rank < b.rank ∨ ∃ x y, a = .name x ∧ b = .name y ∧ x < y := by
  unfold Component.precedes
  split
  · next x y =>
    rw [decide_eq_true_iff]
    constructor
    · exact fun h => .inr ⟨x, y, rfl, rfl, h⟩
    · rintro (h | ⟨_, _, hx, hy, h⟩)
      · exact absurd h (Nat.lt_irrefl _)
      · cases hx
        cases hy
        exact h
  · next hnames =>
    rw [decide_eq_true_iff]
    refine (or_iff_left ?_).symm
    rintro ⟨x, y, rfl, rfl, -⟩
    exact hnames x y rfl rfl

theorem Component.precedes_trans {a b c : Component} (h : a.precedes b = true)
    (hnext : b.precedes c = true) : a.precedes c = true := by
  rw [Component.precedes_iff] at *
  rcases h with h | ⟨x, y, rfl, rfl, h⟩ <;> rcases hnext with hnext | ⟨y', z, hy, rfl, hnext⟩
  · exact .inl (h.trans hnext)
  · subst hy
    exact .inl h
  · exact .inl hnext
  · cases hy
    exact .inr ⟨x, z, rfl, rfl, RawText.lt_trans h hnext⟩

theorem Component.precedes_asymm {a b : Component} (h : a.precedes b = true) :
    b.precedes a = false := by
  rw [← Bool.not_eq_true]
  rw [Component.precedes_iff] at *
  rcases h with h | ⟨x, y, rfl, rfl, h⟩
  · rintro (hback | ⟨x, y, rfl, rfl, -⟩)
    · exact Nat.lt_asymm h hback
    · exact Nat.lt_irrefl _ h
  · rintro (hback | ⟨_, _, hy, hx, hback⟩)
    · exact Nat.lt_irrefl _ hback
    · cases hx
      cases hy
      exact RawText.lt_asymm h hback

theorem Component.eq_of_not_precedes {a b : Component} (h : a.precedes b = false)
    (hback : b.precedes a = false) : a = b := by
  rw [← Bool.not_eq_true, Component.precedes_iff, not_or] at h hback
  have hrank : a.rank = b.rank := Nat.le_antisymm (Nat.not_lt.1 hback.1) (Nat.not_lt.1 h.1)
  cases a with
  | name x =>
      cases b with
      | name y =>
          have hbefore : ¬x < y := fun hlt => h.2 ⟨x, y, rfl, rfl, hlt⟩
          have hbehind : ¬y < x := fun hlt => hback.2 ⟨y, x, rfl, rfl, hlt⟩
          rw [RawText.eq_of_not_lt hbefore hbehind]
      | root | here | up => cases hrank
  | root | here | up => cases b <;> first | rfl | cases hrank

variable {path other : Path}

theorem precedes_iff :
    path.precedes other = true ↔
      List.Lex (fun a b => Component.precedes a b = true) path.components other.components :=
  List.lex_eq_true_iff_lex Component.precedes

theorem precedes_trans {third : Path} (h : path.precedes other = true)
    (hnext : other.precedes third = true) : path.precedes third = true :=
  precedes_iff.2 (List.lex_trans Component.precedes_trans (precedes_iff.1 h) (precedes_iff.1 hnext))

theorem precedes_asymm (h : path.precedes other = true) : other.precedes path = false := by
  have hcomponent : Std.Asymm fun a b : Component => a.precedes b = true :=
    ⟨fun a b hab => Bool.not_eq_true _ ▸ Component.precedes_asymm hab⟩
  have hpath := (List.Lex.asymm _).asymm _ _ (precedes_iff.1 h)
  exact Bool.eq_false_iff.2 (mt precedes_iff.1 hpath)

/-- Paths of which neither precedes the other have the same components. Their
spellings may still differ, in slashes and dots. -/
theorem components_eq_of_not_precedes (h : path.precedes other = false)
    (hback : other.precedes path = false) : path.components = other.components := by
  have hcomponent : Std.Trichotomous fun a b : Component => a.precedes b = true :=
    ⟨fun a b hab hba => Component.eq_of_not_precedes (Bool.eq_false_iff.2 hab)
      (Bool.eq_false_iff.2 hba)⟩
  exact (List.Lex.trichotomous _).trichotomous _ _ (mt precedes_iff.2 (Bool.eq_false_iff.1 h))
    (mt precedes_iff.2 (Bool.eq_false_iff.1 hback))

end Path

theorem SourceKind.rank_injective {kind other : SourceKind} (h : kind.rank = other.rank) :
    kind = other := by
  cases kind <;> cases other <;> first | rfl | cases h

namespace Source

variable {source other : Source}

theorem precedes_iff :
    source.precedes other = true ↔ source.kind.rank < other.kind.rank ∨
      source.kind = other.kind ∧ source.path.precedes other.path = true := by
  simp [precedes]

theorem precedes_trans {third : Source} (h : source.precedes other = true)
    (hnext : other.precedes third = true) : source.precedes third = true := by
  rw [precedes_iff] at *
  rcases h with h | ⟨hkind, hpath⟩ <;> rcases hnext with hnext | ⟨hkind', hpath'⟩
  · exact .inl (h.trans hnext)
  · exact .inl (hkind' ▸ h)
  · exact .inl (hkind ▸ hnext)
  · exact .inr ⟨hkind.trans hkind', Path.precedes_trans hpath hpath'⟩

theorem precedes_asymm (h : source.precedes other = true) : other.precedes source = false := by
  rw [← Bool.not_eq_true]
  rw [precedes_iff] at *
  rcases h with h | ⟨hkind, hpath⟩
  · rintro (hback | ⟨hkind, -⟩)
    · exact Nat.lt_asymm h hback
    · exact Nat.lt_irrefl _ (hkind ▸ h)
  · rintro (hback | ⟨-, hback⟩)
    · exact Nat.lt_irrefl _ (hkind ▸ hback)
    · rw [Path.precedes_asymm hpath] at hback
      cases hback

/-- Sources of which neither comes first are of one kind and have the same
components. If both are there, they are one file, of which one source is kept. -/
theorem eq_of_not_precedes (h : source.precedes other = false)
    (hback : other.precedes source = false) :
    source.kind = other.kind ∧ source.path.components = other.path.components := by
  rw [← Bool.not_eq_true, precedes_iff, not_or, not_and, Bool.not_eq_true] at h hback
  have hkind : source.kind = other.kind :=
    SourceKind.rank_injective (Nat.le_antisymm (Nat.not_lt.1 hback.1) (Nat.not_lt.1 h.1))
  exact ⟨hkind, Path.components_eq_of_not_precedes (h.2 hkind) (hback.2 hkind.symm)⟩

end Source

namespace Resolution

/-- One of two sources comes first. The order is strict, so it is never both. -/
def Apart (source other : Source) : Prop :=
  source.precedes other = true ∨ other.precedes source = true

/-- Each source comes before all that stand behind it, so the list has one
order and no source twice. -/
def Ascends (sources : List Source) : Prop :=
  sources.Pairwise fun source other => source.precedes other = true

theorem insertSource_ascends {source : Source} {sources : List Source} (h : Ascends sources)
    (hapart : ∀ other ∈ sources, Apart source other) : Ascends (insertSource source sources) := by
  induction sources with
  | nil => exact List.pairwise_singleton _ _
  | cons other rest ih =>
      obtain ⟨hfirst, hrest⟩ := List.pairwise_cons.1 h
      obtain ⟨hother, hothers⟩ := List.forall_mem_cons.1 hapart
      rw [insertSource]
      split
      · next hbefore =>
        refine List.pairwise_cons.2 ⟨List.forall_mem_cons.2 ⟨hbefore, fun later hlater => ?_⟩, h⟩
        exact Source.precedes_trans hbefore (hfirst later hlater)
      · next hbehind =>
        refine List.pairwise_cons.2 ⟨fun later hlater => ?_, ih hrest hothers⟩
        rcases List.mem_cons.1 ((insertSource_perm source rest).mem_iff.1 hlater) with rfl | hlater
        · exact hother.resolve_left hbehind
        · exact hfirst later hlater

theorem sorted_ascends {sources : List Source} (h : sources.Pairwise Apart) :
    Ascends (sorted sources) := by
  suffices hfold : ∀ done : List Source, Ascends done → (sources ++ done).Pairwise Apart →
      Ascends (sources.foldl (fun done source => insertSource source done) done) from
    hfold [] List.Pairwise.nil (by rwa [List.append_nil])
  clear h
  induction sources with
  | nil => exact fun done hdone _ => hdone
  | cons source rest ih =>
      intro done hdone hapart
      obtain ⟨hsource, hrest⟩ := List.pairwise_cons.1 hapart
      have hinserted := insertSource_ascends hdone fun other hother =>
        hsource other (List.mem_append_right rest hother)
      have hmoved := ((insertSource_perm source done).append_left rest).trans List.perm_middle
      exact ih _ hinserted (hapart.perm hmoved.symm fun h => h.symm)

end Resolution

end SymbolPatterns
