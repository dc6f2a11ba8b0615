import SymbolPatterns.Proofs.Symbol.Alternation
import SymbolPatterns.Proofs.Symbol.SymbolSet

/-!
How long alternations are. Cutting keeps every chunk within the limit; only the
placeholder for no names at all, which is not cut, can exceed it. An alternation
that is not cut is as long as its alternatives and the bars between them.
-/

namespace SymbolPatterns.Symbol

/-- An open chunk that is within the limit stays so, since an alternative that
does not fit any more opens the next one. -/
theorem size_le_of_mem_cut {limit : Nat} {chunk : String} {items chunks : List String}
    (hopen : chunk.utf8ByteSize ≤ limit) (h : cut limit chunk items = .ok chunks) :
    ∀ other ∈ chunks, other.utf8ByteSize ≤ limit := by
  fun_induction cut limit chunk items generalizing chunks with
  | case1 chunk =>
      obtain rfl := Except.ok.inj h
      intro other hother
      unfold closeChunk at hother
      split at hother
      · cases hother
      · exact List.mem_singleton.1 hother ▸ hopen
  | case2 => cases h
  | case3 chunk item rest hitem _ ih => exact ih (Nat.not_lt.1 hitem) h
  | case4 chunk item rest hitem _ _ ih =>
      cases hrest : cut limit item rest with
      | error failure => simp [hrest, bind, Except.bind] at h
      | ok following =>
          simp only [hrest, bind, Except.bind, Except.ok.injEq] at h
          exact h ▸ List.forall_mem_cons.2 ⟨hopen, ih (Nat.not_lt.1 hitem) hrest⟩
  | case5 chunk item rest _ _ hfits ih =>
      refine ih ?_ h
      rw [String.utf8ByteSize_append, String.utf8ByteSize_append]
      exact Nat.not_lt.1 hfits

/-- All chunks are within the limit, unless there are no names and the limit
has no room for the placeholder. The placeholder is made without a look at the
limit. -/
theorem chunks_within_iff {limit : Nat} {names chunks : List String}
    (h : Symbol.chunks limit names = .ok chunks) :
    (∀ chunk ∈ chunks, chunk.utf8ByteSize ≤ limit) ↔
      (names = [] → neverMatch.utf8ByteSize ≤ limit) := by
  by_cases hnames : names = []
  · subst hnames
    obtain rfl := Except.ok.inj h
    simp
  · rw [chunks_of_ne_nil limit hnames] at h
    have hwithin := size_le_of_mem_cut (by simp) h
    exact ⟨fun _ hnil => absurd hnil hnames, fun _ => hwithin⟩

def octets : List String → Nat
  | [] => 0
  | text :: rest => text.utf8ByteSize + octets rest

/-- The octets of the texts and of a bar between any two of them. It is the
size that an alternation has to have, told without one. -/
def spelledSize (texts : List String) : Nat := octets texts + (texts.length - 1)

theorem utf8ByteSize_joined (run : List String) : (joined run).utf8ByteSize = spelledSize run := by
  induction run with
  | nil => rfl
  | cons item rest ih =>
      cases rest with
      | nil => simp [joined, spelledSize, octets]
      | cons next rest =>
          have hbar : "|".utf8ByteSize = 1 := rfl
          rw [joined] at ih
          rw [joined, String.intercalate_cons_cons, String.utf8ByteSize_append,
            String.utf8ByteSize_append, ih, hbar]
          simp only [spelledSize, octets, List.length_cons]
          omega

theorem octets_perm {texts others : List String} (h : texts.Perm others) :
    octets texts = octets others := by
  induction h with
  | nil => rfl
  | cons text _ ih => rw [octets, octets, ih]
  | swap first second rest =>
      simp only [octets]
      omega
  | trans _ _ ih₁ ih₂ => exact ih₁.trans ih₂

theorem spelledSize_perm {texts others : List String} (h : texts.Perm others) :
    spelledSize texts = spelledSize others := by
  rw [spelledSize, spelledSize, octets_perm h, h.length_eq]

/-- Arranging names that are all different does not drop one, so the sizes of
both lists are the same. -/
theorem arranged_perm {names : List String} (h : names.Nodup) :
    (arranged longerFirst names).Perm names :=
  (List.perm_ext_iff_of_nodup
    (nodup_of_pairwise_longerFirst (pairwise_arranged_longerFirst names)) h).2
    fun _ => mem_arranged longerFirst

/-- An alternation of scoped identifiers is as long as the identifiers with
the bars. Other names would grow by their backslashes. -/
theorem utf8ByteSize_alternation {names : List String} (hnodup : names.Nodup)
    (hnames : ∀ name ∈ names, isScopedIdentifier name = true) (hne : names ≠ []) :
    (alternation names).utf8ByteSize = spelledSize names := by
  have halternatives := alternatives_eq_arranged hnames
  unfold alternation
  split
  · next hnil => exact absurd (alternatives_eq_nil_iff.1 hnil) hne
  · rw [halternatives]
    exact (utf8ByteSize_joined _).trans (spelledSize_perm (arranged_perm hnodup))

theorem alternation_within_iff {limit : Nat} {names : List String} (hnodup : names.Nodup)
    (hnames : ∀ name ∈ names, isScopedIdentifier name = true) :
    (alternation names).utf8ByteSize ≤ limit ↔
      (names = [] → neverMatch.utf8ByteSize ≤ limit) ∧ spelledSize names ≤ limit := by
  by_cases hne : names = []
  · subst hne
    simp [alternation, alternatives, arranged, spelledSize, octets]
  · rw [utf8ByteSize_alternation hnodup hnames hne]
    simp [hne]

end SymbolPatterns.Symbol
