import SymbolPatterns.Proofs.Symbol.Identifier
import SymbolPatterns.Proofs.Symbol.Runs
import SymbolPatterns.Symbol.NameSet

/-!
What the chunks of an alternation say. Chunks are runs of consecutive
alternatives, so read one after another they give back all alternatives in
order. Names that enter a symbol set have no characters with a meaning of their
own, so each of them is its own alternative and none contains a bar.
-/

namespace SymbolPatterns.Symbol

theorem longerFirst_trans (a b c : String) (hab : longerFirst a b = true)
    (hbc : longerFirst b c = true) : longerFirst a c = true := by
  simp only [longerFirst, Bool.or_eq_true, Bool.and_eq_true, decide_eq_true_eq] at *
  rcases hab with hab | ⟨hab, hlt⟩ <;> rcases hbc with hbc | ⟨hbc, hlt'⟩
  · exact .inl (by omega)
  · exact .inl (by omega)
  · exact .inl (by omega)
  · exact .inr ⟨by omega, String.lt_trans hlt hlt'⟩

theorem longerFirst_total (a b : String) (h : a ≠ b) :
    longerFirst a b = true ∨ longerFirst b a = true := by
  simp only [longerFirst, Bool.or_eq_true, Bool.and_eq_true, decide_eq_true_eq]
  rcases Nat.lt_trichotomy a.utf8ByteSize b.utf8ByteSize with hlt | heq | hlt
  · exact .inr (.inl hlt)
  · have hnames := nameBefore_total a b h
    simp only [nameBefore, decide_eq_true_eq] at hnames
    rcases hnames with hab | hba
    · exact .inl (.inr ⟨heq, hab⟩)
    · exact .inr (.inr ⟨heq.symm, hba⟩)
  · exact .inl (.inl hlt)

theorem longerFirst_irrefl (a : String) : longerFirst a a = false := by
  simp [longerFirst]

theorem pairwise_arranged_longerFirst (names : List String) :
    (arranged longerFirst names).Pairwise (longerFirst · · = true) := by
  induction names with
  | nil => exact List.Pairwise.nil
  | cons name rest ih => exact pairwise_arrange longerFirst_trans longerFirst_total ih

theorem nodup_of_pairwise_longerFirst {names : List String}
    (h : names.Pairwise (longerFirst · · = true)) : names.Nodup := by
  refine h.imp fun {a b} hab heq => ?_
  subst heq
  rw [longerFirst_irrefl] at hab
  cases hab

/-- The characters of a scoped identifier. None of them has a meaning of its
own in a regular expression. -/
def isPlain (c : Char) : Bool := c.isAlphanum || c == '_' || c == ':'

theorem metacharacters_not_plain : metacharacters.all (fun c => !isPlain c) = true := by
  decide

theorem isPlain_of_startsSegment {c : Char} (h : startsSegment c = true) : isPlain c = true := by
  simp only [startsSegment, isPlain, Char.isAlphanum, Bool.or_eq_true] at h ⊢
  rcases h with h | h
  · exact .inl (.inl (.inl h))
  · exact .inl (.inr h)

theorem isPlain_of_continuesSegment {c : Char} (h : continuesSegment c = true) :
    isPlain c = true := by
  simp only [continuesSegment, isPlain, Bool.or_eq_true] at h ⊢
  exact .inl h

theorem isPlain_of_scopedFrom {fresh : Bool} {text : List Char}
    (h : scopedFrom fresh text = true) : ∀ c ∈ text, isPlain c = true := by
  fun_induction scopedFrom fresh text with
  | case1 fresh => simp
  | case2 c rest ih =>
      rw [Bool.and_eq_true] at h
      exact List.forall_mem_cons.2 ⟨isPlain_of_startsSegment h.1, ih h.2⟩
  | case3 rest ih =>
      have hcolon : isPlain ':' = true := by decide
      exact List.forall_mem_cons.2 ⟨hcolon, List.forall_mem_cons.2 ⟨hcolon, ih h⟩⟩
  | case4 c rest _ ih =>
      rw [Bool.and_eq_true] at h
      exact List.forall_mem_cons.2 ⟨isPlain_of_continuesSegment h.1, ih h.2⟩

/-- A name of plain characters is its own alternative, so the alternatives in
a text are its names. -/
theorem escape_eq_self {name : String} (h : ∀ c ∈ name.toList, isPlain c = true) :
    escape name = name := by
  have hchars : ∀ c ∈ name.toList, escapeChar c = [c] := by
    intro c hc
    have hplain : c ∉ metacharacters := by
      intro hmeta
      have hnot := List.all_eq_true.1 metacharacters_not_plain c hmeta
      rw [h c hc] at hnot
      cases hnot
    simp [escapeChar, hplain]
  rw [escape, List.flatMap_congr hchars, List.flatMap_singleton', String.ofList_toList]

theorem not_mem_bar {name : String} (h : ∀ c ∈ name.toList, isPlain c = true) :
    '|' ∉ name.toList := by
  intro hbar
  have hnot : isPlain '|' = true := h '|' hbar
  revert hnot
  decide

theorem ne_empty_of_isScopedIdentifier {name : String} (h : isScopedIdentifier name = true) :
    name ≠ "" := by
  rintro rfl
  revert h
  decide

/-- The alternatives in a chunk, in the order in which they are tried. The
bars are taken as they are, which is right for names without backslashes. -/
def alternativesIn (chunk : String) : List String := (chunk.split '|').toList.map (·.copy)

theorem alternativesIn_joined {run : List String} (hne : run ≠ [])
    (hbar : ∀ item ∈ run, '|' ∉ item.toList) : alternativesIn (joined run) = run := by
  have h := String.toList_split_intercalate hbar
  rw [if_neg hne] at h
  exact h

/-- Scoped identifiers are their own alternatives, so only their order is left
to be told. -/
theorem alternatives_eq_arranged {names : List String}
    (hnames : ∀ name ∈ names, isScopedIdentifier name = true) :
    alternatives names = arranged longerFirst names := by
  have hplain : ∀ name ∈ arranged longerFirst names, escape name = name := fun name hname =>
    escape_eq_self (isPlain_of_scopedFrom (hnames name ((mem_arranged longerFirst).1 hname)))
  exact (List.map_congr_left hplain).trans (List.map_id' _)

/-- Chunks are runs of scoped identifiers, none of them empty, and the runs
are all the alternatives in their order. -/
theorem exists_runs_of_chunks {limit : Nat} {names chunks : List String}
    (hnames : ∀ name ∈ names, isScopedIdentifier name = true) (hne : names ≠ [])
    (h : Symbol.chunks limit names = .ok chunks) :
    ∃ runs : List (List String), runs.flatten = arranged longerFirst names ∧
      (∀ run ∈ runs, run ≠ []) ∧
      (∀ run ∈ runs, ∀ item ∈ run, isScopedIdentifier item = true) ∧
      chunks = runs.map joined := by
  have halternatives := alternatives_eq_arranged hnames
  obtain ⟨-, rfl⟩ := (chunks_eq_ok_iff hne fun name hname =>
    ne_empty_of_isScopedIdentifier (hnames name hname)).1 h
  have hflat : (runsOf limit (alternatives names)).flatten = arranged longerFirst names :=
    (flatten_runsOf limit _).trans halternatives
  refine ⟨_, hflat, ne_nil_of_mem_runsOf _ _, fun run hrun item hitem => ?_, rfl⟩
  have hmem : item ∈ arranged longerFirst names :=
    hflat ▸ List.mem_flatten.2 ⟨run, hrun, hitem⟩
  exact hnames item ((mem_arranged longerFirst).1 hmem)

/-- The chunks of plain names list the names once each, in the order of
alternatives. Where one chunk ends and the next begins makes no difference. -/
theorem flatMap_alternativesIn_chunks {limit : Nat} {names chunks : List String}
    (hnames : ∀ name ∈ names, isScopedIdentifier name = true) (hne : names ≠ [])
    (h : Symbol.chunks limit names = .ok chunks) :
    chunks.flatMap alternativesIn = arranged longerFirst names := by
  obtain ⟨runs, hflat, hruns, hitems, rfl⟩ := exists_runs_of_chunks hnames hne h
  rw [List.flatMap_map, ← hflat, ← List.flatMap_id]
  refine List.flatMap_congr fun run hrun => alternativesIn_joined (hruns run hrun) ?_
  exact fun item hitem => not_mem_bar (isPlain_of_scopedFrom (hitems run hrun item hitem))

/-- So does an alternation that is not cut, as the one of the namespaces is. -/
theorem alternativesIn_alternation {names : List String}
    (hnames : ∀ name ∈ names, isScopedIdentifier name = true) (hne : names ≠ []) :
    alternativesIn (alternation names) = arranged longerFirst names := by
  have halternatives := alternatives_eq_arranged hnames
  have hsome : arranged longerFirst names ≠ [] := by
    rw [← halternatives]
    exact mt alternatives_eq_nil_iff.1 hne
  rw [alternation_of_ne_nil hne, halternatives]
  refine alternativesIn_joined hsome fun item hitem => ?_
  exact not_mem_bar (isPlain_of_scopedFrom (hnames item ((mem_arranged longerFirst).1 hitem)))

theorem chunks_nil (limit : Nat) : Symbol.chunks limit [] = .ok [neverMatch] := rfl

/-- A text in which nothing but the bar has a meaning of its own, so that it
matches its alternatives and nothing else. -/
def Inert (text : String) : Prop :=
  text = neverMatch ∨ ∀ c ∈ text.toList, isPlain c = true ∨ c = '|'

theorem mem_toList_joined {run : List String} {c : Char} (h : c ∈ (joined run).toList) :
    c = '|' ∨ ∃ item ∈ run, c ∈ item.toList := by
  induction run with
  | nil => simp [joined] at h
  | cons item rest ih =>
      cases rest with
      | nil => exact .inr ⟨item, List.mem_cons_self, by simpa [joined] using h⟩
      | cons next rest =>
          rw [joined, String.intercalate_cons_cons, String.toList_append, String.toList_append,
            List.mem_append, List.mem_append] at h
          rcases h with (h | h) | h
          · exact .inr ⟨item, List.mem_cons_self, h⟩
          · exact .inl (by simpa using h)
          · rcases ih h with hbar | ⟨other, hother, hc⟩
            · exact .inl hbar
            · exact .inr ⟨other, List.mem_cons_of_mem item hother, hc⟩

theorem inert_joined {run : List String} (h : ∀ item ∈ run, isScopedIdentifier item = true) :
    Inert (joined run) := by
  refine .inr fun c hc => ?_
  rcases mem_toList_joined hc with hbar | ⟨item, hitem, hc⟩
  · exact .inr hbar
  · exact .inl (isPlain_of_scopedFrom (h item hitem) c hc)

theorem inert_alternation {names : List String}
    (h : ∀ name ∈ names, isScopedIdentifier name = true) : Inert (alternation names) := by
  have hitems : ∀ item ∈ alternatives names, isScopedIdentifier item = true := by
    intro item hitem
    rw [alternatives_eq_arranged h] at hitem
    exact h item ((mem_arranged longerFirst).1 hitem)
  unfold alternation
  split
  · exact .inl rfl
  · exact inert_joined hitems

theorem inert_of_mem_chunks {limit : Nat} {names chunks : List String}
    (hnames : ∀ name ∈ names, isScopedIdentifier name = true)
    (h : Symbol.chunks limit names = .ok chunks) : ∀ chunk ∈ chunks, Inert chunk := by
  by_cases hne : names = []
  · subst hne
    rw [chunks_nil, Except.ok.injEq] at h
    subst h
    exact List.forall_mem_singleton.2 (.inl rfl)
  · obtain ⟨runs, -, -, hitems, rfl⟩ := exists_runs_of_chunks hnames hne h
    intro chunk hchunk
    obtain ⟨run, hrun, rfl⟩ := List.mem_map.1 hchunk
    exact inert_joined (hitems run hrun)

end SymbolPatterns.Symbol
