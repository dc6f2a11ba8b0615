import SymbolPatterns.Proofs.Outcome
import SymbolPatterns.Proofs.Symbol.Size

/-!
Chunks are as few as they can be. Cutting closes a chunk only when the next
alternative does not fit, so it is never behind another way of cutting: after as
many runs, any other way has at least as much of the alternatives still before
it.
-/

namespace SymbolPatterns.Symbol

/-- A way of cutting alternatives into consecutive runs, each of them within
the limit together with the bars between its alternatives. Runs may be empty,
which gives other ways of cutting more room. -/
structure Cutting (limit : Nat) (items : List String) (runs : List (List String)) : Prop where
  whole : runs.flatten = items
  within : ∀ run ∈ runs, (joined run).utf8ByteSize ≤ limit

theorem octets_le_of_sublist {texts others : List String} (h : texts.Sublist others) :
    octets texts ≤ octets others := by
  induction h with
  | slnil => exact Nat.le_refl _
  | cons text _ ih =>
      simp only [octets]
      omega
  | cons_cons text _ ih =>
      simp only [octets]
      omega

/-- Taking alternatives out of a run does not make it longer, since the bars
go with them. -/
theorem utf8ByteSize_joined_le {run other : List String} (h : run.Sublist other) :
    (joined run).utf8ByteSize ≤ (joined other).utf8ByteSize := by
  have hoctets := octets_le_of_sublist h
  have hlength := h.length_le
  rw [utf8ByteSize_joined, utf8ByteSize_joined, spelledSize, spelledSize]
  omega

/-- A run within the limit that begins no later than `run` ends before an item
that `run` has no room for. This is the step in which no other way of cutting
can get ahead. -/
private theorem suffix_of_full {limit : Nat} {run first rest behind : List String} {item : String}
    (hfull : limit < (joined (run ++ [item])).utf8ByteSize)
    (hfirst : (joined first).utf8ByteSize ≤ limit)
    (h : run ++ item :: rest <:+ first ++ behind) : item :: rest <:+ behind := by
  have hitem : item :: rest <:+ first ++ behind := (List.suffix_append run _).trans h
  rcases List.suffix_or_suffix_of_suffix hitem (List.suffix_append first behind) with
    hdone | ⟨passed, hpassed⟩
  · exact hdone
  · cases passed with
    | nil => exact hpassed ▸ List.suffix_refl _
    | cons x passed =>
        -- Then `first` goes beyond the item and contains all of `run` as well.
        obtain ⟨rfl, rfl⟩ := List.cons.inj hpassed
        obtain ⟨ahead, hahead⟩ := h
        have hspelled : first = ahead ++ ((run ++ [x]) ++ passed) := by
          refine List.append_cancel_right (hahead.symm.trans ?_)
          simp
        have hinside : (run ++ [x]).Sublist first := by
          rw [hspelled]
          exact (List.sublist_append_left _ passed).trans (List.sublist_append_right ahead _)
        have hsize := utf8ByteSize_joined_le hinside
        omega

/-- No other runs that are within the limit and have as much or more before
them are fewer. The induction is on the alternatives that are left, with an
open run in front of them. -/
theorem length_runsFrom_le {limit : Nat} {run items : List String} {others : List (List String)}
    (hrun : run ≠ []) (hbefore : run ++ items <:+ others.flatten)
    (hwithin : ∀ other ∈ others, (joined other).utf8ByteSize ≤ limit) :
    (runsFrom limit run items).length ≤ others.length := by
  fun_induction runsFrom limit run items generalizing others with
  | case1 run =>
      cases others with
      | nil => exact absurd (List.suffix_nil.1 hbefore) (by simpa using hrun)
      | cons first others => simp
  | case2 run item rest hfull ih =>
      cases others with
      | nil => exact absurd (List.suffix_nil.1 hbefore) (by simp)
      | cons first others =>
          obtain ⟨hfirst, hothers⟩ := List.forall_mem_cons.1 hwithin
          rw [List.flatten_cons] at hbefore
          have hbehind := suffix_of_full hfull hfirst hbefore
          have hfewer := ih (List.cons_ne_nil item []) hbehind hothers
          simp only [List.length_cons]
          omega
  | case3 run item rest _ ih => exact ih (by simp) (by simpa using hbefore) hwithin

theorem length_runsOf_le {limit : Nat} {items : List String} {others : List (List String)}
    (h : Cutting limit items others) : (runsOf limit items).length ≤ others.length := by
  cases items with
  | nil => exact Nat.zero_le _
  | cons item rest =>
      apply length_runsFrom_le (List.cons_ne_nil item [])
      · exact h.whole ▸ List.suffix_refl _
      · exact h.within

/-- Names are cut into chunks if each of them fits into one. The chunks are
then joined runs of the alternatives, spell the whole alternation, and are as
few as the limit allows. There may be other ways of cutting with as few
chunks. A collection without names is left out, as it has the placeholder,
which is not cut. -/
theorem chunks_fewest {limit : Nat} {names : List String} (hne : names ≠ [])
    (hnames : ∀ name ∈ names, name ≠ "") :
    ((∃ chunks, Symbol.chunks limit names = .ok chunks) ↔
        ∀ name ∈ names, (escape name).utf8ByteSize ≤ limit) ∧
      ∀ chunks, Symbol.chunks limit names = .ok chunks →
        (∀ chunk ∈ chunks, chunk ≠ "" ∧ chunk.utf8ByteSize ≤ limit) ∧
        "|".intercalate chunks = alternation names ∧
        ∃ runs, Cutting limit (alternatives names) runs ∧ (∀ run ∈ runs, run ≠ []) ∧
          chunks = runs.map joined ∧
          ∀ others, Cutting limit (alternatives names) others → chunks.length ≤ others.length := by
  refine ⟨⟨?_, fun hfits => ⟨_, (chunks_eq_ok_iff hne hnames).2 ⟨hfits, rfl⟩⟩⟩, ?_⟩
  · rintro ⟨chunks, hchunks⟩
    exact ((chunks_eq_ok_iff hne hnames).1 hchunks).1
  · intro chunks hchunks
    have hwithin := (chunks_within_iff hchunks).2 fun hnil => absurd hnil hne
    obtain ⟨-, rfl⟩ := (chunks_eq_ok_iff hne hnames).1 hchunks
    have hwhole := flatten_runsOf limit (alternatives names)
    have hruns := ne_nil_of_mem_runsOf limit (alternatives names)
    have hnonempty : ∀ run ∈ runsOf limit (alternatives names), joined run ≠ "" := by
      intro run hrun
      refine joined_ne_empty (hruns run hrun) fun item hitem => ?_
      have hmem : item ∈ alternatives names := hwhole ▸ List.mem_flatten.2 ⟨run, hrun, hitem⟩
      obtain ⟨name, hname, rfl⟩ := mem_alternatives.1 hmem
      exact escape_ne_empty (hnames name hname)
    refine ⟨fun chunk hchunk => ⟨?_, hwithin chunk hchunk⟩, ?_, ?_⟩
    · obtain ⟨run, hrun, rfl⟩ := List.mem_map.1 hchunk
      exact hnonempty run hrun
    · calc joined ((runsOf limit (alternatives names)).map joined)
          = joined (runsOf limit (alternatives names)).flatten := joined_map_joined hruns
        _ = joined (alternatives names) := by rw [hwhole]
        _ = alternation names := (alternation_of_ne_nil hne).symm
    · refine ⟨_, ⟨hwhole, fun run hrun => hwithin _ (List.mem_map_of_mem hrun)⟩, hruns, rfl, ?_⟩
      intro others hothers
      rw [List.length_map]
      exact length_runsOf_le hothers

/-- Backslashes count: with a limit of five octets the first name is alone in
its chunk, while the other two fill theirs to the last octet. No cutting does
with one run. -/
theorem threeNames_fewest :
    let names := ["d", "a.b", "c+", "d"]
    Symbol.chunks 5 names = .ok ["a\\.b", "c\\+|d"] ∧
      "|".intercalate ["a\\.b", "c\\+|d"] = alternation names ∧
      ∀ others, Cutting 5 (alternatives names) others → 2 ≤ others.length := by
  intro names
  have hchunks : Symbol.chunks 5 names = .ok ["a\\.b", "c\\+|d"] :=
    eq_ok_of_toOption (by decide +kernel)
  have hnames : ∀ name ∈ names, name ≠ "" := by decide
  obtain ⟨-, hwhole, -, -, -, -, hfewest⟩ :=
    (chunks_fewest (List.cons_ne_nil _ _) hnames).2 _ hchunks
  exact ⟨hchunks, hwhole, hfewest⟩

end SymbolPatterns.Symbol
