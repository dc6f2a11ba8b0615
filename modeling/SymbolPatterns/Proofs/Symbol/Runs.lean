import Mathlib.Data.List.Basic
import SymbolPatterns.Symbol.Alternation

/-!
Chunks as runs of alternatives. Cutting goes over the alternatives once and
keeps the open chunk as a text, whose emptiness tells that nothing has been put
in yet. Alternatives are never empty unless a name is, so the open chunk stands
for a run of alternatives, and cutting succeeds with the joined runs if every
alternative fits on its own.
-/

namespace SymbolPatterns.Symbol

def joined (run : List String) : String := "|".intercalate run

@[simp] theorem joined_singleton (item : String) : joined [item] = item :=
  String.intercalate_singleton

theorem joined_append {front rest : List String} (hfront : front ≠ []) (hrest : rest ≠ []) :
    joined (front ++ rest) = joined front ++ "|" ++ joined rest :=
  String.intercalate_append_of_ne_nil hfront hrest

theorem joined_snoc {run : List String} (h : run ≠ []) (item : String) :
    joined (run ++ [item]) = joined run ++ "|" ++ item := by
  rw [joined_append h (List.cons_ne_nil item []), joined_singleton]

theorem joined_ne_empty {run : List String} (hne : run ≠ []) (hitems : ∀ item ∈ run, item ≠ "") :
    joined run ≠ "" := by
  cases run with
  | nil => exact absurd rfl hne
  | cons item rest =>
      cases rest with
      | nil => simpa using hitems
      | cons next rest =>
          intro hempty
          have htext := congrArg String.toList hempty
          simp [joined, String.intercalate_cons_of_ne_nil] at htext

/-- Joining runs that are joined is joining all that is in them, so the chunks
with bars between them are the alternation. -/
theorem joined_map_joined {runs : List (List String)} (h : ∀ run ∈ runs, run ≠ []) :
    joined (runs.map joined) = joined runs.flatten := by
  induction runs with
  | nil => rfl
  | cons run rest ih =>
      obtain ⟨hrun, hrest⟩ := List.forall_mem_cons.1 h
      cases rest with
      | nil => simp
      | cons next rest =>
          have hnext : (next :: rest).flatten ≠ [] := by
            rw [List.flatten_cons]
            exact List.append_ne_nil_of_left_ne_nil (hrest next List.mem_cons_self) _
          calc joined ((run :: next :: rest).map joined)
              = joined [joined run] ++ "|" ++ joined ((next :: rest).map joined) :=
                joined_append (List.cons_ne_nil _ []) (by simp)
            _ = joined run ++ "|" ++ joined (next :: rest).flatten := by
                rw [joined_singleton, ih hrest]
            _ = joined (run :: next :: rest).flatten := (joined_append hrun hnext).symm

/-- The runs into which the alternatives are cut, of which `run` is open. It
goes on for as long as it stays within the limit. Runs are lists here, so that
nothing is lost by joining. -/
def runsFrom (limit : Nat) : (run : List String) → List String → List (List String)
  | run, [] => [run]
  | run, item :: rest =>
      if limit < (joined (run ++ [item])).utf8ByteSize then run :: runsFrom limit [item] rest
      else runsFrom limit (run ++ [item]) rest

theorem flatten_runsFrom (limit : Nat) (run items : List String) :
    (runsFrom limit run items).flatten = run ++ items := by
  fun_induction runsFrom limit run items with
  | case1 run => simp
  | case2 run item rest _ ih => simp [ih]
  | case3 run item rest _ ih => simp [ih]

theorem ne_nil_of_mem_runsFrom {limit : Nat} {run items : List String} (h : run ≠ []) :
    ∀ other ∈ runsFrom limit run items, other ≠ [] := by
  fun_induction runsFrom limit run items with
  | case1 run => exact List.forall_mem_singleton.2 h
  | case2 run item rest _ ih =>
      exact List.forall_mem_cons.2 ⟨h, ih (List.cons_ne_nil item [])⟩
  | case3 run item rest _ ih => exact ih (by simp)

/-- Whether an alternative has no room in any chunk. Names are refused for
this and for nothing else. -/
def tooLong (limit : Nat) (item : String) : Bool := limit < item.utf8ByteSize

/-- The invariant of cutting: the open chunk is the run of the alternatives
that have been put into it. An open run is not empty, so an empty text tells
that there is none. -/
theorem cut_joined (limit : Nat) {run items : List String} (hrun : run ≠ [])
    (hitems : ∀ item ∈ run ++ items, item ≠ "") :
    cut limit (joined run) items =
      match items.find? (tooLong limit) with
      | some item => .error (.configuration (.symbolTooLong item limit))
      | none => .ok ((runsFrom limit run items).map joined) := by
  induction items generalizing run with
  | nil =>
      have hopen : (joined run).isEmpty = false := by
        simpa using joined_ne_empty hrun (by simpa using hitems)
      simp [cut, closeChunk, runsFrom, hopen]
  | cons item rest ih =>
      have hopen : (joined run).isEmpty = false := by
        simpa using joined_ne_empty hrun fun x hx => hitems x (List.mem_append_left _ hx)
      have hsize : (joined (run ++ [item])).utf8ByteSize =
          (joined run).utf8ByteSize + 1 + item.utf8ByteSize := by
        rw [joined_snoc hrun, String.utf8ByteSize_append, String.utf8ByteSize_append]
        rfl
      by_cases hlong : limit < item.utf8ByteSize
      · simp [cut, tooLong, hlong]
      · have hfind : (item :: rest).find? (tooLong limit) = rest.find? (tooLong limit) :=
          List.find?_cons_of_neg (by simpa [tooLong] using hlong)
        rw [hfind, cut, if_neg hlong, if_neg (by simp [hopen])]
        by_cases hfull : limit < (joined (run ++ [item])).utf8ByteSize
        · have hnext := ih (List.cons_ne_nil item []) fun x hx =>
            hitems x (List.mem_append_right _ hx)
          rw [joined_singleton] at hnext
          rw [if_pos (hsize ▸ hfull), hnext, runsFrom, if_pos hfull]
          cases rest.find? (tooLong limit) <;> rfl
        · have hlonger : run ++ [item] ≠ [] := List.append_ne_nil_of_right_ne_nil run (by simp)
          have hgrown := ih hlonger (by simpa using hitems)
          rw [joined_snoc hrun] at hgrown
          rw [if_neg (hsize ▸ hfull), hgrown, runsFrom, if_neg hfull]

theorem escape_ne_empty {name : String} (h : name ≠ "") : escape name ≠ "" := by
  intro hempty
  have htext : name.toList.flatMap escapeChar = [] := by
    have := congrArg String.toList hempty
    simpa [escape] using this
  rw [List.flatMap_eq_nil_iff] at htext
  apply h
  cases hchars : name.toList with
  | nil => exact String.toList_eq_nil_iff.1 hchars
  | cons c rest =>
      have hc := htext c (hchars ▸ List.mem_cons_self)
      unfold escapeChar at hc
      split at hc <;> cases hc

theorem mem_alternatives {names : List String} {item : String} :
    item ∈ alternatives names ↔ ∃ name ∈ names, escape name = item := by
  simp [alternatives, mem_arranged]

theorem alternatives_eq_nil_iff {names : List String} : alternatives names = [] ↔ names = [] := by
  simp only [List.eq_nil_iff_forall_not_mem, mem_alternatives]
  constructor
  · intro h name hname
    exact h (escape name) ⟨name, hname, rfl⟩
  · rintro h item ⟨name, hname, -⟩
    exact h name hname

theorem chunks_of_ne_nil {names : List String} (limit : Nat) (h : names ≠ []) :
    Symbol.chunks limit names = cut limit "" (alternatives names) := by
  unfold Symbol.chunks
  split
  · next hnil => exact absurd (alternatives_eq_nil_iff.1 hnil) h
  · rfl

theorem alternation_of_ne_nil {names : List String} (h : names ≠ []) :
    alternation names = joined (alternatives names) := by
  unfold alternation
  split
  · next hnil => exact absurd (alternatives_eq_nil_iff.1 hnil) h
  · rfl

/-- The runs into which a collection of names is cut. The first name opens a
run, so none of them is empty. -/
def runsOf (limit : Nat) : (items : List String) → List (List String)
  | [] => []
  | item :: rest => runsFrom limit [item] rest

theorem flatten_runsOf (limit : Nat) (items : List String) :
    (runsOf limit items).flatten = items := by
  cases items with
  | nil => rfl
  | cons item rest => exact flatten_runsFrom limit [item] rest

theorem ne_nil_of_mem_runsOf (limit : Nat) (items : List String) :
    ∀ run ∈ runsOf limit items, run ≠ [] := by
  cases items with
  | nil => exact nofun
  | cons item rest => exact ne_nil_of_mem_runsFrom (List.cons_ne_nil item [])

/-- Names are cut into runs unless one of them has no room in any chunk; then
the first of those in the order of alternatives is named in the refusal. -/
theorem chunks_eq {limit : Nat} {names : List String} (hne : names ≠ [])
    (hnames : ∀ name ∈ names, name ≠ "") :
    Symbol.chunks limit names =
      match (alternatives names).find? (tooLong limit) with
      | some item => .error (.configuration (.symbolTooLong item limit))
      | none => .ok ((runsOf limit (alternatives names)).map joined) := by
  have hitems : ∀ item ∈ alternatives names, item ≠ "" := by
    intro item hitem
    obtain ⟨name, hname, rfl⟩ := mem_alternatives.1 hitem
    exact escape_ne_empty (hnames name hname)
  rw [chunks_of_ne_nil limit hne]
  cases hfirst : alternatives names with
  | nil => exact absurd (alternatives_eq_nil_iff.1 hfirst) hne
  | cons item rest =>
      rw [hfirst] at hitems
      by_cases hlong : limit < item.utf8ByteSize
      · simp [cut, tooLong, hlong]
      · have hopened := cut_joined limit (List.cons_ne_nil item []) hitems
        have hfind : (item :: rest).find? (tooLong limit) = rest.find? (tooLong limit) :=
          List.find?_cons_of_neg (by simpa [tooLong] using hlong)
        rw [joined_singleton] at hopened
        rw [hfind, cut, if_neg hlong, if_pos (String.isEmpty_iff.2 rfl), hopened]
        rfl

theorem chunks_eq_ok_iff {limit : Nat} {names chunks : List String} (hne : names ≠ [])
    (hnames : ∀ name ∈ names, name ≠ "") :
    Symbol.chunks limit names = .ok chunks ↔
      (∀ name ∈ names, (escape name).utf8ByteSize ≤ limit) ∧
        chunks = (runsOf limit (alternatives names)).map joined := by
  have hfits : (alternatives names).find? (tooLong limit) = none ↔
      ∀ name ∈ names, (escape name).utf8ByteSize ≤ limit := by
    rw [List.find?_eq_none]
    constructor
    · intro h name hname
      simpa [tooLong] using h (escape name) (mem_alternatives.2 ⟨name, hname, rfl⟩)
    · intro h item hitem
      obtain ⟨name, hname, rfl⟩ := mem_alternatives.1 hitem
      simpa [tooLong] using h name hname
  rw [chunks_eq hne hnames, ← hfits]
  cases (alternatives names).find? (tooLong limit) with
  | some item => simp
  | none => simp [eq_comm]

end SymbolPatterns.Symbol
