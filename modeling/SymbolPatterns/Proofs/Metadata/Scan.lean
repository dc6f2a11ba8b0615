import SymbolPatterns.Metadata.Header
import SymbolPatterns.Proofs.Text.Word

/-!
What a scan for a recogniser finds. A scan goes from left to right and passes
over what it has found, so each find is one that the recogniser makes at a word
boundary; and such a find is missed only where it begins inside of an earlier
one.
-/

namespace SymbolPatterns.Metadata

open Text

variable {α : Type} {recognise : Recogniser α}

/-- A recogniser makes a find at a word boundary of a text, in front of which
a character may stand. Where the boundary is, is told by the characters on
both sides. -/
def Finds (recognise : Recogniser α) (before : Option Char) (text : List Char) (x : α) : Prop :=
  ∃ front here behind, text = front ++ here ∧
    isBoundary (front.getLast?.or before) here.head? = true ∧ recognise here = some (x, behind)

/-- Each find of a recogniser takes some characters, so a scan comes to an end
and goes on behind what it has found. -/
def Consumes (recognise : Recogniser α) : Prop :=
  ∀ text x behind, recognise text = some (x, behind) → ∃ found, found ≠ [] ∧ text = found ++ behind

theorem findFrom_pending (recognise : Recogniser α) (before : Option Char)
    (passed rest : List Char) :
    findFrom recognise passed.length before (passed ++ rest) =
      findFrom recognise 0 (passed.getLast?.or before) rest := by
  induction passed generalizing before with
  | nil => rfl
  | cons c passed ih =>
      have hlast : passed.getLast?.or (some c) = (c :: passed).getLast? := by
        rw [List.getLast?_cons]
        cases passed.getLast? <;> rfl
      rw [List.length_cons, List.cons_append, findFrom, ih, hlast, List.getLast?_cons]
      rfl

/-- Where nothing is found a scan goes on behind the next character, and else
behind what it has found. The counter of characters to be passed does not show
any more. -/
theorem findFrom_cases (hconsumes : Consumes recognise) (before : Option Char) (c : Char)
    (rest : List Char) :
    ((isBoundary before (some c) = true → recognise (c :: rest) = none) ∧
        findFrom recognise 0 before (c :: rest) = findFrom recognise 0 (some c) rest) ∨
      ∃ x passed behind, passed ≠ [] ∧ c :: rest = passed ++ behind ∧
        isBoundary before (some c) = true ∧ recognise (c :: rest) = some (x, behind) ∧
        findFrom recognise 0 before (c :: rest) =
          x :: findFrom recognise 0 passed.getLast? behind := by
  cases hboundary : isBoundary before (some c) with
  | false =>
      refine .inl ⟨nofun, ?_⟩
      rw [findFrom, hboundary]
      rfl
  | true =>
      cases hfound : recognise (c :: rest) with
      | none =>
          refine .inl ⟨fun _ => rfl, ?_⟩
          rw [findFrom, hboundary]
          simp only [if_true, hfound]
      | some find =>
          obtain ⟨x, behind⟩ := find
          obtain ⟨passed, hne, hpassed⟩ := hconsumes _ _ _ hfound
          obtain ⟨first, found, rfl⟩ := List.exists_cons_of_ne_nil hne
          obtain ⟨rfl, hrest⟩ := List.cons.inj hpassed
          replace hrest : rest = found ++ behind := hrest
          subst hrest
          refine .inr ⟨x, c :: found, behind, hne, rfl, rfl, rfl, ?_⟩
          have hlength : (found ++ behind).length - behind.length = found.length := by simp
          have hlast : found.getLast?.or (some c) = (c :: found).getLast? := by
            rw [List.getLast?_cons]
            cases found.getLast? <;> rfl
          rw [findFrom, hboundary]
          simp only [if_true, hfound, hlength]
          rw [findFrom_pending, hlast]

theorem getLast?_append_or {passed : List Char} (hpassed : passed ≠ []) (front : List Char)
    (before : Option Char) :
    (passed ++ front).getLast?.or before = front.getLast?.or passed.getLast? := by
  rw [List.getLast?_append, List.getLast?_eq_some_getLast hpassed]
  cases front.getLast? <;> rfl

/-- A find behind some characters is a find in the whole text, with the last
of them in front of it. -/
theorem Finds.behind {before : Option Char} {passed rest : List Char} {x : α}
    (hpassed : passed ≠ []) (h : Finds recognise passed.getLast? rest x) :
    Finds recognise before (passed ++ rest) x := by
  obtain ⟨front, here, behind, rfl, hboundary, hfound⟩ := h
  refine ⟨passed ++ front, here, behind, (List.append_assoc ..).symm, ?_, hfound⟩
  rwa [getLast?_append_or hpassed]

theorem length_lt_of_passed {text passed behind : List Char} (hne : passed ≠ [])
    (h : text = passed ++ behind) : behind.length < text.length := by
  rw [h, List.length_append]
  exact Nat.lt_add_of_pos_left (List.length_pos_iff.2 hne)

/-- A scan finds only what the recogniser finds at a word boundary. The
induction is on the length of the text, as a scan jumps. -/
theorem finds_of_mem_findFrom (hconsumes : Consumes recognise) {before : Option Char}
    {text : List Char} {x : α} (h : x ∈ findFrom recognise 0 before text) :
    Finds recognise before text x := by
  induction hsize : text.length using Nat.strongRecOn generalizing before text with
  | ind size ih =>
      cases text with
      | nil => cases h
      | cons c rest =>
          rcases findFrom_cases hconsumes before c rest with ⟨-, hscan⟩ |
            ⟨y, passed, behind, hne, hsplit, hboundary, hfound, hscan⟩
          · rw [hscan] at h
            rw [List.length_cons] at hsize
            exact (ih rest.length (by omega) h rfl).behind (List.cons_ne_nil c [])
          · have hshorter := length_lt_of_passed hne hsplit
            rw [hscan] at h
            rcases List.mem_cons.1 h with rfl | h
            · exact ⟨[], c :: rest, behind, rfl, hboundary, hfound⟩
            · rw [hsplit]
              exact (ih behind.length (by omega) h rfl).behind hne

/-- A find that begins inside of an earlier one. Only such finds can be
missed, whatever the text is. -/
def FoundInside (recognise : Recogniser α) (x : α) : Prop :=
  ∃ front here behind rest y, front ≠ [] ∧ recognise (front ++ here) = some (y, behind) ∧
    behind.length < here.length ∧ isBoundary front.getLast? here.head? = true ∧
    recognise here = some (x, rest)

theorem exists_of_append_eq {passed other front here : List Char}
    (h : passed ++ other = front ++ here) (hlength : here.length ≤ other.length) :
    ∃ more, front = passed ++ more ∧ other = more ++ here := by
  rcases List.append_eq_append_iff.1 h with ⟨more, hfront, hmore⟩ | ⟨tail, htail, hhere⟩
  · exact ⟨more, hfront, hmore⟩
  · rw [hhere, List.length_append] at hlength
    have hnil : tail = [] := List.length_eq_zero_iff.1 (by omega)
    subst hnil
    exact ⟨[], by simpa using htail.symm, hhere.symm⟩

/-- A scan finds everything that the recogniser finds at a word boundary, but
for what begins inside of an earlier find. Whether there is such a find is a
question about the recogniser and not about scans. -/
theorem mem_findFrom_of_finds (hconsumes : Consumes recognise) {before : Option Char}
    {text : List Char} {x : α} (h : Finds recognise before text x)
    (hinside : ¬FoundInside recognise x) : x ∈ findFrom recognise 0 before text := by
  induction hsize : text.length using Nat.strongRecOn generalizing before text with
  | ind size ih =>
      obtain ⟨front, here, behind, hsplit, hboundary, hfound⟩ := h
      cases text with
      | nil =>
          obtain ⟨found, hne, hhere⟩ := hconsumes _ _ _ hfound
          simp [hhere, hne] at hsplit
      | cons c rest =>
          rcases findFrom_cases hconsumes before c rest with ⟨hnone, hscan⟩ |
            ⟨y, passed, other, hne, hpassed, -, hother, hscan⟩
          · rw [hscan]
            cases front with
            | nil =>
                subst hsplit
                rw [hnone hboundary] at hfound
                cases hfound
            | cons first front =>
                obtain ⟨rfl, hrest⟩ := List.cons.inj hsplit
                rw [← List.singleton_append, getLast?_append_or (List.cons_ne_nil c [])]
                  at hboundary
                rw [List.length_cons] at hsize
                exact ih rest.length (by omega) ⟨front, here, behind, hrest, hboundary, hfound⟩ rfl
          · rw [hscan]
            have hshorter := length_lt_of_passed hne hpassed
            by_cases hfront : front = []
            · subst hfront
              have hsame : (y, other) = (x, behind) :=
                Option.some.inj (hother.symm.trans (hsplit ▸ hfound))
              rw [(Prod.mk.inj hsame).1]
              exact List.mem_cons_self
            · -- The place is inside of what was found, or among what follows it.
              by_cases hlength : other.length < here.length
              · refine absurd ⟨front, here, other, behind, y, hfront, ?_, hlength, ?_, hfound⟩
                  hinside
                · rw [← hsplit, hother]
                · rwa [List.getLast?_eq_some_getLast hfront] at hboundary ⊢
              · obtain ⟨more, rfl, hmore⟩ :=
                  exists_of_append_eq (hpassed.symm.trans hsplit) (Nat.not_lt.1 hlength)
                rw [getLast?_append_or hne] at hboundary
                exact List.mem_cons_of_mem y
                  (ih other.length (by omega) ⟨more, here, behind, hmore, hboundary, hfound⟩ rfl)

theorem mem_findAll_iff (hconsumes : Consumes recognise) {text : List Char} {x : α}
    (hinside : ¬FoundInside recognise x) :
    x ∈ findAll recognise text ↔ Finds recognise none text x :=
  ⟨finds_of_mem_findFrom hconsumes, fun h => mem_findFrom_of_finds hconsumes h hinside⟩

end SymbolPatterns.Metadata
