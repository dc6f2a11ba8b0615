import Mathlib.Data.List.TakeWhile
import SymbolPatterns.Text.Blank
import SymbolPatterns.Text.Word

/-!
Words in a text and the gaps between them. A blank is no word character, so a
text is taken apart into words and gaps in one way only, and a word begins where
nothing or a gap stands in front.
-/

namespace SymbolPatterns.Text

def blankCodes : List Nat :=
  [0x9, 0xa, 0xb, 0xc, 0xd, 0x20, 0x85, 0xa0, 0x1680, 0x2000, 0x2001, 0x2002, 0x2003, 0x2004,
    0x2005, 0x2006, 0x2007, 0x2008, 0x2009, 0x200a, 0x2028, 0x2029, 0x202f, 0x205f, 0x3000]

theorem mem_blankCodes {c : Char} (h : isBlank c = true) : c.toNat ∈ blankCodes := by
  have hle : ∀ d e : Char, d ≤ e ↔ d.toNat ≤ e.toNat := fun _ _ => Iff.rfl
  simp only [isBlank, Bool.or_eq_true, Bool.and_eq_true, decide_eq_true_eq, beq_iff_eq, hle,
    ← Char.toNat_inj, Char.reduceToNat] at h
  simp only [blankCodes, List.mem_cons, List.not_mem_nil, or_false]
  omega

theorem isWord_of_isBlank {c : Char} (h : isBlank c = true) : isWord c = false := by
  have hall : ∀ code ∈ blankCodes, isWord (Char.ofNat code) = false := by decide +kernel
  have hc := hall c.toNat (mem_blankCodes h)
  rwa [Char.ofNat_toNat] at hc

theorem isBlank_of_isWord {c : Char} (h : isWord c = true) : isBlank c = false := by
  cases hblank : isBlank c with
  | false => rfl
  | true =>
      rw [isWord_of_isBlank hblank] at h
      cases h

def Blanks (gap : List Char) : Prop := ∀ c ∈ gap, isBlank c = true

/-- Some blanks, and one at least. Between a keyword and a name this is what
keeps them apart. -/
structure IsGap (gap : List Char) : Prop where
  notEmpty : gap ≠ []
  blanks : Blanks gap

theorem skipBlanks_append {gap : List Char} (h : Blanks gap) (rest : List Char) :
    skipBlanks (gap ++ rest) = skipBlanks rest :=
  List.dropWhile_append_of_pos h

theorem skipBlanks_cons {c : Char} (h : isBlank c = false) (rest : List Char) :
    skipBlanks (c :: rest) = c :: rest :=
  List.dropWhile_cons_of_neg (by simp [h])

/-- A text is some blanks and what follows when they are skipped. Skipping
never fails and never takes anything else. -/
theorem exists_blanks (text : List Char) :
    ∃ gap, Blanks gap ∧ text = gap ++ skipBlanks text :=
  ⟨text.takeWhile isBlank, fun _ hc => List.mem_takeWhile_imp hc,
    List.takeWhile_append_dropWhile.symm⟩

def IsWord (word : List Char) : Prop := ∀ c ∈ word, isWord c = true

theorem isWord_of_all {word : List Char} (h : word.all isWord = true) : IsWord word :=
  List.all_eq_true.1 h

/-- No word goes on at the front of a text: it is empty, or begins with
something that is no word character. -/
def StopsWord (text : List Char) : Prop := ∀ c ∈ text.head?, isWord c = false

/-- No word is open behind a text, so a word may begin there. -/
def AtBoundary (text : List Char) : Prop := ∀ c ∈ text.getLast?, isWord c = false

theorem stopsWord_cons {c : Char} (h : isWord c = false) (rest : List Char) :
    StopsWord (c :: rest) := by
  intro d hd
  rwa [← Option.some.inj hd]

theorem Blanks.stopsWord {gap rest : List Char} (h : Blanks gap) (hrest : StopsWord rest) :
    StopsWord (gap ++ rest) := by
  cases gap with
  | nil => exact hrest
  | cons c gap => exact stopsWord_cons (isWord_of_isBlank (h c List.mem_cons_self)) _

theorem IsGap.stopsWord {gap : List Char} (h : IsGap gap) (rest : List Char) :
    StopsWord (gap ++ rest) := by
  obtain ⟨c, others, rfl⟩ := List.exists_cons_of_ne_nil h.notEmpty
  exact stopsWord_cons (isWord_of_isBlank (h.blanks c List.mem_cons_self)) _

theorem takeWhile_word {word rest : List Char} (hword : IsWord word) (hrest : StopsWord rest) :
    (word ++ rest).takeWhile isWord = word := by
  rw [List.takeWhile_append_of_pos hword]
  cases rest with
  | nil => rw [List.takeWhile_nil, List.append_nil]
  | cons c rest => rw [List.takeWhile_cons_of_neg (by simp [hrest c rfl]), List.append_nil]

theorem dropWhile_word {word rest : List Char} (hword : IsWord word) (hrest : StopsWord rest) :
    (word ++ rest).dropWhile isWord = rest := by
  rw [List.dropWhile_append_of_pos hword]
  cases rest with
  | nil => rfl
  | cons c rest => rw [List.dropWhile_cons_of_neg (by simp [hrest c rfl])]

/-- A word is where it ends: from one place a text has one word, and one rest. -/
theorem word_unique {word other rest more : List Char} (hword : IsWord word)
    (hother : IsWord other) (hrest : StopsWord rest) (hmore : StopsWord more)
    (h : word ++ rest = other ++ more) : word = other ∧ rest = more := by
  have htaken := congrArg (List.takeWhile isWord) h
  rw [takeWhile_word hword hrest, takeWhile_word hother hmore] at htaken
  subst htaken
  exact ⟨rfl, List.append_cancel_left h⟩

theorem stopsWord_dropWhile (text : List Char) : StopsWord (text.dropWhile isWord) := by
  intro c hc
  have hhead := List.head?_dropWhile_not isWord text
  rw [hc] at hhead
  simpa using hhead

/-- Behind `front` a word begins at `here`. It carries the text in front
along, since whether a word begins cannot be told from what follows. -/
structure Begins (front here : List Char) : Prop where
  atBoundary : AtBoundary front
  onWord : ∃ c rest, here = c :: rest ∧ isWord c = true

theorem AtBoundary.behind {front more : List Char} (h : AtBoundary (front ++ more)) :
    AtBoundary more := by
  intro c hc
  apply h
  rw [List.getLast?_append, hc]
  rfl

/-- A word that begins in or behind another one is that one, or begins behind
it. So no word begins inside of one. -/
theorem Begins.skip_word {word rest front here : List Char} (h : Begins front here)
    (hword : IsWord word) (heq : word ++ rest = front ++ here) :
    (front = [] ∧ here = word ++ rest) ∨
      ∃ more, front = word ++ more ∧ rest = more ++ here ∧ Begins more here := by
  rcases List.append_eq_append_iff.1 heq with ⟨more, rfl, hrest⟩ | ⟨tail, rfl, rfl⟩
  · exact .inr ⟨more, rfl, hrest, h.atBoundary.behind, h.onWord⟩
  · rcases List.eq_nil_or_concat front with rfl | ⟨others, c, rfl⟩
    · exact .inl ⟨rfl, rfl⟩
    · have hc := h.atBoundary c (by simp)
      rw [hword c (by simp)] at hc
      cases hc

/-- A word that begins in or behind a gap begins behind it, as a gap has no
word character. -/
theorem Begins.skip_gap {gap rest front here : List Char} (h : Begins front here)
    (hgap : ∀ c ∈ gap, isWord c = false) (heq : gap ++ rest = front ++ here) :
    ∃ more, front = gap ++ more ∧ rest = more ++ here ∧ Begins more here := by
  rcases List.append_eq_append_iff.1 heq with ⟨more, rfl, hrest⟩ | ⟨tail, rfl, rfl⟩
  · exact ⟨more, rfl, hrest, h.atBoundary.behind, h.onWord⟩
  · cases tail with
    | nil => exact ⟨[], by simp, rfl, nofun, h.onWord⟩
    | cons c tail =>
        obtain ⟨first, rest, hfirst, hword⟩ := h.onWord
        obtain ⟨rfl, -⟩ := List.cons.inj hfirst
        rw [hgap c (by simp)] at hword
        cases hword

theorem Blanks.noWord {gap : List Char} (h : Blanks gap) : ∀ c ∈ gap, isWord c = false :=
  fun c hc => isWord_of_isBlank (h c hc)

/-- A word that begins in or behind a gap that ends in a stop begins behind
the stop. It bounds where a scan can meet the next word. -/
theorem Begins.length_le {gap rest front here : List Char} {stop : Char} (h : Begins front here)
    (hgap : Blanks gap) (hstop : isWord stop = false)
    (heq : gap ++ stop :: rest = front ++ here) : here.length ≤ rest.length := by
  have hall : ∀ c ∈ gap ++ [stop], isWord c = false := by
    simp only [List.mem_append, List.mem_singleton]
    rintro c (hc | rfl)
    · exact hgap.noWord c hc
    · exact hstop
  obtain ⟨more, -, rfl, -⟩ := h.skip_gap hall (by simpa using heq)
  rw [List.length_append]
  exact Nat.le_add_left ..

end SymbolPatterns.Text
