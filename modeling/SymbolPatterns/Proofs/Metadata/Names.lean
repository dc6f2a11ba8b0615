import SymbolPatterns.Metadata.Header
import SymbolPatterns.Proofs.Text.Split
import SymbolPatterns.Proofs.Text.Word

/-!
Names as a header spells them: segments with double colons between, and blanks
around the colons. The recognisers of names accept what is spelled so, and take
as much of it as there is.
-/

namespace SymbolPatterns.Metadata

open Text

theorem expect_eq_some_iff {word : String} {text rest : List Char} :
    expect word text = some rest ↔ text = word.toList ++ rest := by
  unfold expect
  rw [Option.ite_none_right_eq_some, List.isPrefixOf_iff_prefix, ← String.length_toList]
  constructor
  · rintro ⟨⟨tail, rfl⟩, htail⟩
    rw [List.drop_left, Option.some_inj] at htail
    rw [htail]
  · rintro rfl
    exact ⟨List.prefix_append _ _, by rw [List.drop_left]⟩

theorem expect_append (word : String) (rest : List Char) :
    expect word (word.toList ++ rest) = some rest := expect_eq_some_iff.2 rfl

def StopsBlanks (text : List Char) : Prop := ∀ c ∈ text.head?, isBlank c = false

theorem stopsBlanks_skipBlanks (text : List Char) : StopsBlanks (skipBlanks text) := by
  intro c hc
  have hhead := List.head?_dropWhile_not isBlank text
  rw [skipBlanks] at hc
  rw [hc] at hhead
  simpa using hhead

theorem skipBlanks_of_stopsBlanks {text : List Char} (h : StopsBlanks text) :
    skipBlanks text = text := by
  cases text with
  | nil => rfl
  | cons c rest => exact skipBlanks_cons (h c rfl) rest

theorem expectBlanks_eq_some_iff {text rest : List Char} :
    expectBlanks text = some rest ↔ ∃ gap, IsGap gap ∧ text = gap ++ rest ∧ StopsBlanks rest := by
  constructor
  · intro h
    unfold expectBlanks at h
    split at h
    · next c others =>
      split at h
      · next hc =>
        obtain rfl := Option.some.inj h
        obtain ⟨gap, hgap, hsplit⟩ := exists_blanks others
        refine ⟨c :: gap, ⟨List.cons_ne_nil c gap, List.forall_mem_cons.2 ⟨hc, hgap⟩⟩, ?_,
          stopsBlanks_skipBlanks others⟩
        rw [List.cons_append, ← hsplit]
      · cases h
    · cases h
  · rintro ⟨gap, hgap, rfl, hrest⟩
    obtain ⟨c, gap, rfl⟩ := List.exists_cons_of_ne_nil hgap.notEmpty
    obtain ⟨hc, hblanks⟩ := List.forall_mem_cons.1 hgap.blanks
    rw [List.cons_append, expectBlanks, if_pos hc, skipBlanks_append hblanks,
      skipBlanks_of_stopsBlanks hrest]

theorem expectBlanks_gap {gap rest : List Char} (hgap : IsGap gap) (hrest : StopsBlanks rest) :
    expectBlanks (gap ++ rest) = some rest := expectBlanks_eq_some_iff.2 ⟨gap, hgap, rfl, hrest⟩

theorem toNat_lt_of_isAlpha {c : Char} (h : c.isAlpha = true) : c.toNat < 128 := by
  rcases Bool.or_eq_true_iff.1 h with hupper | hlower
  · have hle : c.val ≤ 'Z'.val := (of_decide_eq_true hupper).2
    exact Nat.lt_of_le_of_lt (UInt32.le_iff_toNat_le.1 hle) (by decide)
  · have hle : c.val ≤ 'z'.val := of_decide_eq_true (Bool.and_eq_true_iff.1 hlower).2
    exact Nat.lt_of_le_of_lt (UInt32.le_iff_toNat_le.1 hle) (by decide)

theorem isWord_of_beginsName {c : Char} (h : beginsName c = true) : isWord c = true := by
  rcases Bool.or_eq_true_iff.1 h with halpha | hunderscore
  · have halphanum : c.isAlphanum = true := Bool.or_eq_true_iff.2 (.inl halpha)
    rw [isWord, if_pos (toNat_lt_of_isAlpha halpha), halphanum, Bool.true_or]
  · rw [eq_of_beq hunderscore]
    decide

/-- A letter or an underscore, and word characters behind it. Word characters
are those of all scripts here, so what is spelled need not be a name of a
symbol. -/
inductive IsSegment : List Char → Prop where
  | intro {c : Char} {rest : List Char} (hfirst : beginsName c = true) (hrest : IsWord rest) :
      IsSegment (c :: rest)

theorem IsSegment.isWord {segment : List Char} (h : IsSegment segment) : IsWord segment := by
  cases h with
  | intro hfirst hrest => exact List.forall_mem_cons.2 ⟨isWord_of_beginsName hfirst, hrest⟩

theorem IsSegment.stopsBlanks {segment : List Char} (h : IsSegment segment) (rest : List Char) :
    StopsBlanks (segment ++ rest) := by
  cases h with
  | intro hfirst _ =>
      intro c hc
      rw [← Option.some.inj hc]
      exact isBlank_of_isWord (isWord_of_beginsName hfirst)

theorem simpleName_eq_some_iff {text name rest : List Char} :
    simpleName text = some (name, rest) ↔
      IsSegment name ∧ text = name ++ rest ∧ StopsWord rest := by
  constructor
  · intro h
    unfold simpleName at h
    split at h
    · next c others =>
      split at h
      · next hc =>
        obtain ⟨rfl, rfl⟩ := Prod.mk.inj (Option.some.inj h)
        refine ⟨.intro hc fun d hd => List.mem_takeWhile_imp hd, ?_, stopsWord_dropWhile others⟩
        rw [List.cons_append, List.takeWhile_append_dropWhile]
      · cases h
    · cases h
  · rintro ⟨⟨hfirst, hword⟩, rfl, hrest⟩
    rw [List.cons_append, simpleName, if_pos hfirst, takeWhile_word hword hrest,
      dropWhile_word hword hrest]

/-- Further segments, each behind a double colon with blanks around it. -/
inductive Continues : List (List Char) → List Char → Prop where
  | nil : Continues [] []
  | cons {segment front behind more : List Char} {segments : List (List Char)}
      (hfront : Blanks front) (hbehind : Blanks behind) (hsegment : IsSegment segment)
      (hmore : Continues segments more) :
      Continues (segment :: segments) (front ++ ':' :: ':' :: (behind ++ (segment ++ more)))

/-- A name of some segments, as it is spelled. Blanks may stand around the
colons but not inside of a segment. -/
inductive Spells : List (List Char) → List Char → Prop where
  | intro {segment more : List Char} {segments : List (List Char)} (hsegment : IsSegment segment)
      (hmore : Continues segments more) : Spells (segment :: segments) (segment ++ more)

/-- A spelled name without its blanks. -/
def compacted (name : List Char) : String := String.ofList (name.filter fun c => !isBlank c)

theorem Continues.stopsWord {segments : List (List Char)} {more rest : List Char}
    (h : Continues segments more) (hrest : StopsWord rest) : StopsWord (more ++ rest) := by
  cases h with
  | nil => exact hrest
  | cons hfront _ _ _ =>
      rw [List.append_assoc]
      exact hfront.stopsWord (stopsWord_cons (by decide) _)

theorem continues_of_moreSegments {bound text rest : List Char} {segments : List (List Char)}
    (h : moreSegments bound text = (segments, rest)) (hstops : StopsWord text) :
    ∃ more, Continues segments more ∧ text = more ++ rest ∧ StopsWord rest := by
  induction bound generalizing text segments with
  | nil =>
      obtain ⟨rfl, rfl⟩ := Prod.mk.inj h
      exact ⟨[], .nil, rfl, hstops⟩
  | cons c bound ih =>
      unfold moreSegments at h
      dsimp only at h
      split at h
      · obtain ⟨rfl, rfl⟩ := Prod.mk.inj h
        exact ⟨[], .nil, rfl, hstops⟩
      · next segment tail hnext =>
        obtain ⟨inner, hcolons, hname⟩ := Option.bind_eq_some_iff.1 hnext
        obtain ⟨hsegment, hinner, htail⟩ := simpleName_eq_some_iff.1 hname
        obtain ⟨front, hfront, htext⟩ := exists_blanks text
        obtain ⟨behind, hbehind, hsplit⟩ := exists_blanks inner
        generalize hfound : moreSegments bound tail = found at h
        obtain ⟨others, last⟩ := found
        obtain ⟨rfl, rfl⟩ := Prod.mk.inj h
        obtain ⟨more, hmore, rfl, hends⟩ := ih hfound htail
        refine ⟨_, .cons hfront hbehind hsegment hmore, ?_, hends⟩
        rw [htext, expect_eq_some_iff.1 hcolons, hsplit, hinner]
        simp

theorem skipBlanks_colons {front : List Char} (h : Blanks front) (rest : List Char) :
    skipBlanks (front ++ ':' :: rest) = ':' :: rest := by
  rw [skipBlanks_append h, skipBlanks_cons (by decide)]

theorem moreSegments_of_continues {segments : List (List Char)} {more : List Char}
    (h : Continues segments more) {rest bound : List Char} (hrest : StopsWord rest)
    (hends : expect "::" (skipBlanks rest) = none)
    (hbound : (more ++ rest).length ≤ bound.length) :
    moreSegments bound (more ++ rest) = (segments, rest) := by
  induction h generalizing bound with
  | nil =>
      cases bound with
      | nil => rfl
      | cons c bound =>
          rw [List.nil_append, moreSegments, hends]
          rfl
  | @cons segment front behind more segments hfront hbehind hsegment hmore ih =>
      cases bound with
      | nil => simp at hbound
      | cons c bound =>
          have hcolons : expect "::" (':' :: ':' :: (behind ++ (segment ++ (more ++ rest)))) =
              some (behind ++ (segment ++ (more ++ rest))) := expect_append "::" _
          have hsegments : skipBlanks (behind ++ (segment ++ (more ++ rest))) =
              segment ++ (more ++ rest) := by
            rw [skipBlanks_append hbehind, skipBlanks_of_stopsBlanks (hsegment.stopsBlanks _)]
          have hname : simpleName (segment ++ (more ++ rest)) = some (segment, more ++ rest) :=
            simpleName_eq_some_iff.2 ⟨hsegment, rfl, hmore.stopsWord hrest⟩
          have hshorter : (more ++ rest).length ≤ bound.length := by
            simp only [List.length_append, List.length_cons] at hbound ⊢
            omega
          have htext : front ++ ':' :: ':' :: (behind ++ (segment ++ more)) ++ rest =
              front ++ ':' :: ':' :: (behind ++ (segment ++ (more ++ rest))) := by simp
          rw [htext, moreSegments, skipBlanks_colons hfront]
          simp only [hcolons, hsegments, hname, ih hshorter, bind, Option.bind]

theorem spells_of_scopedName {text rest : List Char} {segments : List (List Char)}
    (h : scopedName text = some (segments, rest)) :
    ∃ name, Spells segments name ∧ text = name ++ rest ∧ StopsWord rest := by
  obtain ⟨⟨segment, tail⟩, hname, hfinds⟩ := Option.bind_eq_some_iff.1 h
  obtain ⟨hsegment, rfl, htail⟩ := simpleName_eq_some_iff.1 hname
  dsimp only at hfinds
  generalize hfound : moreSegments tail tail = found at hfinds
  obtain ⟨others, last⟩ := found
  obtain ⟨rfl, rfl⟩ := Prod.mk.inj (Option.some.inj hfinds)
  obtain ⟨more, hmore, rfl, hrest⟩ := continues_of_moreSegments hfound htail
  exact ⟨segment ++ more, .intro hsegment hmore, (List.append_assoc ..).symm, hrest⟩

theorem scopedName_of_spells {segments : List (List Char)} {name rest : List Char}
    (h : Spells segments name) (hrest : StopsWord rest)
    (hends : expect "::" (skipBlanks rest) = none) :
    scopedName (name ++ rest) = some (segments, rest) := by
  cases h with
  | @intro segment more segments hsegment hmore =>
      have hname : simpleName (segment ++ (more ++ rest)) = some (segment, more ++ rest) :=
        simpleName_eq_some_iff.2 ⟨hsegment, rfl, hmore.stopsWord hrest⟩
      have hmore := moreSegments_of_continues hmore hrest hends (Nat.le_refl _)
      rw [List.append_assoc, scopedName, hname]
      simp only [hmore, bind, Option.bind, pure]

theorem filter_blanks {gap : List Char} (h : Blanks gap) :
    (gap.filter fun c => !isBlank c) = [] :=
  List.filter_eq_nil_iff.2 fun c hc => by simp [h c hc]

theorem filter_segment {segment : List Char} (h : IsSegment segment) :
    (segment.filter fun c => !isBlank c) = segment :=
  List.filter_eq_self.2 fun c hc => by simp [isBlank_of_isWord (h.isWord c hc)]

theorem intercalate_of_continues {segments : List (List Char)} {more : List Char}
    (h : Continues segments more) (segment : List Char) :
    "::".toList.intercalate (segment :: segments) =
      segment ++ more.filter fun c => !isBlank c := by
  induction h generalizing segment with
  | nil => simp
  | @cons next front behind more segments hfront hbehind hsegment _ ih =>
      have hcolon : ∀ rest : List Char, ((':' :: rest).filter fun c => !isBlank c) =
          ':' :: rest.filter fun c => !isBlank c := fun rest => List.filter_cons_of_pos rfl
      rw [List.intercalate_cons_cons, ih, List.filter_append, filter_blanks hfront, hcolon,
        hcolon, List.filter_append, filter_blanks hbehind, List.filter_append,
        filter_segment hsegment]
      simp

/-- The segments of a name with double colons between are the name without its
blanks. So a name can be told without its segments. -/
theorem scopedText_of_spells {segments : List (List Char)} {name : List Char}
    (h : Spells segments name) : scopedText segments = compacted name := by
  cases h with
  | @intro segment more segments hsegment hmore =>
      rw [compacted, ← String.toList_inj, scopedText, String.toList_intercalate,
        Text.map_toList_ofList, intercalate_of_continues hmore, String.toList_ofList, List.filter_append,
        filter_segment hsegment]

/-- The first character behind the word at the front of a text that is no
blank. It decides what a word can be taken for. -/
def follower (text : List Char) : Option Char := (skipBlanks (text.dropWhile isWord)).head?

theorem follower_word {word rest : List Char} (hword : IsWord word) (hrest : StopsWord rest) :
    follower (word ++ rest) = (skipBlanks rest).head? := by
  rw [follower, dropWhile_word hword hrest]

theorem follower_segment {segment more tail : List Char} {segments : List (List Char)}
    (hsegment : IsSegment segment) (hmore : Continues segments more) (htail : StopsWord tail) :
    follower (segment ++ (more ++ tail)) = some ':' ∨
      follower (segment ++ (more ++ tail)) = (skipBlanks tail).head? := by
  rw [follower_word hsegment.isWord (hmore.stopsWord htail)]
  cases hmore with
  | nil => exact .inr rfl
  | cons hfront _ _ _ =>
      refine .inl ?_
      rw [List.append_assoc, List.cons_append, skipBlanks_colons hfront]
      rfl

theorem begins_in_segments {segments : List (List Char)} {more tail front here : List Char}
    (hmore : Continues segments more) (htail : StopsWord tail) (h : Begins front here)
    (heq : more ++ tail = front ++ here) :
    (follower here = some ':' ∨ follower here = (skipBlanks tail).head?) ∨
      ∃ others, tail = others ++ here ∧ Begins others here := by
  induction hmore generalizing front with
  | nil => exact .inr ⟨front, heq, h⟩
  | @cons segment gap behind more segments hgap hbehind hsegment hmore ih =>
      have hsplit : (gap ++ ':' :: ':' :: behind) ++ (segment ++ (more ++ tail)) =
          front ++ here := by
        rw [← heq]
        simp
      have hnoWord : ∀ c ∈ gap ++ ':' :: ':' :: behind, isWord c = false := by
        simp only [List.mem_append, List.mem_cons]
        rintro c (hc | rfl | rfl | hc)
        · exact hgap.noWord c hc
        · decide
        · decide
        · exact hbehind.noWord c hc
      obtain ⟨others, -, hothers, hbegins⟩ := h.skip_gap hnoWord hsplit
      rcases hbegins.skip_word hsegment.isWord hothers with ⟨-, rfl⟩ | ⟨later, -, hlater, hbegins⟩
      · exact .inl (follower_segment hsegment hmore htail)
      · exact ih hbegins hlater

/-- A word that begins in a name or behind it is a segment, with a double
colon or the end of the name behind it, or begins behind the name. -/
theorem begins_in_name {segments : List (List Char)} {name tail front here : List Char}
    (hname : Spells segments name) (htail : StopsWord tail) (h : Begins front here)
    (heq : name ++ tail = front ++ here) :
    (follower here = some ':' ∨ follower here = (skipBlanks tail).head?) ∨
      ∃ others, tail = others ++ here ∧ Begins others here := by
  cases hname with
  | @intro segment more segments hsegment hmore =>
      rw [List.append_assoc] at heq
      rcases h.skip_word hsegment.isWord heq with ⟨-, rfl⟩ | ⟨later, -, hlater, hbegins⟩
      · exact .inl (follower_segment hsegment hmore htail)
      · exact begins_in_segments hmore htail hbegins hlater

end SymbolPatterns.Metadata
