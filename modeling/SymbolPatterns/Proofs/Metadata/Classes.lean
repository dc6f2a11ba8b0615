import SymbolPatterns.Proofs.Metadata.Declarations

/-!
The declarations of classes and of scoped enumerations in a header. A class is
missed only where its keyword is read as the name of the class in front of it,
and then it is named `final`; what an enumeration is named is found wherever a
match of one is.
-/

namespace SymbolPatterns.Metadata

open Text

inductive ClassKeyword : List Char → Prop where
  | ofClass : ClassKeyword "class".toList
  | ofStruct : ClassKeyword "struct".toList

theorem ClassKeyword.isWord {keyword : List Char} (h : ClassKeyword keyword) : IsWord keyword := by
  cases h <;> exact isWord_of_all rfl

theorem ClassKeyword.ne_nil {keyword : List Char} (h : ClassKeyword keyword) : keyword ≠ [] := by
  cases h <;> decide

theorem ClassKeyword.ne_final {keyword : List Char} (h : ClassKeyword keyword) :
    "final".toList ≠ keyword := by
  cases h <;> decide

theorem classKeyword_eq_some_iff {text rest : List Char} :
    classKeyword text = some rest ↔ ∃ keyword, ClassKeyword keyword ∧ text = keyword ++ rest := by
  rw [classKeyword, Option.orElse_eq_or, Option.or_eq_some_iff, expect_eq_some_iff]
  constructor
  · rintro (h | ⟨-, h⟩)
    · exact ⟨_, .ofClass, h⟩
    · exact ⟨_, .ofStruct, expect_eq_some_iff.1 h⟩
  · rintro ⟨keyword, hkeyword, rfl⟩
    cases hkeyword with
    | ofClass => exact .inl rfl
    | ofStruct => exact .inr ⟨rfl, expect_append "struct" rest⟩

/-- A colon, a brace or a semicolon. -/
def Terminates (c : Char) : Prop := c = ':' ∨ c = '{' ∨ c = ';'

theorem Terminates.noName {c : Char} (h : Terminates c) : beginsName c = false := by
  rcases h with rfl | rfl | rfl <;> decide

theorem Terminates.noWord {c : Char} (h : Terminates c) : isWord c = false := by
  rcases h with rfl | rfl | rfl <;> decide

theorem Terminates.noBlank {c : Char} (h : Terminates c) : isBlank c = false := by
  rcases h with rfl | rfl | rfl <;> decide

theorem endsDeclaration_eq_some_iff {text rest : List Char} :
    endsDeclaration text = some rest ↔ ∃ c, Terminates c ∧ text = c :: rest := by
  cases text with
  | nil => simp [endsDeclaration]
  | cons c others =>
      simp only [endsDeclaration, Option.ite_none_right_eq_some, Bool.or_eq_true, decide_eq_true_eq,
        Option.some_inj, List.cons.injEq, Terminates]
      constructor
      · rintro ⟨(h | h) | h, rfl⟩
        · exact ⟨c, .inl h, rfl, rfl⟩
        · exact ⟨c, .inr (.inl h), rfl, rfl⟩
        · exact ⟨c, .inr (.inr h), rfl, rfl⟩
      · rintro ⟨_, h, rfl, rfl⟩
        exact ⟨or_assoc.2 h, rfl⟩

/-- What ends the declaration of a class behind its name, and what is left
behind that: one of the three characters, also behind the word `final`. -/
inductive EndsClass (rest : List Char) : List Char → Prop where
  | plain {gap : List Char} {c : Char} (hgap : Blanks gap) (hc : Terminates c) :
      EndsClass rest (gap ++ c :: rest)
  | final {gap between : List Char} {c : Char} (hgap : Blanks gap) (hbetween : Blanks between)
      (hc : Terminates c) : EndsClass rest (gap ++ ("final".toList ++ (between ++ c :: rest)))

theorem isWord_final : IsWord "final".toList := isWord_of_all rfl

theorem skipBlanks_terminated {gap rest : List Char} {c : Char} (hgap : Blanks gap)
    (hc : Terminates c) : skipBlanks (gap ++ c :: rest) = c :: rest := by
  rw [skipBlanks_append hgap, skipBlanks_cons hc.noBlank]

theorem skipBlanks_final {gap : List Char} (hgap : Blanks gap) (rest : List Char) :
    skipBlanks (gap ++ ("final".toList ++ rest)) = "final".toList ++ rest := by
  rw [skipBlanks_append hgap,
    skipBlanks_of_stopsBlanks (stopsBlanks_keyword (by decide) isWord_final rest)]

theorem endsClass_iff {text rest : List Char} :
    (((expect "final" (skipBlanks text)).bind fun rest => endsDeclaration (skipBlanks rest)).orElse
      fun _ => endsDeclaration (skipBlanks text)) = some rest ↔ EndsClass rest text := by
  rw [Option.orElse_eq_or, Option.or_eq_some_iff]
  constructor
  · obtain ⟨gap, hgap, htext⟩ := exists_blanks text
    rintro (h | ⟨-, h⟩)
    · obtain ⟨inner, hfinal, hends⟩ := Option.bind_eq_some_iff.1 h
      obtain ⟨between, hbetween, hinner⟩ := exists_blanks inner
      obtain ⟨c, hc, hrest⟩ := endsDeclaration_eq_some_iff.1 hends
      rw [htext, expect_eq_some_iff.1 hfinal, hinner, hrest]
      exact .final hgap hbetween hc
    · obtain ⟨c, hc, hrest⟩ := endsDeclaration_eq_some_iff.1 h
      rw [htext, hrest]
      exact .plain hgap hc
  · rintro (⟨hgap, hc⟩ | ⟨hgap, hbetween, hc⟩)
    · refine .inr ⟨?_, endsDeclaration_eq_some_iff.2 ⟨_, hc, skipBlanks_terminated hgap hc⟩⟩
      rw [skipBlanks_terminated hgap hc]
      rcases hc with rfl | rfl | rfl <;> rfl
    · refine .inl ?_
      rw [skipBlanks_final hgap, expect_append, Option.bind_some,
        skipBlanks_terminated hbetween hc]
      exact endsDeclaration_eq_some_iff.2 ⟨_, hc, rfl⟩

/-- `class NAME` or `struct NAME` with its ending, where NAME is the whole
word. Names with double colons are not declared in this form. -/
inductive ClassDeclaration (name : List Char) : List Char → Prop where
  | intro {keyword gap behind rest : List Char} (hkeyword : ClassKeyword keyword)
      (hgap : IsGap gap) (hname : IsWord name) (hwhole : StopsWord behind)
      (hends : EndsClass rest behind) : ClassDeclaration name (keyword ++ (gap ++ (name ++ behind)))

theorem classDeclaration_eq_some_iff {text name rest : List Char} :
    classDeclaration text = some (name, rest) ↔
      ∃ keyword gap behind, ClassKeyword keyword ∧ IsGap gap ∧ IsSegment name ∧
        StopsWord behind ∧ EndsClass rest behind ∧ text = keyword ++ (gap ++ (name ++ behind)) := by
  constructor
  · intro h
    obtain ⟨inner, hkeyword, hinner⟩ := Option.bind_eq_some_iff.1 h
    obtain ⟨tail, hblanks, htail⟩ := Option.bind_eq_some_iff.1 hinner
    obtain ⟨⟨found, behind⟩, hname, hbehind⟩ := Option.bind_eq_some_iff.1 htail
    obtain ⟨last, hends, hlast⟩ := Option.bind_eq_some_iff.1 hbehind
    obtain ⟨rfl, rfl⟩ := Prod.mk.inj (Option.some.inj hlast)
    obtain ⟨keyword, hclass, rfl⟩ := classKeyword_eq_some_iff.1 hkeyword
    obtain ⟨gap, hgap, rfl, -⟩ := expectBlanks_eq_some_iff.1 hblanks
    obtain ⟨hsegment, rfl, hwhole⟩ := simpleName_eq_some_iff.1 hname
    exact ⟨keyword, gap, behind, hclass, hgap, hsegment, hwhole, endsClass_iff.1 hends, rfl⟩
  · rintro ⟨keyword, gap, behind, hkeyword, hgap, hsegment, hwhole, hends, rfl⟩
    have hword := classKeyword_eq_some_iff.2
      ⟨keyword, hkeyword, (rfl : _ = keyword ++ (gap ++ (name ++ behind)))⟩
    have hname : simpleName (name ++ behind) = some (name, behind) :=
      simpleName_eq_some_iff.2 ⟨hsegment, rfl, hwhole⟩
    simp only [classDeclaration, hword, expectBlanks_gap hgap (hsegment.stopsBlanks behind), hname,
      endsClass_iff.2 hends, Option.bind_eq_bind, Option.bind_some]
    rfl

theorem isSegment_of_scoped {name : String} (hword : IsWord name.toList)
    (hvalid : Symbol.isScopedIdentifier name = true) : IsSegment name.toList := by
  unfold Symbol.isScopedIdentifier at hvalid
  cases hname : name.toList with
  | nil =>
      rw [hname] at hvalid
      cases hvalid
  | cons c rest =>
      rw [hname] at hvalid hword
      obtain ⟨hfirst, -⟩ := Bool.and_eq_true_iff.1 hvalid
      exact .intro hfirst (List.forall_mem_cons.1 hword).2

/-- Where a name stands in front of what ends a class, it is `final`. So no
class can have another name between its own and its end. -/
theorem EndsClass.eq_final {rest behind name tail : List Char} (h : EndsClass rest behind)
    (hname : IsSegment name) (htail : StopsWord tail) (hskip : skipBlanks behind = name ++ tail) :
    name = "final".toList := by
  cases h with
  | plain hgap hc =>
      rw [skipBlanks_terminated hgap hc] at hskip
      cases hname with
      | intro hfirst _ =>
          rw [← (List.cons.inj hskip).1, hc.noName] at hfirst
          cases hfirst
  | final hgap hbetween hc =>
      rw [skipBlanks_final hgap] at hskip
      exact (word_unique isWord_final hname.isWord
        (hbetween.stopsWord (stopsWord_cons hc.noWord rest)) htail hskip).1.symm

/-- The keyword of a class stands behind what ends another one, not in it, so
what ends a class takes no other class with it. -/
theorem EndsClass.length_le {rest behind front keyword tail : List Char} (h : EndsClass rest behind)
    (hkeyword : ClassKeyword keyword) (htail : StopsWord tail)
    (hbegins : Begins front (keyword ++ tail)) (heq : behind = front ++ (keyword ++ tail)) :
    (keyword ++ tail).length ≤ rest.length := by
  cases h with
  | plain hgap hc => exact hbegins.length_le hgap hc.noWord heq
  | final hgap hbetween hc =>
      obtain ⟨others, -, hothers, hbegins⟩ := hbegins.skip_gap hgap.noWord heq
      rcases hbegins.skip_word isWord_final hothers with ⟨-, hsame⟩ | ⟨more, -, hmore, hbegins⟩
      · have hwords := (word_unique hkeyword.isWord isWord_final htail
          (hbetween.stopsWord (stopsWord_cons hc.noWord rest)) hsame).1
        exact absurd hwords.symm hkeyword.ne_final
      · exact hbegins.length_le hbetween hc.noWord hmore

/-- A class that begins inside of the declaration of another one has its
keyword for a name there, and the word `final` behind it. It is named `final`
then, which is a keyword and no type. -/
theorem eq_final_of_foundInside {name : List Char} (h : FoundInside classDeclaration name) :
    name = "final".toList := by
  obtain ⟨front, here, rest, more, found, hfront, hfound, hlength, hboundary, hhere⟩ := h
  obtain ⟨keyword, gap, behind, hkeyword, hgap, hsegment, hwhole, hends, htext⟩ :=
    classDeclaration_eq_some_iff.1 hfound
  obtain ⟨inner, between, tail, hinner, hbetween, hname, htail, -, rfl⟩ :=
    classDeclaration_eq_some_iff.1 hhere
  have hbegins := (begins_iff hinner.ne_nil hinner.isWord).1 hboundary
  rcases hbegins.skip_word hkeyword.isWord htext.symm with ⟨hnil, -⟩ | ⟨later, -, hlater, hbegins⟩
  · exact absurd hnil hfront
  obtain ⟨others, -, hothers, hbegins⟩ := hbegins.skip_gap hgap.blanks.noWord hlater
  rcases hbegins.skip_word hsegment.isWord hothers with ⟨-, hsame⟩ | ⟨last, -, hlast, hbegins⟩
  · -- The keyword is the name, so the ending begins with the name of the inner class.
    obtain ⟨-, hbehind⟩ := word_unique hinner.isWord hsegment.isWord (hbetween.stopsWord _) hwhole
      hsame
    refine hends.eq_final hname htail ?_
    rw [← hbehind, skipBlanks_append hbetween.blanks,
      skipBlanks_of_stopsBlanks (hname.stopsBlanks tail)]
  · have hinside := hends.length_le hinner (hbetween.stopsWord _) hbegins hlast
    exact absurd hlength (Nat.not_lt.2 hinside)

theorem consumes_classDeclaration : Consumes classDeclaration := by
  intro text name rest h
  obtain ⟨keyword, gap, behind, hkeyword, -, -, -, hends, rfl⟩ :=
    classDeclaration_eq_some_iff.1 h
  cases hends with
  | @plain gap' c => exact ⟨keyword ++ (gap ++ (name ++ (gap' ++ [c]))), by simp [hkeyword.ne_nil],
      by simp⟩
  | @final gap' between c => exact ⟨keyword ++ (gap ++ (name ++ (gap' ++ ("final".toList ++
      (between ++ [c]))))), by simp [hkeyword.ne_nil], by simp⟩

theorem startsOnWord_classDeclaration : StartsOnWord classDeclaration := by
  intro text name rest h
  obtain ⟨keyword, gap, behind, hkeyword, -, -, -, -, rfl⟩ := classDeclaration_eq_some_iff.1 h
  exact ⟨keyword, _, rfl, hkeyword.ne_nil, hkeyword.isWord⟩

theorem occurs_of_mem_classes {text name : List Char} (h : name ∈ findAll classDeclaration text) :
    Occurs (ClassDeclaration name) text := by
  obtain ⟨front, here, htext, hfront, rest, hhere⟩ :=
    (finds_iff_occurs startsOnWord_classDeclaration).1
      (finds_of_mem_findFrom consumes_classDeclaration h)
  obtain ⟨keyword, gap, behind, hkeyword, hgap, hname, hwhole, hends, rfl⟩ :=
    classDeclaration_eq_some_iff.1 hhere
  exact ⟨front, _, htext, hfront, .intro hkeyword hgap hname.isWord hwhole hends⟩

theorem mem_classes_of_occurs {text name : List Char} (hname : IsSegment name)
    (hfinal : name ≠ "final".toList) (h : Occurs (ClassDeclaration name) text) :
    name ∈ findAll classDeclaration text := by
  obtain ⟨front, here, htext, hfront, hform⟩ := h
  cases hform with
  | @intro keyword gap behind rest hkeyword hgap _ hwhole hends =>
      refine mem_findFrom_of_finds consumes_classDeclaration ?_
        (mt eq_final_of_foundInside hfinal)
      refine (finds_iff_occurs startsOnWord_classDeclaration).2 ⟨front, _, htext, hfront, rest, ?_⟩
      exact classDeclaration_eq_some_iff.2
        ⟨keyword, gap, behind, hkeyword, hgap, hname, hwhole, hends, rfl⟩

/-- `enum class NAME` or `enum struct NAME`, with the segments of NAME. What
follows the name is not looked at. -/
inductive ScopedEnum (segments : List (List Char)) : List Char → Prop where
  | intro {gap keyword between name rest : List Char} (hgap : IsGap gap)
      (hkeyword : ClassKeyword keyword) (hbetween : IsGap between) (hname : Spells segments name)
      (hwhole : StopsWord rest) :
      ScopedEnum segments
        ("enum".toList ++ (gap ++ (keyword ++ (between ++ (name ++ rest)))))

theorem scopedEnum_sound {text rest : List Char} {segments : List (List Char)}
    (h : scopedEnum text = some (segments, rest)) :
    ∃ gap keyword between name, IsGap gap ∧ ClassKeyword keyword ∧ IsGap between ∧
      Spells segments name ∧ StopsWord rest ∧
        text = "enum".toList ++ (gap ++ (keyword ++ (between ++ (name ++ rest)))) := by
  obtain ⟨inner, henum, hinner⟩ := Option.bind_eq_some_iff.1 h
  obtain ⟨tail, hblanks, htail⟩ := Option.bind_eq_some_iff.1 hinner
  obtain ⟨inside, hword, hinside⟩ := Option.bind_eq_some_iff.1 htail
  obtain ⟨last, hmore, hlast⟩ := Option.bind_eq_some_iff.1 hinside
  obtain ⟨gap, hgap, rfl, -⟩ := expectBlanks_eq_some_iff.1 hblanks
  obtain ⟨keyword, hkeyword, rfl⟩ := classKeyword_eq_some_iff.1 hword
  obtain ⟨between, hbetween, rfl, -⟩ := expectBlanks_eq_some_iff.1 hmore
  obtain ⟨name, hname, rfl, hwhole⟩ := spells_of_scopedName hlast
  exact ⟨gap, keyword, between, name, hgap, hkeyword, hbetween, hname, hwhole,
    expect_eq_some_iff.1 henum⟩

theorem isWord_enum : IsWord "enum".toList := isWord_of_all rfl

theorem consumes_scopedEnum : Consumes scopedEnum := by
  intro text segments rest h
  obtain ⟨gap, keyword, between, name, -, -, -, -, -, rfl⟩ := scopedEnum_sound h
  exact ⟨"enum".toList ++ (gap ++ (keyword ++ (between ++ name))), by simp, by simp⟩

theorem startsOnWord_scopedEnum : StartsOnWord scopedEnum := by
  intro text segments rest h
  obtain ⟨gap, keyword, between, name, -, -, -, -, -, rfl⟩ := scopedEnum_sound h
  exact ⟨_, _, rfl, by decide, isWord_enum⟩

theorem occurs_of_mem_enums {text : List Char} {segments : List (List Char)}
    (h : segments ∈ findAll scopedEnum text) : Occurs (ScopedEnum segments) text := by
  obtain ⟨front, here, htext, hfront, rest, hhere⟩ :=
    (finds_iff_occurs startsOnWord_scopedEnum).1 (finds_of_mem_findFrom consumes_scopedEnum h)
  obtain ⟨gap, keyword, between, name, hgap, hkeyword, hbetween, hname, hwhole, rfl⟩ :=
    scopedEnum_sound hhere
  exact ⟨front, _, htext, hfront, .intro hgap hkeyword hbetween hname hwhole⟩

end SymbolPatterns.Metadata
