import SymbolPatterns.Proofs.Metadata.Names
import SymbolPatterns.Proofs.Metadata.Scan

/-!
The declarations that a header is scanned for, and that none is missed. A
declaration cannot begin inside of another one of its kind, as what it begins
with is a keyword with a name behind it: what follows a word inside of a
declaration is a colon, a brace, a semicolon or the word `final`.
-/

namespace SymbolPatterns.Metadata

open Text

/-- A form stands somewhere in a text, where no word is open. What stands in
front and behind is anything else. -/
def Occurs (form : List Char → Prop) (text : List Char) : Prop :=
  ∃ front here, text = front ++ here ∧ AtBoundary front ∧ form here

/-- What a recogniser finds begins with a word, so a find begins where a word
begins. -/
def StartsOnWord {α : Type} (recognise : Recogniser α) : Prop :=
  ∀ text x behind, recognise text = some (x, behind) →
    ∃ word rest, text = word ++ rest ∧ word ≠ [] ∧ IsWord word

theorem begins_iff {front word rest : List Char} (hne : word ≠ []) (hword : IsWord word) :
    isBoundary front.getLast? (word ++ rest).head? = true ↔ Begins front (word ++ rest) := by
  obtain ⟨c, others, rfl⟩ := List.exists_cons_of_ne_nil hne
  have hc : isWord c = true := hword c List.mem_cons_self
  have honWord : ∃ d tail, c :: others ++ rest = d :: tail ∧ isWord d = true :=
    ⟨c, others ++ rest, rfl, hc⟩
  have hboundary : isBoundary front.getLast? (c :: others ++ rest).head? = true ↔
      AtBoundary front := by
    cases hlast : front.getLast? <;> simp [isBoundary, AtBoundary, hlast, hc]
  rw [hboundary]
  exact ⟨fun h => ⟨h, honWord⟩, Begins.atBoundary⟩

theorem finds_iff_occurs {α : Type} {recognise : Recogniser α} (hword : StartsOnWord recognise)
    {text : List Char} {x : α} :
    Finds recognise none text x ↔
      Occurs (fun here => ∃ behind, recognise here = some (x, behind)) text := by
  constructor
  · rintro ⟨front, here, behind, rfl, hboundary, hfound⟩
    obtain ⟨word, rest, rfl, hne, hword⟩ := hword _ _ _ hfound
    rw [Option.or_none] at hboundary
    exact ⟨front, word ++ rest, rfl, ((begins_iff hne hword).1 hboundary).atBoundary, behind,
      hfound⟩
  · rintro ⟨front, here, rfl, hboundary, behind, hfound⟩
    obtain ⟨word, rest, rfl, hne, hword⟩ := hword _ _ _ hfound
    refine ⟨front, word ++ rest, behind, rfl, ?_, hfound⟩
    rw [Option.or_none, begins_iff hne hword]
    obtain ⟨c, others, rfl⟩ := List.exists_cons_of_ne_nil hne
    exact ⟨hboundary, c, others ++ rest, rfl, hword c List.mem_cons_self⟩

/-- `namespace NAME {`, with NAME as it is spelled, and blanks wherever there
may be some. -/
inductive NamespaceBlock : List Char → List Char → Prop where
  | intro {gap name behind rest : List Char} {segments : List (List Char)} (hgap : IsGap gap)
      (hname : Spells segments name) (hbehind : Blanks behind) :
      NamespaceBlock name ("namespace".toList ++ (gap ++ (name ++ (behind ++ '{' :: rest))))

/-- `using namespace NAME ;`, with blanks wherever there may be some. -/
inductive UsingNamespace : List Char → List Char → Prop where
  | intro {gap between name behind rest : List Char} {segments : List (List Char)}
      (hgap : IsGap gap) (hbetween : IsGap between) (hname : Spells segments name)
      (hbehind : Blanks behind) :
      UsingNamespace name ("using".toList ++ (gap ++ ("namespace".toList ++
        (between ++ (name ++ (behind ++ ';' :: rest))))))

/-- A character that no name goes on with: no word character, no blank and no
colon. -/
structure IsStop (c : Char) : Prop where
  noWord : isWord c = false
  noBlank : isBlank c = false
  noColon : c ≠ ':'

theorem namePart_eq_some_iff {stop : String} {c : Char} (hstop : stop.toList = [c])
    (hc : IsStop c) {text rest : List Char} {segments : List (List Char)} :
    (do
      let (segments, rest) ← scopedName text
      return (segments, ← expect stop (skipBlanks rest))) = some (segments, rest) ↔
      ∃ name behind, Spells segments name ∧ Blanks behind ∧
        text = name ++ (behind ++ c :: rest) := by
  constructor
  · intro h
    obtain ⟨⟨found, tail⟩, hname, h⟩ := Option.bind_eq_some_iff.1 h
    obtain ⟨last, hlast, h⟩ := Option.bind_eq_some_iff.1 h
    obtain ⟨rfl, rfl⟩ := Prod.mk.inj (Option.some.inj h)
    obtain ⟨name, hspells, rfl, -⟩ := spells_of_scopedName hname
    obtain ⟨behind, hbehind, htail⟩ := exists_blanks tail
    refine ⟨name, behind, hspells, hbehind, ?_⟩
    rw [htail, expect_eq_some_iff.1 hlast, hstop, List.singleton_append]
  · rintro ⟨name, behind, hspells, hbehind, rfl⟩
    have hskip : skipBlanks (behind ++ c :: rest) = c :: rest := by
      rw [skipBlanks_append hbehind, skipBlanks_cons hc.noBlank]
    have hends : expect "::" (skipBlanks (behind ++ c :: rest)) = none := by
      rw [hskip, expect, if_neg]
      rw [List.isPrefixOf_iff_prefix]
      rintro ⟨others, heq⟩
      exact hc.noColon (List.cons.inj heq).1.symm
    have hname := scopedName_of_spells hspells
      (hbehind.stopsWord (stopsWord_cons hc.noWord rest)) hends
    have hlast : expect stop (c :: rest) = some rest := expect_eq_some_iff.2 (by rw [hstop]; rfl)
    rw [hname]
    simp only [hskip, hlast, bind, Option.bind, pure]

theorem isStop_brace : IsStop '{' := ⟨by decide, by decide, by decide⟩

theorem isStop_semicolon : IsStop ';' := ⟨by decide, by decide, by decide⟩

theorem toList_brace : "\x7b".toList = ['{'] := rfl

theorem toList_semicolon : ";".toList = [';'] := rfl

theorem Spells.stopsBlanks {segments : List (List Char)} {name : List Char}
    (h : Spells segments name) (rest : List Char) : StopsBlanks (name ++ rest) := by
  cases h with
  | intro hsegment _ =>
      rw [List.append_assoc]
      exact hsegment.stopsBlanks _

theorem namespaceBlock_eq_some_iff {text rest : List Char} {segments : List (List Char)} :
    namespaceBlock text = some (segments, rest) ↔
      ∃ gap name behind, IsGap gap ∧ Spells segments name ∧ Blanks behind ∧
        text = "namespace".toList ++ (gap ++ (name ++ (behind ++ '{' :: rest))) := by
  constructor
  · intro h
    obtain ⟨inner, hkeyword, hinner⟩ := Option.bind_eq_some_iff.1 h
    obtain ⟨tail, hblanks, hpart⟩ := Option.bind_eq_some_iff.1 hinner
    obtain ⟨gap, hgap, rfl, -⟩ := expectBlanks_eq_some_iff.1 hblanks
    obtain ⟨name, behind, hname, hbehind, rfl⟩ :=
      (namePart_eq_some_iff toList_brace isStop_brace).1 hpart
    exact ⟨gap, name, behind, hgap, hname, hbehind, expect_eq_some_iff.1 hkeyword⟩
  · rintro ⟨gap, name, behind, hgap, hname, hbehind, rfl⟩
    simp only [namespaceBlock, expect_append, expectBlanks_gap hgap (hname.stopsBlanks _),
      Option.bind_eq_bind, Option.bind_some]
    exact (namePart_eq_some_iff toList_brace isStop_brace).2 ⟨name, behind, hname, hbehind, rfl⟩

theorem stopsBlanks_keyword {keyword : List Char} (hne : keyword ≠ [])
    (hkeyword : IsWord keyword) (rest : List Char) : StopsBlanks (keyword ++ rest) := by
  obtain ⟨c, others, rfl⟩ := List.exists_cons_of_ne_nil hne
  intro d hd
  rw [← Option.some.inj hd]
  exact isBlank_of_isWord (hkeyword c List.mem_cons_self)

theorem isWord_using : IsWord "using".toList := isWord_of_all rfl

theorem isWord_namespace : IsWord "namespace".toList := isWord_of_all rfl

theorem usingNamespace_eq_some_iff {text rest : List Char} {segments : List (List Char)} :
    usingNamespace text = some (segments, rest) ↔
      ∃ gap between name behind, IsGap gap ∧ IsGap between ∧ Spells segments name ∧
        Blanks behind ∧ text = "using".toList ++ (gap ++ ("namespace".toList ++
          (between ++ (name ++ (behind ++ ';' :: rest))))) := by
  constructor
  · intro h
    obtain ⟨inner, hkeyword, hinner⟩ := Option.bind_eq_some_iff.1 h
    obtain ⟨tail, hblanks, htail⟩ := Option.bind_eq_some_iff.1 hinner
    obtain ⟨inside, hnamespace, hinside⟩ := Option.bind_eq_some_iff.1 htail
    obtain ⟨last, hmore, hpart⟩ := Option.bind_eq_some_iff.1 hinside
    obtain ⟨gap, hgap, rfl, -⟩ := expectBlanks_eq_some_iff.1 hblanks
    obtain ⟨between, hbetween, rfl, -⟩ := expectBlanks_eq_some_iff.1 hmore
    obtain ⟨name, behind, hname, hbehind, rfl⟩ :=
      (namePart_eq_some_iff toList_semicolon isStop_semicolon).1 hpart
    refine ⟨gap, between, name, behind, hgap, hbetween, hname, hbehind, ?_⟩
    rw [expect_eq_some_iff.1 hkeyword, expect_eq_some_iff.1 hnamespace]
  · rintro ⟨gap, between, name, behind, hgap, hbetween, hname, hbehind, rfl⟩
    have hnamespace := stopsBlanks_keyword (by decide) isWord_namespace
    simp only [usingNamespace, expect_append, expectBlanks_gap hgap (hnamespace _),
      expectBlanks_gap hbetween (hname.stopsBlanks _), Option.bind_eq_bind, Option.bind_some]
    exact (namePart_eq_some_iff toList_semicolon isStop_semicolon).2
      ⟨name, behind, hname, hbehind, rfl⟩

def StartsName (text : List Char) : Prop := ∃ c rest, text = c :: rest ∧ beginsName c = true

theorem Spells.startsName {segments : List (List Char)} {name : List Char}
    (h : Spells segments name) (rest : List Char) : StartsName (name ++ rest) := by
  cases h with
  | intro hsegment _ =>
      cases hsegment with
      | intro hfirst _ => exact ⟨_, _, rfl, hfirst⟩

/-- Behind a keyword and a gap comes what begins a name. This is what tells
the keyword of a declaration from a name that is spelled like it. -/
theorem follower_keyword {keyword gap rest : List Char} (hkeyword : IsWord keyword)
    (hgap : IsGap gap) (hrest : StartsName rest) :
    ∃ c, follower (keyword ++ (gap ++ rest)) = some c ∧ beginsName c = true := by
  obtain ⟨c, others, rfl, hc⟩ := hrest
  refine ⟨c, ?_, hc⟩
  rw [follower_word hkeyword (hgap.stopsWord _), skipBlanks_append hgap.blanks,
    skipBlanks_cons (isBlank_of_isWord (isWord_of_beginsName hc))]
  rfl

/-- No keyword with a name behind it begins in a name that ends in a stop. So
no declaration begins inside of the name of another one. -/
theorem not_begins_in_namePart {segments : List (List Char)} {name gap rest front here : List Char}
    {stop c : Char} (hname : Spells segments name) (hgap : Blanks gap) (hstop : IsStop stop)
    (hnoName : beginsName stop = false) (h : Begins front here)
    (heq : name ++ (gap ++ stop :: rest) = front ++ here) (hlength : rest.length < here.length)
    (hfollower : follower here = some c) (hc : beginsName c = true) : False := by
  have hskip : skipBlanks (gap ++ stop :: rest) = stop :: rest := by
    rw [skipBlanks_append hgap, skipBlanks_cons hstop.noBlank]
  rcases begins_in_name hname (hgap.stopsWord (stopsWord_cons hstop.noWord rest)) h heq with
    (hcolon | hend) | ⟨others, hothers, hbegins⟩
  · rw [hfollower] at hcolon
    obtain rfl := Option.some.inj hcolon
    cases hc
  · rw [hfollower, hskip] at hend
    obtain rfl := Option.some.inj hend
    rw [hnoName] at hc
    cases hc
  · exact absurd hlength (Nat.not_lt.2 (hbegins.length_le hgap hstop.noWord hothers))

theorem not_foundInside_namespaceBlock (segments : List (List Char)) :
    ¬FoundInside namespaceBlock segments := by
  rintro ⟨front, here, rest, more, found, hfront, hfound, hlength, hboundary, hhere⟩
  obtain ⟨gap, name, behind, hgap, hname, hbehind, htext⟩ := namespaceBlock_eq_some_iff.1 hfound
  obtain ⟨between, inner, last, hbetween, hinner, -, rfl⟩ := namespaceBlock_eq_some_iff.1 hhere
  obtain ⟨c, hfollower, hc⟩ :=
    follower_keyword isWord_namespace hbetween (hinner.startsName (last ++ '{' :: more))
  have hbegins := (begins_iff (by decide) isWord_namespace).1 hboundary
  rcases hbegins.skip_word isWord_namespace htext.symm with ⟨hnil, -⟩ | ⟨later, -, hlater, hbegins⟩
  · exact hfront hnil
  · obtain ⟨others, -, hothers, hbegins⟩ := hbegins.skip_gap hgap.blanks.noWord hlater
    exact not_begins_in_namePart hname hbehind isStop_brace (by decide) hbegins hothers hlength
      hfollower hc

theorem not_foundInside_usingNamespace (segments : List (List Char)) :
    ¬FoundInside usingNamespace segments := by
  rintro ⟨front, here, rest, more, found, hfront, hfound, hlength, hboundary, hhere⟩
  obtain ⟨gap, between, name, behind, hgap, hbetween, hname, hbehind, htext⟩ :=
    usingNamespace_eq_some_iff.1 hfound
  obtain ⟨space, _, _, _, hspace, -, -, -, rfl⟩ := usingNamespace_eq_some_iff.1 hhere
  have hkeyword : ∀ tail, StartsName ("namespace".toList ++ tail) := fun tail =>
    ⟨'n', "amespace".toList ++ tail, rfl, by decide⟩
  obtain ⟨c, hfollower, hc⟩ := follower_keyword isWord_using hspace (hkeyword _)
  have hbegins := (begins_iff (by decide) isWord_using).1 hboundary
  rcases hbegins.skip_word isWord_using htext.symm with ⟨hnil, -⟩ | ⟨later, -, hlater, hbegins⟩
  · exact hfront hnil
  · obtain ⟨others, -, hothers, hbegins⟩ := hbegins.skip_gap hgap.blanks.noWord hlater
    rcases hbegins.skip_word isWord_namespace hothers with ⟨-, hsame⟩ | ⟨last, -, hlast, hbegins⟩
    · have hwords := (word_unique isWord_using isWord_namespace (hspace.stopsWord _)
        (hbetween.stopsWord _) hsame).1
      exact absurd hwords (by decide)
    · obtain ⟨tail, -, htail, hbegins⟩ := hbegins.skip_gap hbetween.blanks.noWord hlast
      exact not_begins_in_namePart hname hbehind isStop_semicolon (by decide) hbegins htail hlength
        hfollower hc

theorem consumes_namespaceBlock : Consumes namespaceBlock := by
  intro text segments rest h
  obtain ⟨gap, name, behind, -, -, -, rfl⟩ := namespaceBlock_eq_some_iff.1 h
  exact ⟨"namespace".toList ++ (gap ++ (name ++ (behind ++ ['{']))), by simp, by simp⟩

theorem startsOnWord_namespaceBlock : StartsOnWord namespaceBlock := by
  intro text segments rest h
  obtain ⟨gap, name, behind, -, -, -, rfl⟩ := namespaceBlock_eq_some_iff.1 h
  exact ⟨_, _, rfl, by decide, isWord_namespace⟩

theorem consumes_usingNamespace : Consumes usingNamespace := by
  intro text segments rest h
  obtain ⟨gap, between, name, behind, -, -, -, -, rfl⟩ := usingNamespace_eq_some_iff.1 h
  exact ⟨"using".toList ++ (gap ++ ("namespace".toList ++ (between ++ (name ++
    (behind ++ [';']))))), by simp, by simp⟩

theorem startsOnWord_usingNamespace : StartsOnWord usingNamespace := by
  intro text segments rest h
  obtain ⟨gap, between, name, behind, -, -, -, -, rfl⟩ := usingNamespace_eq_some_iff.1 h
  exact ⟨_, _, rfl, by decide, isWord_using⟩

/-- A scan finds the names of all places of a form, where its recogniser
stands for the form and nothing that it finds begins inside of another find.
Both forms of namespaces are of this kind. -/
theorem mem_map_scopedText_iff {recognise : Recogniser (List (List Char))}
    {form : List Char → List Char → Prop} (hconsumes : Consumes recognise)
    (hword : StartsOnWord recognise) (hinside : ∀ segments, ¬FoundInside recognise segments)
    (hsound : ∀ text segments rest, recognise text = some (segments, rest) →
      ∃ spelled, form spelled text ∧ scopedText segments = compacted spelled)
    (hcomplete : ∀ text spelled, form spelled text →
      ∃ segments rest, recognise text = some (segments, rest) ∧
        scopedText segments = compacted spelled) {text : List Char} {name : String} :
    name ∈ (findAll recognise text).map scopedText ↔
      ∃ spelled, Occurs (form spelled) text ∧ compacted spelled = name := by
  have hfinds : ∀ segments, segments ∈ findAll recognise text ↔
      Occurs (fun here => ∃ behind, recognise here = some (segments, behind)) text :=
    fun segments =>
      (mem_findAll_iff hconsumes (hinside segments)).trans (finds_iff_occurs hword)
  rw [List.mem_map]
  constructor
  · rintro ⟨segments, hfound, rfl⟩
    obtain ⟨front, here, htext, hfront, rest, hhere⟩ := (hfinds segments).1 hfound
    obtain ⟨spelled, hform, hname⟩ := hsound here segments rest hhere
    exact ⟨spelled, ⟨front, here, htext, hfront, hform⟩, hname.symm⟩
  · rintro ⟨spelled, ⟨front, here, htext, hfront, hform⟩, rfl⟩
    obtain ⟨segments, rest, hhere, hname⟩ := hcomplete here spelled hform
    exact ⟨segments, (hfinds segments).2 ⟨front, here, htext, hfront, rest, hhere⟩, hname⟩

theorem mem_namespaceBlocks_iff {text : List Char} {name : String} :
    name ∈ (findAll namespaceBlock text).map scopedText ↔
      ∃ spelled, Occurs (NamespaceBlock spelled) text ∧ compacted spelled = name := by
  refine mem_map_scopedText_iff consumes_namespaceBlock startsOnWord_namespaceBlock
    not_foundInside_namespaceBlock ?sound ?complete
  case sound =>
    intro text segments rest h
    obtain ⟨gap, spelled, behind, hgap, hname, hbehind, rfl⟩ := namespaceBlock_eq_some_iff.1 h
    exact ⟨spelled, .intro hgap hname hbehind, scopedText_of_spells hname⟩
  case complete =>
    rintro _ spelled ⟨hgap, hname, hbehind⟩
    exact ⟨_, _, namespaceBlock_eq_some_iff.2 ⟨_, _, _, hgap, hname, hbehind, rfl⟩,
      scopedText_of_spells hname⟩

theorem mem_usingNamespaces_iff {text : List Char} {name : String} :
    name ∈ (findAll usingNamespace text).map scopedText ↔
      ∃ spelled, Occurs (UsingNamespace spelled) text ∧ compacted spelled = name := by
  refine mem_map_scopedText_iff consumes_usingNamespace startsOnWord_usingNamespace
    not_foundInside_usingNamespace ?sound ?complete
  case sound =>
    intro text segments rest h
    obtain ⟨gap, between, spelled, behind, hgap, hbetween, hname, hbehind, rfl⟩ :=
      usingNamespace_eq_some_iff.1 h
    exact ⟨spelled, .intro hgap hbetween hname hbehind, scopedText_of_spells hname⟩
  case complete =>
    rintro _ spelled ⟨hgap, hbetween, hname, hbehind⟩
    exact ⟨_, _, usingNamespace_eq_some_iff.2 ⟨_, _, _, _, hgap, hbetween, hname, hbehind, rfl⟩,
      scopedText_of_spells hname⟩

end SymbolPatterns.Metadata
