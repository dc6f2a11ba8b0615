import SymbolPatterns.Json.Printer
import SymbolPatterns.Proofs.Json.Shape
import SymbolPatterns.Proofs.Json.Token

/-!
The texts of a value. They differ in the white space in front of tokens; the
compact and the pretty form are two of them. A text begins with a character that
tells whether the value is `null`, a list or an object, and never with a closing
bracket.
-/

namespace SymbolPatterns.Json

/-- White space between two tokens, if any. -/
def IsGap (text : List Char) : Prop := ∀ c ∈ text, isSpace c = true

mutual

/-- A text of a value, from its first token to its last one. Strings and
numbers have one text each; what differs are the gaps between tokens. -/
inductive Written : Json → List Char → Prop
  | null : Written .null ['n', 'u', 'l', 'l']
  | bool (value : Bool) : Written (.bool value) (boolText value)
  | number (x : Number) : Written (.number x) (numberText x)
  | string (text : String) : Written (.string text) (stringText text)
  | noItems : Written (.array []) ['[', ']']
  | items {item : Json} {items : List Json} {gap text rest : List Char} (hgap : IsGap gap)
      (hitem : Written item text) (hitems : WrittenItems items rest) :
      Written (.array (item :: items)) ('[' :: (gap ++ (text ++ rest)))
  | noFields : Written (.object []) ['{', '}']
  | fields {key : String} {value : Json} {fields : Fields} {gap space text rest : List Char}
      (hgap : IsGap gap) (hspace : IsGap space) (hvalue : Written value text)
      (hfields : WrittenFields fields rest) :
      Written (.object ((key, value) :: fields))
        ('{' :: (gap ++ (stringText key ++ ':' :: (space ++ (text ++ rest)))))

/-- The rest of a list after an item: its end, or a comma and the next item. -/
inductive WrittenItems : List Json → List Char → Prop
  | nil {gap : List Char} (hgap : IsGap gap) : WrittenItems [] (gap ++ [']'])
  | cons {item : Json} {items : List Json} {gap text rest : List Char} (hgap : IsGap gap)
      (hitem : Written item text) (hitems : WrittenItems items rest) :
      WrittenItems (item :: items) (',' :: (gap ++ (text ++ rest)))

/-- The rest of an object after a field: its end, or a comma and the next
field. -/
inductive WrittenFields : Fields → List Char → Prop
  | nil {gap : List Char} (hgap : IsGap gap) : WrittenFields [] (gap ++ ['}'])
  | cons {key : String} {value : Json} {fields : Fields} {gap space text rest : List Char}
      (hgap : IsGap gap) (hspace : IsGap space) (hvalue : Written value text)
      (hfields : WrittenFields fields rest) :
      WrittenFields ((key, value) :: fields)
        (',' :: (gap ++ (stringText key ++ ':' :: (space ++ (text ++ rest)))))

end

private theorem exists_written_leaf {v : Json} (hobject : ∀ fields, v ≠ .object fields)
    (harray : ∀ items, v ≠ .array items) :
    Written v (compactText v) ∧ ∀ unit level, prettyText unit level v = compactText v := by
  cases v with
  | object fields => exact absurd rfl (hobject fields)
  | array items => exact absurd rfl (harray items)
  | null => exact ⟨by rw [compactText]; exact .null, fun _ _ => by rw [prettyText, compactText]⟩
  | bool value =>
      exact ⟨by rw [compactText]; exact .bool value, fun _ _ => by rw [prettyText, compactText]⟩
  | string text =>
      exact ⟨by rw [compactText]; exact .string text, fun _ _ => by rw [prettyText, compactText]⟩
  | number x =>
      exact ⟨by rw [compactText]; exact .number x, fun _ _ => by rw [prettyText, compactText]⟩

theorem isGap_nil : IsGap [] := nofun

theorem isGap_cons {c : Char} {gap : List Char} (hc : isSpace c = true) (hgap : IsGap gap) :
    IsGap (c :: gap) := List.forall_mem_cons.2 ⟨hc, hgap⟩

theorem isGap_space : IsGap [' '] := isGap_cons rfl isGap_nil

theorem isGap_lineStart {unit : List Char} (hunit : IsGap unit) (level : Nat) :
    IsGap (lineStart unit level) := by
  refine isGap_cons rfl fun c hc => ?_
  obtain ⟨piece, hpiece, hmem⟩ := List.mem_flatten.1 hc
  rw [List.eq_of_mem_replicate hpiece] at hmem
  exact hunit c hmem

section

variable {print : Json → List Char} {gap space last : List Char}

/-- A printer that puts the same gaps between all items writes the rest of a
list. The compact and the pretty printer are both of this kind. -/
private theorem writtenItems_of {tail : List Json → List Char} (hgap : IsGap gap)
    (hlast : IsGap last) (hnil : tail [] = last ++ [']'])
    (hcons : ∀ item items, tail (item :: items) = ',' :: (gap ++ (print item ++ tail items)))
    {items : List Json} (h : ∀ item ∈ items, Written item (print item)) :
    WrittenItems items (tail items) := by
  induction items with
  | nil =>
      rw [hnil]
      exact .nil hlast
  | cons item items ih =>
      obtain ⟨hitem, hitems⟩ := List.forall_mem_cons.1 h
      rw [hcons]
      exact .cons hgap hitem (ih hitems)

/-- A printer that puts the same gaps between all fields writes the rest of an
object. -/
private theorem writtenFields_of {tail : Fields → List Char} (hgap : IsGap gap)
    (hspace : IsGap space) (hlast : IsGap last) (hnil : tail [] = last ++ ['}'])
    (hcons : ∀ key value fields, tail ((key, value) :: fields) =
      ',' :: (gap ++ (stringText key ++ ':' :: (space ++ (print value ++ tail fields)))))
    {fields : Fields} (h : ∀ field ∈ fields, Written field.2 (print field.2)) :
    WrittenFields fields (tail fields) := by
  induction fields with
  | nil =>
      rw [hnil]
      exact .nil hlast
  | cons field fields ih =>
      obtain ⟨key, value⟩ := field
      obtain ⟨hvalue, hfields⟩ := List.forall_mem_cons.1 h
      rw [hcons]
      exact .cons hgap hspace hvalue (ih hfields)

end

theorem written_compactText (v : Json) : Written v (compactText v) := by
  induction v using valueInduction with
  | object fields ih =>
      cases fields with
      | nil =>
          rw [compactText]
          exact .noFields
      | cons field fields =>
          obtain ⟨key, value⟩ := field
          obtain ⟨hvalue, hrest⟩ := List.forall_mem_cons.1 ih
          have htail : WrittenFields fields (compactFields fields) :=
            writtenFields_of isGap_nil isGap_nil isGap_nil (by rw [compactFields]; rfl)
              (fun key value fields => by rw [compactFields]; simp) hrest
          have htext : Written (.object ((key, value) :: fields)) _ :=
            .fields isGap_nil isGap_nil hvalue htail
          rw [compactText]
          simpa using htext
  | array items ih =>
      cases items with
      | nil =>
          rw [compactText]
          exact .noItems
      | cons item items =>
          obtain ⟨hitem, hrest⟩ := List.forall_mem_cons.1 ih
          have htail : WrittenItems items (compactItems items) :=
            writtenItems_of isGap_nil isGap_nil (by rw [compactItems]; rfl)
              (fun item items => by rw [compactItems]; simp) hrest
          rw [compactText]
          exact .items isGap_nil hitem htail
  | leaf v hobject harray => exact (exists_written_leaf hobject harray).1

theorem written_prettyText {unit : List Char} (hunit : IsGap unit) (v : Json) :
    ∀ level, Written v (prettyText unit level v) := by
  have hline : ∀ level, IsGap (lineStart unit level) := isGap_lineStart hunit
  induction v using valueInduction with
  | object fields ih =>
      intro level
      cases fields with
      | nil =>
          rw [prettyText]
          exact .noFields
      | cons field fields =>
          obtain ⟨key, value⟩ := field
          obtain ⟨hvalue, hrest⟩ := List.forall_mem_cons.1 ih
          have htail : WrittenFields fields (prettyFields unit level fields) :=
            writtenFields_of (hline (level + 1)) isGap_space (hline level) (by rw [prettyFields])
              (fun key value fields => by rw [prettyFields]; simp)
              fun field hfield => hrest field hfield (level + 1)
          have htext : Written (.object ((key, value) :: fields)) _ :=
            .fields (hline (level + 1)) isGap_space (hvalue (level + 1)) htail
          rw [prettyText]
          simpa using htext
  | array items ih =>
      intro level
      cases items with
      | nil =>
          rw [prettyText]
          exact .noItems
      | cons item items =>
          obtain ⟨hitem, hrest⟩ := List.forall_mem_cons.1 ih
          have htail : WrittenItems items (prettyItems unit level items) :=
            writtenItems_of (hline (level + 1)) (hline level) (by rw [prettyItems])
              (fun item items => by rw [prettyItems]; simp)
              fun item hitem => hrest item hitem (level + 1)
          have htext := Written.items (hline (level + 1)) (hitem (level + 1)) htail
          rw [prettyText]
          simpa using htext
  | leaf v hobject harray =>
      intro level
      obtain ⟨hwritten, htext⟩ := exists_written_leaf hobject harray
      rw [htext]
      exact hwritten

/-- The characters with which a value begins: no white space, and no bracket
that closes. -/
def StartsValue (c : Char) : Prop := isSpace c = false ∧ c ≠ ']' ∧ c ≠ '}'

theorem ne_of_isDigit {c d : Char} (h : isDigit c = true) (hd : isDigit d = false) : c ≠ d := by
  rintro rfl
  rw [hd] at h
  cases h

theorem startsValue_of_isDigit {c : Char} (h : isDigit c = true) : StartsValue c := by
  have hspace : c ≠ ' ' := ne_of_isDigit h rfl
  have htab : c ≠ '\t' := ne_of_isDigit h rfl
  have hfeed : c ≠ '\n' := ne_of_isDigit h rfl
  have hreturn : c ≠ '\r' := ne_of_isDigit h rfl
  exact ⟨by simp [isSpace, hspace, htab, hfeed, hreturn], ne_of_isDigit h rfl, ne_of_isDigit h rfl⟩

theorem exists_natText_cons (n : Nat) : ∃ c ds, natText n = c :: ds ∧ isDigit c = true := by
  cases htext : natText n with
  | nil => exact absurd htext Nat.toDigits_ne_nil
  | cons c ds =>
      have hdigit : isDigit c = true := isDigit_of_mem_natText (htext ▸ List.mem_cons_self)
      exact ⟨c, ds, rfl, hdigit⟩

private theorem exists_pointed_cons {c : Char} (h : isDigit c = true) (ds : List Char)
    (whole : Int) : ∃ d tail, pointed (c :: ds) whole = d :: tail ∧ isDigit d = true := by
  unfold pointed
  split
  · exact ⟨_, _, rfl, by decide⟩
  · next hwhole =>
    split
    · exact ⟨_, _, rfl, h⟩
    · obtain ⟨k, hk⟩ := Nat.exists_eq_succ_of_ne_zero (Int.natAbs_ne_zero.2 (by omega : whole ≠ 0))
      rw [hk]
      exact ⟨_, _, rfl, h⟩

private theorem exists_scientific_cons {c : Char} (style : RealStyle) (ds : List Char)
    (leading : Int) : ∃ tail, scientific style (c :: ds) leading = c :: tail := by
  cases ds <;> exact ⟨_, rfl⟩

/-- A number begins with its sign or with a digit, in either notation, so it
is not taken for a word or a string. -/
theorem exists_numberText_cons (x : Number) :
    ∃ c tail, numberText x = c :: tail ∧ (c = '-' ∨ isDigit c = true) := by
  cases x with
  | integer n =>
      rw [numberText, intText]
      split
      · exact ⟨_, _, rfl, .inl rfl⟩
      · obtain ⟨c, ds, htext, hdigit⟩ := exists_natText_cons n.natAbs
        exact ⟨c, ds, htext, .inr hdigit⟩
  | real x =>
      obtain ⟨c, ds, hdigits, hdigit⟩ := exists_natText_cons x.shortest.digits
      rw [numberText, realText, hdigits]
      split
      · exact ⟨_, _, rfl, .inl rfl⟩
      · split
        · obtain ⟨d, tail, htext, hd⟩ := exists_pointed_cons hdigit ds
            (x.shortest.exponent + (c :: ds).length - 1 + 1)
          exact ⟨d, tail, htext, .inr hd⟩
        · obtain ⟨tail, htext⟩ := exists_scientific_cons realStyle ds
            (x.shortest.exponent + (c :: ds).length - 1)
          exact ⟨c, tail, htext, .inr hdigit⟩

/-- The first character of a text tells whether the value is `null` and
whether it is a list or an object. Readers choose their way by it, before they
read anything. -/
theorem Written.start {v : Json} {text : List Char} (h : Written v text) :
    ∃ c tail, text = c :: tail ∧ StartsValue c ∧ (v ≠ .null → c ≠ 'n') ∧
      (height v = 0 → c ≠ '[' ∧ c ≠ '{') := by
  cases h with
  | null => exact ⟨_, _, rfl, by unfold StartsValue; decide, fun h => absurd rfl h, by decide⟩
  | bool value =>
      cases value
      · exact ⟨_, _, rfl, by unfold StartsValue; decide, by decide, by decide⟩
      · exact ⟨_, _, rfl, by unfold StartsValue; decide, by decide, by decide⟩
  | string text =>
      exact ⟨_, _, rfl, by unfold StartsValue; decide, fun _ => by decide, fun _ => by decide⟩
  | number x =>
      obtain ⟨c, tail, htext, rfl | hdigit⟩ := exists_numberText_cons x
      · exact ⟨_, _, htext, by unfold StartsValue; decide, fun _ => by decide, fun _ => by decide⟩
      · exact ⟨c, tail, htext, startsValue_of_isDigit hdigit, fun _ => ne_of_isDigit hdigit rfl,
          fun _ => ⟨ne_of_isDigit hdigit rfl, ne_of_isDigit hdigit rfl⟩⟩
  | noItems | items | noFields | fields =>
      exact ⟨_, _, rfl, by unfold StartsValue; decide, fun _ => by decide,
        fun hleaf => by simp [height] at hleaf⟩

theorem skipSpace_append {blanks : List Char} (h : IsGap blanks) (rest : List Char) :
    skipSpace (blanks ++ rest) = skipSpace rest := by
  induction blanks with
  | nil => rfl
  | cons c blanks ih =>
      rw [List.cons_append, skipSpace, if_pos (h c List.mem_cons_self)]
      exact ih fun x hx => h x (List.mem_cons_of_mem _ hx)

theorem skipSpace_cons {c : Char} (h : isSpace c = false) (rest : List Char) :
    skipSpace (c :: rest) = c :: rest := by
  rw [skipSpace, if_neg (by simp [h])]

theorem skipSpace_gap {gap : List Char} (hgap : IsGap gap) {c : Char} (h : isSpace c = false)
    (rest : List Char) : skipSpace (gap ++ c :: rest) = c :: rest := by
  rw [skipSpace_append hgap, skipSpace_cons h]

theorem skipSpace_written {v : Json} {text gap : List Char} (hgap : IsGap gap)
    (h : Written v text) (rest : List Char) :
    skipSpace (gap ++ (text ++ rest)) = text ++ rest := by
  obtain ⟨c, tail, rfl, hstart, -⟩ := h.start
  exact skipSpace_gap hgap hstart.1 (tail ++ rest)

/-- A number ends where white space, a comma or a closing bracket follows. In
a text of a value nothing else follows one. -/
theorem endsNumber_of_head {c : Char} (tail : List Char)
    (h : isDigit c = false ∧ c ≠ '.' ∧ c ≠ 'e' ∧ c ≠ 'E') : EndsNumber (c :: tail) := by
  rintro d rest heq
  obtain ⟨rfl, rfl⟩ := List.cons.inj heq
  exact h

theorem endsNumber_of_isSpace {c : Char} (h : isSpace c = true) (tail : List Char) :
    EndsNumber (c :: tail) := by
  refine endsNumber_of_head tail ?_
  simp only [isSpace, Bool.or_eq_true, beq_iff_eq] at h
  rcases h with ((rfl | rfl) | rfl) | rfl <;> decide

theorem endsNumber_of_isGap {gap : List Char} (hgap : IsGap gap) : EndsNumber gap := by
  cases gap with
  | nil => exact nofun
  | cons c tail => exact endsNumber_of_isSpace (hgap c List.mem_cons_self) tail

theorem endsNumber_gap {gap : List Char} (hgap : IsGap gap) {c : Char}
    (hc : isDigit c = false ∧ c ≠ '.' ∧ c ≠ 'e' ∧ c ≠ 'E') (rest : List Char) :
    EndsNumber (gap ++ c :: rest) := by
  cases gap with
  | nil => exact endsNumber_of_head rest hc
  | cons blank tail => exact endsNumber_of_isSpace (hgap blank List.mem_cons_self) _

theorem WrittenItems.endsNumber {items : List Json} {text : List Char}
    (h : WrittenItems items text) (rest : List Char) : EndsNumber (text ++ rest) := by
  cases h with
  | nil hgap =>
      rw [List.append_assoc]
      exact endsNumber_gap hgap (by decide) rest
  | cons => exact endsNumber_of_head _ (by decide)

theorem WrittenFields.endsNumber {fields : Fields} {text : List Char}
    (h : WrittenFields fields text) (rest : List Char) : EndsNumber (text ++ rest) := by
  cases h with
  | nil hgap =>
      rw [List.append_assoc]
      exact endsNumber_gap hgap (by decide) rest
  | cons => exact endsNumber_of_head _ (by decide)

theorem WrittenItems.length_le {items : List Json} {text : List Char}
    (h : WrittenItems items text) : items.length ≤ text.length := by
  induction items generalizing text with
  | nil => exact Nat.zero_le _
  | cons item items ih =>
      cases h with
      | cons hgap hitem hitems =>
          have hrest := ih hitems
          simp only [List.length_cons, List.length_append]
          omega

theorem WrittenFields.length_le {fields : Fields} {text : List Char}
    (h : WrittenFields fields text) : fields.length ≤ text.length := by
  induction fields generalizing text with
  | nil => exact Nat.zero_le _
  | cons field fields ih =>
      cases h with
      | cons hgap hspace hvalue hfields =>
          have hrest := ih hfields
          simp only [List.length_cons, List.length_append]
          omega

end SymbolPatterns.Json
