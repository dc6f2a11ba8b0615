import Mathlib.Data.List.Forall2
import SymbolPatterns.Json.Reader
import SymbolPatterns.Proofs.Json.Written
import SymbolPatterns.Proofs.Outcome

/-!
A value of integers with each key once is read back from each of its texts, as
long as it is not nested deeper than the reader allows. The text of a value is
read up to its end, whatever follows, so the values inside a list or an object
are read one after the other, by any readers of these.
-/

namespace SymbolPatterns.Json

variable {α σ : Type}

/-- A reader makes `x` of a value, from each of its texts, and leaves what
follows. White space in front is allowed, as readers skip it; what follows
must not go on with a number. -/
def ReadsText (reader : Reader α) (v : Json) (x : α) : Prop :=
  ∀ gap text rest : List Char, IsGap gap → Written v text → EndsNumber rest →
    reader (gap ++ (text ++ rest)) = .ok (x, rest)

private theorem moreItems_written {reader : Reader α} {v : Json} {vs : List Json} {x : α}
    {xs : List α} (hv : ReadsText reader v x) (hvs : List.Forall₂ (ReadsText reader) vs xs)
    {text tail bound : List Char} (htext : Written v text) (htail : WrittenItems vs tail)
    (hbound : vs.length < bound.length) (rest : List Char) :
    moreItems reader bound (text ++ (tail ++ rest)) = .ok (x :: xs, rest) := by
  have hitem : reader (text ++ (tail ++ rest)) = .ok (x, tail ++ rest) :=
    hv [] text _ isGap_nil htext (htail.endsNumber rest)
  induction hvs generalizing v x text tail bound with
  | nil =>
      cases bound with
      | nil => simp at hbound
      | cons first bound =>
          cases htail with
          | @nil gap hgap =>
              have hend : skipSpace (gap ++ [']'] ++ rest) = ']' :: rest := by
                rw [List.append_assoc]
                exact skipSpace_gap hgap rfl rest
              refine bind_ok hitem ?_
              simp only [hend]
  | @cons w y vs xs hw hws ih =>
      cases bound with
      | nil => simp at hbound
      | cons first bound =>
          cases htail with
          | @cons _ _ gap next tail hgap hnext htail =>
              have hmore : moreItems reader bound (next ++ (tail ++ rest)) = .ok (y :: xs, rest) :=
                ih hw hnext htail (by simpa using hbound)
                  (hw [] next _ isGap_nil hnext (htail.endsNumber rest))
              have hcomma : skipSpace (',' :: (gap ++ (next ++ tail)) ++ rest) =
                  ',' :: (gap ++ (next ++ (tail ++ rest))) := by
                rw [List.cons_append, skipSpace_cons rfl, List.append_assoc, List.append_assoc]
              have hskip := skipSpace_written hgap hnext (tail ++ rest)
              obtain ⟨c, behind, rfl, hstart, -⟩ := hnext.start
              refine bind_ok hitem ?_
              simp only [hcomma, hskip]
              split
              · next heq => cases heq
              · next heq => exact absurd (List.cons.inj heq).1 hstart.2.1
              · exact bind_ok hmore rfl

/-- A list is read item by item, behind its opening bracket. The reader of the
items is any that reads their texts. -/
theorem items_written {reader : Reader α} {vs : List Json} {xs : List α}
    (h : List.Forall₂ (ReadsText reader) vs xs) {text : List Char}
    (htext : Written (.array vs) text) (rest : List Char) :
    ∃ inner, text = '[' :: inner ∧ items reader (inner ++ rest) = .ok (xs, rest) := by
  cases h with
  | nil =>
      cases htext with
      | noItems =>
          have hend : skipSpace (']' :: rest) = ']' :: rest := skipSpace_cons rfl rest
          exact ⟨[']'], rfl, by simp [items, hend]⟩
  | @cons v x vs xs hv hvs =>
      cases htext with
      | @items _ _ gap text tail hgap hitem hitems =>
          have hbound : vs.length < (text ++ (tail ++ rest)).length := by
            have htail := hitems.length_le
            obtain ⟨c, behind, rfl, -⟩ := hitem.start
            simp only [List.length_append, List.length_cons]
            omega
          have hmore := moreItems_written hv hvs hitem hitems hbound rest
          have hfirst := skipSpace_written hgap hitem (tail ++ rest)
          obtain ⟨c, behind, rfl, hstart, -⟩ := hitem.start
          refine ⟨_, rfl, ?_⟩
          rw [List.append_assoc, List.append_assoc]
          simp only [items, hfirst]
          split
          · next heq => cases heq
          · next heq => exact absurd (List.cons.inj heq).1 hstart.2.1
          · exact hmore

/-- The readers of some fields take a state to another one, from each text of
their values. Values and options are both read in this way, with a list of
fields or a draft as the state. -/
inductive ReadsFields (field : String → σ → Reader σ) : Fields → σ → σ → Prop
  | nil (s : σ) : ReadsFields field [] s s
  | cons {key : String} {v : Json} {fields : Fields} {s t u : σ}
      (hfield : ∀ space text rest : List Char, IsGap space → Written v text → EndsNumber rest →
        field key s (':' :: (space ++ (text ++ rest))) = .ok (t, rest))
      (hfields : ReadsFields field fields t u) : ReadsFields field ((key, v) :: fields) s u

private theorem moreFields_written {field : String → σ → Reader σ} {key : String} {v : Json}
    {fields : Fields} {s u : σ} (h : ReadsFields field ((key, v) :: fields) s u)
    {space text tail bound : List Char} (hspace : IsGap space) (hv : Written v text)
    (htail : WrittenFields fields tail) (hbound : fields.length < bound.length)
    (rest : List Char) :
    moreFields field bound s (key.toList.flatMap escaped ++ '"' :: ':' ::
      (space ++ (text ++ (tail ++ rest)))) = .ok (u, rest) := by
  induction fields generalizing key v space text tail bound s with
  | nil =>
      cases bound with
      | nil => simp at hbound
      | cons first bound =>
          cases h with
          | cons hfield hfields =>
              have hread := hfield space text _ hspace hv (htail.endsNumber rest)
              cases hfields
              cases htail with
              | @nil gap hgap =>
                  have hend : skipSpace (gap ++ ['}'] ++ rest) = '}' :: rest := by
                    rw [List.append_assoc]
                    exact skipSpace_gap hgap rfl rest
                  refine bind_ok (stringAfter_text key _) (bind_ok hread ?_)
                  simp only [hend]
  | cons next fields ih =>
      cases bound with
      | nil => simp at hbound
      | cons first bound =>
          cases h with
          | cons hfield hfields =>
              have hread := hfield space text _ hspace hv (htail.endsNumber rest)
              cases htail with
              | @cons key' v' _ gap space' text' tail hgap hspace' hv' htail =>
                  have hmore := ih hfields hspace' hv' htail (by simpa using hbound)
                  have hcomma : skipSpace (',' :: (gap ++ (stringText key' ++ ':' ::
                      (space' ++ (text' ++ tail)))) ++ rest) = ',' :: (gap ++ '"' ::
                        (key'.toList.flatMap escaped ++ '"' :: ':' ::
                          (space' ++ (text' ++ (tail ++ rest))))) := by
                    rw [List.cons_append, skipSpace_cons rfl]
                    simp [stringText]
                  refine bind_ok (stringAfter_text key _) (bind_ok hread ?_)
                  simp only [hcomma, skipSpace_gap hgap (c := '"') rfl]
                  exact hmore

/-- An object is read field by field, behind its opening brace, from the state
before its first field to the state behind its last. -/
theorem fields_written {field : String → σ → Reader σ} {entries : Fields} {s u : σ}
    (h : ReadsFields field entries s u) {text : List Char}
    (htext : Written (.object entries) text) (rest : List Char) :
    ∃ inner, text = '{' :: inner ∧ fields field s (inner ++ rest) = .ok (u, rest) := by
  cases htext with
  | noFields =>
      cases h
      have hend : skipSpace ('}' :: rest) = '}' :: rest := skipSpace_cons rfl rest
      exact ⟨['}'], rfl, by simp [fields, hend]⟩
  | @fields key v others gap space text tail hgap hspace hv hfields =>
      have hbound : others.length < (key.toList.flatMap escaped ++ '"' :: ':' ::
          (space ++ (text ++ (tail ++ rest)))).length := by
        have htail := hfields.length_le
        simp only [List.length_append, List.length_cons]
        omega
      have hmore := moreFields_written h hspace hv hfields hbound rest
      have hinner : gap ++ (stringText key ++ ':' :: (space ++ (text ++ tail))) ++ rest =
          gap ++ '"' :: (key.toList.flatMap escaped ++ '"' :: ':' ::
            (space ++ (text ++ (tail ++ rest)))) := by simp [stringText]
      refine ⟨_, rfl, ?_⟩
      rw [hinner]
      simp only [fields, skipSpace_gap hgap (c := '"') rfl]
      exact hmore

theorem colon_cons (text : List Char) : colon (':' :: text) = .ok text := by
  rw [colon, skipSpace_cons rfl]
  rfl

private theorem value_of_digit {c : Char} (h : isDigit c = true) (depth : Nat) (rest : List Char) :
    value depth (c :: rest) = (numberAfter false (c :: rest)).map fun (n, rest) =>
      (.number n, rest) := by
  have hspace : skipSpace (c :: rest) = c :: rest :=
    skipSpace_cons (startsValue_of_isDigit h).1 rest
  unfold value
  rw [hspace]
  split
  all_goals try (next heq => cases heq)
  all_goals try (next heq => exact absurd (List.cons.inj heq).1 (ne_of_isDigit h (by decide)))
  next heq =>
    obtain ⟨rfl, rfl⟩ := List.cons.inj heq
    rw [if_pos h]
    cases numberAfter false (c :: rest) <;> rfl

private theorem value_intText {n : Int} (hfits : FitsInteger n) (depth : Nat) {rest : List Char}
    (hrest : EndsNumber rest) :
    value depth (intText n ++ rest) = .ok (.number (.integer n), rest) := by
  obtain ⟨hleast, hgreatest⟩ := hfits
  have hbound : leastInteger = -9223372036854775808 := rfl
  have hlimit : greatestInteger = 18446744073709551615 := rfl
  unfold intText
  split
  · next hnegative =>
    have hread := numberAfter_natText true (n := n.natAbs) (by omega)
      (fun _ => ⟨by omega, by omega⟩) hrest
    have hvalue : -(n.natAbs : Int) = n := by omega
    rw [if_pos rfl, hvalue] at hread
    unfold value
    rw [List.cons_append, skipSpace_cons rfl]
    simp [hread, bind, Except.bind]
  · next hpositive =>
    obtain ⟨c, ds, htext, hdigit⟩ := exists_natText_cons n.natAbs
    have hread := numberAfter_natText false (n := n.natAbs) (by omega)
      (fun h => by cases h) hrest
    have hvalue : (n.natAbs : Int) = n := by omega
    rw [htext, List.cons_append] at hread ⊢
    rw [value_of_digit hdigit, hread]
    simp [Except.map, hvalue]

/-- White space in front of a value is passed, at every depth and whatever the
value is. -/
theorem value_of_gap {gap : List Char} (hgap : IsGap gap) (depth : Nat) (text : List Char) :
    value depth (gap ++ text) = value depth text := by
  unfold value
  rw [skipSpace_append hgap]

/-- Values with nothing inside are read back at any depth, as no level is
spent on them. -/
private theorem readsText_leaf {v : Json} (hobject : ∀ fields, v ≠ .object fields)
    (harray : ∀ items, v ≠ .array items) (h : Printable v) (depth : Nat) :
    ReadsText (value depth) v v := by
  intro gap text rest hgap htext hrest
  rw [value_of_gap hgap]
  cases htext with
  | noItems | items => exact absurd rfl (harray _)
  | noFields | fields => exact absurd rfl (hobject _)
  | null =>
      unfold value
      rw [List.cons_append, skipSpace_cons rfl]
      simp [wordAfter, bind, Except.bind]
  | bool b =>
      have hskip : skipSpace (boolText b ++ rest) = boolText b ++ rest := by
        cases b <;> exact skipSpace_cons rfl _
      unfold value
      rw [hskip]
      cases b <;> simp [boolText, wordAfter, bind, Except.bind]
  | number x =>
      obtain ⟨n, rfl⟩ := h.onlyIntegers x (by simp [parts])
      exact value_intText (h.integers n (by simp [parts])) depth hrest
  | string text =>
      unfold value
      rw [stringText, List.cons_append, List.cons_append, skipSpace_cons rfl]
      simp [stringAfter_text, bind, Except.bind]

private theorem readsFields_storeField {reader : Reader Json} {fields : Fields}
    (h : ∀ field ∈ fields, ReadsText reader field.2 field.2) (stored : Fields)
    (hkeys : (Fields.keys (stored ++ fields)).Nodup) :
    ReadsFields (storeField reader) fields stored (stored ++ fields) := by
  induction fields generalizing stored with
  | nil =>
      rw [List.append_nil]
      exact .nil stored
  | cons field fields ih =>
      obtain ⟨key, v⟩ := field
      obtain ⟨hv, hfields⟩ := List.forall_mem_cons.1 h
      have hnew : key ∉ Fields.keys stored := by
        simp only [Fields.keys, List.map_append, List.map_cons] at hkeys
        exact fun hmem => (List.nodup_append.1 hkeys).2.2 _ hmem _ List.mem_cons_self rfl
      have hset : stored.set key v = stored ++ [(key, v)] :=
        Fields.set_of_get?_eq_none v (Fields.get?_eq_none_iff.2 hnew)
      have hrest : ReadsFields (storeField reader) fields (stored ++ [(key, v)])
          (stored ++ (key, v) :: fields) := by
        have hall := ih hfields (stored ++ [(key, v)]) (by simpa using hkeys)
        simpa using hall
      refine .cons (fun space text rest hspace htext hends => ?_) hrest
      rw [← hset]
      exact bind_ok (colon_cons _) (bind_ok (hv space text rest hspace htext hends) rfl)

/-- A value is read back from its texts. The induction is on the value; the
depth that is left goes along with it. -/
theorem readsText_value (v : Json) :
    ∀ depth, Printable v → height v ≤ depth → ReadsText (value depth) v v := by
  induction v using valueInduction with
  | object fields ih =>
      intro depth h hheight
      obtain ⟨hkeys, hfields⟩ := printable_object.1 h
      cases depth with
      | zero => simp [height] at hheight
      | succ depth =>
          have hread : ∀ field ∈ fields, ReadsText (value depth) field.2 field.2 := by
            intro field hfield
            have hlow := height_lt_of_mem_fields hfield
            exact ih field hfield depth (hfields field hfield) (by omega)
          intro gap text rest hgap htext _
          obtain ⟨inner, rfl, hinner⟩ :=
            fields_written (readsFields_storeField hread [] hkeys) htext rest
          rw [value_of_gap hgap]
          unfold value
          rw [List.cons_append, skipSpace_cons rfl]
          exact bind_ok hinner rfl
  | array items ih =>
      intro depth h hheight
      have hitems := printable_array.1 h
      cases depth with
      | zero => simp [height] at hheight
      | succ depth =>
          have hread : ∀ item ∈ items, ReadsText (value depth) item item := by
            intro item hitem
            have hlow := height_lt_of_mem_items hitem
            exact ih item hitem depth (hitems item hitem) (by omega)
          intro gap text rest hgap htext _
          obtain ⟨inner, rfl, hinner⟩ := items_written (List.forall₂_same.2 hread) htext rest
          rw [value_of_gap hgap]
          unfold value
          rw [List.cons_append, skipSpace_cons rfl]
          exact bind_ok hinner rfl
  | leaf v hobject harray =>
      intro depth h _
      exact readsText_leaf hobject harray h depth

/-- What a reader makes of every text of a value it makes of a whole one, also
with white space behind it. Anything else behind the value would be refused. -/
theorem ReadsText.whole {reader : Reader α} {v : Json} {x : α} (h : ReadsText reader v x)
    {text blanks : List Char} (htext : Written v text) (hblanks : IsGap blanks) :
    whole reader (String.ofList (text ++ blanks)) = .ok x := by
  have hread : reader (text ++ blanks) = .ok (x, blanks) :=
    h [] text blanks isGap_nil htext (endsNumber_of_isGap hblanks)
  have hskip : skipSpace blanks = [] := by
    have hall := skipSpace_append hblanks []
    rwa [List.append_nil] at hall
  unfold Json.whole
  rw [String.toList_ofList]
  refine bind_ok hread ?_
  simp only [hskip]

/-- The pretty text of a value, followed by white space, is parsed to the
value. The unit may be any white space, since it only stands in gaps. -/
theorem parse_prettyText {unit blanks : List Char} (hunit : ∀ c ∈ unit, isSpace c = true)
    (hblanks : ∀ c ∈ blanks, isSpace c = true) {v : Json} (h : Printable v)
    (hheight : height v ≤ depthLimit) :
    parse (String.ofList (prettyText unit 0 v ++ blanks)) = .ok v :=
  (readsText_value v depthLimit h hheight).whole (written_prettyText hunit v 0) hblanks

end SymbolPatterns.Json
