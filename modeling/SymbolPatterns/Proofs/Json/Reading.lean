import SymbolPatterns.Json.Reader
import SymbolPatterns.Proofs.Json.Shape
import SymbolPatterns.Proofs.Outcome

/-!
Whatever the reader makes of a text is well-formed: an integer fits its range,
since the digits are no longer added up when they would leave it, and a key that
comes twice is stored once. Nor is it nested deeper than the limit, since each
level takes one off the depth that is left.
-/

namespace SymbolPatterns.Json

theorem addWhole_le {d : Scaled} (ds : List Char) (h : d.significand ≤ greatestInteger) :
    (d.addWhole ds).significand ≤ greatestInteger := by
  induction ds generalizing d with
  | nil => exact h
  | cons c ds ih =>
      unfold Scaled.addWhole
      dsimp only
      split
      · exact h
      · exact ih (by dsimp only; omega)

theorem fitsInteger_of_numberOf {negative : Bool} {digits : List Char} {places : Option (List Char)}
    {power : Option Int} {n : Int}
    (h : numberOf negative digits places power = .ok (.integer n)) : FitsInteger n := by
  have hscaled := addWhole_le (d := ⟨0, 0⟩) digits (by decide)
  have hleast : leastInteger = -9223372036854775808 := rfl
  unfold numberOf at h
  dsimp only at h
  split at h
  · split at h
    · split at h <;> cases h
    · split at h
      · simp only [Except.ok.injEq, Number.integer.injEq] at h
        subst h
        exact ⟨by omega, by omega⟩
      · split at h
        · split at h <;> cases h
        · next hfits =>
          simp only [Bool.or_eq_true, decide_eq_true_eq, not_or] at hfits
          simp only [Except.ok.injEq, Number.integer.injEq] at h
          subst h
          exact ⟨by omega, by omega⟩
  · split at h <;> cases h

theorem wellFormed_of_numberAfter {negative : Bool} {text rest : List Char} {x : Number}
    (h : numberAfter negative text = .ok (x, rest)) : WellFormed (.number x) := by
  refine wellFormed_leaf (fun n hn => ?_) nofun nofun
  obtain ⟨whole, -, h⟩ := bind_eq_ok h
  obtain ⟨places, -, h⟩ := bind_eq_ok h
  obtain ⟨power, -, h⟩ := bind_eq_ok h
  obtain ⟨number, hnumber, h⟩ := bind_eq_ok h
  obtain ⟨rfl, -⟩ := Prod.mk.inj (Except.ok.inj h)
  obtain rfl := Json.number.inj hn
  exact fitsInteger_of_numberOf hnumber

/-- A reader whose values all have a property, whatever the text and whatever
is left of it. A list that is read with it has only items with this property,
and what every reader of a field keeps holds after all fields of an object. -/
def Yields {α : Type} (reader : Reader α) (property : α → Prop) : Prop :=
  ∀ text v rest, reader text = .ok (v, rest) → property v

section

variable {α σ : Type} {reader : Reader α} {property : α → Prop}

theorem forall_of_moreItems (hreader : Yields reader property)
    {bound text rest : List Char} {xs : List α}
    (h : moreItems reader bound text = .ok (xs, rest)) : ∀ x ∈ xs, property x := by
  induction bound generalizing text xs rest with
  | nil => cases h
  | cons first bound ih =>
      rw [moreItems] at h
      obtain ⟨⟨x, behind⟩, hitem, h⟩ := bind_eq_ok h
      have hx := hreader _ _ _ hitem
      dsimp only at h
      split at h
      · cases h
      · obtain ⟨rfl, -⟩ := Prod.mk.inj (Except.ok.inj h)
        simpa using hx
      · split at h
        · cases h
        · cases h
        · obtain ⟨⟨others, behind'⟩, hmore, h⟩ := bind_eq_ok h
          obtain ⟨rfl, -⟩ := Prod.mk.inj (Except.ok.inj h)
          exact List.forall_mem_cons.2 ⟨hx, ih hmore⟩
      · cases h

theorem forall_of_items (hreader : Yields reader property) {text rest : List Char}
    {xs : List α} (h : items reader text = .ok (xs, rest)) : ∀ x ∈ xs, property x := by
  unfold items at h
  split at h
  · cases h
  · obtain ⟨rfl, -⟩ := Prod.mk.inj (Except.ok.inj h)
    exact nofun
  · exact forall_of_moreItems hreader h

variable {field : String → σ → Reader σ} {kept : σ → Prop}

theorem yields_moreFields (hfield : ∀ key state, kept state → Yields (field key state) kept)
    (bound : List Char) {state : σ} (hstate : kept state) :
    Yields (moreFields field bound state) kept := by
  intro text result rest h
  induction bound generalizing text state with
  | nil => cases h
  | cons first bound ih =>
      rw [moreFields] at h
      obtain ⟨⟨key, behindKey⟩, -, h⟩ := bind_eq_ok h
      obtain ⟨⟨next, behind⟩, hnext, h⟩ := bind_eq_ok h
      have hkept := hfield key state hstate _ _ _ hnext
      dsimp only at h
      split at h
      · cases h
      · obtain ⟨rfl, -⟩ := Prod.mk.inj (Except.ok.inj h)
        exact hkept
      · split at h
        · cases h
        · cases h
        · exact ih hkept _ h
        · cases h
      · cases h

theorem yields_fields (hfield : ∀ key state, kept state → Yields (field key state) kept)
    {state : σ} (hstate : kept state) : Yields (fields field state) kept := by
  intro text result rest h
  unfold fields at h
  split at h
  · cases h
  · obtain ⟨rfl, -⟩ := Prod.mk.inj (Except.ok.inj h)
    exact hstate
  · exact yields_moreFields hfield _ hstate _ _ _ h
  · cases h

end

/-- Each key once, and a property of every value. It is what reading one more
field keeps. -/
def EachField (property : Json → Prop) (fields : Fields) : Prop :=
  (Fields.keys fields).Nodup ∧ ∀ field ∈ fields, property field.2

theorem yields_storeField {reader : Reader Json} {property : Json → Prop}
    (hreader : Yields reader property) (key : String) {stored : Fields}
    (hstored : EachField property stored) :
    Yields (storeField reader key stored) (EachField property) := by
  intro text result rest h
  obtain ⟨opened, -, h⟩ := bind_eq_ok h
  obtain ⟨⟨v, left⟩, hv, h⟩ := bind_eq_ok h
  obtain ⟨rfl, -⟩ := Prod.mk.inj (Except.ok.inj h)
  exact ⟨Fields.nodup_keys_set hstored.1 key v,
    Fields.forall_mem_set hstored.2 key (hreader _ _ _ hv)⟩

theorem eachField_of_fields {reader : Reader Json} {property : Json → Prop}
    (hreader : Yields reader property) {text rest : List Char} {result : Fields}
    (h : fields (storeField reader) [] text = .ok (result, rest)) : EachField property result := by
  have hempty : EachField property [] := ⟨List.nodup_nil, nofun⟩
  exact yields_fields (fun key _ hstored => yields_storeField hreader key hstored) hempty _ _ _ h

/-- What a reader that may go `depth` levels down guarantees of its values.
The depth is part of it, since the reader is defined by recursion on it. -/
structure ReadWithin (depth : Nat) (v : Json) : Prop where
  wellFormed : WellFormed v
  height_le : height v ≤ depth

theorem readWithin_leaf {depth : Nat} {v : Json} (hleaf : height v = 0)
    (hintegers : ∀ n, v = .number (.integer n) → FitsInteger n) : ReadWithin depth v := by
  refine ⟨wellFormed_leaf hintegers ?_ ?_, by omega⟩
  · rintro fields rfl
    cases hleaf
  · rintro items rfl
    cases hleaf

theorem readWithin_array {depth : Nat} {xs : List Json} (h : ∀ x ∈ xs, ReadWithin depth x) :
    ReadWithin (depth + 1) (.array xs) :=
  ⟨wellFormed_array.2 fun x hx => (h x hx).wellFormed,
    height_array_le fun x hx => (h x hx).height_le⟩

theorem readWithin_object {depth : Nat} {fields : Fields}
    (h : EachField (ReadWithin depth) fields) : ReadWithin (depth + 1) (.object fields) :=
  ⟨wellFormed_object.2 ⟨h.1, fun field hfield => (h.2 field hfield).wellFormed⟩,
    height_object_le fun field hfield => (h.2 field hfield).height_le⟩

/-- What is read by a word or a string has no numbers and nothing inside, so
it satisfies everything that is asked of a value. -/
private theorem readWithin_of_bind {α : Type} {depth : Nat} {result : Except Fault α}
    {rest : List Char} {v : Json} {next : α → Json × List Char}
    (h : (result >>= fun a => .ok (next a)) = .ok (v, rest))
    (hnext : ∀ a, ReadWithin depth (next a).1) : ReadWithin depth v := by
  obtain ⟨a, -, h⟩ := bind_eq_ok h
  have hv : (next a).1 = v := congrArg Prod.fst (Except.ok.inj h)
  exact hv ▸ hnext a

theorem yields_value_of {depth : Nat}
    (hdeeper : ∀ deeper, depth = deeper + 1 → Yields (value deeper) (ReadWithin deeper)) :
    Yields (value depth) (ReadWithin depth) := by
  intro text v rest h
  unfold value at h
  split at h
  · cases h
  · exact readWithin_of_bind h fun _ => readWithin_leaf rfl nofun
  · exact readWithin_of_bind h fun _ => readWithin_leaf rfl nofun
  · exact readWithin_of_bind h fun _ => readWithin_leaf rfl nofun
  · exact readWithin_of_bind h fun _ => readWithin_leaf rfl nofun
  · split at h
    · cases h
    · obtain ⟨⟨xs, left⟩, hxs, h⟩ := bind_eq_ok h
      obtain ⟨rfl, -⟩ := Prod.mk.inj (Except.ok.inj h)
      exact readWithin_array (forall_of_items (hdeeper _ rfl) hxs)
  · split at h
    · cases h
    · obtain ⟨⟨stored, left⟩, hstored, h⟩ := bind_eq_ok h
      obtain ⟨rfl, -⟩ := Prod.mk.inj (Except.ok.inj h)
      exact readWithin_object (eachField_of_fields (hdeeper _ rfl) hstored)
  · obtain ⟨⟨n, left⟩, hn, h⟩ := bind_eq_ok h
    obtain ⟨rfl, -⟩ := Prod.mk.inj (Except.ok.inj h)
    exact ⟨wellFormed_of_numberAfter hn, Nat.zero_le _⟩
  · split at h
    · obtain ⟨⟨n, left⟩, hn, h⟩ := bind_eq_ok h
      obtain ⟨rfl, -⟩ := Prod.mk.inj (Except.ok.inj h)
      exact ⟨wellFormed_of_numberAfter hn, Nat.zero_le _⟩
    · cases h

theorem yields_value (depth : Nat) : Yields (value depth) (ReadWithin depth) := by
  induction depth with
  | zero => exact yields_value_of nofun
  | succ depth ih =>
      apply yields_value_of
      intro deeper hdeeper
      obtain rfl : depth = deeper := by omega
      exact ih

/-- A text that is read as a value has a well-formed one, nested no deeper
than the limit. Whatever is proved of well-formed values holds of documents by
this. -/
theorem readWithin_of_parse {text : String} {v : Json} (h : parse text = .ok v) :
    ReadWithin depthLimit v := by
  obtain ⟨⟨x, rest⟩, hvalue, h⟩ := bind_eq_ok h
  dsimp only at h
  split at h
  · obtain rfl := Except.ok.inj h
    exact yields_value _ _ _ _ hvalue
  · cases h

end SymbolPatterns.Json
