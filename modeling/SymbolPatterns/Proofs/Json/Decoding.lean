import SymbolPatterns.Json.Decoder
import SymbolPatterns.Proofs.Json.Reading
import SymbolPatterns.Proofs.Json.RoundTrip

/-!
Decoders that read data back from its encoding, both from the encoded value and
from every text of it. Each kind of decoder takes this property over from its
parts. A record is read field by field: each field takes the draft one step
further, and what is left out keeps its default.
-/

namespace SymbolPatterns.Json.Decoder

variable {α β σ : Type}

/-- A decoder takes a value for `x`, as it stands and from each of its texts.
The two ways of a decoder are written side by side, and nothing else makes
them agree. -/
structure Reads (d : Decoder α) (v : Json) (x : α) : Prop where
  value : d.value v = .ok x
  text : ReadsText d.text v x

theorem reads_scalar {wanted : String} {pick : Json → Except Fault α} {v : Json} {x : α}
    (hprintable : Printable v) (hleaf : height v = 0) (hpick : pick v = .ok x) :
    Reads (scalar wanted pick) v x where
  value := hpick
  text := by
    intro gap text rest hgap htext hrest
    have hvalue : Json.value 0 (text ++ rest) = .ok (v, rest) :=
      readsText_value v 0 hprintable (Nat.le_of_eq hleaf) [] text rest isGap_nil htext hrest
    have hskip := skipSpace_written hgap htext rest
    obtain ⟨c, tail, rfl, -, -, hscalar⟩ := htext.start
    obtain ⟨hlist, hobject⟩ := hscalar hleaf
    unfold scalar
    dsimp only
    rw [hskip]
    split
    · next heq => exact absurd (List.cons.inj heq).1 hlist
    · next heq => exact absurd (List.cons.inj heq).1 hobject
    · rw [hvalue]
      exact bind_ok rfl (bind_ok hpick rfl)

theorem reads_string (wanted text : String) : Reads (string wanted) (.string text) text :=
  reads_scalar (printable_string text) rfl rfl

theorem reads_bool (value : Bool) : Reads bool (.bool value) value :=
  reads_scalar ⟨wellFormed_leaf nofun nofun nofun, onlyIntegers_bool value⟩ rfl rfl

theorem reads_natural (wanted : String) {n : Nat} (h : n ≤ greatestInteger) :
    Reads (natural wanted) (.number (.integer n)) n := by
  have hprintable : Printable (.number (.integer n)) := by
    refine ⟨wellFormed_leaf (fun m hm => ?_) nofun nofun, onlyIntegers_integer n⟩
    obtain rfl : (n : Int) = m := by simpa using hm
    have hleast : leastInteger = -9223372036854775808 := rfl
    exact ⟨by omega, by omega⟩
  exact reads_scalar hprintable rfl (by simp)

theorem reads_variant {choices : List (String × α)} {name : String} {x : α}
    (h : choices.lookup name = some x) : Reads (variant choices) (.string name) x := by
  have hvalue : (variant choices).value (.string name) = .ok x := by
    -- What picks among the names is private to the decoder, so it cannot be unfolded by name.
    conv =>
      lhs
      whnf
    rw [h]
  refine ⟨hvalue, ?_⟩
  intro gap text rest hgap htext hrest
  have hskip := skipSpace_written hgap htext rest
  cases htext with
  | string =>
      have hname : stringText name ++ rest =
          '"' :: (name.toList.flatMap escaped ++ '"' :: rest) := by simp [stringText]
      rw [hname] at hskip
      unfold variant
      dsimp only
      rw [hname, hskip]
      exact bind_ok (stringAfter_text name rest) (bind_ok hvalue rfl)

theorem reads_option {d : Decoder α} {v : Json} {x : α} (h : Reads d v x) (hnull : v ≠ .null) :
    Reads (option d) v (some x) where
  value := by
    have hvalue := h.value
    cases v with
    | null => exact absurd rfl hnull
    | _ => exact bind_ok hvalue rfl
  text := by
    intro gap text rest hgap htext hrest
    have hinner := h.text [] text rest isGap_nil htext hrest
    have hskip := skipSpace_written hgap htext rest
    obtain ⟨c, tail, rfl, -, hword, -⟩ := htext.start
    unfold option
    dsimp only
    rw [hskip]
    split
    · next heq => exact absurd (List.cons.inj heq).1 (hword hnull)
    · exact bind_ok hinner rfl

theorem reads_list {d : Decoder α} {encode : α → Json} {xs : List α}
    (h : ∀ x ∈ xs, Reads d (encode x) x) : Reads (list d) (.array (xs.map encode)) xs where
  value := by
    change (xs.map encode).mapM d.value = .ok xs
    induction xs with
    | nil => rfl
    | cons x xs ih =>
        obtain ⟨hx, hxs⟩ := List.forall_mem_cons.1 h
        rw [List.map_cons, List.mapM_cons]
        exact bind_ok hx.value (bind_ok (ih hxs) rfl)
  text := by
    intro gap text rest hgap htext _
    have hitems : List.Forall₂ (ReadsText d.text) (xs.map encode) xs :=
      List.forall₂_map_left_iff.2 (List.forall₂_same.2 fun x hx => (h x hx).text)
    have hskip := skipSpace_written hgap htext rest
    obtain ⟨inner, rfl, hinner⟩ := items_written hitems htext rest
    unfold list
    dsimp only
    rw [hskip]
    exact hinner

namespace Record

/-- The fields of an object take a draft from one state to another: each key
is known, its field is not filled yet, and the decoder of the field takes the
value for the next state. Fields with keys that nobody knows are not covered;
what is written has none. -/
inductive Fills (r : Record σ α) : Fields → σ → σ → Prop
  | nil (s : σ) : Fills r [] s s
  | cons {key : String} {v : Json} {fields : Fields} {f : Field σ} {s t u : σ}
      (hfield : r.field? key = some f) (hempty : f.filled s = false)
      (hreads : Reads ⟨f.text s, f.value s⟩ v t) (hfields : Fills r fields t u) :
      Fills r ((key, v) :: fields) s u

variable {r : Record σ α} {s t u : σ}

theorem Fills.append {front rest : Fields} (hfront : Fills r front s t)
    (hrest : Fills r rest t u) : Fills r (front ++ rest) s u := by
  induction hfront with
  | nil s => exact hrest
  | cons hfield hempty hreads _ ih => exact .cons hfield hempty hreads (ih hrest)

theorem reads_field {name : String} {d : Decoder β} {get : σ → Option β} {set : σ → β → σ}
    {alternatives : List String} {v : Json} {x : β} (h : Reads d v x) (s : σ) :
    Reads ⟨(Field.of name d get set alternatives).text s,
      (Field.of name d get set alternatives).value s⟩ v (set s x) where
  value := bind_ok h.value rfl
  text := fun gap text rest hgap htext hrest => bind_ok (h.text gap text rest hgap htext hrest) rfl

theorem fills_field {name key : String} {d : Decoder β} {get : σ → Option β} {set : σ → β → σ}
    {alternatives : List String} {v : Json} {x : β}
    (hfield : r.field? key = some (.of name d get set alternatives)) (hempty : get s = none)
    (hset : set s x = t) (hreads : Reads d v x) : Fills r [(key, v)] s t := by
  rw [← hset]
  exact .cons hfield (by simp [Field.of, hempty]) (reads_field hreads s) (.nil _)

theorem Fills.valueFields {fields : Fields} (h : Fills r fields s t) :
    r.valueFields fields s = .ok t := by
  induction h with
  | nil s => rfl
  | cons hfield hempty hreads _ ih =>
      rw [Record.valueFields]
      simp only [hfield, hempty]
      exact bind_ok hreads.value ih

theorem Fills.readsFields {fields : Fields} (h : Fills r fields s t) :
    ReadsFields r.textField fields s t := by
  induction h with
  | nil s => exact .nil s
  | cons hfield hempty hreads _ ih =>
      refine .cons (fun space text rest hspace htext hrest => ?_) ih
      unfold textField
      simp only [hfield, hempty]
      exact bind_ok (colon_cons _) (hreads.text space text rest hspace htext hrest)

theorem reads_record {fields : Fields} {x : α} (h : Fills r fields r.empty s)
    (hfinish : r.finish s = .ok x) : Reads r.decoder (.object fields) x where
  value := bind_ok h.valueFields hfinish
  text := by
    intro gap text rest hgap htext _
    have hskip := skipSpace_written hgap htext rest
    obtain ⟨inner, rfl, hinner⟩ := fields_written h.readsFields htext rest
    unfold decoder
    dsimp only
    rw [hskip]
    exact bind_ok hinner (bind_ok hfinish rfl)

end Record

theorem yields_any (reader : Reader α) : Yields reader fun _ => True := fun _ _ _ _ => trivial

theorem yields_scalar {wanted : String} {pick : Json → Except Fault α} {property : α → Prop}
    (h : ∀ v x, WellFormed v → pick v = .ok x → property x) :
    Yields (scalar wanted pick).text property := by
  intro text x rest hread
  unfold scalar at hread
  dsimp only at hread
  split at hread
  · cases hread
  · cases hread
  · obtain ⟨⟨v, behind⟩, hv, hread⟩ := bind_eq_ok hread
    obtain ⟨y, hy, hread⟩ := bind_eq_ok hread
    obtain ⟨rfl, -⟩ := Prod.mk.inj (Except.ok.inj hread)
    exact h v _ (yields_value 0 _ _ _ hv).wellFormed hy

theorem yields_natural (wanted : String) :
    Yields (natural wanted).text fun n => n ≤ greatestInteger := by
  refine yields_scalar fun v x hv hpick => ?_
  split at hpick
  · next n =>
    have hfits : FitsInteger n := hv.integers n (by simp [parts])
    have hgreatest : n ≤ greatestInteger := hfits.2
    split at hpick
    · cases hpick
    · obtain rfl := Except.ok.inj hpick
      omega
  · cases hpick

theorem yields_option {d : Decoder α} {property : α → Prop} (h : Yields d.text property) :
    Yields (option d).text fun found => ∀ x, found = some x → property x := by
  intro text found rest hread
  unfold option at hread
  dsimp only at hread
  split at hread
  · obtain ⟨behind, -, hread⟩ := bind_eq_ok hread
    obtain ⟨rfl, -⟩ := Prod.mk.inj (Except.ok.inj hread)
    exact nofun
  · obtain ⟨⟨x, behind⟩, hx, hread⟩ := bind_eq_ok hread
    obtain ⟨rfl, -⟩ := Prod.mk.inj (Except.ok.inj hread)
    rintro y hy
    obtain rfl := Option.some.inj hy
    exact h _ _ _ hx

theorem yields_list {d : Decoder α} {property : α → Prop} (h : Yields d.text property) :
    Yields (list d).text fun found => ∀ x ∈ found, property x := by
  intro text found rest hread
  unfold list at hread
  dsimp only at hread
  split at hread
  · exact forall_of_items h hread
  · cases hread
  · obtain ⟨⟨v, behind⟩, -, hread⟩ := bind_eq_ok hread
    cases hread

namespace Record

variable {r : Record σ α} {kept : σ → Prop}

theorem yields_field {name : String} {d : Decoder β} {get : σ → Option β} {set : σ → β → σ}
    {alternatives : List String} {property : β → Prop} (hd : Yields d.text property) {s : σ}
    (hset : ∀ x, property x → kept (set s x)) :
    Yields ((Field.of name d get set alternatives).text s) kept := by
  intro text t rest h
  obtain ⟨⟨x, behind⟩, hx, h⟩ := bind_eq_ok h
  obtain ⟨rfl, -⟩ := Prod.mk.inj (Except.ok.inj h)
  exact hset x (hd _ _ _ hx)

private theorem yields_textField (hfields : ∀ f ∈ r.fields, ∀ s, kept s → Yields (f.text s) kept)
    (key : String) {s : σ} (hs : kept s) : Yields (r.textField key s) kept := by
  intro text t rest h
  unfold textField at h
  split at h
  · next f hfound =>
    split at h
    · cases h
    · obtain ⟨behind, -, h⟩ := bind_eq_ok h
      exact hfields f (List.mem_of_find?_eq_some hfound) s hs _ _ _ h
  · obtain ⟨behind, -, h⟩ := bind_eq_ok h
    obtain ⟨left, -, h⟩ := bind_eq_ok h
    obtain ⟨rfl, -⟩ := Prod.mk.inj (Except.ok.inj h)
    exact hs

private theorem yields_textItems {following : List (Field σ)}
    (hfields : ∀ f ∈ following, ∀ s, kept s → Yields (f.text s) kept) (index : Nat) {s : σ}
    (hs : kept s) : Yields (r.textItems index following s) kept := by
  intro text t rest h
  induction following generalizing index s text with
  | nil =>
      obtain ⟨rfl, -⟩ := Prod.mk.inj (Except.ok.inj h)
      exact hs
  | cons f following ih =>
      obtain ⟨hf, hfollowing⟩ := List.forall_mem_cons.1 hfields
      have hmore : ∀ next, (f.text s next >>= fun found =>
          textItems r (index + 1) following found.1 found.2) = .ok (t, rest) → kept t := by
        intro next hnext
        obtain ⟨⟨state, behind⟩, hstate, hnext⟩ := bind_eq_ok hnext
        exact ih hfollowing (index + 1) (hf s hs _ _ _ hstate) behind hnext
      rw [textItems] at h
      dsimp only at h
      split at h
      · cases h
      · split at h
        · split at h
          · obtain ⟨rfl, -⟩ := Prod.mk.inj (Except.ok.inj h)
            exact hs
          · cases h
        · split at h
          · exact hmore _ h
          · split at h
            · split at h
              · cases h
              · cases h
              · exact hmore _ h
            · cases h

/-- What all fields of a record keep holds of the draft that is finished,
whatever the text was: keys that nobody knows are passed over. -/
theorem yields_record {property : α → Prop} (hempty : kept r.empty)
    (hfields : ∀ f ∈ r.fields, ∀ s, kept s → Yields (f.text s) kept)
    (hfinish : ∀ s x, kept s → r.finish s = .ok x → property x) :
    Yields r.decoder.text property := by
  intro text x rest h
  unfold decoder at h
  dsimp only at h
  split at h
  · obtain ⟨⟨s, behind⟩, hs, h⟩ := bind_eq_ok h
    obtain ⟨y, hy, h⟩ := bind_eq_ok h
    obtain ⟨rfl, -⟩ := Prod.mk.inj (Except.ok.inj h)
    have hkept : kept s := yields_fields (fun key _ => yields_textField hfields key) hempty _ _ _ hs
    exact hfinish s _ hkept hy
  · obtain ⟨⟨s, behind⟩, hs, h⟩ := bind_eq_ok h
    obtain ⟨y, hy, h⟩ := bind_eq_ok h
    obtain ⟨left, -, h⟩ := bind_eq_ok h
    obtain ⟨rfl, -⟩ := Prod.mk.inj (Except.ok.inj h)
    exact hfinish s _ (yields_textItems hfields 0 hempty _ _ _ hs) hy
  · obtain ⟨⟨v, behind⟩, -, h⟩ := bind_eq_ok h
    cases h

end Record

end SymbolPatterns.Json.Decoder
