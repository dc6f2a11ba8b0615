import SymbolPatterns.Proofs.Grammar.Places

/-!
What lookup gives, told by the places of a name alone: without a place the name
is not found, with several it is ambiguous and they are counted, and with one
the node there is found. What is written at the address of this node reaches it
and nothing beside it.
-/

namespace SymbolPatterns.Grammar

open Json (Fields WellFormed)

/-- What lookup gives, by the nodes that bear the name. The order of the nodes
does not matter, only how many they are. -/
theorem find_eq_of_bearers (document : Fields) (name : String) :
    find document name = match bearers (.object document) name with
      | [] => .error (.patternNotFound name)
      | [s] => .ok s.node
      | several => .error (.ambiguousPattern name several.length) := by
  unfold find locate pick
  rw [← bearers]
  rcases bearers (.object document) name with _ | ⟨first, _ | ⟨second, rest⟩⟩ <;> rfl

theorem find_eq_error_iff {document : Fields} {name : String} {failure : Failure} :
    find document name = .error failure ↔
      bearers (.object document) name = [] ∧ failure = .patternNotFound name ∨
        2 ≤ (bearers (.object document) name).length ∧
          failure = .ambiguousPattern name (bearers (.object document) name).length := by
  rw [find_eq_of_bearers]
  rcases bearers (.object document) name with _ | ⟨first, _ | ⟨second, rest⟩⟩
  · simp [eq_comm]
  · simp
  · simp [eq_comm]

/-- Lookup for writing and lookup for reading fail alike, with the same count
of nodes if the name is ambiguous. -/
theorem locate_eq_error_iff {document : Fields} {name : String} {failure : Failure} :
    locate document name = .error failure ↔ find document name = .error failure := by
  unfold find
  cases locate document name <;> simp [Except.map]

theorem find_eq_ok_iff_locate {document : Fields} {name : String} {node : Fields} :
    find document name = .ok node ↔ ∃ s, locate document name = .ok s ∧ s.node = node := by
  unfold find
  cases locate document name <;> simp [Except.map]

theorem bearers_eq_nil_iff {document : Json} {name : String} :
    bearers document name = [] ↔ placesOf document name = ∅ := by
  rw [← Set.encard_eq_zero, encard_placesOf, Nat.cast_eq_zero, List.length_eq_zero_iff]

theorem placesOf_of_bearers {document : Json} {name : String} {s : Sighting}
    (h : bearers document name = [s]) : placesOf document name = {s.address} := by
  ext address
  simp [mem_placesOf_iff, h, eq_comm]

theorem exists_bearers_of_placesOf {document : Json} {name : String} {address : Address}
    (h : placesOf document name = {address}) :
    ∃ s, bearers document name = [s] ∧ s.address = address := by
  have hcard : (placesOf document name).encard = 1 := h ▸ Set.encard_singleton address
  rw [encard_placesOf, Nat.cast_eq_one, List.length_eq_one_iff] at hcard
  obtain ⟨s, hs⟩ := hcard
  rw [placesOf_of_bearers hs] at h
  exact ⟨s, hs, Set.singleton_injective h⟩

theorem valueAt?_of_bearers {document : Json} {name : String} {s : Sighting}
    (h : s ∈ bearers document name) : valueAt? s.address document = some (.object s.node) :=
  valueAt?_of_visible (mem_visibleNodes_iff.1 (List.mem_filter.1 h).1)

theorem find_eq_patternNotFound_iff {document : Fields} {name : String} :
    find document name = .error (.patternNotFound name) ↔ placesOf (.object document) name = ∅ := by
  rw [find_eq_error_iff, bearers_eq_nil_iff]
  simp

theorem find_eq_ambiguousPattern_iff {document : Fields} {name : String} {count : Nat} :
    find document name = .error (.ambiguousPattern name count) ↔
      2 ≤ count ∧ (placesOf (.object document) name).encard = count := by
  rw [find_eq_error_iff, encard_placesOf, Nat.cast_inj]
  simp only [reduceCtorEq, and_false, Failure.ambiguousPattern.injEq, true_and, false_or]
  omega

theorem places_of_locate {document : Fields} {name : String} {s : Sighting}
    (h : locate document name = .ok s) : placesOf (.object document) name = {s.address} ∧
      valueAt? s.address (.object document) = some (.object s.node) := by
  have hbearers : bearers (.object document) name = [s] := locate_eq_ok_iff.1 h
  exact ⟨placesOf_of_bearers hbearers,
    valueAt?_of_bearers (hbearers ▸ List.mem_singleton_self s)⟩

theorem find_eq_ok_iff_places {document : Fields} {name : String} {node : Fields} :
    find document name = .ok node ↔ ∃ address, placesOf (.object document) name = {address} ∧
      valueAt? address (.object document) = some (.object node) := by
  rw [find_eq_ok_iff_locate]
  constructor
  · rintro ⟨s, hs, rfl⟩
    exact ⟨s.address, places_of_locate hs⟩
  · rintro ⟨address, hplaces, hvalue⟩
    obtain ⟨s, hbearers, rfl⟩ := exists_bearers_of_placesOf hplaces
    have hs : locate document name = .ok s := locate_eq_ok_iff.2 hbearers
    have hsame := (places_of_locate hs).2.symm.trans hvalue
    exact ⟨s, hs, Json.object.inj (Option.some.inj hsame)⟩

theorem object_changeFields (change : Fields → Fields) (address : Address) (document : Fields) :
    .object (changeFields change address document) =
      changeAt change address (.object document) := by
  cases address <;> rfl

/-- An address is a handle to a node if the node is read and changed there, by
positions and by keys, and a change leaves alone what lies neither inside the
node nor on the way to it. Keys are asked about only in documents that can be
read. -/
structure LeadsTo (document : Fields) (address : Address) (node : Fields) : Prop where
  value : valueAt? address (.object document) = some (.object node)
  steps : WellFormed (.object document) →
    follow (steps address (.object document)) (.object document) = some (.object node)
  write : ∀ change, valueAt? address (.object (changeFields change address document)) =
    some (.object (change node))
  apart : ∀ change other, ¬address <+: other → ¬other <+: address →
    valueAt? other (.object (changeFields change address document)) =
      valueAt? other (.object document)

theorem leadsTo_of_valueAt? {document node : Fields} {address : Address}
    (h : valueAt? address (.object document) = some (.object node)) :
    LeadsTo document address node where
  value := h
  steps hdocument := follow_steps hdocument h
  write change := by
    rw [object_changeFields]
    exact valueAt?_changeAt h
  apart change other hbelow habove := by
    rw [object_changeFields]
    exact valueAt?_changeAt_of_apart change _ hbelow habove

/-- Lookup tells exactly how many visible nodes bear a name, and where there
is one it gives this node and its address. The places are described apart from
the walk that lookup does. Nodes inside generated ones are no places, and
neither are maps of entries and captures; what a marker in such a map means is
not examined. -/
theorem lookup_iff_places (document : Fields) (name : String) :
    let places := placesOf (.object document) name
    places.Finite ∧
      (find document name = .error (.patternNotFound name) ↔ places = ∅) ∧
      (∀ count, find document name = .error (.ambiguousPattern name count) ↔
        2 ≤ count ∧ places.encard = count) ∧
      (∀ node, find document name = .ok node ↔ ∃ address, places = {address} ∧
        valueAt? address (.object document) = some (.object node)) ∧
      (∀ failure, locate document name = .error failure ↔ find document name = .error failure) ∧
      ∀ s, locate document name = .ok s →
        find document name = .ok s.node ∧ places = {s.address} ∧
          LeadsTo document s.address s.node := by
  intro places
  refine ⟨Set.finite_of_encard_eq_coe (encard_placesOf _ _), find_eq_patternNotFound_iff,
    fun count => find_eq_ambiguousPattern_iff, fun node => find_eq_ok_iff_places,
    fun failure => locate_eq_error_iff, fun s hs => ?_⟩
  obtain ⟨hplaces, hvalue⟩ := places_of_locate hs
  exact ⟨find_eq_ok_iff_locate.2 ⟨s, hs, rfl⟩, hplaces, leadsTo_of_valueAt? hvalue⟩

/-- A rule whose name a generated node and a capture have as well. -/
def sharedName : Fields :=
  [("patterns", .array [generatedNode "types" 0 1 "entity" "A",
    .object [("name", .string "entity"), ("match", .string "(B)"),
      ("captures", .object [("1", .object [("name", .string "entity")])])]])]

theorem sharedName_is_found : ∃ s, locate sharedName "entity" = .ok s ∧ s.address = [0, 1] ∧
    placesOf (.object sharedName) "entity" = {[0, 1]} ∧ LeadsTo sharedName [0, 1] s.node := by
  obtain ⟨-, -, -, -, -, h⟩ := lookup_iff_places sharedName "entity"
  have hs : locate sharedName "entity" = .ok _ := rfl
  obtain ⟨-, hplaces, hleads⟩ := h _ hs
  exact ⟨_, hs, rfl, hplaces, hleads⟩

/-- No object on the way to an address, nor at the address, is generated. This
would be the rule if maps of entries were nodes. -/
def Unmarked (address : Address) (value : Json) : Prop :=
  ∀ front, front <+: address → ∀ fields, valueAt? front value = some (.object fields) →
    isGenerated fields = false

/-- A repository that holds a marker besides its entries. The marker is one
more entry, under a key that is a name like any other. -/
def markedRepository : Fields :=
  [("repository", .object [("comment", .string marker),
    ("types", .object [("name", .string "foo")])])]

/-- The map under `repository` is passed through unexamined, so its entry is
found although it is not reached without a generated object. -/
theorem entry_of_marked_map_found :
    find markedRepository "foo" = .ok [("name", .string "foo")] ∧
      ∀ address node, valueAt? address (.object markedRepository) = some (.object node) →
        Unmarked address (.object markedRepository) → ∀ role, ¬Bears role node "foo" := by
  refine ⟨rfl, fun address node hvalue hunmarked role hbears => ?_⟩
  match address with
  | [] =>
      obtain rfl := Json.object.inj (Option.some.inj hvalue)
      rcases hbears.2 with hname | ⟨key, -, hkey⟩
      · cases hname
      · have hchars : "foo".toList = '#' :: key.toList := by rw [hkey, String.toList_append]; rfl
        cases hchars
  | 0 :: rest =>
      have hmap := hunmarked [0] (by simp) _ rfl
      exact absurd hmap (by decide)
  | (index + 1) :: rest => simp [valueAt?, inside, markedRepository] at hvalue

end SymbolPatterns.Grammar
