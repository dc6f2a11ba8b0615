import SymbolPatterns.Grammar.Lookup
import SymbolPatterns.Proofs.Json.Fields
import SymbolPatterns.Proofs.Json.Shape

/-!
The visible nodes of a value without their addresses. A visible object
contributes itself and the nodes of its children: the entries of a `repository`
or of a captures map, and the values of its other fields. Every law about lookup
is proved by induction over children, so the walk over indices and places is
opened here only.
-/

namespace SymbolPatterns.Grammar

open Json (Fields valueInduction)

/-- The children that a field contributes, each in the role in which it is
reached: entries of a map have a role of their own, all else is reached as a
pattern. -/
def childrenOf (key : String) (value : Json) : List (Role × Json) :=
  match entryRole? key, value with
  | some role, .object entries => entries.map fun entry => (role entry.1, entry.2)
  | _, value => [(.pattern, value)]

def children (fields : Fields) : List (Role × Json) :=
  fields.flatMap fun field => childrenOf field.1 field.2

/-- Whether the entries of a value under a key are nodes, and not the value
itself. It takes one of the keys for maps, and an object under it. -/
def HoldsEntries (key : String) (value : Json) : Prop :=
  (entryRole? key).isSome ∧ value.fields?.isSome

theorem childrenOf_entries {key : String} {role : String → Role} (entries : Fields)
    (h : entryRole? key = some role) :
    childrenOf key (.object entries) = entries.map fun entry => (role entry.1, entry.2) := by
  simp [childrenOf, h]

theorem childrenOf_value {key : String} {value : Json} (h : ¬HoldsEntries key value) :
    childrenOf key value = [(.pattern, value)] := by
  unfold childrenOf
  split
  · next hrole => exact absurd ⟨by simp [hrole], rfl⟩ h
  · rfl

/-- A field whose entries are not nodes is itself a child. The walk over an
object makes this distinction at every field, and no other. -/
theorem holdsEntries_cases (key : String) (value : Json) :
    (∃ role entries, entryRole? key = some role ∧ value = .object entries) ∨
      ¬HoldsEntries key value := by
  by_cases h : HoldsEntries key value
  · obtain ⟨role, hrole⟩ := Option.isSome_iff_exists.1 h.1
    cases value with
    | object entries => exact .inl ⟨role, entries, hrole, rfl⟩
    | _ => exact absurd h.2 (by simp [Json.fields?])
  · exact .inr h

@[simp] theorem children_nil : children [] = [] := rfl

@[simp] theorem children_cons (field : String × Json) (rest : Fields) :
    children (field :: rest) = childrenOf field.1 field.2 ++ children rest := rfl

@[simp] theorem children_append (front rest : Fields) :
    children (front ++ rest) = children front ++ children rest := by
  simp [children]

theorem mem_children {fields : Fields} {child : Role × Json} (h : child ∈ children fields) :
    (∃ field ∈ fields, child.2 = field.2) ∨
      ∃ field ∈ fields, ∃ entries, field.2 = .object entries ∧
        ∃ entry ∈ entries, child.2 = entry.2 := by
  obtain ⟨⟨key, value⟩, hfield, hchild⟩ := List.mem_flatMap.1 h
  rcases holdsEntries_cases key value with ⟨role, entries, hrole, rfl⟩ | hvalue
  · rw [childrenOf_entries entries hrole] at hchild
    obtain ⟨entry, hentry, rfl⟩ := List.mem_map.1 hchild
    exact .inr ⟨_, hfield, entries, rfl, entry, hentry, rfl⟩
  · rw [childrenOf_value hvalue] at hchild
    obtain rfl := List.mem_singleton.1 hchild
    exact .inl ⟨_, hfield, rfl⟩

/-- Induction over a value by its children, which passes over the maps that
hold entries. It follows the walk of lookup and not the constructors of
values. -/
@[elab_as_elim]
theorem nodeInduction {motive : Json → Prop}
    (object : ∀ fields, (∀ child ∈ children fields, motive child.2) → motive (.object fields))
    (array : ∀ items, (∀ item ∈ items, motive item) → motive (.array items))
    (leaf : ∀ value, (∀ fields, value ≠ .object fields) → (∀ items, value ≠ .array items) →
      motive value)
    (value : Json) : motive value := by
  -- An entry lies two levels down, so the induction carries one level more than the goal.
  suffices h : motive value ∧ ∀ entries, value = .object entries → ∀ entry ∈ entries,
      motive entry.2 from h.1
  induction value using valueInduction with
  | object fields ih =>
      refine ⟨object fields fun child hchild => ?_, ?_⟩
      · rcases mem_children hchild with ⟨field, hfield, heq⟩ |
          ⟨field, hfield, entries, hentries, entry, hentry, heq⟩
        · rw [heq]
          exact (ih field hfield).1
        · rw [heq]
          exact (ih field hfield).2 entries hentries entry hentry
      · rintro entries ⟨⟩ entry hentry
        exact (ih entry hentry).1
  | array items ih => exact ⟨array items fun item hitem => (ih item hitem).1, nofun⟩
  | leaf value hobject harray =>
      exact ⟨leaf value hobject harray, fun entries heq => absurd heq (hobject entries)⟩

/-- What is seen of a visible node apart from its place. Results about what is
visible are free of addresses this way. -/
def Sighting.seen (s : Sighting) : Role × Fields := (s.role, s.node)

def nodes (role : Role) (value : Json) : List (Role × Fields) :=
  (sightings [] role value).map Sighting.seen

/-- The visible nodes below an object, itself left out. For an object that is
not generated these are what lookup meets after it. -/
def innerNodes (fields : Fields) : List (Role × Fields) :=
  (children fields).flatMap fun child => nodes child.1 child.2

private theorem map_seen_itemSightings {items : List Json}
    (h : ∀ item ∈ items, ∀ place, (sightings place .pattern item).map Sighting.seen =
      nodes .pattern item) (place : Address) (index : Nat) :
    (itemSightings place index items).map Sighting.seen = items.flatMap (nodes .pattern) := by
  induction items generalizing index with
  | nil => rfl
  | cons item rest ih =>
      have hrest := ih (fun x hx => h x (List.mem_cons_of_mem _ hx)) (index + 1)
      simp [itemSightings, h item List.mem_cons_self, hrest]

private theorem map_seen_entrySightings {entries : Fields} {role : String → Role}
    (h : ∀ entry ∈ entries, ∀ place, (sightings place (role entry.1) entry.2).map Sighting.seen =
      nodes (role entry.1) entry.2) (place : Address) (index : Nat) :
    (entrySightings place role index entries).map Sighting.seen =
      entries.flatMap fun entry => nodes (role entry.1) entry.2 := by
  induction entries generalizing index with
  | nil => rfl
  | cons entry rest ih =>
      have hrest := ih (fun x hx => h x (List.mem_cons_of_mem _ hx)) (index + 1)
      have hentry := h entry List.mem_cons_self (index :: place)
      simp [entrySightings, hentry, hrest]

theorem fieldSightings_nil (place : Address) (index : Nat) :
    fieldSightings place index [] = [] := rfl

theorem fieldSightings_entries {key : String} {role : String → Role} (place : Address)
    (index : Nat) (entries rest : Fields) (h : entryRole? key = some role) :
    fieldSightings place index ((key, .object entries) :: rest) =
      entrySightings (index :: place) role 0 entries ++
        fieldSightings place (index + 1) rest := by
  rw [fieldSightings.eq_def]
  simp only [h]

theorem fieldSightings_value {key : String} {value : Json} (place : Address) (index : Nat)
    (rest : Fields) (h : ¬HoldsEntries key value) :
    fieldSightings place index ((key, value) :: rest) =
      sightings (index :: place) .pattern value ++ fieldSightings place (index + 1) rest := by
  rw [fieldSightings.eq_def]
  split
  · next heq => cases heq
  · next heq =>
    obtain ⟨⟨rfl, rfl⟩, rfl⟩ := by simpa using heq
    split
    · next hrole => exact absurd ⟨by simp [hrole], rfl⟩ h
    · rfl

theorem fieldSightings_cons (place : Address) (index : Nat) (field : String × Json)
    (rest : Fields) : fieldSightings place index (field :: rest) =
      fieldSightings place index [field] ++ fieldSightings place (index + 1) rest := by
  obtain ⟨key, value⟩ := field
  rcases holdsEntries_cases key value with ⟨role, entries, hrole, rfl⟩ | hvalue
  · rw [fieldSightings_entries _ _ _ _ hrole, fieldSightings_entries _ _ _ _ hrole,
      fieldSightings_nil, List.append_nil]
  · rw [fieldSightings_value _ _ _ hvalue, fieldSightings_value _ _ _ hvalue,
      fieldSightings_nil, List.append_nil]

private theorem map_seen_fieldSightings {fields : Fields}
    (h : ∀ child ∈ children fields, ∀ place, (sightings place child.1 child.2).map Sighting.seen =
      nodes child.1 child.2) (place : Address) (index : Nat) :
    (fieldSightings place index fields).map Sighting.seen = innerNodes fields := by
  induction fields generalizing index with
  | nil => rfl
  | cons field rest ih =>
      obtain ⟨key, value⟩ := field
      have hrest := ih (fun child hc => h child (List.mem_append_right _ hc)) (index + 1)
      have hfield : ∀ child ∈ childrenOf key value, ∀ place,
          (sightings place child.1 child.2).map Sighting.seen = nodes child.1 child.2 :=
        fun child hc => h child (List.mem_append_left _ hc)
      have hcons : innerNodes ((key, value) :: rest) =
          (childrenOf key value).flatMap (fun child => nodes child.1 child.2) ++
            innerNodes rest := by
        simp [innerNodes]
      rcases holdsEntries_cases key value with ⟨role, entries, hrole, rfl⟩ | hvalue
      · rw [childrenOf_entries entries hrole] at hfield hcons
        rw [fieldSightings_entries _ _ _ _ hrole, List.map_append, hrest, hcons,
          List.flatMap_map]
        congr 1
        exact map_seen_entrySightings (fun entry he => hfield _ (List.mem_map_of_mem he)) _ _
      · rw [childrenOf_value hvalue] at hfield hcons
        rw [fieldSightings_value _ _ _ hvalue, List.map_append, hrest, hcons]
        congr 1
        simpa using hfield _ (List.mem_singleton_self _) (index :: place)

/-- The place from which a walk starts does not change what is seen. It ties
the walk with addresses to the list of nodes without them. -/
theorem map_seen_sightings (value : Json) : ∀ place role,
    (sightings place role value).map Sighting.seen = nodes role value := by
  induction value using nodeInduction with
  | object fields ih =>
      intro place role
      have hseen : ∀ child ∈ children fields, ∀ place,
          (sightings place child.1 child.2).map Sighting.seen = nodes child.1 child.2 :=
        fun child h place => ih child h place child.1
      unfold nodes
      simp only [sightings]
      split
      · rfl
      · simp [Sighting.seen, map_seen_fieldSightings hseen]
  | array items ih =>
      intro place role
      have hseen : ∀ item ∈ items, ∀ place,
          (sightings place .pattern item).map Sighting.seen = nodes .pattern item :=
        fun item h place => ih item h place .pattern
      simp [nodes, sightings, map_seen_itemSightings hseen]
  | leaf value hobject harray =>
      intro place role
      cases value with
      | object fields => exact absurd rfl (hobject fields)
      | array items => exact absurd rfl (harray items)
      | _ => rfl

@[simp] theorem seen_itemSightings (place : Address) (index : Nat) (items : List Json) :
    (itemSightings place index items).map Sighting.seen = items.flatMap (nodes .pattern) :=
  map_seen_itemSightings (fun item _ place => map_seen_sightings item place .pattern) place index

@[simp] theorem seen_fieldSightings (place : Address) (index : Nat) (fields : Fields) :
    (fieldSightings place index fields).map Sighting.seen = innerNodes fields :=
  map_seen_fieldSightings (fun child _ place => map_seen_sightings child.2 place child.1)
    place index

theorem nodes_object (role : Role) (fields : Fields) :
    nodes role (.object fields) =
      if isGenerated fields then [] else (role, fields) :: innerNodes fields := by
  unfold nodes
  simp only [sightings]
  split
  · rfl
  · simp [Sighting.seen]

theorem nodes_of_isGenerated {fields : Fields} (role : Role) (h : isGenerated fields = true) :
    nodes role (.object fields) = [] := by
  simp [nodes_object, h]

theorem nodes_of_not_isGenerated {fields : Fields} (role : Role) (h : isGenerated fields = false) :
    nodes role (.object fields) = (role, fields) :: innerNodes fields := by
  simp [nodes_object, h]

theorem nodes_array (role : Role) (items : List Json) :
    nodes role (.array items) = items.flatMap (nodes .pattern) := by
  rw [nodes, sightings, seen_itemSightings]

theorem nodes_leaf {value : Json} (role : Role) (hobject : ∀ fields, value ≠ .object fields)
    (harray : ∀ items, value ≠ .array items) : nodes role value = [] := by
  cases value with
  | object fields => exact absurd rfl (hobject fields)
  | array items => exact absurd rfl (harray items)
  | _ => rfl

@[simp] theorem innerNodes_append (front rest : Fields) :
    innerNodes (front ++ rest) = innerNodes front ++ innerNodes rest := by
  simp [innerNodes]

def fieldNodes (key : String) (value : Json) : List (Role × Fields) :=
  (childrenOf key value).flatMap fun child => nodes child.1 child.2

theorem innerNodes_eq_flatMap (fields : Fields) :
    innerNodes fields = fields.flatMap fun field => fieldNodes field.1 field.2 :=
  List.flatMap_assoc

theorem innerNodes_cons (field : String × Json) (rest : Fields) :
    innerNodes (field :: rest) = fieldNodes field.1 field.2 ++ innerNodes rest := by
  simp [innerNodes_eq_flatMap]

theorem fieldNodes_entries {key : String} {role : String → Role} (entries : Fields)
    (h : entryRole? key = some role) :
    fieldNodes key (.object entries) = entries.flatMap fun entry => nodes (role entry.1) entry.2 := by
  rw [fieldNodes, childrenOf_entries entries h, List.flatMap_map]

theorem fieldNodes_value {key : String} {value : Json} (h : ¬HoldsEntries key value) :
    fieldNodes key value = nodes .pattern value := by
  rw [fieldNodes, childrenOf_value h, List.flatMap_singleton]

theorem fieldNodes_string (key text : String) : fieldNodes key (.string text) = [] :=
  fieldNodes_value (by simp [HoldsEntries, Json.fields?])

theorem fieldNodes_array (key : String) (items : List Json) :
    fieldNodes key (.array items) = items.flatMap (nodes .pattern) := by
  rw [fieldNodes_value (by simp [HoldsEntries, Json.fields?]), nodes_array]

end SymbolPatterns.Grammar
