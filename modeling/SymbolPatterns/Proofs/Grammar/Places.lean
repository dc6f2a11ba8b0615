import Mathlib.Data.Set.Card
import SymbolPatterns.Proofs.Grammar.Address
import SymbolPatterns.Proofs.Grammar.Named

/-!
Where lookup finds a name. The places of a name are the addresses of the visible
nodes that bear it, both described without the walk over the document. Lookup
fails or succeeds by the number of these places alone, and the address that it
gives is the only one.
-/

namespace SymbolPatterns.Grammar

open Json (Fields WellFormed)

/-- The visible nodes of a value that is itself reached in some role. Neither
a visible node nor a node on the way to it is generated. An object under
`repository` or a capture key holds nodes, but is none. The rules say what a
document shows without going through it in any order. -/
inductive Visible : Role → Json → Address → Role → Fields → Prop
  | self {role : Role} {fields : Fields} (hand : isGenerated fields = false) :
      Visible role (.object fields) [] role fields
  | item {role seen : Role} {items : List Json} {index : Nat} {item : Json} {address : Address}
      {node : Fields} (hitem : items[index]? = some item)
      (below : Visible .pattern item address seen node) :
      Visible role (.array items) (index :: address) seen node
  | repositoryEntry {role seen : Role} {fields entries node : Fields} {index position : Nat}
      {key : String} {entry : Json} {address : Address} (hand : isGenerated fields = false)
      (hfield : fields[index]? = some ("repository", .object entries))
      (hentry : entries[position]? = some (key, entry))
      (below : Visible (.repositoryEntry key) entry address seen node) :
      Visible role (.object fields) (index :: position :: address) seen node
  | capture {role seen : Role} {fields entries node : Fields} {index position : Nat}
      {captures key : String} {entry : Json} {address : Address}
      (hand : isGenerated fields = false) (hcaptures : captures ∈ captureKeys)
      (hfield : fields[index]? = some (captures, .object entries))
      (hentry : entries[position]? = some (key, entry))
      (below : Visible .capture entry address seen node) :
      Visible role (.object fields) (index :: position :: address) seen node
  | field {role seen : Role} {fields node : Fields} {index : Nat} {key : String} {value : Json}
      {address : Address} (hand : isGenerated fields = false)
      (hfield : fields[index]? = some (key, value))
      (hplain : value.fields? = none ∨ key ≠ "repository" ∧ key ∉ captureKeys)
      (below : Visible .pattern value address seen node) :
      Visible role (.object fields) (index :: address) seen node

/-- A node bears the name in its `name` field, and an entry of a repository
also the name by which it is included. A capture bears no name, whatever its
`name` field says: there it is a scope. -/
def Bears (role : Role) (node : Fields) (name : String) : Prop :=
  role ≠ .capture ∧
    (node.get? "name" = some (.string name) ∨
      ∃ key, role = .repositoryEntry key ∧ name = "#" ++ key)

/-- The addresses of the visible nodes that bear a name. A node that bears it
in two ways has one place. -/
def placesOf (document : Json) (name : String) : Set Address :=
  {address | ∃ role node, Visible .pattern document address role node ∧ Bears role node name}

theorem carries_iff {role : Role} {node : Fields} {name : String} :
    carries role node name = true ↔ Bears role node name := by
  cases role with
  | pattern => simp [carries, Bears, Json.Fields.text?_eq_some_iff]
  | repositoryEntry key =>
      simp only [carries, Bool.or_eq_true, decide_eq_true_eq, Json.Fields.text?_eq_some_iff]
      simp [Bears, includeName, or_comm]
  | capture => simp [carries, Bears]

theorem entryRole?_eq_some_iff {key : String} {role : String → Role} :
    entryRole? key = some role ↔
      key = "repository" ∧ role = .repositoryEntry ∨
        key ∈ captureKeys ∧ role = fun _ => .capture := by
  unfold entryRole?
  split
  · next hkey =>
    subst hkey
    have hnot : "repository" ∉ captureKeys := by decide
    simp [hnot, eq_comm]
  · next hkey =>
    split
    · next hcapture => simp [hkey, List.contains_iff_mem.1 hcapture, eq_comm]
    · next hcapture => simp [hkey, mt List.contains_iff_mem.2 hcapture]

theorem not_holdsEntries_iff {key : String} {value : Json} :
    ¬HoldsEntries key value ↔
      value.fields? = none ∨ key ≠ "repository" ∧ key ∉ captureKeys := by
  have hnone : entryRole? key = none ↔ key ≠ "repository" ∧ key ∉ captureKeys := by
    rw [Option.eq_none_iff_forall_ne_some]
    simp [entryRole?_eq_some_iff, not_or, forall_and]
  rw [HoldsEntries, not_and_or, Option.not_isSome_iff_eq_none, Option.not_isSome_iff_eq_none, hnone,
    or_comm]

/-- The visible nodes that a field of an object contributes, by the rules and
not by the walk. -/
private def VisibleUnder (key : String) (value : Json) (address : Address) (seen : Role)
    (node : Fields) : Prop :=
  (∃ role entries position entry below, entryRole? key = some role ∧ value = .object entries ∧
    entries[position]? = some entry ∧ address = position :: below ∧
    Visible (role entry.1) entry.2 below seen node) ∨
  ¬HoldsEntries key value ∧ Visible .pattern value address seen node

private theorem visible_object_iff {role seen : Role} {fields node : Fields} {address : Address} :
    Visible role (.object fields) address seen node ↔ isGenerated fields = false ∧
      (address = [] ∧ seen = role ∧ node = fields ∨
        ∃ index field below, fields[index]? = some field ∧ address = index :: below ∧
          VisibleUnder field.1 field.2 below seen node) := by
  constructor
  · intro h
    cases h with
    | self hand => exact ⟨hand, .inl ⟨rfl, rfl, rfl⟩⟩
    | repositoryEntry hand hfield hentry below =>
        exact ⟨hand, .inr ⟨_, _, _, hfield, rfl,
          .inl ⟨_, _, _, _, _, entryRole?_eq_some_iff.2 (.inl ⟨rfl, rfl⟩), rfl, hentry, rfl, below⟩⟩⟩
    | capture hand hcaptures hfield hentry below =>
        exact ⟨hand, .inr ⟨_, _, _, hfield, rfl, .inl ⟨_, _, _, _, _,
          entryRole?_eq_some_iff.2 (.inr ⟨hcaptures, rfl⟩), rfl, hentry, rfl, below⟩⟩⟩
    | field hand hfield hplain below =>
        exact ⟨hand, .inr ⟨_, _, _, hfield, rfl, .inr ⟨not_holdsEntries_iff.2 hplain, below⟩⟩⟩
  · rintro ⟨hand, ⟨rfl, rfl, rfl⟩ | ⟨index, ⟨key, value⟩, below, hfield, rfl, hunder⟩⟩
    · exact .self hand
    · rcases hunder with ⟨role, entries, position, ⟨entry, value⟩, below, hrole, rfl, hentry, rfl,
        hbelow⟩ | ⟨hplain, hbelow⟩
      · rcases entryRole?_eq_some_iff.1 hrole with ⟨rfl, rfl⟩ | ⟨hcaptures, rfl⟩
        · exact .repositoryEntry hand hfield hentry hbelow
        · exact .capture hand hcaptures hfield hentry hbelow
      · exact .field hand hfield (not_holdsEntries_iff.1 hplain) hbelow

section

variable {α : Type} (walk : Nat → List α → List Sighting) (look : Nat → α → List Sighting)

private theorem mem_walk_iff (hnil : ∀ index, walk index [] = [])
    (hcons : ∀ index x rest, walk index (x :: rest) = look index x ++ walk (index + 1) rest)
    {s : Sighting} {xs : List α} {index : Nat} :
    s ∈ walk index xs ↔ ∃ k x, xs[k]? = some x ∧ s ∈ look (index + k) x := by
  induction xs generalizing index with
  | nil => simp [hnil]
  | cons x rest ih =>
      rw [hcons, List.mem_append, ih]
      constructor
      · rintro (h | ⟨k, y, hy, h⟩)
        · exact ⟨0, x, rfl, h⟩
        · exact ⟨k + 1, y, hy, by rwa [show index + (k + 1) = index + 1 + k by omega]⟩
      · rintro ⟨k, y, hy, h⟩
        cases k with
        | zero => exact .inl (Option.some.inj hy ▸ h)
        | succ k => exact .inr ⟨k, y, hy, by rwa [show index + 1 + k = index + (k + 1) by omega]⟩

/-- Elements at different indices are seen at different addresses, and one
element has each of its addresses once. Items and entries are walked alike, so
the lemma is about any walk. -/
private theorem nodup_walk (place : Address) (hnil : ∀ index, walk index [] = [])
    (hcons : ∀ index x rest, walk index (x :: rest) = look index x ++ walk (index + 1) rest)
    {xs : List α}
    (hlook : ∀ x ∈ xs, ∀ index, ((look index x).map Sighting.address).Nodup)
    (hplace : ∀ x ∈ xs, ∀ index, ∀ s ∈ look index x,
      ∃ below, s.address = place.reverse ++ index :: below) (index : Nat) :
    ((walk index xs).map Sighting.address).Nodup := by
  induction xs generalizing index with
  | nil => simp [hnil]
  | cons x rest ih =>
      have hrest := ih (fun y hy => hlook y (List.mem_cons_of_mem x hy))
        (fun y hy => hplace y (List.mem_cons_of_mem x hy)) (index + 1)
      rw [hcons, List.map_append]
      refine List.nodup_append.2 ⟨hlook x List.mem_cons_self index, hrest, ?_⟩
      intro address haddress other hother hsame
      obtain ⟨s, hs, rfl⟩ := List.mem_map.1 haddress
      obtain ⟨t, ht, rfl⟩ := List.mem_map.1 hother
      obtain ⟨k, y, hy, ht⟩ := (mem_walk_iff walk look hnil hcons).1 ht
      obtain ⟨below, hbelow⟩ := hplace x List.mem_cons_self index s hs
      obtain ⟨below', hbelow'⟩ :=
        hplace y (List.mem_cons_of_mem x (List.mem_of_getElem? hy)) _ t ht
      rw [hbelow, hbelow', List.append_cancel_left_eq, List.cons.injEq] at hsame
      omega

end

private theorem mem_fieldSightings_zero {place : Address} {fields : Fields} {s : Sighting} :
    s ∈ fieldSightings place 0 fields ↔
      ∃ index field, fields[index]? = some field ∧ s ∈ fieldSightings place index [field] := by
  rw [mem_walk_iff (fieldSightings place) (fun index field => fieldSightings place index [field])
    (fun _ => rfl) (fieldSightings_cons place)]
  simp only [Nat.zero_add]

/-- A walk from `place` shows a node exactly if it is visible at the rest of
its address. Walks keep addresses backwards while they go down, which is why
the place is turned round. -/
private def Shows (role : Role) (value : Json) : Prop :=
  ∀ place s, s ∈ sightings place role value ↔
    ∃ address, s.address = place.reverse ++ address ∧ Visible role value address s.role s.node

private theorem mem_fieldSightings_iff {key : String} {value : Json}
    (ih : ∀ child ∈ childrenOf key value, Shows child.1 child.2) {place : Address} {index : Nat}
    {s : Sighting} : s ∈ fieldSightings place index [(key, value)] ↔
      ∃ address, s.address = place.reverse ++ index :: address ∧
        VisibleUnder key value address s.role s.node := by
  rcases holdsEntries_cases key value with ⟨role, entries, hrole, rfl⟩ | hvalue
  · rw [childrenOf_entries entries hrole] at ih
    rw [fieldSightings_entries _ _ _ _ hrole, fieldSightings_nil, List.append_nil,
      mem_walk_iff (entrySightings (index :: place) role)
        (fun k entry => sightings (k :: index :: place) (role entry.1) entry.2)
        (fun _ => rfl) (fun _ _ _ => rfl)]
    constructor
    · rintro ⟨k, entry, hentry, hs⟩
      obtain ⟨below, hbelow, hvisible⟩ :=
        (ih _ (List.mem_map_of_mem (List.mem_of_getElem? hentry)) _ _).1 hs
      exact ⟨k :: below, by simpa using hbelow,
        .inl ⟨role, entries, k, entry, below, hrole, rfl, hentry, rfl, hvisible⟩⟩
    · rintro ⟨address, haddress, ⟨role', entries', k, entry, below, hrole', heq, hentry, rfl,
        hvisible⟩ | ⟨hplain, -⟩⟩
      · obtain rfl := Option.some.inj (hrole.symm.trans hrole')
        obtain rfl := Json.object.inj heq
        refine ⟨k, entry, hentry,
          (ih _ (List.mem_map_of_mem (List.mem_of_getElem? hentry)) _ _).2 ⟨below, ?_, hvisible⟩⟩
        simpa using haddress
      · exact absurd ⟨by simp [hrole], rfl⟩ hplain
  · rw [childrenOf_value hvalue] at ih
    rw [fieldSightings_value _ _ _ hvalue, fieldSightings_nil, List.append_nil,
      ih _ (List.mem_singleton_self _)]
    constructor
    · rintro ⟨below, hbelow, hvisible⟩
      exact ⟨below, by simpa using hbelow, .inr ⟨hvalue, hvisible⟩⟩
    · rintro ⟨address, haddress, ⟨role, entries, -, -, -, hrole, rfl, -⟩ | ⟨-, hvisible⟩⟩
      · exact absurd ⟨by simp [hrole], rfl⟩ hvalue
      · exact ⟨address, by simpa using haddress, hvisible⟩

/-- The walk over a value shows the visible nodes, each at its address.
Nothing that is visible is left out, and nothing is shown twice by the lemma
on addresses. -/
private theorem shows_sightings (value : Json) : ∀ role, Shows role value := by
  induction value using nodeInduction with
  | object fields ih =>
      intro role place s
      rw [sightings]
      split
      · next hgen =>
        simp [visible_object_iff, hgen]
      · next hgen =>
        have hchildren : ∀ field ∈ fields, ∀ child ∈ childrenOf field.1 field.2,
            Shows child.1 child.2 := fun field hfield child hchild =>
          ih child (List.mem_flatMap.2 ⟨field, hfield, hchild⟩) child.1
        rw [List.mem_cons, mem_fieldSightings_zero]
        constructor
        · rintro (rfl | ⟨index, field, hfield, hs⟩)
          · exact ⟨[], by simp, .self (by simpa using hgen)⟩
          · obtain ⟨below, hbelow, hunder⟩ := (mem_fieldSightings_iff
              (hchildren field (List.mem_of_getElem? hfield))).1 hs
            refine ⟨index :: below, by simpa using hbelow, visible_object_iff.2 ⟨by simpa using hgen,
              .inr ⟨index, field, below, hfield, rfl, hunder⟩⟩⟩
        · rintro ⟨address, haddress, hvisible⟩
          obtain ⟨-, ⟨rfl, hrole, hnode⟩ | ⟨index, field, below, hfield, rfl, hunder⟩⟩ :=
            visible_object_iff.1 hvisible
          · left
            cases s
            simp_all
          · refine .inr ⟨index, field, hfield, (mem_fieldSightings_iff
              (hchildren field (List.mem_of_getElem? hfield))).2 ⟨below, ?_, hunder⟩⟩
            simpa using haddress
  | array items ih =>
      intro role place s
      rw [sightings, mem_walk_iff (itemSightings place)
        (fun index item => sightings (index :: place) .pattern item)
        (fun _ => rfl) (fun _ _ _ => rfl)]
      constructor
      · rintro ⟨index, item, hitem, hs⟩
        obtain ⟨below, hbelow, hvisible⟩ :=
          (ih item (List.mem_of_getElem? hitem) .pattern _ _).1 hs
        exact ⟨index :: below, by simpa using hbelow, .item hitem hvisible⟩
      · rintro ⟨address, haddress, hvisible⟩
        cases hvisible with
        | item hitem hvisible =>
            refine ⟨_, _, hitem,
              (ih _ (List.mem_of_getElem? hitem) .pattern _ _).2 ⟨_, ?_, hvisible⟩⟩
            simpa using haddress
  | leaf value hobject harray =>
      intro role place s
      cases value with
      | object fields => exact absurd rfl (hobject fields)
      | array items => exact absurd rfl (harray items)
      | _ =>
          constructor
          · rintro ⟨⟩
          · rintro ⟨_, _, ⟨⟩⟩

theorem mem_visibleNodes_iff {document : Json} {s : Sighting} :
    s ∈ visibleNodes document ↔ Visible .pattern document s.address s.role s.node := by
  rw [visibleNodes, shows_sightings document .pattern [] s]
  simp

private theorem nodup_fieldSightings {key : String} {value : Json}
    (ih : ∀ child ∈ childrenOf key value, ∀ place,
      ((sightings place child.1 child.2).map Sighting.address).Nodup)
    (place : Address) (index : Nat) :
    ((fieldSightings place index [(key, value)]).map Sighting.address).Nodup := by
  rcases holdsEntries_cases key value with ⟨role, entries, hrole, rfl⟩ | hvalue
  · rw [childrenOf_entries entries hrole] at ih
    rw [fieldSightings_entries _ _ _ _ hrole, fieldSightings_nil, List.append_nil]
    refine nodup_walk (entrySightings (index :: place) role)
      (fun k entry => sightings (k :: index :: place) (role entry.1) entry.2) (index :: place)
      (fun _ => rfl) (fun _ _ _ => rfl)
      (fun entry hentry k => ih _ (List.mem_map_of_mem hentry) _) ?_ 0
    intro entry _ k s hs
    obtain ⟨below, hbelow, -⟩ := (shows_sightings entry.2 (role entry.1) _ s).1 hs
    exact ⟨below, by simpa using hbelow⟩
  · rw [childrenOf_value hvalue] at ih
    rw [fieldSightings_value _ _ _ hvalue, fieldSightings_nil, List.append_nil]
    exact ih _ (List.mem_singleton_self _) _

private theorem nodup_sightings (value : Json) : ∀ place role,
    ((sightings place role value).map Sighting.address).Nodup := by
  induction value using nodeInduction with
  | object fields ih =>
      intro place role
      rw [sightings]
      split
      · exact List.nodup_nil
      · have hplace : ∀ field ∈ fields, ∀ index, ∀ s ∈ fieldSightings place index [field],
            ∃ below, s.address = place.reverse ++ index :: below := by
          intro field _ index s hs
          obtain ⟨below, hbelow, -⟩ := (mem_fieldSightings_iff
            (fun child _ => shows_sightings child.2 child.1)).1 hs
          exact ⟨below, hbelow⟩
        refine List.nodup_cons.2 ⟨?_, nodup_walk (fieldSightings place)
          (fun index field => fieldSightings place index [field]) place
          (fun _ => rfl) (fieldSightings_cons place)
          (fun field hfield => nodup_fieldSightings (fun child hchild place =>
            ih child (List.mem_flatMap.2 ⟨field, hfield, hchild⟩) place child.1) place) hplace 0⟩
        -- The object itself stands above all that is seen in its fields.
        intro hself
        obtain ⟨s, hs, haddress⟩ := List.mem_map.1 hself
        obtain ⟨index, field, hfield, hs⟩ := mem_fieldSightings_zero.1 hs
        obtain ⟨below, hbelow⟩ := hplace field (List.mem_of_getElem? hfield) _ s hs
        simp [hbelow] at haddress
  | array items ih =>
      intro place role
      rw [sightings]
      refine nodup_walk (itemSightings place)
        (fun index item => sightings (index :: place) .pattern item) place
        (fun _ => rfl) (fun _ _ _ => rfl) (fun item hitem index => ih item hitem _ _) ?_ 0
      intro item _ index s hs
      obtain ⟨below, hbelow, -⟩ := (shows_sightings item .pattern _ s).1 hs
      exact ⟨below, by simpa using hbelow⟩
  | leaf value hobject harray =>
      intro place role
      cases value with
      | object fields => exact absurd rfl (hobject fields)
      | array items => exact absurd rfl (harray items)
      | _ => exact List.nodup_nil

/-- The sightings that bear a name, in document order. Their addresses are the
places of the name. -/
def bearers (document : Json) (name : String) : List Sighting :=
  (visibleNodes document).filter fun s => carries s.role s.node name

theorem mem_placesOf_iff {document : Json} {name : String} {address : Address} :
    address ∈ placesOf document name ↔ ∃ s ∈ bearers document name, s.address = address := by
  constructor
  · rintro ⟨role, node, hvisible, hbears⟩
    exact ⟨⟨address, role, node⟩,
      List.mem_filter.2 ⟨mem_visibleNodes_iff.2 hvisible, carries_iff.2 hbears⟩, rfl⟩
  · rintro ⟨s, hs, rfl⟩
    obtain ⟨hvisible, hcarries⟩ := List.mem_filter.1 hs
    exact ⟨s.role, s.node, mem_visibleNodes_iff.1 hvisible, carries_iff.1 hcarries⟩

theorem encard_placesOf (document : Json) (name : String) :
    (placesOf document name).encard = (bearers document name).length := by
  have hnodup : ((bearers document name).map Sighting.address).Nodup :=
    (nodup_sightings document [] .pattern).sublist (List.filter_sublist.map _)
  have hplaces : placesOf document name =
      ((bearers document name).map Sighting.address).toFinset := by
    ext address
    simp [mem_placesOf_iff]
  rw [hplaces, Set.encard_coe_eq_coe_finsetCard, List.toFinset_card_of_nodup hnodup,
    List.length_map]

/-- A visible node stands at its address, so places can be looked up without
lookup. -/
theorem valueAt?_of_visible {role seen : Role} {value : Json} {address : Address} {node : Fields}
    (h : Visible role value address seen node) : valueAt? address value = some (.object node) := by
  induction h with
  | self => rfl
  | item hitem _ ih => rw [valueAt?_item hitem, ih]
  | repositoryEntry _ hfield hentry _ ih => rw [valueAt?_field hfield, valueAt?_field hentry, ih]
  | capture _ _ hfield hentry _ ih => rw [valueAt?_field hfield, valueAt?_field hentry, ih]
  | field _ hfield _ _ ih => rw [valueAt?_field hfield, ih]

end SymbolPatterns.Grammar
