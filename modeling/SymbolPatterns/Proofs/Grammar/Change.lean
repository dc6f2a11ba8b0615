import SymbolPatterns.Proofs.Grammar.Nodes

/-!
Changing every visible node of a value by one function. An edit at the address
of the single node that carries a name is such a change, with a function that
leaves all other nodes alone; so two edits in a row are one change by the
composed function, wherever their nodes stand and however they are nested.
-/

namespace SymbolPatterns.Grammar

open Json (Fields)

/-- What is done to a node, by the role in which it is reached. -/
abbrev NodeChange := Role → Fields → Fields

mutual

/-- Changes every visible node, inner nodes first, so the change of a node
sees what has become of the nodes below it. Generated nodes stay as they are,
with all that is inside them. -/
def mapNodes (change : NodeChange) (role : Role) : Json → Json
  | .object fields =>
      if isGenerated fields then .object fields
      else .object (change role (mapFields change fields))
  | .array items => .array (mapItems change items)
  | value => value

def mapItems (change : NodeChange) : List Json → List Json
  | [] => []
  | item :: rest => mapNodes change .pattern item :: mapItems change rest

def mapFields (change : NodeChange) : List (String × Json) → Fields
  | [] => []
  | (key, value) :: rest =>
      (match entryRole? key, value with
        | some role, .object entries => (key, .object (mapEntries change role entries))
        | _, value => (key, mapNodes change .pattern value)) :: mapFields change rest

def mapEntries (change : NodeChange) (role : String → Role) : List (String × Json) → Fields
  | [] => []
  | (key, value) :: rest =>
      (key, mapNodes change (role key) value) :: mapEntries change role rest

end

/-- The value of a field with its children replaced: its entries, or else the
value itself. A map of entries is no node, so it is rebuilt and not visited. -/
def replaceUnder (visit : Role → Json → Json) (key : String) (value : Json) : Json :=
  match entryRole? key, value with
  | some role, .object entries =>
      .object (entries.map fun entry => (entry.1, visit (role entry.1) entry.2))
  | _, value => visit .pattern value

def replaceChildren (visit : Role → Json → Json) (fields : Fields) : Fields :=
  fields.map fun field => (field.1, replaceUnder visit field.1 field.2)

theorem replaceUnder_entries (visit : Role → Json → Json) {key : String} {role : String → Role}
    (entries : Fields) (h : entryRole? key = some role) :
    replaceUnder visit key (.object entries) =
      .object (entries.map fun entry => (entry.1, visit (role entry.1) entry.2)) := by
  simp [replaceUnder, h]

theorem replaceUnder_value (visit : Role → Json → Json) {key : String} {value : Json}
    (h : ¬HoldsEntries key value) : replaceUnder visit key value = visit .pattern value := by
  unfold replaceUnder
  split
  · next hrole => exact absurd ⟨by simp [hrole], rfl⟩ h
  · rfl

/-- Replacements that agree on the children agree on the fields. It turns a
statement about all children into one about the object, in the inductions on
nodes. -/
theorem replaceChildren_congr {visit other : Role → Json → Json} {fields : Fields}
    (h : ∀ child ∈ children fields, visit child.1 child.2 = other child.1 child.2) :
    replaceChildren visit fields = replaceChildren other fields := by
  apply List.map_congr_left
  intro field hfield
  obtain ⟨key, value⟩ := field
  have hvalues : ∀ child ∈ childrenOf key value, visit child.1 child.2 = other child.1 child.2 :=
    fun child hchild => h child (List.mem_flatMap.2 ⟨_, hfield, hchild⟩)
  rcases holdsEntries_cases key value with ⟨role, entries, hrole, rfl⟩ | hvalue
  · rw [childrenOf_entries entries hrole] at hvalues
    simp only [replaceUnder_entries _ entries hrole]
    congr 2
    exact List.map_congr_left fun entry he =>
      congrArg (Prod.mk entry.1) (hvalues _ (List.mem_map_of_mem he))
  · rw [childrenOf_value hvalue] at hvalues
    simp only [replaceUnder_value _ hvalue]
    exact congrArg (Prod.mk key) (hvalues _ (List.mem_singleton_self _))

theorem replaceChildren_self (fields : Fields) :
    replaceChildren (fun _ value => value) fields = fields := by
  have hunder : ∀ key value, replaceUnder (fun _ value => value) key value = value := by
    intro key value
    unfold replaceUnder
    split <;> simp
  simp [replaceChildren, hunder]

/-- A replacement under which objects stay objects, and other values others.
Then the same fields hold entries before and after it. -/
def KeepsKind (visit : Role → Json → Json) : Prop :=
  ∀ role value, (visit role value).fields?.isSome = value.fields?.isSome

private theorem not_holdsEntries_visit {visit : Role → Json → Json} (hkind : KeepsKind visit)
    {key : String} {value : Json} (h : ¬HoldsEntries key value) :
    ¬HoldsEntries key (visit .pattern value) := by
  unfold HoldsEntries at h ⊢
  rwa [hkind]

theorem replaceChildren_replaceChildren {first second : Role → Json → Json}
    (hkind : KeepsKind first) (fields : Fields) :
    replaceChildren second (replaceChildren first fields) =
      replaceChildren (fun role value => second role (first role value)) fields := by
  unfold replaceChildren
  rw [List.map_map]
  apply List.map_congr_left
  intro field _
  obtain ⟨key, value⟩ := field
  rcases holdsEntries_cases key value with ⟨role, entries, hrole, rfl⟩ | hvalue
  · simp [replaceUnder_entries _ _ hrole]
  · simp [replaceUnder_value _ hvalue, replaceUnder_value _ (not_holdsEntries_visit hkind hvalue)]

theorem children_replaceChildren {visit : Role → Json → Json} (hkind : KeepsKind visit)
    (fields : Fields) :
    children (replaceChildren visit fields) =
      (children fields).map fun child => (child.1, visit child.1 child.2) := by
  unfold replaceChildren
  induction fields with
  | nil => rfl
  | cons field rest ih =>
      obtain ⟨key, value⟩ := field
      rw [List.map_cons, children_cons, children_cons, List.map_append, ih]
      congr 1
      rcases holdsEntries_cases key value with ⟨role, entries, hrole, rfl⟩ | hvalue
      · simp [replaceUnder_entries _ _ hrole, childrenOf_entries _ hrole]
      · simp [replaceUnder_value _ hvalue, childrenOf_value hvalue,
          childrenOf_value (not_holdsEntries_visit hkind hvalue)]

theorem get?_replaceChildren (visit : Role → Json → Json) (fields : Fields) (key : String) :
    (replaceChildren visit fields).get? key = (fields.get? key).map (replaceUnder visit key) := by
  unfold replaceChildren
  induction fields with
  | nil => rfl
  | cons field rest ih =>
      obtain ⟨k, v⟩ := field
      rw [List.map_cons, Json.Fields.get?_cons, Json.Fields.get?_cons]
      by_cases hk : key = k
      · simp [hk]
      · simpa [hk] using ih

theorem replaceChildren_set (visit : Role → Json → Json) (fields : Fields) (key : String)
    (value : Json) :
    replaceChildren visit (fields.set key value) =
      (replaceChildren visit fields).set key (replaceUnder visit key value) := by
  unfold replaceChildren
  induction fields with
  | nil => rfl
  | cons field rest ih =>
      obtain ⟨k, v⟩ := field
      by_cases hk : k = key
      · simp [Fields.set, hk]
      · simp [Fields.set, hk, ih]

section

variable (change : NodeChange)

theorem mapItems_eq_map (items : List Json) :
    mapItems change items = items.map (mapNodes change .pattern) := by
  induction items with
  | nil => rfl
  | cons item rest ih => simp [mapItems, ih]

theorem mapEntries_eq_map (role : String → Role) (entries : Fields) :
    mapEntries change role entries =
      entries.map fun entry => (entry.1, mapNodes change (role entry.1) entry.2) := by
  induction entries with
  | nil => rfl
  | cons entry rest ih => simp [mapEntries, ih]

theorem mapFields_eq_replaceChildren (fields : Fields) :
    mapFields change fields = replaceChildren (mapNodes change) fields := by
  unfold replaceChildren
  induction fields with
  | nil => rfl
  | cons field rest ih =>
      obtain ⟨key, value⟩ := field
      rw [mapFields.eq_def]
      simp only [List.map_cons, ← ih]
      congr 1
      unfold replaceUnder
      split
      · rw [mapEntries_eq_map]
      · rfl

theorem mapNodes_array (role : Role) (items : List Json) :
    mapNodes change role (.array items) = .array (items.map (mapNodes change .pattern)) := by
  simp [mapNodes, mapItems_eq_map]

theorem mapNodes_of_isGenerated (role : Role) {fields : Fields} (h : isGenerated fields = true) :
    mapNodes change role (.object fields) = .object fields := by
  simp [mapNodes, h]

theorem mapNodes_of_not_isGenerated (role : Role) {fields : Fields}
    (h : isGenerated fields = false) :
    mapNodes change role (.object fields) = .object (change role (mapFields change fields)) := by
  simp [mapNodes, h]

theorem mapNodes_leaf (role : Role) {value : Json} (hobject : ∀ fields, value ≠ .object fields)
    (harray : ∀ items, value ≠ .array items) : mapNodes change role value = value := by
  cases value with
  | object fields => exact absurd rfl (hobject fields)
  | array items => exact absurd rfl (harray items)
  | _ => rfl

theorem keepsKind_mapNodes : KeepsKind (mapNodes change) := by
  intro role value
  cases value with
  | object fields =>
      simp only [mapNodes]
      split <;> rfl
  | array items => rfl
  | _ => rfl

theorem replaceUnder_mapNodes_string (key text : String) :
    replaceUnder (mapNodes change) key (.string text) = .string text := by
  rw [replaceUnder_value _ (by simp [HoldsEntries, Json.fields?])]
  rfl

theorem replaceUnder_mapNodes_array (key : String) (items : List Json) :
    replaceUnder (mapNodes change) key (.array items) =
      .array (items.map (mapNodes change .pattern)) := by
  rw [replaceUnder_value _ (by simp [HoldsEntries, Json.fields?]), mapNodes_array]

/-- Only an array is changed into an array, so a pattern list can be followed
through a change of all nodes in both directions. -/
theorem replaceUnder_mapNodes_eq_array {key : String} {value : Json} {mapped : List Json}
    (h : replaceUnder (mapNodes change) key value = .array mapped) :
    ∃ items, value = .array items ∧ mapped = items.map (mapNodes change .pattern) := by
  rcases holdsEntries_cases key value with ⟨role, entries, hrole, rfl⟩ | hvalue
  · simp [replaceUnder_entries _ entries hrole] at h
  · rw [replaceUnder_value _ hvalue] at h
    cases value with
    | object fields =>
        simp only [mapNodes] at h
        split at h <;> simp at h
    | array items =>
        rw [mapNodes_array] at h
        exact ⟨items, rfl, (Json.array.inj h).symm⟩
    | _ => simp [mapNodes] at h

/-- Only a string is changed into a string, and it is the same one: names,
comments and rules are kept unless the change itself sets them. -/
theorem replaceUnder_mapNodes_eq_string {key text : String} {value : Json}
    (h : replaceUnder (mapNodes change) key value = .string text) : value = .string text := by
  rcases holdsEntries_cases key value with ⟨role, entries, hrole, rfl⟩ | hvalue
  · simp [replaceUnder_entries _ entries hrole] at h
  · rw [replaceUnder_value _ hvalue] at h
    cases value with
    | object fields =>
        simp only [mapNodes] at h
        split at h <;> simp at h
    | array items => simp [mapNodes_array] at h
    | string _ => simpa [mapNodes] using h
    | _ => simp [mapNodes] at h

theorem get?_mapFields (fields : Fields) (key : String) :
    (mapFields change fields).get? key =
      (fields.get? key).map (replaceUnder (mapNodes change) key) := by
  rw [mapFields_eq_replaceChildren, get?_replaceChildren]

@[simp] theorem text?_mapFields (fields : Fields) (key : String) :
    (mapFields change fields).text? key = fields.text? key := by
  cases htext : fields.text? key with
  | some text =>
      rw [Json.Fields.text?_eq_some_iff] at htext ⊢
      rw [get?_mapFields, htext, Option.map_some, replaceUnder_mapNodes_string]
  | none =>
      rw [Option.eq_none_iff_forall_ne_some] at htext ⊢
      intro text hmapped
      rw [Json.Fields.text?_eq_some_iff, get?_mapFields, Option.map_eq_some_iff] at hmapped
      obtain ⟨value, hvalue, heq⟩ := hmapped
      rw [replaceUnder_mapNodes_eq_string change heq] at hvalue
      exact htext text (Json.Fields.text?_eq_some_iff.2 hvalue)

theorem items?_mapFields (fields : Fields) (key : String) :
    (mapFields change fields).items? key =
      (fields.items? key).map (List.map (mapNodes change .pattern)) := by
  cases hitems : fields.items? key with
  | some items =>
      rw [Json.Fields.items?_eq_some_iff] at hitems
      rw [Option.map_some, Json.Fields.items?_eq_some_iff, get?_mapFields, hitems,
        Option.map_some, replaceUnder_mapNodes_array]
  | none =>
      rw [Option.map_none, Option.eq_none_iff_forall_ne_some]
      intro mapped hmapped
      rw [Json.Fields.items?_eq_some_iff, get?_mapFields, Option.map_eq_some_iff] at hmapped
      obtain ⟨value, hvalue, heq⟩ := hmapped
      obtain ⟨items, rfl, -⟩ := replaceUnder_mapNodes_eq_array change heq
      rw [Json.Fields.items?_eq_some_iff.2 hvalue] at hitems
      cases hitems

@[simp] theorem isGenerated_mapFields (fields : Fields) :
    isGenerated (mapFields change fields) = isGenerated fields := by
  simp [isGenerated]

@[simp] theorem carries_mapFields (role : Role) (fields : Fields) (name : String) :
    carries role (mapFields change fields) name = carries role fields name := by
  cases role <;> simp [carries]

theorem mapFields_set (fields : Fields) (key : String) (value : Json) :
    mapFields change (fields.set key value) =
      (mapFields change fields).set key (replaceUnder (mapNodes change) key value) := by
  rw [mapFields_eq_replaceChildren, mapFields_eq_replaceChildren, replaceChildren_set]

theorem innerNodes_mapFields (fields : Fields) :
    innerNodes (mapFields change fields) =
      (children fields).flatMap fun child => nodes child.1 (mapNodes change child.1 child.2) := by
  rw [mapFields_eq_replaceChildren, innerNodes,
    children_replaceChildren (keepsKind_mapNodes change), List.flatMap_map]

theorem mapFields_eq_self {fields : Fields}
    (h : ∀ child ∈ children fields, mapNodes change child.1 child.2 = child.2) :
    mapFields change fields = fields := by
  rw [mapFields_eq_replaceChildren]
  exact (replaceChildren_congr h).trans (replaceChildren_self fields)

end

end SymbolPatterns.Grammar
