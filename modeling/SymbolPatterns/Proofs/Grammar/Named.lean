import Mathlib.Data.List.Basic
import SymbolPatterns.Proofs.Grammar.Change

/-!
Edits of the one node that carries a name. Lookup succeeds exactly when one
visible node carries the name, and an edit at its address is then the change
that edits every carrier.
-/

namespace SymbolPatterns.Grammar

open Json (Fields)

/-- The nodes that carry a name, in document order. -/
def carriers (name : String) (found : List (Role × Fields)) : List (Role × Fields) :=
  found.filter fun node => carries node.1 node.2 name

@[simp] theorem carriers_nil (name : String) : carriers name [] = [] := rfl

@[simp] theorem carriers_append (name : String) (front rest : List (Role × Fields)) :
    carriers name (front ++ rest) = carriers name front ++ carriers name rest :=
  List.filter_append ..

theorem carries_of_carriers {name : String} {found : List (Role × Fields)} {node : Role × Fields}
    (h : carriers name found = [node]) : carries node.1 node.2 name = true := by
  have hnode : node ∈ carriers name found := h ▸ List.mem_singleton_self node
  exact (List.mem_filter.1 hnode).2

theorem carriers_eq_nil_of_mem {name : String} {α : Type} {xs : List α}
    {found : α → List (Role × Fields)} (h : carriers name (xs.flatMap found) = [])
    {x : α} (hx : x ∈ xs) : carriers name (found x) = [] := by
  simp only [carriers, List.filter_eq_nil_iff, List.mem_flatMap] at h ⊢
  exact fun node hnode => h node ⟨x, hx, hnode⟩

/-- If one element contributes the only carrier, the others contribute none.
The walk to the carrier then goes through that element at every level. -/
theorem exists_split_of_carriers_flatMap {name : String} {α : Type} {xs : List α}
    {found : α → List (Role × Fields)} {node : Role × Fields}
    (h : carriers name (xs.flatMap found) = [node]) :
    ∃ front x rest, xs = front ++ x :: rest ∧ carriers name (found x) = [node] ∧
      (∀ y ∈ front, carriers name (found y) = []) ∧
      ∀ y ∈ rest, carriers name (found y) = [] := by
  induction xs with
  | nil => simp at h
  | cons x rest ih =>
      rw [List.flatMap_cons, carriers_append, List.append_eq_singleton_iff] at h
      rcases h with ⟨hx, hrest⟩ | ⟨hx, hrest⟩
      · obtain ⟨front, y, more, rfl, hy, hfront, hmore⟩ := ih hrest
        refine ⟨x :: front, y, more, rfl, hy, ?_, hmore⟩
        intro z hz
        rcases List.mem_cons.1 hz with rfl | hz
        · exact hx
        · exact hfront z hz
      · exact ⟨[], x, rest, rfl, hx, by simp, fun y hy => carriers_eq_nil_of_mem hrest hy⟩

theorem carriers_flatMap_split {name : String} {α : Type} {front rest : List α} {x : α}
    {found : α → List (Role × Fields)} (hfront : ∀ y ∈ front, carriers name (found y) = [])
    (hrest : ∀ y ∈ rest, carriers name (found y) = []) :
    carriers name ((front ++ x :: rest).flatMap found) = carriers name (found x) := by
  have hnone : ∀ xs : List α, (∀ y ∈ xs, carriers name (found y) = []) →
      carriers name (xs.flatMap found) = [] := by
    intro xs h
    simp only [carriers, List.filter_eq_nil_iff, List.mem_flatMap] at h ⊢
    rintro node ⟨y, hy, hnode⟩
    exact h y hy node hnode
  rw [List.flatMap_append, List.flatMap_cons, carriers_append, carriers_append,
    hnone front hfront, hnone rest hrest, List.nil_append, List.append_nil]

/-- Induction on the way down to the only carrier of a name. At each level one
child has the carrier in it and the others show none, which is all that a step
may use. -/
theorem carrierInduction {name : String} {node : Role × Fields} {motive : Role → Json → Prop}
    (here : isGenerated node.2 = false → carries node.1 node.2 name = true →
      carriers name (innerNodes node.2) = [] → motive node.1 (.object node.2))
    (child : ∀ role fields front child rest, isGenerated fields = false →
      carries role fields name = false → children fields = front ++ child :: rest →
      (∀ other ∈ front, carriers name (nodes other.1 other.2) = []) →
      (∀ other ∈ rest, carriers name (nodes other.1 other.2) = []) →
      motive child.1 child.2 → motive role (.object fields))
    (item : ∀ role front item rest,
      (∀ other ∈ front, carriers name (nodes .pattern other) = []) →
      (∀ other ∈ rest, carriers name (nodes .pattern other) = []) →
      motive .pattern item → motive role (.array (front ++ item :: rest)))
    {role : Role} {value : Json} (h : carriers name (nodes role value) = [node]) :
    motive role value := by
  induction value using nodeInduction generalizing role with
  | object fields ih =>
      cases hgen : isGenerated fields with
      | true => simp [nodes_of_isGenerated role hgen] at h
      | false =>
          rw [nodes_of_not_isGenerated role hgen] at h
          cases hcarries : carries role fields name with
          | true =>
              simp only [carriers, List.filter_cons, hcarries, if_true, List.cons.injEq] at h
              obtain ⟨rfl, hinner⟩ := h
              exact here hgen hcarries hinner
          | false =>
              have hinner : carriers name (innerNodes fields) = [node] := by
                simpa [carriers, hcarries] using h
              obtain ⟨front, next, rest, hsplit, hnext, hfront, hrest⟩ :=
                exists_split_of_carriers_flatMap hinner
              exact child role fields front next rest hgen hcarries hsplit hfront hrest
                (ih next (by simp [hsplit]) hnext)
  | array items ih =>
      rw [nodes_array] at h
      obtain ⟨front, next, rest, rfl, hnext, hfront, hrest⟩ :=
        exists_split_of_carriers_flatMap h
      exact item role front next rest hfront hrest (ih next (by simp) hnext)
  | leaf value hobject harray => simp [nodes_leaf role hobject harray] at h

/-- The change that edits the nodes that carry a name, told without an
address. An edit at the address of the only carrier is this change. -/
def editNamed (name : String) (edit : Fields → Fields) : NodeChange := fun role node =>
  if carries role node name then edit node else node

theorem mapNodes_editNamed_of_carriers_eq_nil {name : String} (edit : Fields → Fields)
    {role : Role} {value : Json} (h : carriers name (nodes role value) = []) :
    mapNodes (editNamed name edit) role value = value := by
  induction value using nodeInduction generalizing role with
  | object fields ih =>
      cases hgen : isGenerated fields with
      | true => exact mapNodes_of_isGenerated _ role hgen
      | false =>
          simp only [nodes_of_not_isGenerated role hgen, carriers, List.filter_cons] at h
          split at h
          · cases h
          · next hcarries =>
            have hfields : mapFields (editNamed name edit) fields = fields :=
              mapFields_eq_self _ fun child hchild =>
                ih child hchild (carriers_eq_nil_of_mem h hchild)
            rw [mapNodes_of_not_isGenerated _ role hgen, hfields]
            simp [editNamed, hcarries]
  | array items ih =>
      rw [nodes_array] at h
      rw [mapNodes_array]
      congr 1
      exact (List.map_congr_left fun item hitem =>
        ih item hitem (carriers_eq_nil_of_mem h hitem)).trans (List.map_id' items)
  | leaf value hobject harray => exact mapNodes_leaf _ role hobject harray

theorem mapFields_editNamed_of_carriers_eq_nil {name : String} (edit : Fields → Fields)
    {fields : Fields} (h : carriers name (innerNodes fields) = []) :
    mapFields (editNamed name edit) fields = fields :=
  mapFields_eq_self _ fun _ hchild =>
    mapNodes_editNamed_of_carriers_eq_nil edit (carriers_eq_nil_of_mem h hchild)

private abbrev named (name : String) (found : List Sighting) : List Sighting :=
  found.filter fun s => carries s.role s.node name

private theorem carriers_map_seen {name : String} {found : List Sighting}
    (h : named name found = []) : carriers name (found.map Sighting.seen) = [] := by
  simp only [named, carriers, List.filter_eq_nil_iff, List.mem_map] at h ⊢
  rintro _ ⟨s, hs, rfl⟩
  exact h s hs

section

variable {name : String} {α : Type} (walk : Nat → List α → List Sighting)
  (look : Nat → α → List Sighting) (mapped : α → α)

private theorem map_of_named_walk_eq_nil (hcons : ∀ index x rest,
      walk index (x :: rest) = look index x ++ walk (index + 1) rest)
    {xs : List α} (hnone : ∀ x ∈ xs, ∀ index, named name (look index x) = [] → mapped x = x)
    {index : Nat} (h : named name (walk index xs) = []) : xs.map mapped = xs := by
  induction xs generalizing index with
  | nil => rfl
  | cons x rest ih =>
      rw [hcons, named, List.filter_append, List.append_eq_nil_iff] at h
      rw [List.map_cons, hnone x List.mem_cons_self index h.1,
        ih (fun y hy => hnone y (List.mem_cons_of_mem _ hy)) h.2]

/-- A walk along a list leads to the only carrier through one element.
Changing that element at the rest of the address is what the map does to the
list, if it leaves the others alone. Items, fields and entries are walked
alike, so the lemma is stated for any walk. -/
private theorem modify_of_named_walk (set : Address → α → α) (place : Address)
    (hnil : ∀ index, walk index [] = [])
    (hcons : ∀ index x rest, walk index (x :: rest) = look index x ++ walk (index + 1) rest)
    {s : Sighting} {xs : List α}
    (hone : ∀ x ∈ xs, ∀ index, named name (look index x) = [s] →
      ∃ address, s.address = place.reverse ++ index :: address ∧ set address x = mapped x)
    (hnone : ∀ x ∈ xs, ∀ index, named name (look index x) = [] → mapped x = x)
    {index : Nat} (h : named name (walk index xs) = [s]) :
    ∃ k address, s.address = place.reverse ++ (index + k) :: address ∧
      xs.modify k (set address) = xs.map mapped := by
  induction xs generalizing index with
  | nil => simp [named, hnil] at h
  | cons x rest ih =>
      have hrest := fun y hy => hone y (List.mem_cons_of_mem x hy)
      have hothers := fun y hy => hnone y (List.mem_cons_of_mem x hy)
      rw [hcons, named, List.filter_append, List.append_eq_singleton_iff] at h
      rcases h with ⟨hx, hmore⟩ | ⟨hx, hmore⟩
      · obtain ⟨k, address, haddress, hmodify⟩ := ih hrest hothers hmore
        refine ⟨k + 1, address, by rw [haddress]; congr 2; omega, ?_⟩
        rw [List.modify_succ_cons, hmodify, List.map_cons, hnone x List.mem_cons_self index hx]
      · obtain ⟨address, haddress, hset⟩ := hone x List.mem_cons_self index hx
        refine ⟨0, address, haddress, ?_⟩
        rw [List.modify_zero_cons, hset, List.map_cons,
          map_of_named_walk_eq_nil walk look mapped hcons hothers hmore]

end

section

variable {name : String} {edit change : Fields → Fields} {s : Sighting}

/-- The address of a sighting leads on from `place`, and the edit there is the
change of every carrier. This is what the induction on the way down carries
along. -/
private def EditsAt (name : String) (edit change : Fields → Fields) (s : Sighting)
    (place : Address) (role : Role) (value : Json) : Prop :=
  ∃ address, s.address = place.reverse ++ address ∧
    changeAt edit address value = mapNodes (editNamed name change) role value

private theorem mapNodes_of_named_eq_nil {place : Address} {role : Role} {value : Json}
    (h : named name (sightings place role value) = []) :
    mapNodes (editNamed name change) role value = value :=
  mapNodes_editNamed_of_carriers_eq_nil change
    (map_seen_sightings value place role ▸ carriers_map_seen h)

private theorem setsField {key : String} {value : Json} {place : Address} {index : Nat}
    (ih : ∀ child ∈ childrenOf key value, ∀ place,
      named name (sightings place child.1 child.2) = [s] →
        EditsAt name edit change s place child.1 child.2)
    (h : named name (fieldSightings place index [(key, value)]) = [s]) :
    ∃ address, s.address = place.reverse ++ index :: address ∧
      changeAt edit address value =
        replaceUnder (mapNodes (editNamed name change)) key value := by
  rcases holdsEntries_cases key value with ⟨role, entries, hrole, rfl⟩ | hvalue
  · rw [fieldSightings_entries _ _ _ _ hrole, fieldSightings_nil, List.append_nil] at h
    rw [childrenOf_entries entries hrole] at ih
    obtain ⟨k, address, haddress, hmodify⟩ :=
      modify_of_named_walk (entrySightings (index :: place) role)
        (fun k entry => sightings (k :: index :: place) (role entry.1) entry.2)
        (fun entry => (entry.1, mapNodes (editNamed name change) (role entry.1) entry.2))
        (fun address entry => (entry.1, changeAt edit address entry.2)) (index :: place)
        (fun _ => rfl) (fun _ _ _ => rfl)
        (fun entry hentry k hone => by
          obtain ⟨address, haddress, hchange⟩ := ih _ (List.mem_map_of_mem hentry) _ hone
          exact ⟨address, by simpa using haddress, by rw [hchange]⟩)
        (fun entry _ k hnone => by rw [mapNodes_of_named_eq_nil hnone]) h
    refine ⟨k :: address, by simpa using haddress, ?_⟩
    rw [replaceUnder_entries _ entries hrole, ← hmodify]
    rfl
  · rw [fieldSightings_value _ _ _ hvalue, fieldSightings_nil, List.append_nil] at h
    rw [childrenOf_value hvalue] at ih
    obtain ⟨address, haddress, hchange⟩ := ih _ (List.mem_singleton_self _) _ h
    exact ⟨address, by simpa using haddress, by rw [replaceUnder_value _ hvalue, hchange]⟩

private theorem keepsField {key : String} {value : Json} {place : Address} {index : Nat}
    (h : named name (fieldSightings place index [(key, value)]) = []) :
    replaceUnder (mapNodes (editNamed name change)) key value = value := by
  rcases holdsEntries_cases key value with ⟨role, entries, hrole, rfl⟩ | hvalue
  · rw [fieldSightings_entries _ _ _ _ hrole, fieldSightings_nil, List.append_nil] at h
    rw [replaceUnder_entries _ entries hrole]
    congr 1
    exact map_of_named_walk_eq_nil (entrySightings (index :: place) role)
      (fun k entry => sightings (k :: index :: place) (role entry.1) entry.2)
      (fun entry => (entry.1, mapNodes (editNamed name change) (role entry.1) entry.2))
      (fun _ _ _ => rfl)
      (fun entry _ k hnone => by rw [mapNodes_of_named_eq_nil hnone]) h
  · rw [fieldSightings_value _ _ _ hvalue, fieldSightings_nil, List.append_nil] at h
    rw [replaceUnder_value _ hvalue, mapNodes_of_named_eq_nil h]

private theorem modify_fields {fields : Fields}
    (ih : ∀ child ∈ children fields, ∀ place,
      named name (sightings place child.1 child.2) = [s] →
        EditsAt name edit change s place child.1 child.2)
    {place : Address} (h : named name (fieldSightings place 0 fields) = [s]) :
    ∃ k address, s.address = place.reverse ++ k :: address ∧
      fields.modify k (fun field => (field.1, changeAt edit address field.2)) =
        mapFields (editNamed name change) fields := by
  obtain ⟨k, address, haddress, hmodify⟩ :=
    modify_of_named_walk (fieldSightings place)
      (fun index field => fieldSightings place index [field])
      (fun field => (field.1, replaceUnder (mapNodes (editNamed name change)) field.1 field.2))
      (fun address field => (field.1, changeAt edit address field.2)) place
      (fun _ => rfl) (fieldSightings_cons place)
      (fun field hfield index hone => by
        obtain ⟨address, haddress, hchange⟩ :=
          setsField (fun child hc => ih child (List.mem_flatMap.2 ⟨field, hfield, hc⟩)) hone
        exact ⟨address, haddress, by rw [hchange]⟩)
      (fun field _ index hnone => by rw [keepsField hnone]) h
  exact ⟨k, address, by simpa using haddress,
    by rw [hmodify, mapFields_eq_replaceChildren, replaceChildren]⟩

/-- Where one sighting carries the name, an edit at its address is the change
of every carrier by any function that does the same to that node. The freedom
to choose the function is used for edits that depend on the list found. -/
private theorem editsAt_of_named (heq : edit s.node = change s.node) (value : Json) :
    ∀ place role, named name (sightings place role value) = [s] →
      EditsAt name edit change s place role value := by
  induction value using nodeInduction with
  | object fields ih =>
      intro place role h
      cases hgen : isGenerated fields with
      | true => simp [named, sightings, hgen] at h
      | false =>
          simp only [named, sightings, hgen, Bool.false_eq_true, if_false,
            List.filter_cons] at h
          split at h
          · next hcarries =>
            obtain ⟨rfl, hinner⟩ := List.cons.inj h
            have hfields : mapFields (editNamed name change) fields = fields :=
              mapFields_editNamed_of_carriers_eq_nil change
                (seen_fieldSightings place 0 fields ▸ carriers_map_seen hinner)
            refine ⟨[], by simp, ?_⟩
            rw [mapNodes_of_not_isGenerated _ role hgen, hfields, editNamed, if_pos hcarries,
              ← heq]
            rfl
          · next hcarries =>
            obtain ⟨k, address, haddress, hmodify⟩ :=
              modify_fields (fun child hc place => ih child hc place child.1) h
            refine ⟨k :: address, haddress, ?_⟩
            rw [mapNodes_of_not_isGenerated _ role hgen, editNamed, carries_mapFields,
              if_neg hcarries, ← hmodify]
            rfl
  | array items ih =>
      intro place role h
      obtain ⟨k, address, haddress, hmodify⟩ :=
        modify_of_named_walk (itemSightings place)
          (fun index item => sightings (index :: place) .pattern item)
          (mapNodes (editNamed name change) .pattern) (changeAt edit) place
          (fun _ => rfl) (fun _ _ _ => rfl)
          (fun item hitem index hone => by
            obtain ⟨address, haddress, hchange⟩ := ih item hitem _ _ hone
            exact ⟨address, by simpa using haddress, hchange⟩)
          (fun item _ index hnone => mapNodes_of_named_eq_nil hnone)
          (by simpa [sightings] using h : named name (itemSightings place 0 items) = [s])
      refine ⟨k :: address, by simpa using haddress, ?_⟩
      rw [mapNodes_array, ← hmodify]
      rfl
  | leaf value hobject harray =>
      intro place role h
      cases value with
      | object fields => exact absurd rfl (hobject fields)
      | array items => exact absurd rfl (harray items)
      | _ => simp [named, sightings] at h

end

/-- A document with every visible node changed. The document is itself a node,
in the role of a pattern. -/
def mapDocument (change : NodeChange) (document : Fields) : Fields :=
  if isGenerated document then document else change .pattern (mapFields change document)

theorem mapNodes_object (change : NodeChange) (document : Fields) :
    mapNodes change .pattern (.object document) = .object (mapDocument change document) := by
  unfold mapDocument
  split
  · next hgen => exact mapNodes_of_isGenerated change _ hgen
  · next hgen => exact mapNodes_of_not_isGenerated change _ (by simpa using hgen)

/-- The visible nodes of a document, without their addresses. -/
def documentNodes (document : Fields) : List (Role × Fields) := nodes .pattern (.object document)

theorem carriers_documentNodes (document : Fields) (name : String) :
    carriers name (documentNodes document) =
      ((visibleNodes (.object document)).filter fun s => carries s.role s.node name).map
        Sighting.seen := by
  simp only [documentNodes, nodes, visibleNodes, carriers, List.filter_map]
  rfl

theorem locate_eq_ok_iff {document : Fields} {name : String} {s : Sighting} :
    locate document name = .ok s ↔
      (visibleNodes (.object document)).filter (fun s => carries s.role s.node name) = [s] := by
  unfold locate pick
  split
  · next h => simp [h]
  · next found h => simp [h]
  · next several _ hone =>
    constructor
    · intro h
      cases h
    · intro h
      exact absurd h (hone s)

theorem carriers_of_locate {document : Fields} {name : String} {s : Sighting}
    (h : locate document name = .ok s) : carriers name (documentNodes document) = [s.seen] := by
  rw [carriers_documentNodes]
  exact congrArg (List.map Sighting.seen) (locate_eq_ok_iff.1 h)

theorem exists_locate_of_carriers {document : Fields} {name : String} {node : Role × Fields}
    (h : carriers name (documentNodes document) = [node]) :
    ∃ s, locate document name = .ok s ∧ s.seen = node := by
  rw [carriers_documentNodes, List.map_eq_singleton_iff] at h
  obtain ⟨s, hs, rfl⟩ := h
  exact ⟨s, locate_eq_ok_iff.2 hs, rfl⟩

/-- A node is found exactly if it is the only visible one that carries the
name. From here on lookup is a matter of counting carriers. -/
theorem find_eq_ok_iff {document : Fields} {name : String} {node : Fields} :
    find document name = .ok node ↔
      ∃ role, carriers name (documentNodes document) = [(role, node)] := by
  constructor
  · intro h
    cases hlocate : locate document name with
    | error failure => simp [find, hlocate, Except.map] at h
    | ok s =>
        obtain rfl : s.node = node := by simpa [find, hlocate, Except.map] using h
        exact ⟨s.role, carriers_of_locate hlocate⟩
  · rintro ⟨role, h⟩
    obtain ⟨s, hlocate, hseen⟩ := exists_locate_of_carriers h
    rw [find, hlocate]
    exact congrArg (Except.ok ∘ Prod.snd) hseen

/-- An edit at the address of the one carrier is the change of every carrier
by any function that does the same to that node. Addresses play no part in the
results about patches from here on. -/
theorem changeFields_eq_mapDocument {document : Fields} {name : String} {s : Sighting}
    {edit change : Fields → Fields} (h : locate document name = .ok s)
    (heq : edit s.node = change s.node) :
    changeFields edit s.address document = mapDocument (editNamed name change) document := by
  obtain ⟨address, haddress, hchange⟩ :=
    editsAt_of_named heq (.object document) [] .pattern (locate_eq_ok_iff.1 h)
  obtain rfl : s.address = address := by simpa using haddress
  rw [mapNodes_object] at hchange
  refine Json.object.inj (Eq.trans ?_ hchange)
  cases s.address <;> rfl

/-- A change that leaves the nodes below every node as visible as they were
changes the visible nodes one by one, in their order. -/
theorem nodes_mapNodes {change : NodeChange}
    (hgen : ∀ role node, isGenerated (change role node) = isGenerated node) {role : Role}
    {value : Json} (hinner : ∀ node ∈ nodes role value,
      innerNodes (change node.1 (mapFields change node.2)) =
        innerNodes (mapFields change node.2)) :
    nodes role (mapNodes change role value) =
      (nodes role value).map fun node => (node.1, change node.1 (mapFields change node.2)) := by
  induction value using nodeInduction generalizing role with
  | object fields ih =>
      cases hself : isGenerated fields with
      | true => rw [mapNodes_of_isGenerated _ role hself, nodes_of_isGenerated role hself]; rfl
      | false =>
          rw [nodes_of_not_isGenerated role hself] at hinner ⊢
          have hchanged : isGenerated (change role (mapFields change fields)) = false := by
            rw [hgen, isGenerated_mapFields, hself]
          have hbelow := hinner (role, fields) List.mem_cons_self
          rw [mapNodes_of_not_isGenerated _ role hself, nodes_of_not_isGenerated role hchanged,
            List.map_cons, hbelow, innerNodes_mapFields, innerNodes, List.map_flatMap]
          congr 1
          refine List.flatMap_congr fun child hchild => ih child hchild fun node hnode => ?_
          exact hinner node (List.mem_cons_of_mem _ (List.mem_flatMap.2 ⟨child, hchild, hnode⟩))
  | array items ih =>
      rw [nodes_array] at hinner
      rw [mapNodes_array, nodes_array, nodes_array, List.flatMap_map, List.map_flatMap]
      refine List.flatMap_congr fun item hitem => ih item hitem fun node hnode => ?_
      exact hinner node (List.mem_flatMap.2 ⟨item, hitem, hnode⟩)
  | leaf value hobject harray =>
      rw [mapNodes_leaf _ role hobject harray, nodes_leaf role hobject harray]
      rfl

/-- After an edit the node is still the only carrier of its name, unless the
edit puts other carriers below it. -/
theorem carriers_nodes_mapNodes {name : String} {edit : Fields → Fields}
    (hgen : ∀ node, isGenerated (edit node) = isGenerated node)
    (hcarries : ∀ role node, carries role (edit node) name = carries role node name)
    (hinner : ∀ node, carriers name (innerNodes node) = [] →
      carriers name (innerNodes (edit node)) = [])
    {role : Role} {value : Json} {node : Role × Fields}
    (h : carriers name (nodes role value) = [node]) :
    carriers name (nodes role (mapNodes (editNamed name edit) role value)) =
      [(node.1, edit node.2)] := by
  refine carrierInduction (motive := fun role value =>
    carriers name (nodes role (mapNodes (editNamed name edit) role value)) =
      [(node.1, edit node.2)]) ?_ ?_ ?_ h
  · intro hself hnode hbelow
    rw [mapNodes_of_not_isGenerated _ _ hself, mapFields_editNamed_of_carriers_eq_nil edit hbelow,
      editNamed, if_pos hnode, nodes_of_not_isGenerated _ (by rw [hgen, hself])]
    simp only [carriers, List.filter_cons, hcarries, hnode, if_true]
    exact congrArg (List.cons _) (hinner _ hbelow)
  · intro role fields front child rest hself hfields hsplit hfront hrest ih
    rw [mapNodes_of_not_isGenerated _ _ hself, editNamed, carries_mapFields, hfields,
      if_neg Bool.false_ne_true, nodes_of_not_isGenerated _ (by rw [isGenerated_mapFields, hself])]
    simp only [carriers, List.filter_cons, carries_mapFields, hfields, Bool.false_eq_true,
      if_false]
    rw [innerNodes_mapFields, hsplit]
    refine (carriers_flatMap_split (fun other hother => ?_) fun other hother => ?_).trans ih
    · rw [mapNodes_editNamed_of_carriers_eq_nil edit (hfront other hother)]
      exact hfront other hother
    · rw [mapNodes_editNamed_of_carriers_eq_nil edit (hrest other hother)]
      exact hrest other hother
  · intro role front item rest hfront hrest ih
    rw [mapNodes_array, nodes_array, List.flatMap_map]
    refine (carriers_flatMap_split (fun other hother => ?_) fun other hother => ?_).trans ih
    · rw [mapNodes_editNamed_of_carriers_eq_nil edit (hfront other hother)]
      exact hfront other hother
    · rw [mapNodes_editNamed_of_carriers_eq_nil edit (hrest other hother)]
      exact hrest other hother

end SymbolPatterns.Grammar
