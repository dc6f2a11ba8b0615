import SymbolPatterns.Grammar.Lookup
import SymbolPatterns.Proofs.Json.Shape

/-!
What stands at an address. An address leads down by positions; where every
object has each key once, the keys and positions that it passes lead to the same
value. Changing the object at an address changes what is read there, and nothing
that stands beside it.
-/

namespace SymbolPatterns.Grammar

open Json (Fields WellFormed)

/-- The values directly inside a value, in their order. An address counts the
fields of an object by position, as it counts items; keys play no part in it. -/
def inside : Json → List Json
  | .object fields => fields.map Prod.snd
  | .array items => items
  | _ => []

/-- The value at an address, if the address leads anywhere. Neither roles nor
marks matter here, so any value can be reached and not only the visible nodes. -/
def valueAt? : Address → Json → Option Json
  | [], value => some value
  | index :: address, value => (inside value)[index]?.bind (valueAt? address)

theorem valueAt?_cons {index : Nat} {address : Address} {value found : Json} :
    valueAt? (index :: address) value = some found ↔
      ∃ next, (inside value)[index]? = some next ∧ valueAt? address next = some found :=
  Option.bind_eq_some_iff

theorem valueAt?_field {fields : Fields} {index : Nat} {key : String} {next : Json}
    (h : fields[index]? = some (key, next)) (address : Address) :
    valueAt? (index :: address) (.object fields) = valueAt? address next := by
  simp [valueAt?, inside, h]

theorem valueAt?_item {items : List Json} {index : Nat} {next : Json}
    (h : items[index]? = some next) (address : Address) :
    valueAt? (index :: address) (.array items) = valueAt? address next := by
  simp [valueAt?, inside, h]

theorem inside_changeAt (change : Fields → Fields) (index : Nat) (address : Address)
    (value : Json) : inside (changeAt change (index :: address) value) =
      (inside value).modify index (changeAt change address) := by
  cases value with
  | object fields =>
      refine List.ext_getElem? fun k => ?_
      simp only [changeAt, inside, List.getElem?_map, List.getElem?_modify]
      cases fields[k]? with
      | none => rfl
      | some field => by_cases hk : index = k <;> simp [hk]
  | array items => rfl
  | _ => simp [changeAt, inside]

/-- What is written at an address is read there. The change sees the object as
it was, with everything below it. -/
theorem valueAt?_changeAt {change : Fields → Fields} {address : Address} {value : Json}
    {node : Fields} (h : valueAt? address value = some (.object node)) :
    valueAt? address (changeAt change address value) = some (.object (change node)) := by
  induction address generalizing value with
  | nil =>
      obtain rfl := Option.some.inj h
      rfl
  | cons index address ih =>
      obtain ⟨next, hnext, hrest⟩ := valueAt?_cons.1 h
      refine valueAt?_cons.2 ⟨_, ?_, ih hrest⟩
      rw [inside_changeAt, List.getElem?_modify_eq, hnext]
      rfl

/-- At an address that neither leads through the changed object nor lies on
the way to it, nothing changes. The values on the way do change, since they
contain the object. -/
theorem valueAt?_changeAt_of_apart (change : Fields → Fields) {address other : Address}
    (value : Json) (hbelow : ¬address <+: other) (habove : ¬other <+: address) :
    valueAt? other (changeAt change address value) = valueAt? other value := by
  induction address generalizing other value with
  | nil => exact absurd List.nil_prefix hbelow
  | cons index address ih =>
      cases other with
      | nil => exact absurd List.nil_prefix habove
      | cons step other =>
          simp only [valueAt?, inside_changeAt]
          by_cases hstep : index = step
          · subst hstep
            simp only [List.cons_prefix_cons, true_and] at hbelow habove
            rw [List.getElem?_modify_eq, Option.map_eq_map, Option.bind_map]
            exact congrArg _ (funext fun next => ih next hbelow habove)
          · rw [List.getElem?_modify_ne _ _ hstep]

/-- A step down: to the field of a key, or to an item. This is how a reader of
a document would name a place in it. -/
inductive Step where
  | field (key : String)
  | item (index : Nat)
  deriving DecidableEq, Repr

/-- The steps that an address takes from a value. They end where the address
leaves the value, so they are as many as its positions only where it leads to
something. -/
def steps : Address → Json → List Step
  | index :: address, .object fields =>
      match fields[index]? with
      | some (key, next) => .field key :: steps address next
      | none => []
  | index :: address, .array items =>
      match items[index]? with
      | some next => .item index :: steps address next
      | none => []
  | _, _ => []

/-- The value to which steps lead. A key leads to its first field, as it does
in every lookup of a field. -/
def follow : List Step → Json → Option Json
  | [], value => some value
  | .field key :: rest, .object fields => (Json.Fields.get? fields key).bind (follow rest)
  | .item index :: rest, .array items => items[index]?.bind (follow rest)
  | _, _ => none

/-- In a document that has been read, the steps of an address lead to the
value there. With a key twice in one object they would lead to the first of
the two fields, so the condition cannot be dropped. -/
theorem follow_steps {address : Address} {value found : Json} (hvalue : WellFormed value)
    (h : valueAt? address value = some found) : follow (steps address value) value = some found := by
  induction address generalizing value with
  | nil => cases value <;> exact h
  | cons index address ih =>
      obtain ⟨next, hnext, hrest⟩ := valueAt?_cons.1 h
      cases value with
      | object fields =>
          obtain ⟨hkeys, hfields⟩ := Json.wellFormed_object.1 hvalue
          rw [inside, List.getElem?_map, Option.map_eq_some_iff] at hnext
          obtain ⟨⟨key, value⟩, hfield, rfl⟩ := hnext
          have hget := (Json.Fields.get?_eq_some_iff_mem hkeys).2 (List.mem_of_getElem? hfield)
          simp only [steps, hfield, follow, hget, Option.bind_some]
          exact ih (hfields _ (List.mem_of_getElem? hfield)) hrest
      | array items =>
          have hitem : items[index]? = some next := hnext
          simp only [steps, hitem, follow, Option.bind_some]
          exact ih (Json.wellFormed_array.1 hvalue _ (List.mem_of_getElem? hitem)) hrest
      | _ => simp [inside] at hnext

end SymbolPatterns.Grammar
