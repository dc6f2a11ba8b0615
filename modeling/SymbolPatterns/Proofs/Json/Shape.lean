import SymbolPatterns.Proofs.Json.Fields

/-!
Values that are written and read back unchanged: those whose numbers are
integers of 64 bits and whose objects have each key once. The height of a value
is what the reader's limit on nesting counts.
-/

namespace SymbolPatterns.Json

/-- Induction over a value by the values directly inside it, so that lists of
items and fields need no mutual induction of their own. -/
@[elab_as_elim]
theorem valueInduction {motive : Json → Prop}
    (object : ∀ fields, (∀ field ∈ fields, motive field.2) → motive (.object fields))
    (array : ∀ items, (∀ item ∈ items, motive item) → motive (.array items))
    (leaf : ∀ value, (∀ fields, value ≠ .object fields) → (∀ items, value ≠ .array items) →
      motive value) :
    ∀ value, motive value
  | .object fields => object fields fun field _ => valueInduction object array leaf field.2
  | .array items => array items fun item _ => valueInduction object array leaf item
  | .null => leaf _ nofun nofun
  | .bool _ => leaf _ nofun nofun
  | .number _ => leaf _ nofun nofun
  | .string _ => leaf _ nofun nofun
termination_by value => sizeOf value
decreasing_by
  · next hfield =>
    have hlist := List.sizeOf_lt_of_mem hfield
    have hpair : sizeOf field = 1 + sizeOf field.1 + sizeOf field.2 := rfl
    simp only [Json.object.sizeOf_spec]
    omega
  · next hitem =>
    have hlist := List.sizeOf_lt_of_mem hitem
    simp only [Json.array.sizeOf_spec]
    omega

mutual

/-- A value and all values inside it. Properties of a whole document are
stated by its parts. -/
def parts : Json → List Json
  | .array items => .array items :: partsOfItems items
  | .object fields => .object fields :: partsOfFields fields
  | value => [value]

def partsOfItems : List Json → List Json
  | [] => []
  | item :: rest => parts item ++ partsOfItems rest

def partsOfFields : List (String × Json) → List Json
  | [] => []
  | (_, value) :: rest => parts value ++ partsOfFields rest

end

mutual

/-- How deep lists and objects are nested, counted as the reader counts
levels: a value with nothing inside has none. -/
def height : Json → Nat
  | .array items => heightOfItems items + 1
  | .object fields => heightOfFields fields + 1
  | _ => 0

def heightOfItems : List Json → Nat
  | [] => 0
  | item :: rest => max (height item) (heightOfItems rest)

def heightOfFields : List (String × Json) → Nat
  | [] => 0
  | (_, value) :: rest => max (height value) (heightOfFields rest)

end

theorem mem_partsOfItems {part : Json} {items : List Json} :
    part ∈ partsOfItems items ↔ ∃ item ∈ items, part ∈ parts item := by
  induction items with
  | nil => simp [partsOfItems]
  | cons item rest ih => simp [partsOfItems, ih]

theorem mem_partsOfFields {part : Json} {fields : Fields} :
    part ∈ partsOfFields fields ↔ ∃ field ∈ fields, part ∈ parts field.2 := by
  induction fields with
  | nil => simp [partsOfFields]
  | cons field rest ih =>
      obtain ⟨key, value⟩ := field
      simp [partsOfFields, ih]

theorem height_lt_of_mem_items {item : Json} {items : List Json} (h : item ∈ items) :
    height item < height (.array items) := by
  rw [height]
  induction items with
  | nil => cases h
  | cons first rest ih =>
      rw [heightOfItems]
      rcases List.mem_cons.1 h with rfl | h
      · omega
      · have hrest := ih h
        omega

theorem height_lt_of_mem_fields {field : String × Json} {fields : Fields} (h : field ∈ fields) :
    height field.2 < height (.object fields) := by
  rw [height]
  induction fields with
  | nil => cases h
  | cons first rest ih =>
      obtain ⟨key, value⟩ := first
      rw [heightOfFields]
      rcases List.mem_cons.1 h with rfl | h
      · exact Nat.lt_succ_of_le (Nat.le_max_left ..)
      · have hrest := ih h
        omega

theorem height_array_le {bound : Nat} {items : List Json} (h : ∀ item ∈ items, height item ≤ bound) :
    height (.array items) ≤ bound + 1 := by
  rw [height, Nat.add_le_add_iff_right]
  induction items with
  | nil => exact Nat.zero_le _
  | cons first rest ih =>
      obtain ⟨hfirst, hrest⟩ := List.forall_mem_cons.1 h
      exact Nat.max_le.2 ⟨hfirst, ih hrest⟩

theorem height_object_le {bound : Nat} {fields : Fields}
    (h : ∀ field ∈ fields, height field.2 ≤ bound) : height (.object fields) ≤ bound + 1 := by
  rw [height, Nat.add_le_add_iff_right]
  induction fields with
  | nil => exact Nat.zero_le _
  | cons first rest ih =>
      obtain ⟨hfirst, hrest⟩ := List.forall_mem_cons.1 h
      exact Nat.max_le.2 ⟨hfirst, ih hrest⟩

/-- The integers that a number can hold without loss: from the least signed
one to the greatest unsigned one of 64 bits. -/
def FitsInteger (n : Int) : Prop := leastInteger ≤ n ∧ n ≤ greatestInteger

/-- Whether the numbers of a value are integers. Other numbers may be written
with other digits than they were read from, and are not followed. -/
def OnlyIntegers (value : Json) : Prop :=
  ∀ x, .number x ∈ parts value → ∃ n, x = .integer n

/-- What the reader guarantees of the values it makes: integers are in range,
and objects have each key once. -/
structure WellFormed (value : Json) : Prop where
  integers : ∀ n, .number (.integer n) ∈ parts value → FitsInteger n
  keys : ∀ fields, .object fields ∈ parts value → (Fields.keys fields).Nodup

theorem wellFormed_array {items : List Json} :
    WellFormed (.array items) ↔ ∀ item ∈ items, WellFormed item := by
  constructor
  · intro h item hitem
    have hpart : ∀ part ∈ parts item, part ∈ parts (.array items) := fun part hpart =>
      List.mem_cons_of_mem _ (mem_partsOfItems.2 ⟨item, hitem, hpart⟩)
    exact ⟨fun n hn => h.integers n (hpart _ hn), fun fields hf => h.keys fields (hpart _ hf)⟩
  · intro h
    constructor
    · intro n hn
      obtain ⟨item, hitem, hn⟩ : ∃ item ∈ items, .number (.integer n) ∈ parts item := by
        simpa [parts, mem_partsOfItems] using hn
      exact (h item hitem).integers n hn
    · intro fields hfields
      obtain ⟨item, hitem, hfields⟩ : ∃ item ∈ items, .object fields ∈ parts item := by
        simpa [parts, mem_partsOfItems] using hfields
      exact (h item hitem).keys fields hfields

theorem wellFormed_object {fields : Fields} :
    WellFormed (.object fields) ↔
      (Fields.keys fields).Nodup ∧ ∀ field ∈ fields, WellFormed field.2 := by
  constructor
  · intro h
    refine ⟨h.keys fields (by simp [parts]), fun field hfield => ?_⟩
    have hpart : ∀ part ∈ parts field.2, part ∈ parts (.object fields) := fun part hpart =>
      List.mem_cons_of_mem _ (mem_partsOfFields.2 ⟨field, hfield, hpart⟩)
    exact ⟨fun n hn => h.integers n (hpart _ hn), fun fields hf => h.keys fields (hpart _ hf)⟩
  · rintro ⟨hkeys, h⟩
    constructor
    · intro n hn
      obtain ⟨key, value, hfield, hn⟩ : ∃ key value, (key, value) ∈ fields ∧
          .number (.integer n) ∈ parts value := by
        simpa [parts, mem_partsOfFields] using hn
      exact (h (key, value) hfield).integers n hn
    · intro other hother
      have hcases : other = fields ∨ ∃ key value, (key, value) ∈ fields ∧
          .object other ∈ parts value := by
        simpa [parts, mem_partsOfFields] using hother
      rcases hcases with rfl | ⟨key, value, hfield, hpart⟩
      · exact hkeys
      · exact (h (key, value) hfield).keys other hpart

theorem onlyIntegers_array {items : List Json} :
    OnlyIntegers (.array items) ↔ ∀ item ∈ items, OnlyIntegers item := by
  simp only [OnlyIntegers, parts, List.mem_cons, mem_partsOfItems, reduceCtorEq, false_or]
  constructor
  · intro h item hitem x hx
    exact h x ⟨item, hitem, hx⟩
  · rintro h x ⟨item, hitem, hx⟩
    exact h item hitem x hx

theorem onlyIntegers_object {fields : Fields} :
    OnlyIntegers (.object fields) ↔ ∀ field ∈ fields, OnlyIntegers field.2 := by
  simp only [OnlyIntegers, parts, List.mem_cons, mem_partsOfFields, reduceCtorEq, false_or]
  constructor
  · intro h field hfield x hx
    exact h x ⟨field, hfield, hx⟩
  · rintro h x ⟨field, hfield, hx⟩
    exact h field hfield x hx

theorem onlyIntegers_string (text : String) : OnlyIntegers (.string text) := by
  simp [OnlyIntegers, parts]

theorem onlyIntegers_bool (value : Bool) : OnlyIntegers (.bool value) := by
  simp [OnlyIntegers, parts]

theorem onlyIntegers_integer (n : Int) : OnlyIntegers (.number (.integer n)) := by
  simp [OnlyIntegers, parts]

theorem wellFormed_leaf {value : Json} (hnumber : ∀ n, value = .number (.integer n) →
    FitsInteger n) (hobject : ∀ fields, value ≠ .object fields)
    (harray : ∀ items, value ≠ .array items) : WellFormed value := by
  have hparts : parts value = [value] := by
    cases value with
    | object fields => exact absurd rfl (hobject fields)
    | array items => exact absurd rfl (harray items)
    | _ => rfl
  constructor
  · intro n hn
    rw [hparts, List.mem_singleton] at hn
    exact hnumber n hn.symm
  · intro fields hfields
    rw [hparts, List.mem_singleton] at hfields
    exact absurd hfields.symm (hobject fields)

/-- Setting a field keeps an object well-formed: the key is not there a second
time afterwards. -/
theorem WellFormed.set {fields : Fields} (h : WellFormed (.object fields)) (key : String)
    {value : Json} (hvalue : WellFormed value) : WellFormed (.object (fields.set key value)) := by
  obtain ⟨hkeys, hfields⟩ := wellFormed_object.1 h
  exact wellFormed_object.2
    ⟨Fields.nodup_keys_set hkeys key value, Fields.forall_mem_set hfields key hvalue⟩

/-- Values that are written and read back unchanged. Each condition is needed:
an integer out of range, a key that comes twice or a number with a fraction
may come back as something else. -/
structure Printable (value : Json) : Prop extends WellFormed value where
  onlyIntegers : OnlyIntegers value

theorem printable_array {items : List Json} :
    Printable (.array items) ↔ ∀ item ∈ items, Printable item := by
  constructor
  · intro h item hitem
    exact ⟨wellFormed_array.1 h.toWellFormed item hitem,
      onlyIntegers_array.1 h.onlyIntegers item hitem⟩
  · intro h
    exact ⟨wellFormed_array.2 fun item hitem => (h item hitem).toWellFormed,
      onlyIntegers_array.2 fun item hitem => (h item hitem).onlyIntegers⟩

theorem printable_object {fields : Fields} :
    Printable (.object fields) ↔
      (Fields.keys fields).Nodup ∧ ∀ field ∈ fields, Printable field.2 := by
  constructor
  · intro h
    obtain ⟨hkeys, hfields⟩ := wellFormed_object.1 h.toWellFormed
    exact ⟨hkeys, fun field hfield =>
      ⟨hfields field hfield, onlyIntegers_object.1 h.onlyIntegers field hfield⟩⟩
  · rintro ⟨hkeys, h⟩
    exact ⟨wellFormed_object.2 ⟨hkeys, fun field hfield => (h field hfield).toWellFormed⟩,
      onlyIntegers_object.2 fun field hfield => (h field hfield).onlyIntegers⟩

theorem Printable.set {fields : Fields} (h : Printable (.object fields)) (key : String)
    {value : Json} (hvalue : Printable value) : Printable (.object (fields.set key value)) := by
  obtain ⟨hkeys, hfields⟩ := printable_object.1 h
  exact printable_object.2
    ⟨Fields.nodup_keys_set hkeys key value, Fields.forall_mem_set hfields key hvalue⟩

theorem printable_string (text : String) : Printable (.string text) :=
  ⟨wellFormed_leaf nofun nofun nofun, onlyIntegers_string text⟩

end SymbolPatterns.Json
