import SymbolPatterns.Json.Basic

/-!
The laws of reading and setting the fields of an object. A key that is there
splits the fields at its first occurrence, and setting it changes the value at
that place only; any other key is appended. Everything else about `set` follows
from these two facts.
-/

namespace SymbolPatterns.Json.Fields

theorem get?_cons (key k : String) (value : Json) (rest : Fields) :
    get? ((k, value) :: rest) key = if key = k then some value else get? rest key := by
  by_cases h : key = k
  · simp [get?, h]
  · have hb : (key == k) = false := beq_eq_false_iff_ne.2 h
    simp only [get?, List.lookup_cons, hb, if_neg h]

/-- A key that is there has a first occurrence, and setting it changes the
value there. Later occurrences are left alone, as they are not read either. -/
theorem exists_split_of_get? {fields : Fields} {key : String} {old : Json}
    (h : fields.get? key = some old) :
    ∃ front rest, fields = front ++ (key, old) :: rest ∧ key ∉ keys front ∧
      ∀ value, fields.set key value = front ++ (key, value) :: rest := by
  induction fields with
  | nil => simp [get?] at h
  | cons field fields ih =>
      obtain ⟨k, v⟩ := field
      rw [get?_cons] at h
      by_cases hk : key = k
      · rw [if_pos hk] at h
        obtain rfl := Option.some.inj h
        subst hk
        exact ⟨[], fields, rfl, by simp [keys], fun value => by simp [set]⟩
      · rw [if_neg hk] at h
        obtain ⟨front, rest, hsplit, hfront, hset⟩ := ih h
        refine ⟨(k, v) :: front, rest, by rw [hsplit]; rfl, ?_, fun value => ?_⟩
        · simpa [keys, hk] using hfront
        · simp [set, Ne.symm hk, hset value]

/-- A key that is not there goes to the end, behind all other fields. -/
theorem set_of_get?_eq_none {fields : Fields} {key : String} (value : Json)
    (h : fields.get? key = none) : fields.set key value = fields ++ [(key, value)] := by
  induction fields with
  | nil => rfl
  | cons field fields ih =>
      obtain ⟨k, v⟩ := field
      rw [get?_cons] at h
      by_cases hk : key = k
      · simp [hk] at h
      · rw [if_neg hk] at h
        simp [set, Ne.symm hk, ih h]

theorem get?_eq_none_iff {fields : Fields} {key : String} :
    fields.get? key = none ↔ key ∉ keys fields := by
  induction fields with
  | nil => simp [get?, keys]
  | cons field fields ih =>
      obtain ⟨k, v⟩ := field
      rw [get?_cons]
      by_cases hk : key = k
      · simp [keys, hk]
      · simpa [keys, hk] using ih

/-- Where each key stands once, its value is that of any field with this key.
It passes from lookup to membership and back. -/
theorem get?_eq_some_iff_mem {fields : Fields} (hkeys : fields.keys.Nodup) {key : String}
    {value : Json} : fields.get? key = some value ↔ (key, value) ∈ fields := by
  constructor
  · intro h
    obtain ⟨front, rest, rfl, -⟩ := exists_split_of_get? h
    exact List.mem_append_right front List.mem_cons_self
  · intro h
    induction fields with
    | nil => cases h
    | cons field fields ih =>
        obtain ⟨hfirst, hrest⟩ := List.nodup_cons.1 hkeys
        rw [get?_cons]
        rcases List.mem_cons.1 h with rfl | hmem
        · rw [if_pos rfl]
        · rw [if_neg]
          · exact ih hrest hmem
          · rintro rfl
            exact hfirst (List.mem_map.2 ⟨_, hmem, rfl⟩)

/-- Where each key stands once, the order of the fields does not matter. With
a key twice it would, as the first one is read. -/
theorem get?_perm {fields other : Fields} (hkeys : fields.keys.Nodup) (h : fields.Perm other)
    (key : String) : fields.get? key = other.get? key := by
  have hother : other.keys.Nodup := (h.map Prod.fst).nodup_iff.1 hkeys
  ext value
  rw [get?_eq_some_iff_mem hkeys, get?_eq_some_iff_mem hother, h.mem_iff]

theorem keys_set (fields : Fields) (key : String) (v : Json) :
    (fields.set key v).keys = if key ∈ fields.keys then fields.keys else fields.keys ++ [key] := by
  cases hget : fields.get? key with
  | none =>
      rw [set_of_get?_eq_none v hget, if_neg (get?_eq_none_iff.1 hget)]
      simp [keys]
  | some old =>
      obtain ⟨front, rest, hsplit, -, hset⟩ := exists_split_of_get? hget
      rw [hset v, hsplit]
      simp [keys]

/-- What holds of all values of an object and of another value holds after
that one is set. It is used for properties that go down into values. -/
theorem forall_mem_set {fields : Fields} {P : Json → Prop} (h : ∀ field ∈ fields, P field.2)
    (key : String) {value : Json} (hvalue : P value) :
    ∀ field ∈ fields.set key value, P field.2 := by
  intro field hfield
  cases hget : fields.get? key with
  | none =>
      rw [set_of_get?_eq_none value hget] at hfield
      rcases List.mem_append.1 hfield with hold | hnew
      · exact h field hold
      · rw [List.mem_singleton.1 hnew]
        exact hvalue
  | some old =>
      obtain ⟨front, rest, hsplit, -, hset⟩ := exists_split_of_get? hget
      rw [hset value] at hfield
      rcases List.mem_append.1 hfield with hold | hnew
      · exact h field (hsplit ▸ List.mem_append_left _ hold)
      · rcases List.mem_cons.1 hnew with rfl | hold
        · exact hvalue
        · exact h field (hsplit ▸ List.mem_append_right _ (List.mem_cons_of_mem _ hold))

theorem nodup_keys_set {fields : Fields} (h : fields.keys.Nodup) (key : String) (value : Json) :
    (fields.set key value).keys.Nodup := by
  rw [keys_set]
  split
  · exact h
  · next hnew =>
    refine List.nodup_append.2 ⟨h, by simp, ?_⟩
    rintro k hk other hother rfl
    rw [List.mem_singleton] at hother
    exact hnew (hother ▸ hk)

@[simp] theorem get?_set_self (fields : Fields) (key : String) (value : Json) :
    (fields.set key value).get? key = some value := by
  induction fields with
  | nil => simp [set, get?_cons]
  | cons field fields ih =>
      obtain ⟨k, v⟩ := field
      by_cases hk : k = key
      · simp [set, hk, get?_cons]
      · simp [set, hk, get?_cons, Ne.symm hk, ih]

theorem get?_set_of_ne (fields : Fields) {key other : String} (value : Json)
    (h : other ≠ key) : (fields.set key value).get? other = fields.get? other := by
  induction fields with
  | nil => simp [set, get?_cons, h]
  | cons field fields ih =>
      obtain ⟨k, v⟩ := field
      by_cases hk : k = key
      · simp [set, hk, get?_cons, h]
      · simp [set, hk, get?_cons, ih]

@[simp] theorem set_set (fields : Fields) (key : String) (value next : Json) :
    (fields.set key value).set key next = fields.set key next := by
  induction fields with
  | nil => simp [set]
  | cons field fields ih =>
      obtain ⟨k, v⟩ := field
      by_cases hk : k = key
      · simp [set, hk]
      · simp [set, hk, ih]

/-- Setting two keys in either order is the same if one of them is there
already, since at most one key then goes to the end. -/
theorem set_comm (fields : Fields) {key other : String} (value next : Json)
    (hne : key ≠ other) (hthere : fields.get? key ≠ none) :
    (fields.set other next).set key value = (fields.set key value).set other next := by
  induction fields with
  | nil => simp [get?] at hthere
  | cons field fields ih =>
      obtain ⟨k, v⟩ := field
      rw [get?_cons] at hthere
      by_cases hk : k = key
      · subst hk
        simp [set, hne]
      · rw [if_neg (Ne.symm hk)] at hthere
        by_cases ho : k = other
        · subst ho
          simp [set, hk]
        · simp [set, hk, ho, ih hthere]

theorem keys_mapValues (fields : Fields) (value : String × Json → Json) :
    keys (fields.map fun field => (field.1, value field)) = keys fields := by
  unfold keys
  rw [List.map_map]
  rfl

theorem set_eq_self {fields : Fields} {key : String} {value : Json}
    (h : fields.get? key = some value) : fields.set key value = fields := by
  obtain ⟨front, rest, hsplit, -, hset⟩ := exists_split_of_get? h
  rw [hset value, ← hsplit]

theorem text?_congr {fields other : Fields} {key : String}
    (h : fields.get? key = other.get? key) : fields.text? key = other.text? key := by
  simp [text?, h]

theorem text?_eq_some_iff {fields : Fields} {key text : String} :
    fields.text? key = some text ↔ fields.get? key = some (.string text) := by
  unfold text?
  split
  · next found h => simp [h]
  · next h =>
      constructor
      · intro hnone
        cases hnone
      · intro hsome
        exact absurd hsome (h text)

theorem items?_eq_some_iff {fields : Fields} {key : String} {items : List Json} :
    fields.items? key = some items ↔ fields.get? key = some (.array items) := by
  unfold items?
  split
  · next found h => simp [h]
  · next h =>
      constructor
      · intro hnone
        cases hnone
      · intro hsome
        exact absurd hsome (h items)

@[simp] theorem items?_set_self (fields : Fields) (key : String) (items : List Json) :
    (fields.set key (.array items)).items? key = some items :=
  items?_eq_some_iff.2 (get?_set_self fields key _)

theorem items?_congr {fields other : Fields} {key : String}
    (h : fields.get? key = other.get? key) : fields.items? key = other.items? key := by
  simp [items?, h]

end SymbolPatterns.Json.Fields
