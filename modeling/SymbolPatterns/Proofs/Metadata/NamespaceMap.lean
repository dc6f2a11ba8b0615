import SymbolPatterns.Proofs.Metadata.Documents

/-!
What the document of an application tells. Its namespace map tells each key as a
namespace, and the classes under it whatever the key is. Collections of classes
have three forms, and what has none of them tells nothing.
-/

namespace SymbolPatterns.Metadata

open Json (Fields HasField HasItem Rearranged)

/-- An item of a list gives a name: a text its own, an object the one that it
has as a field. Other items give none. -/
def ItemNames (item : Json) (name : String) : Prop :=
  item = .string name ∨ HasField item "name" (.string name)

/-- A collection of classes gives the keys of an object, or what the items of
a list name. A text or a number gives nothing and refuses nothing. -/
def GivesClass (classes : Json) (name : String) : Prop :=
  (∃ content, HasField classes name content) ∨ ∃ item, HasItem classes item ∧ ItemNames item name

theorem mem_itemNames_iff {item : Json} (hitem : item.WellFormed) {name : String} :
    (name ∈ match item with
      | .string name => [name]
      | .object fields => (Fields.text? fields "name").toList
      | _ => []) ↔ ItemNames item name := by
  unfold ItemNames
  cases item with
  | string text => simp [Json.not_hasField, eq_comm]
  | object fields =>
      rw [Json.hasField_iff_get? (Json.wellFormed_object.1 hitem).1, Option.mem_toList,
        or_iff_right nofun]
      unfold Fields.text?
      split
      · next text hget => simp [hget]
      · next hnone => exact ⟨nofun, fun hget => absurd hget (hnone name)⟩
  | null | bool | number | array => simp [Json.not_hasField]

theorem mem_classNames_iff {classes : Json} (h : classes.WellFormed) {name : String} :
    name ∈ classNames classes ↔ GivesClass classes name := by
  unfold GivesClass
  cases classes with
  | object fields => simp [classNames, Fields.keys, Json.not_hasItem]
  | array items =>
      have hitems := Json.wellFormed_array.1 h
      simp only [classNames, List.mem_flatMap, Json.hasItem_array, Json.not_hasField, ne_eq,
        reduceCtorEq, not_false_eq_true, implies_true, exists_false, false_or]
      refine exists_congr fun item => and_congr_right fun hitem => ?_
      exact mem_itemNames_iff (hitems item hitem)
  | null | bool | number | string => simp [classNames, Json.not_hasField, Json.not_hasItem]

/-- What the document of an application tells: the keys of its namespace map,
and the names of the classes under any of them. It tells no functions. A key
that is no valid namespace still has its classes told. -/
def ApplicationTells (document : Json) : Symbol → Prop
  | .namespaceName name => ∃ map classes, HasField document "ns" map ∧ HasField map name classes
  | .typeName name => ∃ map key classes, HasField document "ns" map ∧ HasField map key classes ∧
      GivesClass classes name
  | .functionName _ => False

theorem mem_mapSymbols_iff {namespaces : Fields} (h : (Json.object namespaces).WellFormed)
    (symbol : Symbol) :
    symbol ∈ (namespaces.flatMap fun (name, classes) =>
        .namespaceName name :: (classNames classes).map .typeName) ↔
      match symbol with
      | .namespaceName name => ∃ classes, (name, classes) ∈ namespaces
      | .typeName name => ∃ key classes, (key, classes) ∈ namespaces ∧ GivesClass classes name
      | .functionName _ => False := by
  cases symbol with
  | namespaceName name => simp
  | typeName name =>
      have hclasses := (Json.wellFormed_object.1 h).2
      simp only [List.mem_flatMap, Prod.exists, List.mem_cons, reduceCtorEq, List.mem_map,
        Symbol.typeName.injEq, exists_eq_right, false_or]
      refine exists_congr fun key => exists_congr fun classes => and_congr_right fun hfield => ?_
      exact mem_classNames_iff (hclasses _ hfield)
  | functionName name => simp

theorem mem_applicationSymbols_iff {fields : Fields} (h : (Json.object fields).WellFormed)
    (symbol : Symbol) :
    symbol ∈ applicationSymbols fields ↔ ApplicationTells (.object fields) symbol := by
  have hns : ∀ map, HasField (.object fields) "ns" map ↔ fields.get? "ns" = some map :=
    Json.hasField_iff_get? (Json.wellFormed_object.1 h).1 "ns"
  unfold applicationSymbols
  split
  · next namespaces hget =>
    rw [mem_mapSymbols_iff (((hns _).2 hget).wellFormed h)]
    cases symbol <;> simp [ApplicationTells, hns, hget]
  · next hnone =>
    have hmap : ∀ map, HasField (.object fields) "ns" map → ∀ key classes,
        ¬HasField map key classes := fun map hfield key classes =>
      Json.not_hasField (fun namespaces hobject => hnone namespaces (hobject ▸ (hns map).1 hfield))
        key classes
    refine ⟨nofun, fun htells => ?_⟩
    cases symbol with
    | namespaceName name =>
        obtain ⟨map, classes, hfield, hname⟩ := htells
        exact absurd hname (hmap map hfield name classes)
    | typeName name =>
        obtain ⟨map, key, classes, hfield, hname, -⟩ := htells
        exact absurd hname (hmap map hfield key classes)
    | functionName name => exact htells.elim

theorem ItemNames.rearranged {item twin : Json} {name : String} (h : ItemNames item name)
    (hsame : Rearranged item twin) : ItemNames twin name := by
  rcases h with rfl | hnamed
  · exact .inl hsame.eq_string
  · exact .inr (hsame.hasText hnamed)

theorem GivesClass.rearranged {classes twin : Json} {name : String} (h : GivesClass classes name)
    (hsame : Rearranged classes twin) : GivesClass twin name := by
  rcases h with ⟨content, hfield⟩ | ⟨item, hitem, hnames⟩
  · obtain ⟨other, hother, -⟩ := hsame.hasField hfield
    exact .inl ⟨other, hother⟩
  · obtain ⟨other, hother, hturned⟩ := hsame.hasItem hitem
    exact .inr ⟨other, hother, hnames.rearranged hturned⟩

theorem applicationTells_rearranged {document other : Json} (hsame : Rearranged document other)
    {symbol : Symbol} (h : ApplicationTells document symbol) : ApplicationTells other symbol := by
  cases symbol with
  | namespaceName name =>
      obtain ⟨map, classes, hmap, hname⟩ := h
      obtain ⟨map', hmap', hturned⟩ := hsame.hasField hmap
      obtain ⟨classes', hname', -⟩ := hturned.hasField hname
      exact ⟨map', classes', hmap', hname'⟩
  | typeName name =>
      obtain ⟨map, key, classes, hmap, hkey, hclass⟩ := h
      obtain ⟨map', hmap', hturned⟩ := hsame.hasField hmap
      obtain ⟨classes', hkey', hinner⟩ := hturned.hasField hkey
      exact ⟨map', key, classes', hmap', hkey', hclass.rearranged hinner⟩
  | functionName name => exact h

theorem extracts_application : Extracts .application ApplicationTells :=
  extracts_of_symbols (fun _ _ => rfl) fun _ symbol h => mem_applicationSymbols_iff h symbol

/-- The document of an application is refused exactly if it is no object, and
else adds what its namespace map tells and no functions. The order of keys and
items makes no difference, at whatever depth. A document without a namespace
map is read and adds nothing. -/
theorem application_extracts_namespaces :
    Extracts .application ApplicationTells ∧
      (∀ (origin : Path) (content : String) (before after : SymbolSet),
        read .application origin content before = .ok after →
          after.functions = before.functions) ∧
      ∀ (origin other : Path) (content twin : String) (fields others : Fields) (before : SymbolSet),
        Json.parse content = .ok (.object fields) → Json.parse twin = .ok (.object others) →
          Rearranged (.object fields) (.object others) →
            read .application other twin before = read .application origin content before := by
  refine ⟨extracts_application, fun origin content before after h => ?_,
    fun origin other content twin fields others before hfields hothers h => ?_⟩
  · obtain ⟨fields, hfields⟩ : ∃ fields, Json.parse content = .ok (.object fields) := by
      by_contra hnone
      obtain ⟨failure, hfailure⟩ := (extracts_application.refuses origin content before).2 hnone
      rw [h] at hfailure
      cases hfailure
    have hgrows := (extracts_application.grows hfields).1 h
    ext name
    simpa [SymbolSet.holds, ApplicationTells] using hgrows (.functionName name)
  · exact extracts_application.read_eq hfields hothers
      (fun _ => ⟨applicationTells_rearranged h, applicationTells_rearranged h.symm⟩) before

/-- Classes in all three forms, under a key that is no identifier and among
reserved names. -/
def mixedClasses : String :=
  "\x7b\"v\": null, \"ns\": \x7b\"no name\": [\"A\", 3, \x7b\"id\": 1, \"name\": \"B\"\x7d], " ++
    "\"UI\": \x7b\"int\": \x7b\x7d, \"C\": null\x7d\x7d\x7d"

/-- The same with every list and object turned round. -/
def turnedClasses : String :=
  "\x7b\"ns\": \x7b\"UI\": \x7b\"C\": null, \"int\": \x7b\x7d\x7d, \"no name\": " ++
    "[\x7b\"name\": \"B\", \"id\": 1\x7d, 3, \"A\"]\x7d, \"v\": null\x7d"

def mixedFields : Fields :=
  [("v", .null), ("ns", .object [
    ("no name", .array [.string "A", .number (.integer 3),
      .object [("id", .number (.integer 1)), ("name", .string "B")]]),
    ("UI", .object [("int", .object []), ("C", .null)])])]

def turnedFields : Fields :=
  [("ns", .object [
    ("UI", .object [("C", .null), ("int", .object [])]),
    ("no name", .array [.object [("name", .string "B"), ("id", .number (.integer 1))],
      .number (.integer 3), .string "A"])]), ("v", .null)]

theorem mixedFields_rearranged : Rearranged (.object mixedFields) (.object turnedFields) := by
  have hobject : ∀ first second : String × Json,
      Rearranged (.object [first, second]) (.object [second, first]) := fun first second =>
    .fields (List.Perm.swap second first [])
  have hlist : Rearranged
      (.array [.string "A", .number (.integer 3),
        .object [("id", .number (.integer 1)), ("name", .string "B")]])
      (.array [.object [("name", .string "B"), ("id", .number (.integer 1))],
        .number (.integer 3), .string "A"]) :=
    .trans (.item [_, _] [] (hobject _ _)) (.items (List.reverse_perm _).symm)
  have hkeys : Rearranged (.object [("int", .object []), ("C", .null)])
      (.object [("C", .null), ("int", .object [])]) := hobject _ _
  have hmap := (Rearranged.field [] [("UI", _)] "no name" hlist).trans (.field [_] [] "UI" hkeys)
  exact .trans (.field [_] [] "ns" (hmap.trans (hobject _ _))) (hobject _ _)

/-- Turned round, the map gives the same classes, those under the invalid key
among them. -/
theorem turnedClasses_read :
    read .application ⟨"b.json"⟩ turnedClasses ∅ = read .application ⟨"a.json"⟩ mixedClasses ∅ ∧
      (read .application ⟨"a.json"⟩ mixedClasses ∅).toOption.map
        (fun set => (set.namespaces.names, set.types.names)) = some (["UI"], ["A", "B", "C"]) := by
  have hmixed : Json.parse mixedClasses = .ok (.object mixedFields) :=
    eq_ok_of_toOption (by decide +kernel)
  have hturned : Json.parse turnedClasses = .ok (.object turnedFields) :=
    eq_ok_of_toOption (by decide +kernel)
  exact ⟨application_extracts_namespaces.2.2 _ _ _ _ _ _ ∅ hmixed hturned mixedFields_rearranged,
    by decide +kernel⟩

end SymbolPatterns.Metadata
