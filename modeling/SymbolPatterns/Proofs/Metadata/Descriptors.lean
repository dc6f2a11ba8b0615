import SymbolPatterns.Proofs.Metadata.Documents

/-!
What a core document tells, entry by entry. Whether an entry is well-formed
shows in the entry alone, and one that is not tells nothing, so neither the
order of entries nor their repetition matters, nor what stands between them.
-/

namespace SymbolPatterns.Metadata

open Json (Fields HasField HasItem Rearranged)

/-- A well-formed entry is an object whose name and namespace are texts, if
they are there and not null, and which has at most one of the two keys of the
namespace. All else that it holds is free. -/
structure IsDescriptor (entry : Json) : Prop where
  isObject : ∃ fields, entry = .object fields
  texts : ∀ key ∈ ["name", "ns", "namespace"], ∀ content, HasField entry key content →
    content = .null ∨ ∃ text, content = .string text
  oneOwner : ∀ short long, HasField entry "ns" short → ¬HasField entry "namespace" long

/-- The entry gives a name. Whether the name is valid is asked when it is put
into a set. -/
def Named (entry : Json) (name : String) : Prop := HasField entry "name" (.string name)

/-- The entry gives a namespace, be it the empty one, under either of the two
keys. -/
def Owned (entry : Json) (owner : String) : Prop :=
  HasField entry "ns" (.string owner) ∨ HasField entry "namespace" (.string owner)

/-- A field that is a text, if it is there and not null; any other value makes
the entry ill-formed. -/
def MayHoldText (fields : Fields) (key : String) : Prop :=
  ∀ content, fields.get? key = some content → content = .null ∨ ∃ text, content = .string text

theorem optionalText?_eq_some_iff {fields : Fields} {key : String} {result : Option String} :
    optionalText? fields key = some result ↔ MayHoldText fields key ∧
      ∀ text, result = some text ↔ fields.get? key = some (.string text) := by
  unfold optionalText? MayHoldText
  split
  · next hget => simp [hget, Option.eq_none_iff_forall_ne_some, eq_comm]
  · next hget => simp [hget, Option.eq_none_iff_forall_ne_some, eq_comm]
  · next text hget =>
    rw [hget, Option.some.injEq]
    constructor
    · rintro rfl
      simp
    · rintro ⟨-, h⟩
      exact ((h text).2 rfl).symm
  · next content hnull htext hget =>
    refine ⟨nofun, fun h => ?_⟩
    rcases h.1 content hget with rfl | ⟨text, rfl⟩
    · exact (hnull rfl).elim
    · exact (htext text rfl).elim

theorem isSome_optionalText?_iff {fields : Fields} {key : String} :
    (optionalText? fields key).isSome = true ↔ MayHoldText fields key := by
  constructor
  · intro h
    obtain ⟨result, hresult⟩ := Option.isSome_iff_exists.1 h
    exact (optionalText?_eq_some_iff.1 hresult).1
  · intro h
    refine Option.isSome_iff_exists.2 ⟨fields.text? key, optionalText?_eq_some_iff.2 ⟨h, ?_⟩⟩
    intro text
    unfold Fields.text?
    split
    · next hget => rw [hget]; simp
    · next hnone => exact ⟨nofun, fun hget => absurd hget (hnone text)⟩

theorem isDescriptor_object {fields : Fields} (hkeys : fields.keys.Nodup) :
    IsDescriptor (.object fields) ↔
      MayHoldText fields "name" ∧ MayHoldText fields "ns" ∧ MayHoldText fields "namespace" ∧
        ¬((fields.get? "ns").isSome = true ∧ (fields.get? "namespace").isSome = true) := by
  have htext : ∀ key, MayHoldText fields key ↔ ∀ content, HasField (.object fields) key content →
      content = .null ∨ ∃ text, content = .string text := fun key => by
    simp only [MayHoldText, Json.hasField_iff_get? hkeys]
  constructor
  · rintro ⟨-, htexts, hone⟩
    refine ⟨(htext _).2 (htexts _ (by simp)), (htext _).2 (htexts _ (by simp)),
      (htext _).2 (htexts _ (by simp)), ?_⟩
    rintro ⟨hshort, hlong⟩
    obtain ⟨short, hshort⟩ := Option.isSome_iff_exists.1 hshort
    obtain ⟨long, hlong⟩ := Option.isSome_iff_exists.1 hlong
    exact hone short long ((Json.hasField_iff_get? hkeys _ _).2 hshort)
      ((Json.hasField_iff_get? hkeys _ _).2 hlong)
  · rintro ⟨hname, hns, hnamespace, hone⟩
    refine ⟨⟨fields, rfl⟩, ?_, fun short long hshort hlong => hone ⟨?_, ?_⟩⟩
    · simp only [List.forall_mem_cons]
      exact ⟨(htext _).1 hname, (htext _).1 hns, (htext _).1 hnamespace, nofun⟩
    · exact Option.isSome_iff_exists.2 ⟨short, (Json.hasField_iff_get? hkeys _ _).1 hshort⟩
    · exact Option.isSome_iff_exists.2 ⟨long, (Json.hasField_iff_get? hkeys _ _).1 hlong⟩

theorem owner_iff {fields : Fields} (hone : ¬((fields.get? "ns").isSome = true ∧
      (fields.get? "namespace").isSome = true)) {short long : Option String}
    (hshort : ∀ text, short = some text ↔ fields.get? "ns" = some (.string text))
    (hlong : ∀ text, long = some text ↔ fields.get? "namespace" = some (.string text))
    (owner : String) :
    ((short.orElse fun _ => long).filter fun owner => owner ≠ "") = some owner ↔
      owner ≠ "" ∧ (fields.get? "ns" = some (.string owner) ∨
        fields.get? "namespace" = some (.string owner)) := by
  rw [Option.filter_eq_some_iff, decide_eq_true_eq, and_comm, ← hshort, ← hlong]
  refine and_congr_right fun _ => ?_
  cases short with
  | none => simp
  | some text =>
      -- The other key is not there.
      have hns := (hshort text).1 rfl
      have hnone : long ≠ some owner := fun h => hone ⟨by simp [hns], by simp [(hlong owner).1 h]⟩
      simp [hnone]

/-- What is read of an entry are the texts that it gives. An entry that is not
well-formed is not read at all, rather than in part. -/
theorem entry_texts {fields : Fields} (hkeys : fields.keys.Nodup) {d : Descriptor}
    (h : Descriptor.ofEntry? (.object fields) = some d) :
    IsDescriptor (.object fields) ∧ (∀ name, d.name = some name ↔ Named (.object fields) name) ∧
      ∀ owner, d.owner = some owner ↔ owner ≠ "" ∧ Owned (.object fields) owner := by
  obtain ⟨name, hname, h⟩ := Option.bind_eq_some_iff.1 h
  dsimp only at h
  split at h
  · cases h
  · next hone =>
    rw [Bool.and_eq_true] at hone
    obtain ⟨short, hshort, h⟩ := Option.bind_eq_some_iff.1 h
    obtain ⟨long, hlong, h⟩ := Option.bind_eq_some_iff.1 h
    obtain rfl := Option.some.inj h
    obtain ⟨hmayName, hname⟩ := optionalText?_eq_some_iff.1 hname
    obtain ⟨hmayShort, hshort⟩ := optionalText?_eq_some_iff.1 hshort
    obtain ⟨hmayLong, hlong⟩ := optionalText?_eq_some_iff.1 hlong
    refine ⟨(isDescriptor_object hkeys).2 ⟨hmayName, hmayShort, hmayLong, hone⟩, fun text => ?_,
      fun owner => ?_⟩
    · rw [Named, Json.hasField_iff_get? hkeys]
      exact hname text
    · rw [Owned, Json.hasField_iff_get? hkeys, Json.hasField_iff_get? hkeys]
      exact owner_iff hone hshort hlong owner

theorem exists_descriptor {fields : Fields} (hkeys : fields.keys.Nodup)
    (h : IsDescriptor (.object fields)) : ∃ d, Descriptor.ofEntry? (.object fields) = some d := by
  obtain ⟨hmayName, hmayShort, hmayLong, hone⟩ := (isDescriptor_object hkeys).1 h
  obtain ⟨name, hname⟩ := Option.isSome_iff_exists.1 (isSome_optionalText?_iff.2 hmayName)
  obtain ⟨short, hshort⟩ := Option.isSome_iff_exists.1 (isSome_optionalText?_iff.2 hmayShort)
  obtain ⟨long, hlong⟩ := Option.isSome_iff_exists.1 (isSome_optionalText?_iff.2 hmayLong)
  refine ⟨⟨name, (short.orElse fun _ => long).filter fun owner => owner ≠ ""⟩, ?_⟩
  simpa [Descriptor.ofEntry?, Json.fields?, hname, hshort, hlong] using hone

/-- The symbols that an entry of a list gives. The list decides whether its
name is that of a type or of a function, or of nothing; a namespace is given
in every list. -/
def EntryTells (list : DescriptorList) (entry : Json) : Symbol → Prop
  | .namespaceName name => name ≠ "" ∧ Owned entry name
  | .typeName name => list = .classes ∧ Named entry name
  | .functionName name =>
      list = .functions ∧ Named entry name ∧ ∀ owner, Owned entry owner → owner = ""

theorem mem_symbols_iff {fields : Fields} (hkeys : fields.keys.Nodup) {d : Descriptor}
    (h : Descriptor.ofEntry? (.object fields) = some d) (list : DescriptorList) (symbol : Symbol) :
    symbol ∈ d.symbols list ↔ EntryTells list (.object fields) symbol := by
  obtain ⟨-, hname, howner⟩ := entry_texts hkeys h
  have hfree : d.owner.isNone = true ↔ ∀ owner, Owned (.object fields) owner → owner = "" := by
    rw [Option.isNone_iff_eq_none, Option.eq_none_iff_forall_ne_some]
    refine forall_congr' fun owner => ?_
    rw [Ne, howner, not_and]
    exact ⟨fun h howned => of_not_not fun hne => h hne howned, fun h hne howned => hne (h howned)⟩
  cases symbol with
  | namespaceName name => cases list <;> simp [Descriptor.symbols, EntryTells, howner]
  | typeName name => cases list <;> simp [Descriptor.symbols, EntryTells, hname]
  | functionName name =>
      cases list <;> simp [Descriptor.symbols, EntryTells, hname, hfree, and_comm]

theorem mem_ofEntry?_iff {entry : Json} (hentry : entry.WellFormed) (list : DescriptorList)
    (symbol : Symbol) :
    symbol ∈ (Descriptor.ofEntry? entry).toList.flatMap (Descriptor.symbols list) ↔
      IsDescriptor entry ∧ EntryTells list entry symbol := by
  cases entry with
  | object fields =>
      have hkeys := (Json.wellFormed_object.1 hentry).1
      constructor
      · intro h
        obtain ⟨d, hd, hsymbol⟩ := List.mem_flatMap.1 h
        have hread := Option.mem_toList.1 hd
        exact ⟨(entry_texts hkeys hread).1, (mem_symbols_iff hkeys hread list symbol).1 hsymbol⟩
      · rintro ⟨hdescriptor, htells⟩
        obtain ⟨d, hread⟩ := exists_descriptor hkeys hdescriptor
        rw [hread]
        exact List.mem_flatMap.2
          ⟨d, List.mem_singleton_self d, (mem_symbols_iff hkeys hread list symbol).2 htells⟩
  | _ =>
      refine ⟨nofun, ?_⟩
      rintro ⟨⟨⟨fields, hobject⟩, -, -⟩, -⟩
      cases hobject

/-- An entry of the list that a document has under a key. A field that is no
list has no entries and refuses nothing. -/
def Lists (document : Json) (key : String) (entry : Json) : Prop :=
  ∃ list, HasField document key list ∧ HasItem list entry

/-- What a core document tells: the namespaces of the well-formed entries of
all five lists, the names of classes, and those of functions without a
namespace. The rules name the fields of the document and no function that
reads them. -/
def CoreTells (document : Json) : Symbol → Prop
  | .namespaceName name => name ≠ "" ∧
      ∃ key ∈ ["functions", "enums", "props", "funcdefs", "classes"], ∃ entry,
        Lists document key entry ∧ IsDescriptor entry ∧ Owned entry name
  | .typeName name => ∃ entry, Lists document "classes" entry ∧ IsDescriptor entry ∧
      Named entry name
  | .functionName name => ∃ entry, Lists document "functions" entry ∧ IsDescriptor entry ∧
      Named entry name ∧ ∀ owner, Owned entry owner → owner = ""

theorem lists_iff {fields : Fields} (hkeys : fields.keys.Nodup) (key : String) (entry : Json) :
    Lists (.object fields) key entry ↔ entry ∈ (fields.items? key).getD [] := by
  unfold Lists Json.Fields.items?
  simp only [Json.hasField_iff_get? hkeys]
  split
  · next items hget => simp [hget]
  · next hnone =>
    simp only [Option.getD_none, List.not_mem_nil, iff_false]
    rintro ⟨list, hget, items, rfl, -⟩
    exact hnone items hget

theorem mem_coreSymbols_iff {fields : Fields} (h : (Json.object fields).WellFormed)
    (symbol : Symbol) :
    symbol ∈ coreSymbols fields ↔ ∃ key list, (key, list) ∈ descriptorLists ∧ ∃ entry,
      Lists (.object fields) key entry ∧ IsDescriptor entry ∧ EntryTells list entry symbol := by
  have hlists := lists_iff (Json.wellFormed_object.1 h).1
  have hentries : ∀ key entry, Lists (.object fields) key entry → entry.WellFormed := by
    rintro key entry ⟨list, hlist, hentry⟩
    exact hentry.wellFormed (hlist.wellFormed h)
  unfold coreSymbols
  constructor
  · intro hsymbol
    obtain ⟨⟨key, list⟩, hpart, hsymbol⟩ := List.mem_flatMap.1 hsymbol
    obtain ⟨entry, hentry, hsymbol⟩ := List.mem_flatMap.1 hsymbol
    have hlisted := (hlists key entry).2 hentry
    exact ⟨key, list, hpart, entry, hlisted,
      (mem_ofEntry?_iff (hentries key entry hlisted) list symbol).1 hsymbol⟩
  · rintro ⟨key, list, hpart, entry, hlisted, htells⟩
    refine List.mem_flatMap.2 ⟨(key, list), hpart, List.mem_flatMap.2 ⟨entry, ?_, ?_⟩⟩
    · exact (hlists key entry).1 hlisted
    · exact (mem_ofEntry?_iff (hentries key entry hlisted) list symbol).2 htells

theorem coreTells_iff (document : Json) (symbol : Symbol) :
    CoreTells document symbol ↔ ∃ key list, (key, list) ∈ descriptorLists ∧ ∃ entry,
      Lists document key entry ∧ IsDescriptor entry ∧ EntryTells list entry symbol := by
  cases symbol with
  | namespaceName name =>
      have hkeys : ∀ key, key ∈ ["functions", "enums", "props", "funcdefs", "classes"] ↔
          ∃ list, (key, list) ∈ descriptorLists := fun key => by
        rw [show ["functions", "enums", "props", "funcdefs", "classes"] =
          descriptorLists.map Prod.fst from rfl]
        simp
      constructor
      · rintro ⟨hne, key, hkey, entry, hlisted, hdescriptor, howned⟩
        obtain ⟨list, hpart⟩ := (hkeys key).1 hkey
        exact ⟨key, list, hpart, entry, hlisted, hdescriptor, hne, howned⟩
      · rintro ⟨key, list, hpart, entry, hlisted, hdescriptor, hne, howned⟩
        exact ⟨hne, key, (hkeys key).2 ⟨list, hpart⟩, entry, hlisted, hdescriptor, howned⟩
  | typeName name => simp [CoreTells, descriptorLists, EntryTells]
  | functionName name => simp [CoreTells, descriptorLists, EntryTells]

section

variable {entry twin : Json}

theorem Owned.rearranged {owner : String} (h : Owned entry owner) (hsame : Rearranged entry twin) :
    Owned twin owner := h.imp hsame.hasText hsame.hasText

theorem IsDescriptor.rearranged (h : IsDescriptor entry) (hsame : Rearranged entry twin) :
    IsDescriptor twin where
  isObject := hsame.isObject h.isObject
  texts key hkey content hfield := by
    obtain ⟨old, hold, hcontent⟩ := hsame.symm.hasField hfield
    rcases h.texts key hkey old hold with rfl | ⟨text, rfl⟩
    · exact .inl hcontent.symm.eq_null
    · exact .inr ⟨text, hcontent.symm.eq_string⟩
  oneOwner short long hshort hlong := by
    obtain ⟨oldShort, hshort, -⟩ := hsame.symm.hasField hshort
    obtain ⟨oldLong, hlong, -⟩ := hsame.symm.hasField hlong
    exact h.oneOwner oldShort oldLong hshort hlong

theorem entryTells_rearranged {list : DescriptorList} {symbol : Symbol}
    (h : EntryTells list entry symbol) (hsame : Rearranged entry twin) :
    EntryTells list twin symbol := by
  cases symbol with
  | namespaceName name => exact ⟨h.1, h.2.rearranged hsame⟩
  | typeName name => exact ⟨h.1, hsame.hasText h.2⟩
  | functionName name =>
      obtain ⟨hlist, hnamed, hfree⟩ := h
      exact ⟨hlist, hsame.hasText hnamed, fun owner howned =>
        hfree owner (howned.rearranged hsame.symm)⟩

end

/-- Each well-formed entry of the lists of one document stands in the same
list of the other, with its fields in any order, at any place and as often as
may be, and so the other way round. Nothing is asked of entries that are not
well-formed. -/
structure SameEntries (document other : Json) : Prop where
  covered : ∀ {key : String} {entry : Json}, Lists document key entry → IsDescriptor entry →
    ∃ twin, Lists other key twin ∧ Rearranged entry twin
  covers : ∀ {key : String} {twin : Json}, Lists other key twin → IsDescriptor twin →
    ∃ entry, Lists document key entry ∧ Rearranged twin entry

theorem SameEntries.symm {document other : Json} (h : SameEntries document other) :
    SameEntries other document := ⟨h.covers, h.covered⟩

theorem SameEntries.coreTells {document other : Json} (h : SameEntries document other)
    {symbol : Symbol} (htells : CoreTells document symbol) : CoreTells other symbol := by
  obtain ⟨key, list, hpart, entry, hlisted, hdescriptor, hentry⟩ := (coreTells_iff _ _).1 htells
  obtain ⟨twin, htwin, hsame⟩ := h.covered hlisted hdescriptor
  exact (coreTells_iff _ _).2 ⟨key, list, hpart, twin, htwin, hdescriptor.rearranged hsame,
    entryTells_rearranged hentry hsame⟩

theorem extracts_core : Extracts .core CoreTells :=
  extracts_of_symbols (fun _ _ => rfl) fun fields symbol h =>
    (mem_coreSymbols_iff h symbol).trans (coreTells_iff (.object fields) symbol).symm

/-- A core document is refused exactly if it is no object, and else adds what
its well-formed entries tell. Documents with the same well-formed entries, in
whatever order and number and among whatever else, are read alike. A key that
comes twice counts by its last value. -/
theorem core_extracts_descriptors :
    Extracts .core CoreTells ∧
      ∀ (origin other : Path) (content twin : String) (fields others : Fields) (before : SymbolSet),
        Json.parse content = .ok (.object fields) → Json.parse twin = .ok (.object others) →
          SameEntries (.object fields) (.object others) →
            read .core other twin before = read .core origin content before := by
  refine ⟨extracts_core, fun origin other content twin fields others before hfields hothers h => ?_⟩
  exact extracts_core.read_eq hfields hothers
    (fun _ => ⟨h.coreTells, h.symm.coreTells⟩) before

/-- Two functions, one of them in a namespace. -/
def plainCore : String :=
  "\x7b\"functions\": [\x7b\"name\": \"f\"\x7d, \x7b\"name\": \"g\", \"ns\": \"N\"\x7d]\x7d"

/-- The same functions in another order, one of them twice, and between them a
number and an entry with both keys of a namespace. -/
def shuffledCore : String :=
  "\x7b\"functions\": [\x7b\"ns\": \"N\", \"name\": \"g\"\x7d, 7, \x7b\"name\": \"f\"\x7d, " ++
    "\x7b\"name\": \"h\", \"ns\": \"A\", \"namespace\": null\x7d, \x7b\"name\": \"f\"\x7d]\x7d"

def plainEntries : List Json :=
  [.object [("name", .string "f")], .object [("name", .string "g"), ("ns", .string "N")]]

def shuffledEntries : List Json :=
  [.object [("ns", .string "N"), ("name", .string "g")], .number (.integer 7),
    .object [("name", .string "f")],
    .object [("name", .string "h"), ("ns", .string "A"), ("namespace", .null)],
    .object [("name", .string "f")]]

theorem lists_functions_iff {items : List Json} {key : String} {entry : Json} :
    Lists (.object [("functions", .array items)]) key entry ↔ key = "functions" ∧ entry ∈ items := by
  simp [Lists, and_assoc]

theorem sameEntries_shuffled :
    SameEntries (.object [("functions", .array plainEntries)])
      (.object [("functions", .array shuffledEntries)]) := by
  have hturned : Rearranged (.object [("name", .string "g"), ("ns", .string "N")])
      (.object [("ns", .string "N"), ("name", .string "g")]) := .fields (List.Perm.swap _ _ _)
  refine ⟨fun {key entry} hlisted _ => ?_, fun {key twin} hlisted hdescriptor => ?_⟩
  · obtain ⟨rfl, hentry⟩ := lists_functions_iff.1 hlisted
    simp only [plainEntries, List.mem_cons, List.not_mem_nil, or_false] at hentry
    rcases hentry with rfl | rfl
    · exact ⟨_, lists_functions_iff.2 ⟨rfl, by simp [shuffledEntries]⟩, .refl _⟩
    · exact ⟨_, lists_functions_iff.2 ⟨rfl, by simp [shuffledEntries]⟩, hturned⟩
  · obtain ⟨rfl, htwin⟩ := lists_functions_iff.1 hlisted
    simp only [shuffledEntries, List.mem_cons, List.not_mem_nil, or_false] at htwin
    rcases htwin with rfl | rfl | rfl | rfl | rfl
    · exact ⟨_, lists_functions_iff.2 ⟨rfl, by simp [plainEntries]⟩, hturned.symm⟩
    · obtain ⟨fields, hobject⟩ := hdescriptor.isObject
      cases hobject
    · exact ⟨_, lists_functions_iff.2 ⟨rfl, by simp [plainEntries]⟩, .refl _⟩
    · exact (hdescriptor.oneOwner (.string "A") .null (by simp) (by simp)).elim
    · exact ⟨_, lists_functions_iff.2 ⟨rfl, by simp [plainEntries]⟩, .refl _⟩

/-- What the number and the entry with both keys are put between is read as if
they were not there. -/
theorem shuffledCore_read :
    read .core ⟨"b.json"⟩ shuffledCore ∅ = read .core ⟨"a.json"⟩ plainCore ∅ ∧
      (read .core ⟨"a.json"⟩ plainCore ∅).toOption.map
        (fun set => (set.namespaces.names, set.functions.names)) = some (["N"], ["f"]) := by
  have hplain : Json.parse plainCore = .ok (.object [("functions", .array plainEntries)]) :=
    eq_ok_of_toOption (by decide +kernel)
  have hshuffled : Json.parse shuffledCore =
      .ok (.object [("functions", .array shuffledEntries)]) :=
    eq_ok_of_toOption (by decide +kernel)
  exact ⟨core_extracts_descriptors.2 _ _ _ _ _ _ ∅ hplain hshuffled sameEntries_shuffled,
    by decide +kernel⟩

end SymbolPatterns.Metadata
