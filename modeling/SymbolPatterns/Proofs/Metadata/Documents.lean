import SymbolPatterns.Proofs.Json.Arrangement
import SymbolPatterns.Proofs.Json.Reading
import SymbolPatterns.Proofs.Metadata.History

/-!
Sources that are documents: the text has to be an object, and what the object
tells is added to the set as far as it is valid. What a document tells is
described by its fields and items, as a relation between the document and a
symbol.
-/

namespace SymbolPatterns.Metadata

variable {origin : Path} {content : String}

theorem readObject_eq_ok_iff {fields : Json.Fields} :
    readObject origin content = .ok fields ↔ Json.parse content = .ok (.object fields) := by
  unfold readObject
  split
  · next hparse => simp [hparse]
  · next hparse => simp [hparse]
  · next other hother hparse =>
    refine ⟨nofun, fun hobject => ?_⟩
    rw [hparse] at hobject
    exact absurd (Except.ok.inj hobject) (hother fields)

theorem malformed_of_readObject {failure : Failure}
    (h : readObject origin content = .error failure) :
    ∃ problem, failure = .malformedMetadata origin problem := by
  unfold readObject at h
  split at h
  · exact ⟨_, (Except.error.inj h).symm⟩
  · cases h
  · exact ⟨_, (Except.error.inj h).symm⟩

theorem readObject_eq_error_iff (origin : Path) (content : String) :
    (∃ failure, readObject origin content = .error failure) ↔
      ¬∃ fields, Json.parse content = .ok (.object fields) := by
  have hparse : ∀ fields, readObject origin content = .ok fields ↔
      Json.parse content = .ok (.object fields) := fun fields => readObject_eq_ok_iff
  simp only [← hparse]
  cases readObject origin content <;> simp

/-- A set holds what it held before, and of what was told the valid symbols.
There is one such set for each set and each thing told. -/
def GrowsBy (told : Symbol → Prop) (before after : SymbolSet) : Prop :=
  ∀ symbol, after.holds symbol = true ↔
    before.holds symbol = true ∨ told symbol ∧ symbol.isValid = true

theorem growsBy_addAll {told : Symbol → Prop} {symbols : List Symbol} (before : SymbolSet)
    (h : ∀ symbol, symbol ∈ symbols ↔ told symbol) :
    GrowsBy told before (before.addAll symbols) := fun symbol => by
  rw [SymbolSet.holds_addAll, h symbol]

theorem GrowsBy.unique {told : Symbol → Prop} {before after other : SymbolSet}
    (h : GrowsBy told before after) (hother : GrowsBy told before other) : after = other :=
  SymbolSet.eq_of_holds_iff fun symbol => (h symbol).trans (hother symbol).symm

/-- A reader of one kind of documents takes from each object exactly what the
object tells, and refuses whatever is no object. What an object tells is a
relation that the reader does not know of. -/
structure Extracts (kind : SourceKind) (told : Json → Symbol → Prop) : Prop where
  refuses : ∀ (origin : Path) (content : String) (before : SymbolSet),
    (∃ failure, read kind origin content before = .error failure) ↔
      ¬∃ fields, Json.parse content = .ok (.object fields)
  malformed : ∀ {origin : Path} {content : String} {before : SymbolSet} {failure : Failure},
    read kind origin content before = .error failure →
      ∃ problem, failure = .malformedMetadata origin problem
  /-- A set that is being grown stays as it was when a document is refused. -/
  keeps : ∀ {history : History} {origin : Path} {content : String} {failure : Failure},
    read kind origin content history.set = .error failure →
      (history.read kind origin content).set = history.set
  grows : ∀ {origin : Path} {content : String} {before after : SymbolSet} {fields : Json.Fields},
    Json.parse content = .ok (.object fields) →
      (read kind origin content before = .ok after ↔
        GrowsBy (told (.object fields)) before after)

/-- It is enough to know the symbols that are listed for objects with each key
once at every level, as every document that was read is one. -/
theorem extracts_of_symbols {kind : SourceKind} {told : Json → Symbol → Prop}
    {symbols : Json.Fields → List Symbol}
    (hkind : ∀ origin content, symbolsOf kind origin content = (readObject origin content).map symbols)
    (htold : ∀ fields symbol, (Json.object fields).WellFormed →
      (symbol ∈ symbols fields ↔ told (.object fields) symbol)) : Extracts kind told := by
  have hread : ∀ origin content before, read kind origin content before =
      (readObject origin content).map fun fields => before.addAll (symbols fields) := by
    intro origin content before
    rw [read, hkind]
    cases readObject origin content <;> rfl
  refine ⟨fun origin content before => ?_, fun {origin content before failure} h => ?_,
    fun {history origin content failure} h => ?_,
    fun {origin content before after fields} hparse => ?_⟩
  · rw [← readObject_eq_error_iff origin content, hread]
    cases readObject origin content <;> simp [Except.map]
  · rw [hread] at h
    cases hobject : readObject origin content with
    | ok fields =>
        rw [hobject] at h
        cases h
    | error problem =>
        rw [hobject] at h
        obtain rfl := Except.error.inj h
        exact malformed_of_readObject hobject
  · rw [History.set, h]
  · have hgrows := growsBy_addAll before fun symbol =>
      htold fields symbol (Json.readWithin_of_parse hparse).wellFormed
    rw [hread, readObject_eq_ok_iff.2 hparse]
    constructor
    · intro hafter
      rw [← Except.ok.inj hafter]
      exact hgrows
    · intro hafter
      exact congrArg Except.ok (hgrows.unique hafter)

/-- Documents that tell the same are read alike, whatever their texts look
like. -/
theorem Extracts.read_eq {kind : SourceKind} {told : Json → Symbol → Prop} (h : Extracts kind told)
    {origin other : Path} {content twin : String} {fields others : Json.Fields}
    (hfields : Json.parse content = .ok (.object fields))
    (hothers : Json.parse twin = .ok (.object others))
    (hsame : ∀ symbol, told (.object fields) symbol ↔ told (.object others) symbol)
    (before : SymbolSet) : read kind other twin before = read kind origin content before := by
  have htold : told (.object fields) = told (.object others) := funext fun symbol =>
    propext (hsame symbol)
  cases hread : read kind origin content before with
  | error failure =>
      exact absurd ⟨fields, hfields⟩ ((h.refuses origin content before).1 ⟨failure, hread⟩)
  | ok after =>
      refine (h.grows hothers).2 ?_
      rw [← htold]
      exact (h.grows hfields).1 hread

end SymbolPatterns.Metadata
