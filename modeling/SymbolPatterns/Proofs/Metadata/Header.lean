import SymbolPatterns.Metadata.Reading
import SymbolPatterns.Proofs.Metadata.Classes
import SymbolPatterns.Proofs.Metadata.Comments
import SymbolPatterns.Proofs.Symbol.SymbolSet

/-!
What a header without comments adds to a set of symbols, told by the
declarations that stand in its text.
-/

namespace SymbolPatterns.Metadata

theorem typeName_mem_typeSymbols {names : List (List Char)} {name : String} :
    .typeName name ∈ typeSymbols names ↔ name.toList ∈ names ∧ name ∉ keywords := by
  have htext : name ∈ names.map String.ofList ↔ name.toList ∈ names := by
    rw [List.mem_map]
    constructor
    · rintro ⟨text, htext, rfl⟩
      rwa [String.toList_ofList]
    · exact fun h => ⟨name.toList, h, String.ofList_toList⟩
  have hkeyword : (!keywords.contains name) = true ↔ name ∉ keywords := by simp
  rw [typeSymbols, List.mem_map_of_injective fun _ _ h => Symbol.typeName.inj h, List.mem_filter,
    htext, hkeyword]

theorem mem_typeSymbols {names : List (List Char)} {symbol : Symbol}
    (h : symbol ∈ typeSymbols names) : ∃ name, symbol = .typeName name := by
  obtain ⟨name, -, rfl⟩ := List.mem_map.1 h
  exact ⟨name, rfl⟩

theorem namespaceName_mem_headerSymbols {content : List Char} (h : CommentFree content)
    {name : String} :
    .namespaceName name ∈ headerSymbols content ↔
      name ∈ (findAll namespaceBlock content).map scopedText ∨
        name ∈ (findAll usingNamespace content).map scopedText := by
  have hnoType : ∀ names, Symbol.namespaceName name ∉ typeSymbols names := by
    intro names hmem
    obtain ⟨other, hother⟩ := mem_typeSymbols hmem
    cases hother
  simp [headerSymbols, stripComments_of_commentFree h, hnoType]

theorem typeName_mem_headerSymbols {content : List Char} (h : CommentFree content)
    {name : String} :
    .typeName name ∈ headerSymbols content ↔
      (name.toList ∈ findAll classDeclaration content ∨
        name.toList ∈ (findAll scopedEnum content).flatten) ∧ name ∉ keywords := by
  simp only [headerSymbols, stripComments_of_commentFree h, List.mem_append,
    typeName_mem_typeSymbols, or_and_right]
  simp

theorem functionName_not_mem_headerSymbols (content : List Char) (name : String) :
    .functionName name ∉ headerSymbols content := by
  intro hmem
  rcases List.mem_append.1 hmem with hmem | hmem
  · rcases List.mem_append.1 hmem with hmem | hmem
    · obtain ⟨segments, -, hname⟩ := List.mem_map.1 hmem
      cases hname
    · obtain ⟨other, hother⟩ := mem_typeSymbols hmem
      cases hother
  · obtain ⟨other, hother⟩ := mem_typeSymbols hmem
    cases hother

/-- What a set holds behind a header over what it held before. Namespaces are
told exactly. For types there is one bound from each side, as a word in the
name of a scoped enumeration may come in by itself. -/
structure Declares (text : List Char) (before after : SymbolSet) : Prop where
  /-- The names of all namespaces and of no others come in. -/
  namespaces : ∀ name, name ∈ after.namespaces ↔ name ∈ before.namespaces ∨
    Symbol.isScopedIdentifier name = true ∧
      ∃ spelled, (Occurs (NamespaceBlock spelled) text ∨ Occurs (UsingNamespace spelled) text) ∧
        compacted spelled = name
  /-- No class is missed. -/
  classes : ∀ name, Occurs (ClassDeclaration name.toList) text →
    Symbol.isScopedIdentifier name = true → name ∉ keywords →
      Symbol.isReservedPrimitive name = false → name ∈ after.types
  /-- Whatever type comes in is that of a class or in the name of a scoped enumeration. -/
  types : ∀ name, name ∈ after.types → name ∈ before.types ∨
    (Symbol.isScopedIdentifier name = true ∧ name ∉ keywords ∧
      Symbol.isReservedPrimitive name = false) ∧
        (Occurs (ClassDeclaration name.toList) text ∨
          ∃ segments, Occurs (ScopedEnum segments) text ∧ name.toList ∈ segments)
  kept : ∀ name, name ∈ before.types → name ∈ after.types
  functions : after.functions = before.functions

theorem mem_addAll_namespaces {set : SymbolSet} {symbols : List Symbol} {name : String} :
    name ∈ (set.addAll symbols).namespaces ↔ name ∈ set.namespaces ∨
      .namespaceName name ∈ symbols ∧ Symbol.isScopedIdentifier name = true := by
  simpa [SymbolSet.holds, Symbol.isValid] using set.holds_addAll symbols (.namespaceName name)

theorem mem_addAll_types {set : SymbolSet} {symbols : List Symbol} {name : String} :
    name ∈ (set.addAll symbols).types ↔ name ∈ set.types ∨ .typeName name ∈ symbols ∧
      Symbol.isReservedPrimitive name = false ∧ Symbol.isScopedIdentifier name = true := by
  simpa [SymbolSet.holds, Symbol.isValid] using set.holds_addAll symbols (.typeName name)

theorem mem_addAll_functions {set : SymbolSet} {symbols : List Symbol} {name : String} :
    name ∈ (set.addAll symbols).functions ↔ name ∈ set.functions ∨
      .functionName name ∈ symbols ∧ Symbol.isScopedIdentifier name = true := by
  simpa [SymbolSet.holds, Symbol.isValid] using set.holds_addAll symbols (.functionName name)

theorem isWord_of_occurs {name text : List Char} (h : Occurs (ClassDeclaration name) text) :
    Text.IsWord name := by
  obtain ⟨-, -, -, -, ⟨-, -, hname, -, -⟩⟩ := h
  exact hname

theorem declares_addAll_headerSymbols {text : List Char} (h : CommentFree text)
    (set : SymbolSet) : Declares text set (set.addAll (headerSymbols text)) where
  namespaces name := by
    rw [mem_addAll_namespaces, namespaceName_mem_headerSymbols h, mem_namespaceBlocks_iff,
      mem_usingNamespaces_iff, ← exists_or, and_comm]
    simp only [or_and_right]
  classes name hoccurs hvalid hkeyword hreserved := by
    have hfinal : name.toList ≠ "final".toList := by
      rw [Ne, String.toList_inj]
      rintro rfl
      exact hkeyword (by decide)
    have hsegment := isSegment_of_scoped (isWord_of_occurs hoccurs) hvalid
    have hfound := mem_classes_of_occurs hsegment hfinal hoccurs
    rw [mem_addAll_types, typeName_mem_headerSymbols h]
    exact .inr ⟨⟨.inl hfound, hkeyword⟩, hreserved, hvalid⟩
  types name hname := by
    rw [mem_addAll_types, typeName_mem_headerSymbols h] at hname
    refine hname.imp_right ?_
    rintro ⟨⟨hfound, hkeyword⟩, hreserved, hvalid⟩
    refine ⟨⟨hvalid, hkeyword, hreserved⟩, hfound.imp occurs_of_mem_classes fun henum => ?_⟩
    obtain ⟨segments, hsegments, hmem⟩ := List.mem_flatten.1 henum
    exact ⟨segments, occurs_of_mem_enums hsegments, hmem⟩
  kept name hname := mem_addAll_types.2 (.inl hname)
  functions := by
    ext name
    rw [mem_addAll_functions]
    exact or_iff_left fun hmem => functionName_not_mem_headerSymbols text name hmem.1

/-- A header without comments is read, and no declaration in it is missed,
whatever stands around it. The text need not be a well-formed header, and what
it says is not checked. Names of types that are keywords or reserved are left
out. Which words in the name of a scoped enumeration come in is left open
here, and comments are a matter of their own. -/
theorem read_header_declares (origin : Path) {text : String} (set : SymbolSet)
    (h : CommentFree text.toList) :
    ∃ after, read .header origin text set = .ok after ∧ Declares text.toList set after :=
  ⟨_, rfl, declares_addAll_headerSymbols h set⟩

/-- Keywords in the place of names, a name that ends in a keyword and names
with blanks inside. -/
def crowdedHeader : String :=
  "class class final; namespace namespace Net :: Http\x7b template <class T> struct Carfinal final" ++
    ":Base\x7b enum class Mode; using using namespace Net;"

theorem commentFree_crowdedHeader : CommentFree crowdedHeader.toList := by
  have hscan : scan .code crowdedHeader.toList = crowdedHeader.toList := by decide +kernel
  rw [← hscan]
  exact commentFree_scan .code _

theorem read_crowdedHeader :
    ∃ after, read .header ⟨"crowded.h"⟩ crowdedHeader ∅ = .ok after ∧
      Declares crowdedHeader.toList ∅ after ∧ after.namespaces.names = ["Net", "Net::Http"] ∧
        after.types.names = ["Carfinal", "Mode"] := by
  obtain ⟨after, hread, hdeclares⟩ := read_header_declares ⟨"crowded.h"⟩ ∅
    commentFree_crowdedHeader
  refine ⟨after, hread, hdeclares, ?_⟩
  obtain rfl := Except.ok.inj hread
  decide +kernel

end SymbolPatterns.Metadata
