import SymbolPatterns.Proofs.Patch.Content
import SymbolPatterns.Proofs.Symbol.Size

/-!
Which alternations of a patch stay within the limit on their length. The limit
cuts the types and the functions; the namespaces go into one rule and are not
cut, and the placeholder for no names at all is written whatever the limit is.
-/

namespace SymbolPatterns.Patch

open Json (Fields)
open Grammar

/-- The alternations that a patch puts into templates: one of all namespaces,
and the chunks of types and functions. What a template adds around them is not
measured by the limit. -/
def written (symbols : SymbolSet) (types functions : List String) : List String :=
  Symbol.alternation symbols.namespaces.names :: (types ++ functions)

/-- All alternations that a successful patch puts into templates are within
the limit exactly if the namespaces are with a bar between any two of them,
and so is the placeholder if one of the three alternations has no names. The
patch checks neither of the two; the chunks of names are within the limit on
their own. Lengths are octets of the escaped names. -/
theorem written_within_limit_iff {options : Options} (symbols : List Symbol)
    {document result : Fields} {count : Nat}
    (h : apply options (SymbolSet.addAll ∅ symbols) document = (result, .ok count)) :
    let set := SymbolSet.addAll ∅ symbols
    ∃ types functions,
      Symbol.chunks options.maxChunkLength set.types.names = .ok types ∧
      Symbol.chunks options.maxChunkLength set.functions.names = .ok functions ∧
      result = patched options.layout set types functions document ∧
      ((∀ alternation ∈ written set types functions,
          alternation.utf8ByteSize ≤ options.maxChunkLength) ↔
        Symbol.spelledSize set.namespaces.names ≤ options.maxChunkLength ∧
        (set.namespaces.names = [] ∨ set.types.names = [] ∨ set.functions.names = [] →
          Symbol.neverMatch.utf8ByteSize ≤ options.maxChunkLength)) := by
  intro set
  obtain ⟨types, functions, htypes, hfunctions, -, hresult, -⟩ := apply_eq_ok_iff.1 h
  refine ⟨types, functions, htypes, hfunctions, hresult, ?_⟩
  have hplain := SymbolSet.plain_addAll symbols
  rw [written, List.forall_mem_cons, List.forall_mem_append,
    Symbol.alternation_within_iff set.namespaces.nodup hplain.namespaces,
    Symbol.chunks_within_iff htypes, Symbol.chunks_within_iff hfunctions]
  constructor
  · rintro ⟨⟨hnamespaces, hspelled⟩, htypes, hfunctions⟩
    exact ⟨hspelled, fun hempty => hempty.elim hnamespaces (·.elim htypes hfunctions)⟩
  · rintro ⟨hspelled, hempty⟩
    exact ⟨⟨fun hnil => hempty (.inl hnil), hspelled⟩, fun hnil => hempty (.inr (.inl hnil)),
      fun hnil => hempty (.inr (.inr hnil))⟩

/-- With a limit that has room for all of them, the small symbols are written
within it. -/
theorem smallSymbols_within_limit :
    let options : Options := { chunkLimit := some 11 }
    let set := SymbolSet.addAll ∅ smallSymbols
    ∃ result, apply options set (smallGrammar [primitiveRule] [callRule]) = (result, .ok 3) ∧
      ∃ types functions, Symbol.chunks 11 set.types.names = .ok types ∧
        ∀ alternation ∈ written set types functions, alternation.utf8ByteSize ≤ 11 := by
  intro options set
  have hrun : apply options set (smallGrammar [primitiveRule] [callRule]) = (_, .ok 3) :=
    apply_eq_of_outcome (by decide +kernel)
  obtain ⟨types, functions, htypes, -, -, hwithin⟩ := written_within_limit_iff smallSymbols hrun
  exact ⟨_, hrun, types, functions, htypes, hwithin.2 (by decide +kernel)⟩

/-- A patch with the standard layout leaves what it has written where lookup
finds it, so an alternation that is too long is not only made but also stored. -/
theorem stands_of_apply {options : Options} (hlayout : options.layout = Layout.standard)
    {symbols : SymbolSet} {document result : Fields} {count : Nat} {types : List String}
    (htypes : Symbol.chunks options.maxChunkLength symbols.types.names = .ok types)
    (h : apply options symbols document = (result, .ok count)) :
    RuleStands Layout.standard.namespaces.node
        (namespaceRule Layout.standard.namespaces symbols.namespaces.names) result ∧
      GroupStands Layout.standard.types types result := by
  obtain ⟨types', functions, htypes', -, hpatchable, rfl, -⟩ := apply_eq_ok_iff.1 h
  obtain rfl := Except.ok.inj (htypes.symm.trans htypes')
  rw [hlayout] at hpatchable ⊢
  obtain ⟨hrule, htypeBlock, -⟩ := patched_stands apart_standard hpatchable functions
  exact ⟨hrule, htypeBlock⟩

/-- With a limit of three octets, which every type and function keeps, the
rule of a longer namespace is written all the same, and so is the placeholder
of four octets where there are no types. -/
theorem short_limit_exceeded :
    let options : Options := { chunkLimit := some 3 }
    let document := smallGrammar [primitiveRule] [callRule]
    let named := SymbolSet.addAll ∅
      [.namespaceName "Camera", .typeName "Tag", .functionName "Get"]
    let untyped := SymbolSet.addAll ∅ [.namespaceName "Net", .functionName "Get"]
    options.validate = .ok () ∧
      (∃ result, apply options named document = (result, .ok 2) ∧
        Symbol.alternation named.namespaces.names = "Camera" ∧
        RuleStands options.layout.namespaces.node "\\b(?:Camera)\\b(?=\\s*::)" result ∧
        3 < "Camera".utf8ByteSize) ∧
      ∃ result, apply options untyped document = (result, .ok 2) ∧
        Symbol.chunks 3 untyped.types.names = .ok ["(?!)"] ∧
        GroupStands options.layout.types ["(?!)"] result ∧
        3 < "(?!)".utf8ByteSize := by
  intro options document named untyped
  have hnamed : apply options named document = (_, .ok 2) :=
    apply_eq_of_outcome (by decide +kernel)
  have huntyped : apply options untyped document = (_, .ok 2) :=
    apply_eq_of_outcome (by decide +kernel)
  have htag : Symbol.chunks options.maxChunkLength named.types.names = .ok ["Tag"] :=
    eq_ok_of_toOption (by decide +kernel)
  have hnone : Symbol.chunks options.maxChunkLength untyped.types.names = .ok ["(?!)"] :=
    eq_ok_of_toOption (by decide +kernel)
  have hrule : namespaceRule Layout.standard.namespaces named.namespaces.names =
      "\\b(?:Camera)\\b(?=\\s*::)" := by decide +kernel
  refine ⟨eq_ok_of_toOption (by decide +kernel), ⟨_, hnamed, by decide +kernel, ?_, by decide⟩,
    _, huntyped, hnone, ?_, by decide⟩
  · exact hrule ▸ (stands_of_apply rfl htag hnamed).1
  · exact (stands_of_apply rfl hnone huntyped).2

end SymbolPatterns.Patch
