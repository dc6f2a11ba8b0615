/-!
Match templates: a regular expression with a placeholder, for which an
alternation is put in wherever it occurs.
-/

namespace SymbolPatterns.Symbol

def placeholder : String := "\x7balternation\x7d"

/-- The first argument counts characters of a placeholder that are still to be
passed. -/
def fillFrom (alternation : List Char) : (pending : Nat) → List Char → List Char
  | _, [] => []
  | pending + 1, _ :: rest => fillFrom alternation pending rest
  | 0, c :: rest =>
      if placeholder.toList.isPrefixOf (c :: rest) then
        alternation ++ fillFrom alternation (placeholder.length - 1) rest
      else c :: fillFrom alternation 0 rest

def fillTemplate (template alternation : String) : String :=
  String.ofList (fillFrom alternation.toList 0 template.toList)

def mentions (pattern : List Char) : List Char → Bool
  | [] => pattern.isEmpty
  | c :: rest => pattern.isPrefixOf (c :: rest) || mentions pattern rest

def hasPlaceholder (template : String) : Bool := mentions placeholder.toList template.toList

end SymbolPatterns.Symbol
