/-!
Blanks are the characters with the White_Space property. Trimming a list entry
and reading past the gaps in a declaration both go by this set; it holds the
no-break space and the two line separators, but neither the zero-width space nor
the byte-order mark.
-/

namespace SymbolPatterns.Text

def isBlank (c : Char) : Bool :=
  ('\t' ≤ c && c ≤ '\r') || c == ' ' || c == '\u0085' || c == '\u00a0' || c == '\u1680' ||
    ('\u2000' ≤ c && c ≤ '\u200a') || c == '\u2028' || c == '\u2029' || c == '\u202f' ||
    c == '\u205f' || c == '\u3000'

def skipBlanks (text : List Char) : List Char := text.dropWhile isBlank

def trim (text : List Char) : List Char :=
  (skipBlanks (skipBlanks text).reverse).reverse

/-- The pieces between the separators, empty ones included; never an empty
list. -/
def splitAt {α : Type} [DecidableEq α] (separator : α) : List α → List (List α)
  | [] => [[]]
  | c :: rest =>
      match splitAt separator rest with
      | [] => [[]]
      | piece :: pieces =>
          if c = separator then [] :: piece :: pieces else (c :: piece) :: pieces

end SymbolPatterns.Text
