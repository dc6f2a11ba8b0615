/-!
Names that may enter a grammar: segments of ASCII letters, digits and
underscores, none of which begins with a digit, separated by double colons.
-/

namespace SymbolPatterns.Symbol

def startsSegment (c : Char) : Bool := c.isAlpha || c == '_'

def continuesSegment (c : Char) : Bool := c.isAlphanum || c == '_'

/-- `fresh` tells that a segment has still to begin. A text that ends at a
fresh start is not accepted. -/
def scopedFrom : (fresh : Bool) → List Char → Bool
  | fresh, [] => !fresh
  | true, c :: rest => startsSegment c && scopedFrom false rest
  | false, ':' :: ':' :: rest => scopedFrom true rest
  | false, c :: rest => continuesSegment c && scopedFrom false rest

def isScopedIdentifier (name : String) : Bool := scopedFrom true name.toList

/-- Types built into the language. They are highlighted already and are never
added. -/
def reservedPrimitives : List String := [
  "void", "bool", "int", "int8", "int16", "int32", "int64", "uint", "uint8", "uint16",
  "uint32", "uint64", "float", "double", "string", "auto", "dictionary"]

def isReservedPrimitive (name : String) : Bool := reservedPrimitives.contains name

end SymbolPatterns.Symbol
