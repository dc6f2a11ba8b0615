import SymbolPatterns.Text.Quoted
import SymbolPatterns.Text.Utf8

/-!
Raw texts, as file names and paths are: octets that need not be UTF-8. A raw
text is shown with each ill-formed part replaced, so different raw texts can
look alike; taken strictly, only a well-formed one is a text.
-/

namespace SymbolPatterns

/-- A text as octets, which need not be UTF-8. Names of files are such texts;
what is written in settings is a text. -/
structure RawText where
  ofList ::
  toList : List UInt8
  deriving DecidableEq, Repr, Inhabited

namespace RawText

/-- The octets that a text is written with. -/
def ofText (text : String) : RawText := ⟨text.toUTF8.data.toList⟩

instance : Coe String RawText := ⟨ofText⟩

instance : Coe (List String) (List RawText) := ⟨List.map ofText⟩

def isEmpty (raw : RawText) : Bool := raw.toList.isEmpty

instance : Append RawText := ⟨fun raw other => ⟨raw.toList ++ other.toList⟩⟩

/-- Raw texts are compared octet by octet, which orders texts by code points. -/
instance : LT RawText := ⟨fun raw other => raw.toList < other.toList⟩

instance (raw other : RawText) : Decidable (raw < other) :=
  inferInstanceAs (Decidable (raw.toList < other.toList))

/-- The raw text as a message shows it, with each ill-formed part replaced by
one character. -/
def shown (raw : RawText) : String := Text.Utf8.decodeLenient raw.toList

/-- The text that the octets are written for, if they are UTF-8. -/
def text? (raw : RawText) : Option String := (Text.Utf8.decode raw.toList).toOption

def isText (raw : RawText) : Bool := raw.text?.isSome

/-- An octet that belongs to no character, as a quoted name shows it. -/
private def quotedOctet (octet : UInt8) : List Char :=
  let digit (n : Nat) : Char := (Nat.digitChar n).toUpper
  ['\\', 'x', digit (octet.toNat / 16), digit (octet.toNat % 16)]

/-- The octets are those that the pieces were read from. -/
private def quotedPieces : List Text.Utf8Piece → List UInt8 → List Char
  | [], _ => []
  | .char c size :: rest, octets =>
      Text.quotedChar Text.nameQuotes c ++ quotedPieces rest (octets.drop size)
  | piece :: rest, octets =>
      (octets.take piece.size).flatMap quotedOctet ++ quotedPieces rest (octets.drop piece.size)

/-- The raw text between quotes, with all its octets told. -/
def quoted (raw : RawText) : String :=
  String.ofList ('"' :: quotedPieces (Text.Utf8.pieces raw.toList) raw.toList ++ ['"'])

end RawText

end SymbolPatterns
