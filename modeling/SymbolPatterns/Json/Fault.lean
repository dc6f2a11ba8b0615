import SymbolPatterns.Json.Basic
import SymbolPatterns.Json.Numeral
import SymbolPatterns.Text.Quoted

/-!
What can be wrong with a text that should hold a value. The first constructors
are faults of the text itself; the others say that a well-formed value does not
fit the place it stands in. A reader reports the first fault in reading order.
-/

namespace SymbolPatterns.Json

/-- What stands where something else was wanted. Of a list or an object only
its kind is named. -/
inductive Found where
  | null
  | bool (value : Bool)
  | number (value : Number)
  | string (text : String)
  | list
  | object

def found : Json → Found
  | .null => .null
  | .bool value => .bool value
  | .number value => .number value
  | .string text => .string text
  | .array _ => .list
  | .object _ => .object

def Found.message : Found → String
  | .null => "null"
  | .bool value => s!"boolean `{value}`"
  | .number (.integer value) => s!"integer `{value}`"
  | .number (.real value) => s!"floating point `{String.ofList (realText value)}`"
  | .string text => s!"string {Text.quoted Text.valueQuotes text}"
  | .list => "sequence"
  | .object => "map"

/-- Why a text is no value, or not a value of the kind that is wanted. The
first fault in reading order is the one that is told. -/
inductive Fault where
  | endInValue
  | endInList
  | endInObject
  | endInString
  | expectedColon
  | expectedListEnd
  | expectedObjectEnd
  | expectedWord
  | expectedValue
  | invalidEscape
  | invalidNumber
  | numberOutOfRange
  | loneSurrogate
  | unfinishedSurrogate
  | controlCharacter
  | keyNotString
  | trailingComma
  | trailingCharacters
  | nestedTooDeep
  | wrongType (found : Found) (wanted : String)
  | wrongValue (found : Found) (wanted : String)
  | wrongLength (length : Nat) (wanted : String)
  | unknownVariant (name : String) (known : List String)
  | repeatedField (name : String)
  | missingField (name : String)

def choiceText (names : List String) : String :=
  " or ".intercalate (names.map fun name => s!"`{name}`")

def Fault.message : Fault → String
  | .endInValue => "EOF while parsing a value"
  | .endInList => "EOF while parsing a list"
  | .endInObject => "EOF while parsing an object"
  | .endInString => "EOF while parsing a string"
  | .expectedColon => "expected `:`"
  | .expectedListEnd => "expected `,` or `]`"
  | .expectedObjectEnd => "expected `,` or `\x7d`"
  | .expectedWord => "expected ident"
  | .expectedValue => "expected value"
  | .invalidEscape => "invalid escape"
  | .invalidNumber => "invalid number"
  | .numberOutOfRange => "number out of range"
  | .loneSurrogate => "lone leading surrogate in hex escape"
  | .unfinishedSurrogate => "unexpected end of hex escape"
  | .controlCharacter => "control character (\\u0000-\\u001F) found while parsing a string"
  | .keyNotString => "key must be a string"
  | .trailingComma => "trailing comma"
  | .trailingCharacters => "trailing characters"
  | .nestedTooDeep => "recursion limit exceeded"
  | .wrongType found wanted => s!"invalid type: {found.message}, expected {wanted}"
  | .wrongValue found wanted => s!"invalid value: {found.message}, expected {wanted}"
  | .wrongLength length wanted => s!"invalid length {length}, expected {wanted}"
  | .unknownVariant name known => s!"unknown variant `{name}`, expected {choiceText known}"
  | .repeatedField name => s!"duplicate field `{name}`"
  | .missingField name => s!"missing field `{name}`"

end SymbolPatterns.Json
