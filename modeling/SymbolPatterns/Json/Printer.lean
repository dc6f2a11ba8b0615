import SymbolPatterns.Json.Numeral

/-!
The two written forms of a value. The compact form has no blanks. The pretty
form puts one item on a line, indented by a unit per level, and keeps empty
lists and objects on one line.
-/

namespace SymbolPatterns.Json

def hexDigit (n : Nat) : Char := Nat.digitChar n

/-- Only the quote, the backslash and control characters are escaped. All
other characters are written as they are, also beyond ASCII. -/
def escaped (c : Char) : List Char :=
  match c with
  | '"' => ['\\', '"']
  | '\\' => ['\\', '\\']
  | '\x08' => ['\\', 'b']
  | '\x0c' => ['\\', 'f']
  | '\n' => ['\\', 'n']
  | '\r' => ['\\', 'r']
  | '\t' => ['\\', 't']
  | c =>
      if c.toNat < 0x20 then
        ['\\', 'u', '0', '0', hexDigit (c.toNat / 16), hexDigit (c.toNat % 16)]
      else [c]

def stringText (text : String) : List Char :=
  '"' :: text.toList.flatMap escaped ++ ['"']

def boolText (value : Bool) : List Char :=
  if value then ['t', 'r', 'u', 'e'] else ['f', 'a', 'l', 's', 'e']

mutual

def compactText : Json → List Char
  | .null => ['n', 'u', 'l', 'l']
  | .bool value => boolText value
  | .number value => numberText value
  | .string text => stringText text
  | .array [] => ['[', ']']
  | .array (item :: items) => '[' :: compactText item ++ compactItems items
  | .object [] => ['{', '}']
  | .object ((key, value) :: fields) =>
      '{' :: stringText key ++ ':' :: compactText value ++ compactFields fields

def compactItems : List Json → List Char
  | [] => [']']
  | item :: items => ',' :: compactText item ++ compactItems items

def compactFields : List (String × Json) → List Char
  | [] => ['}']
  | (key, value) :: fields =>
      ',' :: stringText key ++ ':' :: compactText value ++ compactFields fields

end

def lineStart (unit : List Char) (level : Nat) : List Char :=
  '\n' :: (List.replicate level unit).flatten

mutual

def prettyText (unit : List Char) (level : Nat) : Json → List Char
  | .null => ['n', 'u', 'l', 'l']
  | .bool value => boolText value
  | .number value => numberText value
  | .string text => stringText text
  | .array [] => ['[', ']']
  | .array (item :: items) =>
      '[' :: lineStart unit (level + 1) ++ prettyText unit (level + 1) item ++
        prettyItems unit level items
  | .object [] => ['{', '}']
  | .object ((key, value) :: fields) =>
      '{' :: lineStart unit (level + 1) ++ stringText key ++ ':' :: ' ' ::
        prettyText unit (level + 1) value ++ prettyFields unit level fields

/-- The rest of a list that stands at `level`, after an item. The first item
is printed by the caller, who knows that there is one. -/
def prettyItems (unit : List Char) (level : Nat) : List Json → List Char
  | [] => lineStart unit level ++ [']']
  | item :: items =>
      ',' :: lineStart unit (level + 1) ++ prettyText unit (level + 1) item ++
        prettyItems unit level items

/-- The rest of an object that stands at `level`, after a field. -/
def prettyFields (unit : List Char) (level : Nat) : List (String × Json) → List Char
  | [] => lineStart unit level ++ ['}']
  | (key, value) :: fields =>
      ',' :: lineStart unit (level + 1) ++ stringText key ++ ':' :: ' ' ::
        prettyText unit (level + 1) value ++ prettyFields unit level fields

end

def compact (value : Json) : String := String.ofList (compactText value)

def pretty (unit : String) (value : Json) : String :=
  String.ofList (prettyText unit.toList 0 value)

end SymbolPatterns.Json
