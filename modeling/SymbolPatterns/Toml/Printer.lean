import SymbolPatterns.Json.Numeral

/-!
Writing an object as a TOML document. Plain values come first, in the order of
their keys; then every table has a section of its own under its full name. A
table that holds nothing but tables has no header. A string takes the plainest
quotes that need no escape.
-/

namespace SymbolPatterns.Toml

def longestRun (target : Char) (text : List Char) : Nat :=
  (text.foldl
    (fun (longest, current) c =>
      let current := if c = target then current + 1 else 0
      (max longest current, current))
    (0, 0)).1

/-- Control characters, except the tab and the line feed, can only be written
by escapes. -/
def needsCode (c : Char) : Bool :=
  (c.toNat < 0x20 && c != '\t' && c != '\n') || c.toNat = 0x7f

/-- The four ways in which a text is quoted. -/
inductive Quotes where
  | basic
  | literal
  | longBasic
  | longLiteral
  deriving DecidableEq, Repr

def quotesFor (text : List Char) : Quotes :=
  let coded := text.any needsCode
  let backslash := text.contains '\\'
  let broken := text.contains '\n'
  let double := longestRun '"' text
  let single := longestRun '\x27' text
  if !coded && !backslash && double = 0 && !broken then .basic
  else if !coded && single = 0 && !broken then .literal
  else if !coded && !backslash && double ≤ 2 then .longBasic
  else if !coded && single ≤ 2 then .longLiteral
  else if broken then .longBasic
  else .basic

def hexDigits (width n : Nat) : List Char :=
  let digits := (Nat.toDigits 16 n).map Char.toUpper
  List.replicate (width - digits.length) '0' ++ digits

/-- Escapes a text for basic quotes. `allowed` is how many double quotes may
stand in a row, and `run` how many stand there already. -/
def escaped (allowed : Nat) (breaks : Bool) : (run : Nat) → List Char → List Char
  | _, [] => []
  | run, c :: rest =>
      match c with
      | '"' =>
          if run < allowed then '"' :: escaped allowed breaks (run + 1) rest
          else '\\' :: '"' :: escaped allowed breaks 0 rest
      | '\x08' => '\\' :: 'b' :: escaped allowed breaks 0 rest
      | '\t' => '\\' :: 't' :: escaped allowed breaks 0 rest
      | '\n' =>
          if breaks then '\n' :: escaped allowed breaks 0 rest
          else '\\' :: 'n' :: escaped allowed breaks 0 rest
      | '\x0c' => '\\' :: 'f' :: escaped allowed breaks 0 rest
      | '\r' => '\\' :: 'r' :: escaped allowed breaks 0 rest
      | '\\' => '\\' :: '\\' :: escaped allowed breaks 0 rest
      | c =>
          if needsCode c then '\\' :: 'u' :: hexDigits 4 c.toNat ++ escaped allowed breaks 0 rest
          else c :: escaped allowed breaks 0 rest

def stringText (text : String) : List Char :=
  let chars := text.toList
  let start := if chars.contains '\n' then ['\n'] else []
  let double := ['"', '"', '"']
  let single := ['\x27', '\x27', '\x27']
  match quotesFor chars with
  | .basic => '"' :: escaped 0 false 0 chars ++ ['"']
  | .literal => '\x27' :: chars ++ ['\x27']
  | .longBasic => double ++ start ++ escaped 2 true 0 chars ++ double
  | .longLiteral => single ++ start ++ chars ++ single

/-- The greatest integer of 64 bits, one of which is a sign. -/
def greatestSigned : Int := 0x7fffffffffffffff

/-- Integers have 64 bits and a sign; other numbers and `null` are not
written. -/
def scalarText? : Json → Option (List Char)
  | .bool true => some "true".toList
  | .bool false => some "false".toList
  | .number (.integer n) => if n ≤ greatestSigned then some (Json.intText n) else none
  | .string text => some (stringText text)
  | _ => none

/-- Two or more items stand on lines of their own. -/
def arrayText (items : List (List Char)) : List Char :=
  match items with
  | [] => ['[', ']']
  | [item] => '[' :: item ++ [']']
  | _ =>
      "[\n".toList ++ (items.flatMap fun item => "    ".toList ++ item ++ [',', '\n']) ++ [']']

def isTable : Json → Bool
  | .object _ => true
  | _ => false

/-- A list of tables is written as sections; an empty list is a plain value,
as it shows no tables. -/
def isTableList : Json → Bool
  | .array items => !items.isEmpty && items.all isTable
  | _ => false

def valueText? : Json → Option (List Char)
  | .array items => (items.mapM scalarText?).map arrayText
  | v => scalarText? v

def fieldText? (key : String) (value : Json) : Option (List Char) :=
  (valueText? value).map fun text => key.toList ++ " = ".toList ++ text ++ ['\n']

/-- The lines of the plain values of a table. -/
def bodyText? (fields : Json.Fields) : Option (List Char) :=
  let plain := fields.filter fun (_, v) => !isTable v && !isTableList v
  (plain.mapM fun (key, v) => fieldText? key v).map List.flatten

/-- A section: its header line and the lines below it. -/
def headed (isList : Bool) (name : List String) (body : List Char) : List Char :=
  let name := (".".intercalate name).toList
  let header := if isList then "[[".toList ++ name ++ "]]".toList
    else '[' :: name ++ [']']
  header ++ '\n' :: body

mutual

def sections? (name : List String) : List (String × Json) → Option (List (List Char))
  | [] => some []
  | (key, value) :: rest => do
      let own ← tableSections? (name ++ [key]) value
      let others ← sections? name rest
      return own ++ others

/-- The sections of one value, if it is a table or a list of tables. -/
def tableSections? (name : List String) : Json → Option (List (List Char))
  | .object fields => do
      let body ← bodyText? fields
      let below ← sections? name fields
      return (if body.isEmpty && !below.isEmpty then [] else [headed false name body]) ++ below
  | .array items =>
      if isTableList (.array items) then listSections? name items else some []
  | _ => some []

def listSections? (name : List String) : List Json → Option (List (List Char))
  | [] => some []
  | .object fields :: rest => do
      let body ← bodyText? fields
      let below ← sections? name fields
      let others ← listSections? name rest
      return headed true name body :: below ++ others
  | _ :: rest => listSections? name rest

end

/-- The document of an object, or nothing if one of its values has no TOML
form, as `null` and integers without a sign that are too great have none. -/
def print? (fields : Json.Fields) : Option String := do
  let body ← bodyText? fields
  let below ← sections? [] fields
  let parts := (if body.isEmpty then [] else [body]) ++ below
  return String.ofList (['\n'].intercalate parts)

end SymbolPatterns.Toml
