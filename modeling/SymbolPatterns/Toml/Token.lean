import SymbolPatterns.Decimal.Binary64
import SymbolPatterns.Json.Token
import SymbolPatterns.Text.Blank

/-!
The tokens of a TOML document: blanks, comments, keys, strings of all four
kinds, numbers, truth values and dates. A reader gives nothing if no such token
stands at the front.
-/

namespace SymbolPatterns.Toml

abbrev Reader (α : Type) := List Char → Option (α × List Char)

def isBlank (c : Char) : Bool := c = ' ' || c = '\t'

def skipBlanks (text : List Char) : List Char := text.dropWhile isBlank

def isControl (c : Char) : Bool := (c.toNat < 0x20 && c != '\t') || c.toNat = 0x7f

def lineEnd? : List Char → Option (List Char)
  | '\n' :: rest => some rest
  | '\r' :: '\n' :: rest => some rest
  | _ => none

/-- Passes over a comment, if one stands here, up to the end of its line. -/
def comment? (text : List Char) : Option (List Char) :=
  match text with
  | '#' :: rest =>
      let behind := rest.dropWhile fun c => !isControl c
      if behind.isEmpty || (lineEnd? behind).isSome then some behind else none
  | _ => some text

/-- The end of a statement: nothing but blanks and a comment up to the end of
the line. -/
def statementEnd? (text : List Char) : Option (List Char) := do
  match ← comment? (skipBlanks text) with
  | [] => some []
  | rest => lineEnd? rest

def skipLines : Nat → List Char → Option (List Char)
  | 0, text => some text
  | steps + 1, text => do
      let rest ← comment? (skipBlanks text)
      match lineEnd? rest with
      | some rest => skipLines steps rest
      | none => some rest

def hexNumber? (count : Nat) (text : List Char) : Option (Nat × List Char) := do
  if text.length < count then none
  let values ← (text.take count).mapM Json.hexValue?
  return (values.foldl (fun n d => n * 16 + d) 0, text.drop count)

def scalarValue? (n : Nat) : Option Char :=
  if n < 0xd800 || (0xdfff < n && n < 0x110000) then some (Char.ofNat n) else none

def escape? : Reader Char
  | 'b' :: rest => some ('\x08', rest)
  | 't' :: rest => some ('\t', rest)
  | 'n' :: rest => some ('\n', rest)
  | 'f' :: rest => some ('\x0c', rest)
  | 'r' :: rest => some ('\r', rest)
  | '"' :: rest => some ('"', rest)
  | '\\' :: rest => some ('\\', rest)
  | 'u' :: rest => do
      let (n, rest) ← hexNumber? 4 rest
      return (← scalarValue? n, rest)
  | 'U' :: rest => do
      let (n, rest) ← hexNumber? 8 rest
      return (← scalarValue? n, rest)
  | _ => none

/-- A one-line string in double quotes, after the first of them. -/
def basicAfter? : Nat → Reader (List Char)
  | 0, _ | _, [] => none
  | steps + 1, c :: rest =>
      if c = '"' then some ([], rest)
      else if c = '\\' then do
        let (c, rest) ← escape? rest
        let (chars, rest) ← basicAfter? steps rest
        return (c :: chars, rest)
      else if isControl c then none
      else do
        let (chars, rest) ← basicAfter? steps rest
        return (c :: chars, rest)

def literalAfter? : Reader (List Char)
  | [] => none
  | c :: rest =>
      if c = '\x27' then some ([], rest)
      else if isControl c then none
      else do
        let (chars, rest) ← literalAfter? rest
        return (c :: chars, rest)

/-- The end of a string in three quotes: up to two further quotes belong to
the string. -/
def longEnd? (quote : Char) (text : List Char) : Option (List Char × List Char) :=
  let quotes := text.takeWhile (· = quote)
  if quotes.length < 3 then none
  else
    let own := min (quotes.length - 3) 2
    some (List.replicate own quote, text.drop (own + 3))

def isSpaceOrBreak (c : Char) : Bool := isBlank c || c = '\n' || c = '\r'

/-- A backslash at the end of a line joins the next line that is not empty. -/
def lineJoin? (text : List Char) : Option (List Char) := do
  let _ ← lineEnd? (skipBlanks text)
  return text.dropWhile isSpaceOrBreak

/-- A string in three quotes, after the first three. -/
def longAfter? (quote : Char) (escapes : Bool) : Nat → Reader (List Char)
  | 0, _ | _, [] => none
  | steps + 1, c :: rest =>
      match longEnd? quote (c :: rest) with
      | some found => some found
      | none =>
          if c = '\\' && escapes then
            match lineJoin? rest with
            | some rest => longAfter? quote escapes steps rest
            | none => do
                let (c, rest) ← escape? rest
                let (chars, rest) ← longAfter? quote escapes steps rest
                return (c :: chars, rest)
          else
            match lineEnd? (c :: rest) with
            | some rest => do
                let (chars, rest) ← longAfter? quote escapes steps rest
                return ('\n' :: chars, rest)
            | none =>
                if isControl c then none
                else do
                  let (chars, rest) ← longAfter? quote escapes steps rest
                  return (c :: chars, rest)

/-- A line ending right after three quotes does not belong to the string. -/
def longString? (quote : Char) (escapes : Bool) (text : List Char) :
    Option (List Char × List Char) :=
  let text := (lineEnd? text).getD text
  longAfter? quote escapes (text.length + 1) text

def string? : Reader String := fun text => do
  let (chars, rest) ←
    match text with
    | '"' :: '"' :: '"' :: rest => longString? '"' true rest
    | '\x27' :: '\x27' :: '\x27' :: rest => longString? '\x27' false rest
    | '"' :: rest => basicAfter? (rest.length + 1) rest
    | '\x27' :: rest => literalAfter? rest
    | _ => none
  return (String.ofList chars, rest)

def isKeyChar (c : Char) : Bool := c.isAlphanum || c = '_' || c = '-'

def simpleKey? : Reader String := fun text =>
  match text with
  | '"' :: rest => do
      let (chars, rest) ← basicAfter? (rest.length + 1) rest
      return (String.ofList chars, rest)
  | '\x27' :: rest => do
      let (chars, rest) ← literalAfter? rest
      return (String.ofList chars, rest)
  | _ =>
      let chars := text.takeWhile isKeyChar
      if chars.isEmpty then none else some (String.ofList chars, text.dropWhile isKeyChar)

/-- Simple keys joined by dots, with blanks around them. -/
def keyPath? : Nat → Reader (List String)
  | 0, _ => none
  | steps + 1, text => do
      let (key, rest) ← simpleKey? (skipBlanks text)
      match skipBlanks rest with
      | '.' :: rest => do
          let (path, rest) ← keyPath? steps rest
          return (key :: path, rest)
      | rest => some ([key], rest)

def isWordChar (c : Char) : Bool :=
  c.isAlphanum || c = '_' || c = '+' || c = '-' || c = '.' || c = ':'

/-- Digits with single underscores between them. -/
def plainDigits? (isDigit : Char → Bool) (text : List Char) : Option (List Char) :=
  let groups := Text.splitAt '_' text
  if groups.all fun group => !group.isEmpty && group.all isDigit then some groups.flatten
  else none

def inBase (base : Nat) (digits : List Char) : Nat :=
  digits.foldl (fun n c => n * base + (Json.hexValue? c).getD 0) 0

def decimalDigits? (text : List Char) : Option (List Char) := do
  let digits ← plainDigits? Char.isDigit text
  if 1 < digits.length && digits.head? = some '0' then none else some digits

def signed (text : List Char) : Bool × List Char :=
  match text with
  | '-' :: rest => (true, rest)
  | '+' :: rest => (false, rest)
  | _ => (false, text)

/-- An integer of any size. Only decimal ones have a sign. -/
def integer? (text : List Char) : Option Int :=
  match text with
  | '0' :: 'x' :: rest =>
      (plainDigits? (fun c => (Json.hexValue? c).isSome) rest).map fun d => (inBase 16 d : Int)
  | '0' :: 'o' :: rest =>
      (plainDigits? (fun c => '0' ≤ c && c ≤ '7') rest).map fun d => (inBase 8 d : Int)
  | '0' :: 'b' :: rest =>
      (plainDigits? (fun c => c = '0' || c = '1') rest).map fun d => (inBase 2 d : Int)
  | _ =>
      let (negative, rest) := signed text
      (decimalDigits? rest).map fun d =>
        if negative then -(inBase 10 d : Int) else (inBase 10 d : Int)

/-- Some number that is not an integer of 64 bits. Options hold no such
number, so which one it is does not matter. -/
def otherNumber : Json := .number (.real (Decimal.Binary64.zero false))

/-- The least integer of 128 bits, one of which is a sign. -/
def leastWide : Int := -0x80000000000000000000000000000000

/-- The greatest integer of 128 bits without a sign. -/
def greatestWide : Int := 0xffffffffffffffffffffffffffffffff

/-- Integers of up to 128 bits may stand in a document; those beyond 64 bits
are kept by their kind only. -/
def integerValue? (n : Int) : Option Json :=
  if Json.leastInteger ≤ n && n ≤ Json.greatestInteger then some (.number (.integer n))
  else if leastWide ≤ n && n ≤ greatestWide then some otherNumber
  else none

/-- Splits at the first character of a class, which is dropped. -/
def splitFirst? (p : Char → Bool) (text : List Char) : Option (List Char × List Char) :=
  match text.dropWhile fun c => !p c with
  | [] => none
  | _ :: behind => some (text.takeWhile fun c => !p c, behind)

def isExponentMark (c : Char) : Bool := c = 'e' || c = 'E'

def isFloat (text : List Char) : Bool :=
  let (_, rest) := signed text
  if rest = ['i', 'n', 'f'] || rest = ['n', 'a', 'n'] then true
  else
    let (mantissa, power) :=
      match splitFirst? isExponentMark rest with
      | some (mantissa, power) => (mantissa, some power)
      | none => (rest, none)
    let (whole, places) :=
      match splitFirst? (· = '.') mantissa with
      | some (whole, places) => (whole, some places)
      | none => (mantissa, none)
    let powerFits :=
      match power with
      | some power => (plainDigits? Char.isDigit (signed power).2).isSome
      | none => true
    let placesFit :=
      match places with
      | some places => (plainDigits? Char.isDigit places).isSome
      | none => true
    (power.isSome || places.isSome) && (decimalDigits? whole).isSome && powerFits && placesFit

def hasShape (shape text : List Char) : Bool :=
  shape.length = text.length &&
    (shape.zip text).all fun (s, c) => if s = '0' then c.isDigit else s = c

def between (low high : Nat) (digits : List Char) : Bool :=
  low ≤ inBase 10 digits && inBase 10 digits ≤ high

def isDate (text : List Char) : Bool :=
  hasShape "0000-00-00".toList text && between 1 12 ((text.drop 5).take 2) &&
    between 1 31 (text.drop 8)

def isClock (text : List Char) : Bool :=
  hasShape "00:00:00".toList (text.take 8) && between 0 23 (text.take 2) &&
    between 0 59 ((text.drop 3).take 2) && between 0 60 ((text.drop 6).take 2) &&
    match text.drop 8 with
    | [] => true
    | '.' :: places => !places.isEmpty && places.all Char.isDigit
    | _ => false

def isOffset (text : List Char) : Bool :=
  match text with
  | [] | ['Z'] | ['z'] => true
  | sign :: rest =>
      (sign = '+' || sign = '-') && hasShape "00:00".toList rest && between 0 23 (rest.take 2) &&
        between 0 59 (rest.drop 3)

/-- A date, a time of day, or both with the distance from universal time. -/
def isDateTime (text : List Char) : Bool :=
  if isDate text || isClock text then true
  else
    let clock := (text.drop 11).takeWhile fun c => c.isDigit || c = ':' || c = '.'
    isDate (text.take 10) && ['T', 't', ' '].contains (text[10]?.getD '0') && isClock clock &&
      isOffset (text.drop (11 + clock.length))

/-- A word; a date takes in the time of day behind one space. -/
def scalarWord (text : List Char) : List Char × List Char :=
  let word := text.takeWhile isWordChar
  let rest := text.drop word.length
  match rest with
  | ' ' :: c :: more =>
      if isDate word && c.isDigit then
        let clock := (c :: more).takeWhile isWordChar
        (word ++ ' ' :: clock, (c :: more).drop clock.length)
      else (word, rest)
  | _ => (word, rest)

/-- A value that is neither a string nor a list nor a table. Of a date only
the kind is kept, for options hold none. -/
def scalar? : Reader Json := fun text => do
  let (word, rest) := scalarWord text
  if word = "true".toList then some (.bool true, rest)
  else if word = "false".toList then some (.bool false, rest)
  else
    match integer? word with
    | some n => (integerValue? n).map fun v => (v, rest)
    | none =>
        if isFloat word then some (otherNumber, rest)
        else if isDateTime word then
          some (.object [("date-time", .string (String.ofList word))], rest)
        else none

end SymbolPatterns.Toml
