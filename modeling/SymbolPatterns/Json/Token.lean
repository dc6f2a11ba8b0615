import SymbolPatterns.Json.Fault

/-!
Words, strings and numbers at the front of a text. Each reader takes the
characters left to read and gives back what follows the token.
-/

namespace SymbolPatterns.Json

abbrev Reader (α : Type) := List Char → Except Fault (α × List Char)

def isSpace (c : Char) : Bool := c == ' ' || c == '\t' || c == '\n' || c == '\r'

def skipSpace : List Char → List Char
  | [] => []
  | c :: rest => if isSpace c then skipSpace rest else c :: rest

/-- The rest of a word whose first letter has been read. -/
def wordAfter : List Char → List Char → Except Fault (List Char)
  | [], rest => .ok rest
  | _ :: _, [] => .error .endInValue
  | expected :: word, c :: rest =>
      if c = expected then wordAfter word rest else .error .expectedWord

def hexValue? (c : Char) : Option Nat :=
  if '0' ≤ c && c ≤ '9' then some (c.toNat - 48)
  else if 'a' ≤ c && c ≤ 'f' then some (c.toNat - 87)
  else if 'A' ≤ c && c ≤ 'F' then some (c.toNat - 55)
  else none

/-- Four hexadecimal digits. Fewer than four octets before the end of the text
count as a string cut short, whatever they are. -/
def hexQuad (text : List Char) : Except Fault (Nat × List Char) :=
  match text with
  | a :: b :: c :: d :: rest =>
      match hexValue? a, hexValue? b, hexValue? c, hexValue? d with
      | some a, some b, some c, some d => .ok (((a * 16 + b) * 16 + c) * 16 + d, rest)
      | _, _, _, _ => .error .invalidEscape
  | short =>
      if (String.ofList short).utf8ByteSize < 4 then .error .endInString
      else .error .invalidEscape

/-- What follows the backslash and the letter `u` of the second half of a
surrogate pair. -/
def secondHalf (text : List Char) : Except Fault (List Char) :=
  match text with
  | [] => .error .endInString
  | '\\' :: [] => .error .endInString
  | '\\' :: 'u' :: rest => .ok rest
  | _ => .error .unfinishedSurrogate

/-- The character that an escape stands for, after its backslash. -/
def escape (text : List Char) : Except Fault (Char × List Char) :=
  match text with
  | [] => .error .endInString
  | '"' :: rest => .ok ('"', rest)
  | '\\' :: rest => .ok ('\\', rest)
  | '/' :: rest => .ok ('/', rest)
  | 'b' :: rest => .ok ('\x08', rest)
  | 'f' :: rest => .ok ('\x0c', rest)
  | 'n' :: rest => .ok ('\n', rest)
  | 'r' :: rest => .ok ('\r', rest)
  | 't' :: rest => .ok ('\t', rest)
  | 'u' :: rest => do
      let (high, rest) ← hexQuad rest
      if 0xdc00 ≤ high && high ≤ 0xdfff then .error .loneSurrogate
      else if high < 0xd800 || 0xdfff < high then .ok (Char.ofNat high, rest)
      else
        let (low, rest) ← hexQuad (← secondHalf rest)
        if low < 0xdc00 || 0xdfff < low then .error .loneSurrogate
        else .ok (Char.ofNat (0x10000 + (high - 0xd800) * 0x400 + (low - 0xdc00)), rest)
  | _ => .error .invalidEscape

/-- The characters up to the closing quote. A step takes at least one
character, so the text itself bounds the number of steps: `bound` loses a
character with each. -/
def stringChars : (bound : List Char) → Reader (List Char)
  | [], _ => .error .endInString
  | _ :: _, [] => .error .endInString
  | _ :: bound, c :: rest =>
      if c = '"' then .ok ([], rest)
      else if c = '\\' then do
        let (c, rest) ← escape rest
        let (chars, rest) ← stringChars bound rest
        .ok (c :: chars, rest)
      else if c.toNat < 0x20 then .error .controlCharacter
      else do
        let (chars, rest) ← stringChars bound rest
        .ok (c :: chars, rest)

/-- A string whose opening quote has been read. -/
def stringAfter (text : List Char) : Except Fault (String × List Char) := do
  let (chars, rest) ← stringChars text text
  return (String.ofList chars, rest)

def isDigit (c : Char) : Bool := '0' ≤ c && c ≤ '9'

def digitValue (c : Char) : Nat := c.toNat - 48

/-- `significand * 10 ^ exponent`, while the digits are collected. -/
structure Scaled where
  significand : Nat
  exponent : Int
  deriving Repr

namespace Scaled

/-- Digits before the point. From the first digit on that does not fit into 64
bits, the digits only count. -/
def addWhole (d : Scaled) : List Char → Scaled
  | [] => d
  | c :: rest =>
      let next := d.significand * 10 + digitValue c
      if greatestInteger < next then { d with exponent := d.exponent + (rest.length + 1) }
      else addWhole { d with significand := next } rest

/-- Digits after the point. From the first digit on that does not fit, the
digits are dropped. -/
def addPlaces (d : Scaled) : List Char → Scaled
  | [] => d
  | c :: rest =>
      let next := d.significand * 10 + digitValue c
      if greatestInteger < next then d
      else addPlaces ⟨next, d.exponent - 1⟩ rest

end Scaled

/-- At least one digit, or the fault that stands in its place. -/
def digits (text : List Char) : Except Fault (List Char × List Char) :=
  match text with
  | [] => .error .endInValue
  | c :: _ =>
      if isDigit c then .ok (text.takeWhile isDigit, text.dropWhile isDigit)
      else .error .invalidNumber

/-- Like `digits`, but nothing may follow a leading zero directly. -/
def wholeDigits (text : List Char) : Except Fault (List Char × List Char) :=
  match text with
  | '0' :: c :: rest =>
      if isDigit c then .error .invalidNumber else .ok (['0'], c :: rest)
  | _ => digits text

/-- The power of ten that may follow the digits of a number. -/
def exponentPart (text : List Char) : Except Fault (Option Int × List Char) :=
  match text with
  | c :: rest =>
      if c = 'e' || c = 'E' then do
        let (sign, rest) :=
          match rest with
          | '+' :: rest => (1, rest)
          | '-' :: rest => (-1, rest)
          | _ => ((1 : Int), rest)
        let (ds, rest) ← digits rest
        .ok (some (sign * (ds.foldl (fun n c => n * 10 + digitValue c) 0 : Nat)), rest)
      else .ok (none, text)
  | [] => .ok (none, [])

def pointPart (text : List Char) : Except Fault (Option (List Char) × List Char) :=
  match text with
  | '.' :: rest => do
      let (ds, rest) ← digits rest
      .ok (some ds, rest)
  | _ => .ok (none, text)

/-- The number with the given parts. Without point and exponent it stays an
integer as long as it fits; minus zero does not. -/
def numberOf (negative : Bool) (whole : List Char) (places : Option (List Char))
    (power : Option Int) : Except Fault Number :=
  let d := Scaled.addWhole ⟨0, 0⟩ whole
  let real (d : Scaled) : Except Fault Number :=
    match Decimal.Binary64.ofDecimal? negative d.significand d.exponent with
    | some x => .ok (.real x)
    | none => .error .numberOutOfRange
  match places, power with
  | none, none =>
      if d.exponent ≠ 0 then real d
      else if !negative then .ok (.integer d.significand)
      else if d.significand = 0 || -(d.significand : Int) < leastInteger then real d
      else .ok (.integer (-(d.significand : Int)))
  | _, _ =>
      let d := d.addPlaces (places.getD [])
      real { d with exponent := d.exponent + power.getD 0 }

/-- A number without its sign. -/
def numberAfter (negative : Bool) : Reader Number := fun text => do
  let (whole, text) ← wholeDigits text
  let (places, text) ← pointPart text
  let (power, text) ← exponentPart text
  return (← numberOf negative whole places power, text)

end SymbolPatterns.Json
