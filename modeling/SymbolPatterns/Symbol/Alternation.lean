import SymbolPatterns.Failure
import SymbolPatterns.Symbol.Arranged

/-!
Alternations of literal names. Longer names come first, so that the first
alternative that matches is the longest one; names of equal length come in
ascending order. A chunk is a run of consecutive alternatives that stays within
a limit. Lengths count octets.
-/

namespace SymbolPatterns.Symbol

/-- Matches nothing; it stands for the alternation of no names at all, since
an empty one would match everywhere. -/
def neverMatch : String := "(?!)"

def longerFirst (a b : String) : Bool :=
  b.utf8ByteSize < a.utf8ByteSize || (a.utf8ByteSize = b.utf8ByteSize && a < b)

/-- The characters with a meaning of their own in a regular expression. -/
def metacharacters : List Char :=
  ['\\', '.', '+', '*', '?', '(', ')', '|', '[', ']', '{', '}', '^', '$', '#', '&', '-', '~']

def escapeChar (c : Char) : List Char := if metacharacters.contains c then ['\\', c] else [c]

def escape (name : String) : String := String.ofList (name.toList.flatMap escapeChar)

/-- The alternatives for a collection of names, in the order in which they are
tried. -/
def alternatives (names : List String) : List String :=
  (arranged longerFirst names).map escape

def alternation (names : List String) : String :=
  match alternatives names with
  | [] => neverMatch
  | items => "|".intercalate items

def closeChunk (chunk : String) : List String := if chunk.isEmpty then [] else [chunk]

/-- Cuts the alternatives into chunks. `chunk` is the one that is open. An
alternative that is too long for any chunk ends it all. -/
def cut (limit : Nat) : (chunk : String) → List String → Except Failure (List String)
  | chunk, [] => .ok (closeChunk chunk)
  | chunk, item :: rest =>
      if limit < item.utf8ByteSize then .error (.configuration (.symbolTooLong item limit))
      else if chunk.isEmpty then cut limit item rest
      else if limit < chunk.utf8ByteSize + 1 + item.utf8ByteSize then do
        let following ← cut limit item rest
        .ok (chunk :: following)
      else cut limit (chunk ++ "|" ++ item) rest

def chunks (limit : Nat) (names : List String) : Except Failure (List String) :=
  match alternatives names with
  | [] => .ok [neverMatch]
  | items => cut limit "" items

end SymbolPatterns.Symbol
