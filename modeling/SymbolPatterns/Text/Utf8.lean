/-!
UTF-8 read octet by octet. Every input splits into pieces: well-formed
characters, and maximal ill-formed parts, each as long as the octets that could
still have begun a character. A metadata file replaces each ill-formed part; a
grammar file is refused at the first one.
-/

namespace SymbolPatterns.Text

/-- What a list of octets begins with, and how many octets it takes. -/
inductive Utf8Piece where
  | char (value : Char) (size : Nat)
  | invalid (size : Nat)
  /-- The input ends inside a character. -/
  | cut (size : Nat)
  deriving DecidableEq, Repr

namespace Utf8

/-- Payload of a lead octet, the number of octets that follow it and the range
of the first of these. The narrowed ranges exclude overlong forms, surrogates
and values above U+10FFFF. -/
def lead? (octet : UInt8) : Option (Nat × Nat × UInt8 × UInt8) :=
  if octet < 0xc2 then none
  else if octet < 0xe0 then some (octet.toNat - 0xc0, 1, 0x80, 0xbf)
  else if octet = 0xe0 then some (0, 2, 0xa0, 0xbf)
  else if octet = 0xed then some (0xd, 2, 0x80, 0x9f)
  else if octet < 0xf0 then some (octet.toNat - 0xe0, 2, 0x80, 0xbf)
  else if octet = 0xf0 then some (0, 3, 0x90, 0xbf)
  else if octet < 0xf4 then some (octet.toNat - 0xf0, 3, 0x80, 0xbf)
  else if octet = 0xf4 then some (4, 3, 0x80, 0x8f)
  else none

/-- Reads the octets after a lead. `size` counts the octets already accepted. -/
def tailPiece (low high : UInt8) : (missing : Nat) → (size payload : Nat) → List UInt8 → Utf8Piece
  | 0, size, payload, _ => .char (Char.ofNat payload) size
  | _ + 1, size, _, [] => .cut size
  | missing + 1, size, payload, octet :: rest =>
      if low ≤ octet && octet ≤ high then
        tailPiece 0x80 0xbf missing (size + 1) (payload * 64 + (octet.toNat - 0x80)) rest
      else .invalid size

def pieceAt (octet : UInt8) (rest : List UInt8) : Utf8Piece :=
  if octet < 0x80 then .char (Char.ofNat octet.toNat) 1
  else
    match lead? octet with
    | none => .invalid 1
    | some (payload, missing, low, high) => tailPiece low high missing 1 payload rest

end Utf8

namespace Utf8Piece

def size : Utf8Piece → Nat
  | char _ size | invalid size | cut size => size

/-- The character a lenient reader sees. -/
def lenient : Utf8Piece → Char
  | char value _ => value
  | invalid _ | cut _ => '\ufffd'

end Utf8Piece

namespace Utf8

/-- The first argument counts octets of the current piece that are still to be
passed. -/
def piecesFrom : Nat → List UInt8 → List Utf8Piece
  | _, [] => []
  | pending + 1, _ :: rest => piecesFrom pending rest
  | 0, octet :: rest =>
      let piece := pieceAt octet rest
      piece :: piecesFrom (piece.size - 1) rest

def pieces (octets : List UInt8) : List Utf8Piece := piecesFrom 0 octets

def decodeLenient (octets : List UInt8) : String :=
  String.ofList ((pieces octets).map Utf8Piece.lenient)

/-- Where the first ill-formed part starts, and its length unless the input
ends in it. -/
structure Fault where
  index : Nat
  size : Option Nat
  deriving DecidableEq, Repr

def Fault.message (fault : Fault) : String :=
  match fault.size with
  | some size => s!"invalid utf-8 sequence of {size} bytes from index {fault.index}"
  | none => s!"incomplete utf-8 byte sequence from index {fault.index}"

def charsFrom (index : Nat) : List Utf8Piece → Except Fault (List Char)
  | [] => .ok []
  | .char value size :: rest => do
      let following ← charsFrom (index + size) rest
      return value :: following
  | .invalid size :: _ => .error ⟨index, some size⟩
  | .cut _ :: _ => .error ⟨index, none⟩

def decode (octets : List UInt8) : Except Fault String :=
  (charsFrom 0 (pieces octets)).map String.ofList

end Utf8

/-- The byte-order mark is dropped from the front of a text, once. -/
def withoutMark (text : List Char) : List Char :=
  match text with
  | '\ufeff' :: rest => rest
  | _ => text

end SymbolPatterns.Text
