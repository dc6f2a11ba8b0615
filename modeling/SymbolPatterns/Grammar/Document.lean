import SymbolPatterns.FileSystem.Access
import SymbolPatterns.Grammar.Lookup
import SymbolPatterns.Json.Printer
import SymbolPatterns.Json.Reader

/-!
A grammar document is an object together with the text that it was read from. It
is written with the indentation that this text uses, and a file is written only
when its content would change.
-/

namespace SymbolPatterns.Grammar

open Json (Fields)

/-- A grammar at its path: the object that it holds and the text that was
read. The text is kept to tell whether anything has to be written, and in
which unit. -/
structure Document where
  path : Path
  root : Fields
  readText : String

def isIndent (c : Char) : Bool := c == ' ' || c == '\t'

/-- A line feed ends a line, together with a carriage return in front of it;
behind the last line feed there is a line only if some text is left. -/
def lines (text : List Char) : List (List Char) :=
  let pieces := Text.splitAt '\n' text
  let ended := pieces.dropLast.map fun line =>
    if line.getLast? = some '\r' then line.dropLast else line
  match pieces.getLast? with
  | none | some [] => ended
  | some last => ended ++ [last]

/-- The unit that an indented line shows: one tab, or all the characters it
begins with. A line of nothing else shows none. -/
def unitOfLine? (line : List Char) : Option (List Char) :=
  let leading := line.takeWhile isIndent
  if leading.isEmpty || leading.length = line.length then none
  else if leading.head? = some '\t' then some ['\t']
  else some (List.replicate leading.length ' ')

def defaultUnit : List Char := [' ', ' ']

/-- The unit of the first line after the first that shows one. The first line
holds the opening brace and shows nothing. -/
def unitOf (text : List Char) : List Char :=
  (((lines text).drop 1).findSome? unitOfLine?).getD defaultUnit

namespace Document

def parse (path : Path) (content : String) : Except Failure Document :=
  match Json.parse (String.ofList (Text.withoutMark content.toList)) with
  | .error fault => .error (.malformedGrammar path (.unreadable fault))
  | .ok (.object root) => .ok ⟨path, root, content⟩
  | .ok _ => .error (.malformedGrammar path .notObject)

def load (fs : FileSystem) (path : Path) : Except Failure Document :=
  match fs.read path with
  | .error cause => .error (.access path cause)
  | .ok octets =>
      match Text.Utf8.decode octets.toList with
      | .error fault => .error (.malformedGrammar path (.notUtf8 fault))
      | .ok content => parse path content

def pretty (document : Document) : String :=
  String.ofList (Json.prettyText (unitOf document.readText.toList) 0 (.object document.root) ++
    ['\n'])

def isModified (document : Document) : Bool := document.pretty ≠ document.readText

/-- The directory in which the temporary file for a path is made, so that the
rename stays within one directory. -/
def directoryFor (path : Path) : Path :=
  match path.parent? with
  | some directory => if directory.raw.isEmpty then ⟨"."⟩ else directory
  | none => ⟨"."⟩

/-- Writes the document unless the file holds the same text already, and tells
whether it was written. The files are those after the attempt, whatever its
outcome. -/
def writeTo (fs : FileSystem) (document : Document) (path : Path) :
    FileSystem × Except Failure Bool :=
  let content := document.pretty.toUTF8
  let upToDate : Bool :=
    match fs.read path with
    | .ok current => current == content
    | .error _ => false
  if upToDate then (fs, .ok false)
  else
    let (files, outcome) := fs.replace (directoryFor path) path content
    match outcome with
    | .ok () => (files, .ok true)
    | .error (place, cause) => (files, .error (.access place cause))

/-- The files with the document in them, where it can be written. Where it
cannot, only the failure is told. -/
def saveTo (fs : FileSystem) (document : Document) (path : Path) :
    Except Failure (FileSystem × Bool) :=
  let (files, outcome) := document.writeTo fs path
  outcome.map fun written => (files, written)

end Document

end SymbolPatterns.Grammar
