import SymbolPatterns.Symbol.SymbolSet
import SymbolPatterns.Text.Blank
import SymbolPatterns.Text.Word

/-!
A header is scanned, not parsed. Comments are blanked out; then namespaces,
classes and scoped enumerations are picked out wherever a declaration of one
begins at a word boundary. Everything else is passed over.
-/

namespace SymbolPatterns.Metadata

open Text

/-- Whether the end of a block comment lies ahead. An opening without an end
is no comment and stays in the text. -/
def closesBlock : List Char → Bool
  | '*' :: '/' :: _ => true
  | _ :: rest => closesBlock rest
  | [] => false

/-- Replaces every block comment that is closed by one space, so that the
words around it stay apart. -/
def stripBlocks : (inside : Bool) → List Char → List Char
  | _, [] => []
  | true, '*' :: '/' :: rest => stripBlocks false rest
  | true, _ :: rest => stripBlocks true rest
  | false, '/' :: '*' :: rest =>
      if closesBlock rest then ' ' :: stripBlocks true rest
      else '/' :: '*' :: stripBlocks false rest
  | false, c :: rest => c :: stripBlocks false rest

/-- Drops every line comment up to the end of its line. -/
def stripLines : (inside : Bool) → List Char → List Char
  | _, [] => []
  | _, '\n' :: rest => '\n' :: stripLines false rest
  | true, _ :: rest => stripLines true rest
  | false, '/' :: '/' :: rest => stripLines true rest
  | false, c :: rest => c :: stripLines false rest

/-- Block comments go first, wherever their opening stands, be it in a line
comment. -/
def stripComments (source : List Char) : List Char :=
  stripLines false (stripBlocks false source)

/-- A recogniser looks at the front of the text and gives what it found, with
the text behind it. -/
abbrev Recogniser (α : Type) := List Char → Option (α × List Char)

def expect (word : String) (text : List Char) : Option (List Char) :=
  if word.toList.isPrefixOf text then some (text.drop word.length) else none

def expectBlanks (text : List Char) : Option (List Char) :=
  match text with
  | c :: rest => if isBlank c then some (skipBlanks rest) else none
  | [] => none

def beginsName (c : Char) : Bool := c.isAlpha || c == '_'

/-- A letter or underscore with all word characters behind it. Word characters
of other scripts belong to the word, so a name is never cut short. -/
def simpleName : Recogniser (List Char) := fun text =>
  match text with
  | c :: rest =>
      if beginsName c then some (c :: rest.takeWhile isWord, rest.dropWhile isWord) else none
  | [] => none

/-- Further segments of a scoped name, with the blanks around them left out. A
step takes at least one character, so the text itself bounds the number of
steps. -/
def moreSegments : (bound : List Char) → List Char → List (List Char) × List Char
  | [], text => ([], text)
  | _ :: bound, text =>
      let next := do
        let rest ← expect "::" (skipBlanks text)
        simpleName (skipBlanks rest)
      match next with
      | none => ([], text)
      | some (segment, rest) =>
          let (segments, rest) := moreSegments bound rest
          (segment :: segments, rest)

def scopedName : Recogniser (List (List Char)) := fun text => do
  let (segment, rest) ← simpleName text
  let (segments, rest) := moreSegments rest rest
  return (segment :: segments, rest)

def namespaceBlock : Recogniser (List (List Char)) := fun text => do
  let (segments, rest) ← scopedName (← expectBlanks (← expect "namespace" text))
  return (segments, ← expect "\x7b" (skipBlanks rest))

def usingNamespace : Recogniser (List (List Char)) := fun text => do
  let text ← expectBlanks (← expect "using" text)
  let (segments, rest) ← scopedName (← expectBlanks (← expect "namespace" text))
  return (segments, ← expect ";" (skipBlanks rest))

def classKeyword (text : List Char) : Option (List Char) :=
  (expect "class" text).orElse fun _ => expect "struct" text

def endsDeclaration (text : List Char) : Option (List Char) :=
  match text with
  | c :: rest => if c = ':' || c = '{' || c = ';' then some rest else none
  | [] => none

/-- A template parameter is no declaration: a colon, a brace or a semicolon
has to follow the name, with at most the word `final` between. -/
def classDeclaration : Recogniser (List Char) := fun text => do
  let (name, rest) ← simpleName (← expectBlanks (← classKeyword text))
  let rest := skipBlanks rest
  let rest ← ((expect "final" rest).bind fun rest => endsDeclaration (skipBlanks rest)).orElse
    fun _ => endsDeclaration rest
  return (name, rest)

def scopedEnum : Recogniser (List (List Char)) := fun text => do
  let text ← expectBlanks (← expect "enum" text)
  scopedName (← expectBlanks (← classKeyword text))

/-- Everything a recogniser finds from left to right at word boundaries,
without overlaps. `pending` counts the characters of the last find that are
still to be passed, and `before` is the character last passed. -/
def findFrom {α : Type} (recognise : Recogniser α) :
    (pending : Nat) → (before : Option Char) → List Char → List α
  | _, _, [] => []
  | pending + 1, _, c :: rest => findFrom recognise pending (some c) rest
  | 0, before, c :: rest =>
      let found := if isBoundary before (some c) then recognise (c :: rest) else none
      match found with
      | some (x, behind) => x :: findFrom recognise (rest.length - behind.length) (some c) rest
      | none => findFrom recognise 0 (some c) rest

def findAll {α : Type} (recognise : Recogniser α) (text : List Char) : List α :=
  findFrom recognise 0 none text

def keywords : List String :=
  ["class", "struct", "enum", "final", "namespace", "template", "typename", "using"]

def scopedText (segments : List (List Char)) : String :=
  "::".intercalate (segments.map String.ofList)

/-- A keyword in the place of a type name comes from a construct that is not
understood, and is dropped. -/
def typeSymbols (names : List (List Char)) : List Symbol :=
  ((names.map String.ofList).filter fun name => !keywords.contains name).map .typeName

def headerSymbols (content : List Char) : List Symbol :=
  let source := stripComments content
  ((findAll namespaceBlock source ++ findAll usingNamespace source).map
      fun segments => .namespaceName (scopedText segments)) ++
    typeSymbols (findAll classDeclaration source) ++
    typeSymbols (findAll scopedEnum source).flatten

end SymbolPatterns.Metadata
