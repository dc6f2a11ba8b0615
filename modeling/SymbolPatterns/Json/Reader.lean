import SymbolPatterns.Json.Token

/-!
Reading a value from its text. Lists and objects may be nested 127 deep; the
depth that is left drives the recursion.

`items` and `fields` read the inside of a list and of an object for any reader
of what stands there, so that options are read by the same rules as plain
values.
-/

namespace SymbolPatterns.Json

variable {α σ : Type}

/-- Items from the next one to the closing bracket. A step takes at least one
character, so the text itself bounds the number of steps. -/
def moreItems (item : Reader α) : (bound : List Char) → Reader (List α)
  | [], _ => .error .endInList
  | _ :: bound, text => do
      let (x, text) ← item text
      match skipSpace text with
      | [] => .error .endInList
      | ']' :: rest => .ok ([x], rest)
      | ',' :: rest =>
          match skipSpace rest with
          | [] => .error .endInValue
          | ']' :: _ => .error .trailingComma
          | next => do
              let (xs, rest) ← moreItems item bound next
              .ok (x :: xs, rest)
      | _ => .error .expectedListEnd

/-- A list whose opening bracket has been read. -/
def items (item : Reader α) : Reader (List α) := fun text =>
  match skipSpace text with
  | [] => .error .endInList
  | ']' :: rest => .ok ([], rest)
  | next => moreItems item next next

def colon (text : List Char) : Except Fault (List Char) :=
  match skipSpace text with
  | [] => .error .endInObject
  | ':' :: rest => .ok rest
  | _ => .error .expectedColon

/-- Fields from the next key on, whose opening quote has been read. The reader
of a field begins right after its key. -/
def moreFields (field : String → σ → Reader σ) : (bound : List Char) → σ → Reader σ
  | [], _, _ => .error .endInString
  | _ :: bound, state, text => do
      let (key, text) ← stringAfter text
      let (state, text) ← field key state text
      match skipSpace text with
      | [] => .error .endInObject
      | '}' :: rest => .ok (state, rest)
      | ',' :: rest =>
          match skipSpace rest with
          | [] => .error .endInValue
          | '}' :: _ => .error .trailingComma
          | '"' :: next => moreFields field bound state next
          | _ => .error .keyNotString
      | _ => .error .expectedObjectEnd

/-- An object whose opening brace has been read. -/
def fields (field : String → σ → Reader σ) (state : σ) : Reader σ := fun text =>
  match skipSpace text with
  | [] => .error .endInObject
  | '}' :: rest => .ok (state, rest)
  | '"' :: next => moreFields field next state next
  | _ => .error .keyNotString

/-- Stores a field of a plain object. A key that comes again takes the later
value, at the place of the first one. -/
def storeField (value : Reader Json) (key : String) (stored : Fields) : Reader Fields :=
  fun text => do
    let (v, text) ← value (← colon text)
    return (stored.set key v, text)

/-- A value with at most `depth` levels of lists and objects. Deeper ones are
refused, at the bracket that is one too many. -/
def value : (depth : Nat) → Reader Json
  | depth, text =>
      match skipSpace text with
      | [] => .error .endInValue
      | 'n' :: rest => do
          let rest ← wordAfter ['u', 'l', 'l'] rest
          .ok (.null, rest)
      | 't' :: rest => do
          let rest ← wordAfter ['r', 'u', 'e'] rest
          .ok (.bool true, rest)
      | 'f' :: rest => do
          let rest ← wordAfter ['a', 'l', 's', 'e'] rest
          .ok (.bool false, rest)
      | '"' :: rest => do
          let (text, rest) ← stringAfter rest
          .ok (.string text, rest)
      | '[' :: rest =>
          match depth with
          | 0 => .error .nestedTooDeep
          | depth + 1 => do
              let (xs, rest) ← items (value depth) rest
              .ok (.array xs, rest)
      | '{' :: rest =>
          match depth with
          | 0 => .error .nestedTooDeep
          | depth + 1 => do
              let (stored, rest) ← fields (storeField (value depth)) [] rest
              .ok (.object stored, rest)
      | '-' :: rest => do
          let (n, rest) ← numberAfter true rest
          .ok (.number n, rest)
      | c :: rest =>
          if isDigit c then do
            let (n, rest) ← numberAfter false (c :: rest)
            .ok (.number n, rest)
          else .error .expectedValue

def depthLimit : Nat := 127

/-- Reads a whole text: nothing but white space may follow. -/
def whole (reader : Reader α) (text : String) : Except Fault α := do
  let (x, rest) ← reader text.toList
  match skipSpace rest with
  | [] => .ok x
  | _ => .error .trailingCharacters

def parse (text : String) : Except Fault Json := whole (value depthLimit) text

end SymbolPatterns.Json
