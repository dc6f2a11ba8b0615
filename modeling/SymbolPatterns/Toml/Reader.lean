import SymbolPatterns.Text.Utf8
import SymbolPatterns.Toml.Table
import SymbolPatterns.Toml.Token

/-!
Reading a TOML document as an object. A document that breaks a rule gives
nothing; which rule it was is not told.
-/

namespace SymbolPatterns.Toml

/-- A value. A list may be spread over lines with comments; an inline table
may not. A step takes at least one character, so the length of the text bounds
the number of steps. -/
def value? : Nat → Reader Json
  | 0, _ => none
  | steps + 1, text =>
      match text with
      | '[' :: rest => do
          let (items, rest) ← listItems? steps [] rest
          return (.array items, rest)
      | '{' :: rest =>
          match skipBlanks rest with
          | '}' :: rest => some (.object [], rest)
          | rest => do
              let (entries, rest) ← inlineFields? steps [] rest
              return (.object (entryFields entries), rest)
      | c :: _ =>
          if c = '"' || c = '\x27' then do
            let (text, rest) ← string? text
            return (.string text, rest)
          else scalar? text
      | [] => none
where
  /-- Items up to the closing bracket, with those before them in reverse order. -/
  listItems? : Nat → List Json → Reader (List Json)
    | 0, _, _ => none
    | steps + 1, before, text => do
        match ← skipLines text.length text with
        | ']' :: rest => some (before.reverse, rest)
        | text =>
            let (item, text) ← value? steps text
            match ← skipLines text.length text with
            | ',' :: rest => listItems? steps (item :: before) rest
            | ']' :: rest => some ((item :: before).reverse, rest)
            | _ => none
  /-- Fields of an inline table up to the closing brace. -/
  inlineFields? : Nat → Entries → Reader Entries
    | 0, _, _ => none
    | steps + 1, entries, text => do
        let (path, text) ← keyPath? text.length text
        match text with
        | '=' :: text => do
            let (v, text) ← value? steps (skipBlanks text)
            let entries ← entries.store path v
            match skipBlanks text with
            | ',' :: rest => inlineFields? steps entries rest
            | '}' :: rest => some (entries, rest)
            | _ => none
        | _ => none

/-- The document read so far, and the header of the section that is open. -/
structure State where
  entries : Entries
  header : List String

/-- One statement: a header or a field. -/
def statement? (state : State) (text : List Char) : Option (State × List Char) :=
  match text with
  | '[' :: '[' :: rest => do
      let (path, rest) ← keyPath? rest.length rest
      match rest with
      | ']' :: ']' :: rest => do return (⟨← state.entries.append path, path⟩, rest)
      | _ => none
  | '[' :: rest => do
      let (path, rest) ← keyPath? rest.length rest
      match rest with
      | ']' :: rest => do return (⟨← state.entries.define path, path⟩, rest)
      | _ => none
  | _ => do
      let (path, rest) ← keyPath? text.length text
      match rest with
      | '=' :: rest => do
          let (v, rest) ← value? (rest.length + 1) (skipBlanks rest)
          let entries ← state.entries.inSection state.header (Entries.store path v)
          return ({ state with entries := entries }, rest)
      | _ => none

/-- Statements up to the end of the text; each takes at least one character. -/
def statements? : Nat → State → List Char → Option State
  | 0, state, text => if text.isEmpty then some state else none
  | steps + 1, state, text => do
      match ← skipLines text.length text with
      | [] => some state
      | text =>
          let (state, rest) ← statement? state text
          statements? steps state (← statementEnd? rest)

def parse? (text : String) : Option Json.Fields := do
  let chars := Text.withoutMark text.toList
  let state ← statements? (chars.length + 1) ⟨[], []⟩ chars
  return entryFields state.entries

end SymbolPatterns.Toml
