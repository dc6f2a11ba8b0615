import SymbolPatterns.Json.Reader

/-!
Reading past a value that nobody asked for. Only its outline is checked:
brackets have to match and tokens have to be well formed, but numbers may be out
of range, surrogates may stand alone and the nesting is unlimited.
-/

namespace SymbolPatterns.Json

/-- A list or an object that is still open. -/
inductive Frame where
  | list
  | object
  deriving DecidableEq, Repr

/-- What may come next in an open frame: its first entry, or what follows an
entry. -/
inductive SkimStage where
  | first
  | after
  deriving DecidableEq, Repr

def Frame.endFault : Frame → Fault
  | list => .endInList
  | object => .endInObject

def Frame.entryFault : Frame → Fault
  | list => .expectedListEnd
  | object => .expectedObjectEnd

def Frame.closing : Frame → Char
  | list => ']'
  | object => '}'

def skimEscape (text : List Char) : Except Fault (List Char) :=
  match text with
  | [] => .error .endInString
  | 'u' :: rest => (hexQuad rest).map Prod.snd
  | c :: rest =>
      if ['"', '\\', '/', 'b', 'f', 'n', 'r', 't'].contains c then .ok rest
      else .error .invalidEscape

def skimString : (bound : List Char) → List Char → Except Fault (List Char)
  | [], _ => .error .endInString
  | _ :: _, [] => .error .endInString
  | _ :: bound, c :: rest =>
      if c = '"' then .ok rest
      else if c = '\\' then do skimString bound (← skimEscape rest)
      else if c.toNat < 0x20 then .error .controlCharacter
      else skimString bound rest

def skimDigits (text : List Char) : Except Fault (List Char) :=
  match text with
  | c :: _ => if isDigit c then .ok (text.dropWhile isDigit) else .error .invalidNumber
  | [] => .error .invalidNumber

def skimNumber (text : List Char) : Except Fault (List Char) := do
  let text ←
    match text with
    | '0' :: c :: rest => if isDigit c then .error .invalidNumber else .ok (c :: rest)
    | _ => skimDigits text
  let text ←
    match text with
    | '.' :: rest => skimDigits rest
    | _ => .ok text
  match text with
  | 'e' :: sign :: rest | 'E' :: sign :: rest =>
      skimDigits (if sign = '+' || sign = '-' then rest else sign :: rest)
  | ['e'] | ['E'] => .error .invalidNumber
  | _ => .ok text

def skimKey (text : List Char) : Except Fault (List Char) :=
  match skipSpace text with
  | [] => .error .endInObject
  | '"' :: rest => do colon (← skimString rest rest)
  | _ => .error .keyNotString

/-- Goes to the next entry of a frame: in an object its key is passed. -/
def Frame.enter (frame : Frame) (text : List Char) : Except Fault (List Char) :=
  match frame with
  | list => .ok text
  | object => skimKey text

/-- Where skimming stands: the open frames from the inside out, what may come
next in the innermost one, and the text that is left. -/
structure SkimState where
  frames : List Frame
  stage : SkimStage
  text : List Char

/-- Passes the beginning of a value: all of a word, a number or a string, but
only the opening bracket of a list or an object. -/
def skimStart (frames : List Frame) (text : List Char) : Except Fault SkimState :=
  match skipSpace text with
  | [] => .error .endInValue
  | 'n' :: rest => do return ⟨frames, .after, ← wordAfter ['u', 'l', 'l'] rest⟩
  | 't' :: rest => do return ⟨frames, .after, ← wordAfter ['r', 'u', 'e'] rest⟩
  | 'f' :: rest => do return ⟨frames, .after, ← wordAfter ['a', 'l', 's', 'e'] rest⟩
  | '"' :: rest => do return ⟨frames, .after, ← skimString rest rest⟩
  | '[' :: rest => .ok ⟨.list :: frames, .first, rest⟩
  | '{' :: rest => .ok ⟨.object :: frames, .first, rest⟩
  | '-' :: rest => do return ⟨frames, .after, ← skimNumber rest⟩
  | c :: rest =>
      if isDigit c then do return ⟨frames, .after, ← skimNumber (c :: rest)⟩
      else .error .expectedValue

/-- Passes a closing bracket, or the beginning of the next entry of a frame. -/
def skimNext (frame : Frame) (frames : List Frame) (stage : SkimStage) (text : List Char) :
    Except Fault SkimState :=
  match skipSpace text with
  | [] => .error frame.endFault
  | c :: rest =>
      if c = frame.closing then .ok ⟨frames, .after, rest⟩
      else
        match stage with
        | .first => do skimStart (frame :: frames) (← frame.enter (c :: rest))
        | .after =>
            if c = ',' then do skimStart (frame :: frames) (← frame.enter rest)
            else .error frame.entryFault

/-- Goes on until no frame is open. A step takes at least one character. -/
def skimFrames : (bound : List Char) → SkimState → Except Fault (List Char)
  | _, ⟨[], _, text⟩ => .ok text
  | [], ⟨frame :: _, _, _⟩ => .error frame.endFault
  | _ :: bound, ⟨frame :: frames, stage, text⟩ => do
      skimFrames bound (← skimNext frame frames stage text)

def skim (text : List Char) : Except Fault (List Char) := do
  skimFrames text (← skimStart [] text)

end SymbolPatterns.Json
