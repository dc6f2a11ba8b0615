import SymbolPatterns.Json.Skim

/-!
Decoders for typed values. A decoder reads either a text, fault by fault in
reading order, or a value that has been read already. The two differ only where
a text shows more than its value: in the order of faults, in a repeated key, and
in what follows the last field of a record written as a list.
-/

namespace SymbolPatterns.Json

/-- Two readings of one kind of data: from text, where the fault tells its
place, and from a value that has been read already. They are written side by
side and have to agree where neither fails. -/
structure Decoder (α : Type) where
  text : Reader α
  value : Json → Except Fault α

namespace Decoder

variable {α β σ : Type}

/-- A decoder for a word, a number or a string. Lists and objects are refused
unread. -/
def scalar (wanted : String) (pick : Json → Except Fault α) : Decoder α where
  text := fun text =>
    match skipSpace text with
    | '[' :: _ => .error (.wrongType .list wanted)
    | '{' :: _ => .error (.wrongType .object wanted)
    | next => do
        let (v, rest) ← Json.value 0 next
        return (← pick v, rest)
  value := pick

def string (wanted : String) : Decoder String :=
  scalar wanted fun
    | .string text => .ok text
    | v => .error (.wrongType v.found wanted)

def bool : Decoder Bool :=
  scalar "a boolean" fun
    | .bool value => .ok value
    | v => .error (.wrongType v.found "a boolean")

def natural (wanted : String) : Decoder Nat :=
  scalar wanted fun
    | .number (.integer n) =>
        if n < 0 then .error (.wrongValue (.number (.integer n)) wanted) else .ok n.toNat
    | v => .error (.wrongType v.found wanted)

/-- The value `null` means that there is none. -/
def option (d : Decoder α) : Decoder (Option α) where
  text := fun text =>
    match skipSpace text with
    | 'n' :: rest => do return (none, ← wordAfter ['u', 'l', 'l'] rest)
    | next => do
        let (x, rest) ← d.text next
        return (some x, rest)
  value
    | .null => .ok none
    | v => do return some (← d.value v)

def list (d : Decoder α) : Decoder (List α) where
  text := fun text =>
    match skipSpace text with
    | '[' :: rest => items d.text rest
    | '{' :: _ => .error (.wrongType .object "a sequence")
    | next => do
        let (v, _) ← Json.value 0 next
        .error (.wrongType v.found "a sequence")
  value
    | .array xs => xs.mapM d.value
    | v => .error (.wrongType v.found "a sequence")

private def pickVariant (choices : List (String × α)) (name : String) : Except Fault α :=
  match choices.lookup name with
  | some x => .ok x
  | none => .error (.unknownVariant name (choices.map Prod.fst))

private def unitWord : Decoder Unit :=
  scalar "unit" fun
    | .null => .ok ()
    | v => .error (.wrongType v.found "unit")

/-- One of several names, or an object that holds `null` under such a name. -/
def variant (choices : List (String × α)) : Decoder α where
  text := fun text =>
    match skipSpace text with
    | [] => .error .endInValue
    | '"' :: rest => do
        let (name, rest) ← stringAfter rest
        return (← pickVariant choices name, rest)
    | '{' :: rest => do
        let (name, rest) ← (string "variant identifier").text rest
        let x ← pickVariant choices name
        let (_, rest) ← unitWord.text (← colon rest)
        match skipSpace rest with
        | [] => .error .endInObject
        | '}' :: rest => .ok (x, rest)
        | _ => .error .expectedValue
    | _ => .error .expectedValue
  value
    | .string name => pickVariant choices name
    | .object [(name, v)] => do
        let x ← pickVariant choices name
        unitWord.value v
        return x
    | .object _ => .error (.wrongValue .object "map with a single key")
    | v => .error (.wrongType v.found "string or map")

/-- A field of a record that is being filled. The first name is the one that
messages use; the others are read as well. -/
structure Field (σ : Type) where
  name : String
  alternatives : List String
  filled : σ → Bool
  text : σ → Reader σ
  value : σ → Json → Except Fault σ

/-- A field that a draft holds as an optional value. -/
def Field.of (name : String) (d : Decoder β) (get : σ → Option β) (set : σ → β → σ)
    (alternatives : List String) : Field σ where
  name := name
  alternatives := alternatives
  filled := fun s => (get s).isSome
  text := fun s text => do
    let (x, rest) ← d.text text
    return (set s x, rest)
  value := fun s v => do return set s (← d.value v)

/-- A record with its fields in order of declaration. `finish` says what an
incomplete record means, or which field is missing; `mayStop` is whether a
list may leave fields out. -/
structure Record (σ α : Type) where
  wanted : String
  fields : List (Field σ)
  empty : σ
  finish : σ → Except Fault α
  mayStop : Bool

namespace Record

def field? (r : Record σ α) (key : String) : Option (Field σ) :=
  r.fields.find? fun f => f.name = key || f.alternatives.contains key

def lengthWanted (r : Record σ α) : String := s!"{r.wanted} with {r.fields.length} elements"

/-- A known key may be given once; the value of an unknown key is passed over.
It is passed over by its outline only, so it may hold numbers out of range. -/
def textField (r : Record σ α) (key : String) (state : σ) : Reader σ := fun text =>
  match r.field? key with
  | some f =>
      if f.filled state then .error (.repeatedField f.name)
      else do f.text state (← colon text)
  | none => do return (state, ← skim (← colon text))

/-- The fields of a record written as a list, in order. `index` counts those
already read. -/
def textItems (r : Record σ α) : (index : Nat) → List (Field σ) → σ → Reader σ
  | _, [], state, text => .ok (state, text)
  | index, f :: following, state, text =>
      let more : Reader σ := fun text => do
        let (state, text) ← f.text state text
        textItems r (index + 1) following state text
      match skipSpace text with
      | [] => .error .endInList
      | c :: rest =>
          if c = ']' then
            if r.mayStop then .ok (state, c :: rest)
            else .error (.wrongLength index r.lengthWanted)
          else if index = 0 then more (c :: rest)
          else if c = ',' then
            match skipSpace rest with
            | [] => .error .endInValue
            | ']' :: _ => .error .trailingComma
            | next => more next
          else .error .expectedListEnd

def listEnd (text : List Char) : Except Fault (List Char) :=
  match skipSpace text with
  | [] => .error .endInList
  | ']' :: rest => .ok rest
  | ',' :: rest =>
      match skipSpace rest with
      | ']' :: _ => .error .trailingComma
      | _ => .error .trailingCharacters
  | _ => .error .trailingCharacters

def valueFields (r : Record σ α) : List (String × Json) → σ → Except Fault σ
  | [], state => .ok state
  | (key, v) :: rest, state =>
      match r.field? key with
      | some f =>
          if f.filled state then .error (.repeatedField f.name)
          else do r.valueFields rest (← f.value state v)
      | none => r.valueFields rest state

/-- `length` is the number of all items, for the message about items left
over. -/
def valueItems (r : Record σ α) (length : Nat) : List (Field σ) → List Json → σ → Except Fault σ
  | [], [], state => .ok state
  | [], _ :: _, _ => .error (.wrongLength length "fewer elements in array")
  | _ :: _, [], state =>
      if r.mayStop then .ok state else .error (.wrongLength length r.lengthWanted)
  | f :: following, v :: rest, state => do
      valueItems r length following rest (← f.value state v)

def decoder (r : Record σ α) : Decoder α where
  text := fun text =>
    match skipSpace text with
    | '{' :: rest => do
        let (state, rest) ← Json.fields r.textField r.empty rest
        return (← r.finish state, rest)
    | '[' :: rest => do
        let (state, rest) ← r.textItems 0 r.fields r.empty rest
        let x ← r.finish state
        return (x, ← listEnd rest)
    | next => do
        let (v, _) ← Json.value 0 next
        .error (.wrongType v.found r.wanted)
  value
    | .object entries => do r.finish (← r.valueFields entries r.empty)
    | .array xs => do r.finish (← r.valueItems xs.length r.fields xs r.empty)
    | v => .error (.wrongType v.found r.wanted)

def required (name : String) : Option β → Except Fault β
  | some x => .ok x
  | none => .error (.missingField name)

end Record

end Decoder

end SymbolPatterns.Json
