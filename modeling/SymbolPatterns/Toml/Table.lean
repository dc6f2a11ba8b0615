import SymbolPatterns.Json.Basic

/-!
Tables under construction. A table remembers how it came to be, because a table
may be completed only in the way in which it was begun: a header defines a table
once, dotted keys extend only tables that no header has defined, and an inline
table is closed.
-/

namespace SymbolPatterns.Toml

/-- How a table was begun: by its own header, on the way to another header, or
by a dotted key. -/
inductive Origin where
  | header
  | passage
  | dotted
  deriving DecidableEq, Repr

/-- What a key holds while a document is being read. -/
inductive Entry where
  | value (v : Json)
  | table (origin : Origin) (entries : List (String × Entry))
  /-- The elements of a list of tables, the open one first. -/
  | tables (elements : List (List (String × Entry)))

abbrev Entries := List (String × Entry)

namespace Entries

def get? (entries : Entries) (key : String) : Option Entry := entries.lookup key

def set (entries : Entries) (key : String) (entry : Entry) : Entries :=
  match entries with
  | [] => [(key, entry)]
  | (k, e) :: rest => if k = key then (k, entry) :: rest else (k, e) :: set rest key entry

/-- Changes the table at the end of a path of keys. Tables on the way that are
missing are begun; `byKey` tells that the path belongs to a dotted key and not
to a header. A dotted key passes through no table that has a header of its
own, and ends only in a table that dotted keys have begun. -/
def within (byKey : Bool) (change : Entries → Option Entries) :
    List String → Entries → Option Entries
  | [], entries => change entries
  | key :: path, entries =>
      match entries.get? key with
      | none => do
          let origin := if byKey then .dotted else .passage
          return entries.set key (.table origin (← within byKey change path []))
      | some (.table origin inner) =>
          if byKey && (origin = .header || path.isEmpty && origin = .passage) then none
          else do return entries.set key (.table origin (← within byKey change path inner))
      | some (.tables (last :: earlier)) =>
          if byKey && path.isEmpty then none
          else do return entries.set key (.tables ((← within byKey change path last) :: earlier))
      | some _ => none

/-- Stores a value under a key that is not taken. -/
def store (path : List String) (v : Json) (entries : Entries) : Option Entries :=
  match path.getLast? with
  | none => none
  | some key =>
      entries.within true
        (fun inner => if (inner.get? key).isSome then none else some (inner.set key (.value v)))
        path.dropLast

/-- Begins the table of a header. -/
def define (path : List String) (entries : Entries) : Option Entries :=
  match path.getLast? with
  | none => none
  | some key =>
      entries.within false
        (fun inner =>
          match inner.get? key with
          | none => some (inner.set key (.table .header []))
          | some (.table .passage own) => some (inner.set key (.table .header own))
          | some _ => none)
        path.dropLast

/-- Begins another element of a list of tables. -/
def append (path : List String) (entries : Entries) : Option Entries :=
  match path.getLast? with
  | none => none
  | some key =>
      entries.within false
        (fun inner =>
          match inner.get? key with
          | none => some (inner.set key (.tables [[]]))
          | some (.tables elements) => some (inner.set key (.tables ([] :: elements)))
          | some _ => none)
        path.dropLast

/-- Changes the table that the last header has begun. -/
def inSection (path : List String) (change : Entries → Option Entries) (entries : Entries) :
    Option Entries :=
  entries.within false change path

end Entries

mutual

def Entry.toJson : Entry → Json
  | .value v => v
  | .table _ entries => .object (entryFields entries)
  | .tables elements => .array (elementItems elements).reverse

def entryFields : List (String × Entry) → Json.Fields
  | [] => []
  | (key, entry) :: rest => (key, entry.toJson) :: entryFields rest

def elementItems : List (List (String × Entry)) → List Json
  | [] => []
  | entries :: rest => .object (entryFields entries) :: elementItems rest

end

end SymbolPatterns.Toml
