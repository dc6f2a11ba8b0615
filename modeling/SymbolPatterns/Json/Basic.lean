import SymbolPatterns.Decimal.Binary64

/-!
JSON values. The fields of an object keep their order. Integers of at most 64
bits are kept apart from floating-point numbers, so that they are written back
digit for digit.
-/

namespace SymbolPatterns

/-- The least integer of 64 bits, one of which is a sign. -/
def Json.leastInteger : Int := -0x8000000000000000

/-- The greatest integer of 64 bits without a sign. -/
def Json.greatestInteger : Nat := 0xffffffffffffffff

/-- `integer` holds the values from `leastInteger` to `greatestInteger`; every
other number is `real`. The type does not ask for it, readers and writers do. -/
inductive Json.Number where
  | integer (value : Int)
  | real (value : Decimal.Binary64)
  deriving DecidableEq, Repr

/-- A value. The fields of an object keep the order in which they were
written. -/
inductive Json where
  | null
  | bool (value : Bool)
  | number (value : Json.Number)
  | string (text : String)
  | array (items : List Json)
  | object (fields : List (String × Json))
  deriving Repr, Inhabited

namespace Json

mutual

def decideEq : (a b : Json) → Decidable (a = b)
  | null, null => isTrue rfl
  | bool a, bool b => decidable_of_iff (a = b) (by simp)
  | number a, number b => decidable_of_iff (a = b) (by simp)
  | string a, string b => decidable_of_iff (a = b) (by simp)
  | array a, array b =>
      have := decideEqItems a b
      decidable_of_iff (a = b) (by simp)
  | object a, object b =>
      have := decideEqFields a b
      decidable_of_iff (a = b) (by simp)
  | null, bool _ | null, number _ | null, string _ | null, array _ | null, object _
  | bool _, null | bool _, number _ | bool _, string _ | bool _, array _ | bool _, object _
  | number _, null | number _, bool _ | number _, string _ | number _, array _
  | number _, object _ | string _, null | string _, bool _ | string _, number _
  | string _, array _ | string _, object _ | array _, null | array _, bool _
  | array _, number _ | array _, string _ | array _, object _ | object _, null
  | object _, bool _ | object _, number _ | object _, string _ | object _, array _ =>
      isFalse nofun

def decideEqItems : (a b : List Json) → Decidable (a = b)
  | [], [] => isTrue rfl
  | [], _ :: _ | _ :: _, [] => isFalse nofun
  | x :: a, y :: b =>
      have := decideEq x y
      have := decideEqItems a b
      decidable_of_iff (x = y ∧ a = b) (by simp)

def decideEqFields : (a b : List (String × Json)) → Decidable (a = b)
  | [], [] => isTrue rfl
  | [], _ :: _ | _ :: _, [] => isFalse nofun
  | (j, x) :: a, (k, y) :: b =>
      have := decideEq x y
      have := decideEqFields a b
      decidable_of_iff ((j = k ∧ x = y) ∧ a = b) (by simp)

end

instance : DecidableEq Json := decideEq

abbrev Fields := List (String × Json)

namespace Fields

def get? (fields : Fields) (key : String) : Option Json := fields.lookup key

/-- A key that is already there keeps its place and takes the new value;
another key goes to the end. With a key twice the first one is set. -/
def set (key : String) (value : Json) : Fields → Fields
  | [] => [(key, value)]
  | (k, v) :: rest => if k = key then (k, value) :: rest else (k, v) :: set key value rest

def text? (fields : Fields) (key : String) : Option String :=
  match fields.get? key with
  | some (.string text) => some text
  | _ => none

def items? (fields : Fields) (key : String) : Option (List Json) :=
  match fields.get? key with
  | some (.array items) => some items
  | _ => none

def keys (fields : Fields) : List String := fields.map Prod.fst

end Fields

def fields? : Json → Option Fields
  | object fields => some fields
  | _ => none

end Json

end SymbolPatterns
