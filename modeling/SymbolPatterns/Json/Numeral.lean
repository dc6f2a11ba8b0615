import SymbolPatterns.Decimal.Shortest
import SymbolPatterns.Json.Basic

/-!
The text of a number. Integers are written as they are. A floating-point number
has the fewest digits that read back as the same number; whether its point is
shown in place depends on the decimal exponent of its leading digit.
-/

namespace SymbolPatterns.Json

/-- Where positional notation ends, and which sign a positive exponent
carries. -/
structure RealStyle where
  leastPositional : Int
  greatestPositional : Int
  plusSign : List Char

/-- Numbers from `0.00001` up to sixteen digits before the point are written
positionally, with at least one digit after the point; other exponents always
carry a sign. -/
def realStyle : RealStyle := ⟨-5, 15, ['+']⟩

def natText (n : Nat) : List Char := Nat.toDigits 10 n

def intText (n : Int) : List Char :=
  if n < 0 then '-' :: natText n.natAbs else natText n.natAbs

/-- `digits` with a point after the first `whole` of them. -/
def pointed (digits : List Char) (whole : Int) : List Char :=
  if whole ≤ 0 then '0' :: '.' :: List.replicate whole.natAbs '0' ++ digits
  else if digits.length ≤ whole.natAbs then
    digits ++ List.replicate (whole.natAbs - digits.length) '0' ++ ['.', '0']
  else digits.take whole.natAbs ++ '.' :: digits.drop whole.natAbs

def scientific (style : RealStyle) (digits : List Char) (leading : Int) : List Char :=
  let mantissa :=
    match digits with
    | first :: second :: rest => first :: '.' :: second :: rest
    | _ => digits
  let sign := if leading < 0 then ['-'] else style.plusSign
  mantissa ++ 'e' :: sign ++ natText leading.natAbs

def realText (x : Decimal.Binary64) : List Char :=
  let sign := if x.negative then ['-'] else []
  let shortest := x.shortest
  let digits := natText shortest.digits
  let leading := shortest.exponent + digits.length - 1
  let style := realStyle
  sign ++
    if x.isZero || (style.leastPositional ≤ leading && leading ≤ style.greatestPositional) then
      pointed digits (leading + 1)
    else scientific style digits leading

def numberText : Number → List Char
  | .integer value => intText value
  | .real value => realText value

end SymbolPatterns.Json
