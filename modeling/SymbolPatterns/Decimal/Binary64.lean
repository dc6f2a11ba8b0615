/-!
Binary floating-point numbers with 53 significant bits, as exact integers: a
sign, a mantissa and a power of two. Rounding goes to the nearest such number, a
tie to the even mantissa.

A decimal is read in steps: its digits are rounded as one number, which is then
multiplied or divided by a rounded power of ten, at most `10 ^ 308` at a time.
Long decimals may therefore differ from the nearest number in the last bit.
-/

namespace SymbolPatterns.Decimal

/-- `mantissa * 2 ^ exponent`. A rounded number has `mantissa < 2 ^ 53` and
`exponent ≥ -1074`, and its mantissa is as large as these bounds allow.
Infinities are left out, as no text has one for its value. -/
structure Binary64 where
  negative : Bool
  mantissa : Nat
  exponent : Int
  deriving DecidableEq, Repr

def twoTo (n : Nat) : Nat := Nat.pow 2 n

def tenTo (n : Nat) : Nat := Nat.pow 10 n

def roundHalfEven (num den : Nat) : Nat :=
  let quotient := num / den
  let twice := 2 * (num % den)
  if twice < den || (twice = den && quotient % 2 = 0) then quotient else quotient + 1

namespace Binary64

def leastExponent : Int := -1074

def greatestExponent : Int := 971

/-- A rounded mantissa lies below `2 ^ 53`, and it reaches half of that except
at the least exponent. -/
def mantissaBound : Nat := twoTo 53

def zero (negative : Bool) : Binary64 := ⟨negative, 0, leastExponent⟩

def isZero (x : Binary64) : Bool := x.mantissa = 0

/-- `num / den / 2 ^ exponent` as a quotient of naturals. -/
def scaled (num den : Nat) (exponent : Int) : Nat × Nat :=
  if exponent < 0 then (num * twoTo exponent.natAbs, den)
  else (num, den * twoTo exponent.natAbs)

/-- The exponent at which the quotient has 53 bits before the point, or the
least one. -/
def exponentFor (num den : Nat) : Int :=
  let near : Int := (num.log2 : Int) - (den.log2 : Int) - 53
  let (n, d) := scaled num den near
  max leastExponent (if n / d < mantissaBound then near else near + 1)

/-- The number nearest to `num / den`, or nothing if that is beyond the
greatest one. Of two that are equally near the even one is taken. -/
def ofRatio? (negative : Bool) (num den : Nat) : Option Binary64 :=
  if num = 0 then some (zero negative)
  else
    let exponent := exponentFor num den
    let (n, d) := scaled num den exponent
    let mantissa := roundHalfEven n d
    let (mantissa, exponent) :=
      if mantissa = mantissaBound then (mantissaBound / 2, exponent + 1)
      else (mantissa, exponent)
    if exponent > greatestExponent then none else some ⟨negative, mantissa, exponent⟩

def ratio (x : Binary64) : Nat × Nat :=
  if x.exponent < 0 then (x.mantissa, twoTo x.exponent.natAbs)
  else (x.mantissa * twoTo x.exponent.natAbs, 1)

def powerOfTen? (n : Nat) : Option Binary64 := ofRatio? false (tenTo n) 1

def mul? (x y : Binary64) : Option Binary64 :=
  let (a, b) := x.ratio
  let (c, d) := y.ratio
  ofRatio? (x.negative != y.negative) (a * c) (b * d)

def div? (x y : Binary64) : Option Binary64 :=
  let (a, b) := x.ratio
  let (c, d) := y.ratio
  ofRatio? (x.negative != y.negative) (a * d) (b * c)

def greatestStep : Nat := 308

/-- Divides by `10 ^ n`. Zero stays zero, however large `n` is, so that no
great power has to be made for it. -/
def scaleDown? (x : Binary64) (n : Nat) : Option Binary64 :=
  if n ≤ greatestStep then do x.div? (← powerOfTen? n)
  else if x.isZero then some x
  else do
    let next ← x.div? (← powerOfTen? greatestStep)
    next.scaleDown? (n - greatestStep)
termination_by n
decreasing_by simp only [greatestStep] at *; omega

def scaleUp? (x : Binary64) (n : Nat) : Option Binary64 :=
  if n ≤ greatestStep then do x.mul? (← powerOfTen? n)
  else if x.isZero then some x
  else none

/-- `significand * 10 ^ exponent`, or nothing if that is out of range. Every
number that is read goes through here. -/
def ofDecimal? (negative : Bool) (significand : Nat) (exponent : Int) : Option Binary64 := do
  let x ← ofRatio? negative significand 1
  if exponent < 0 then x.scaleDown? exponent.natAbs else x.scaleUp? exponent.natAbs

end Binary64

end SymbolPatterns.Decimal
