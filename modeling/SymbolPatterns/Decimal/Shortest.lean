import SymbolPatterns.Decimal.Binary64

/-!
The shortest decimal that reads back as a given number: the fewest digits whose
value lies in the interval of reals that round to the number, and of those the
nearest.

For a count of digits, only the two neighbours of the number on the grid of that
many digits have to be tried: if any point of the grid lies in the interval, one
of them does.
-/

namespace SymbolPatterns.Decimal

structure Digits where
  digits : Nat
  exponent : Int
  deriving DecidableEq, Repr

namespace Binary64

/-- The interval of reals that round to a number, in quarters of its last
place: distance to the lower and to the upper end. Below a power of two the
gap is half as wide. -/
def halfGaps (x : Binary64) : Nat × Nat :=
  if 2 * x.mantissa = mantissaBound && x.exponent > leastExponent then (1, 2) else (2, 2)

def leadingExponent (num den : Nat) : Int :=
  if den ≤ num then ((Nat.toDigits 10 (num / den)).length : Int) - 1
  else
    let rec below : Nat → Nat → Int
      | 0, steps => -(steps : Int)
      | fuel + 1, steps =>
          if den ≤ num * tenTo steps then -(steps : Int) else below fuel (steps + 1)
    below 330 1

/-- The point of the grid of `10 ^ exponent` nearest to the number, if it
rounds back. Nearer points are looked for on finer grids only if this one
fails. -/
def onGrid? (x : Binary64) (exponent : Int) : Option Digits :=
  let (lowGap, highGap) := x.halfGaps
  let quarter : Binary64 := { x with mantissa := 4 * x.mantissa, exponent := x.exponent - 2 }
  -- every length below is counted in units of `1 / den`
  let (value, den) := quarter.ratio
  let (unit, _) := (⟨false, 1, x.exponent - 2⟩ : Binary64).ratio
  let (step, value, unit) :=
    if exponent < 0 then (den, value * tenTo exponent.natAbs, unit * tenTo exponent.natAbs)
    else (den * tenTo exponent.natAbs, value, unit)
  let closed := x.mantissa % 2 = 0
  let below := value / step
  let downward := value - below * step
  let upward := step - downward
  let lowFits := downward < lowGap * unit || (closed && downward = lowGap * unit)
  let highFits := upward < highGap * unit || (closed && upward = highGap * unit)
  let lowNearer := downward < upward || (downward = upward && below % 2 = 0)
  if lowFits && (lowNearer || !highFits) then some ⟨below, exponent⟩
  else if highFits then some ⟨below + 1, exponent⟩
  else none

/-- Tries `count` further digits, beginning with the grid of `10 ^ exponent`. -/
def shortestFrom (x : Binary64) : (count : Nat) → (exponent : Int) → Digits
  | 0, exponent => ⟨0, exponent⟩
  | count + 1, exponent =>
      match x.onGrid? exponent with
      | some found => found
      | none => x.shortestFrom count (exponent - 1)

def stripZeros : Nat → Digits → Digits
  | 0, d => d
  | fuel + 1, d =>
      if d.digits % 10 = 0 && d.digits ≠ 0 then stripZeros fuel ⟨d.digits / 10, d.exponent + 1⟩
      else d

/-- The digits of the coarsest grid that has a point rounding back. Seventeen
digits always suffice. -/
def shortest (x : Binary64) : Digits :=
  if x.isZero then ⟨0, 0⟩
  else
    let (num, den) := x.ratio
    stripZeros 2 (x.shortestFrom 17 (leadingExponent num den))

end Binary64

end SymbolPatterns.Decimal
