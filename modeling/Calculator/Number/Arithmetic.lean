import Calculator.Number.Binary64

/-! # Exact arithmetic, rounded once

Each operation computes the exact result in units of 2^-1074 and rounds it once. Remainders need no
rounding at all.
-/

namespace Calculator

/-- The integer part of the square root. -/
def floorSqrt (n : Nat) : Nat :=
  if n = 0 then 0
  else
    let root := 2 * floorSqrt (n / 4)
    if (root + 1) * (root + 1) ≤ n then root + 1 else root
termination_by n
decreasing_by omega

namespace Binary64

/-- Flip the sign. Nothing is computed, so a NaN keeps its kind. -/
def neg : Binary64 → Binary64
  | .nan signaling => .nan signaling
  | .infinity negative => .infinity !negative
  | .finite negative m => .finite (!negative) m

/-- Clear the sign. Nothing is computed, so a NaN keeps its kind. -/
def abs : Binary64 → Binary64
  | .nan signaling => .nan signaling
  | .infinity _ => .infinity false
  | .finite _ m => .finite false m

/-- A signed number of units, rounded. -/
def ofUnits (units : Int) : Binary64 :=
  ofRatio (units < 0) units.natAbs 1

/-- Sum. An exact zero is negative only if both operands are. -/
def add : Binary64 → Binary64 → Binary64
  | .nan _, _ => quietNan
  | _, .nan _ => quietNan
  | .infinity a, .infinity b => if a = b then .infinity a else quietNan
  | .infinity a, .finite _ _ => .infinity a
  | .finite _ _, .infinity b => .infinity b
  | .finite a m, .finite b n =>
    let signed (negative : Bool) (k : Nat) : Int := if negative then -(k : Int) else (k : Int)
    let sum := signed a m.units + signed b n.units
    if sum = 0 then zero (a && b) else ofUnits sum

/-- Difference. -/
def sub (x y : Binary64) : Binary64 := x.add y.neg

/-- Product. -/
def mul : Binary64 → Binary64 → Binary64
  | .nan _, _ => quietNan
  | _, .nan _ => quietNan
  | .infinity a, .infinity b => .infinity (a != b)
  | .infinity a, .finite b n => if n.units = 0 then quietNan else .infinity (a != b)
  | .finite a m, .infinity b => if m.units = 0 then quietNan else .infinity (a != b)
  | .finite a m, .finite b n => ofRatio (a != b) (m.units * n.units) unitsPerOne

/-- Quotient; a nonzero number divided by zero is an infinity. -/
def div : Binary64 → Binary64 → Binary64
  | .nan _, _ => quietNan
  | _, .nan _ => quietNan
  | .infinity _, .infinity _ => quietNan
  | .infinity a, .finite b _ => .infinity (a != b)
  | .finite a _, .infinity b => zero (a != b)
  | .finite a m, .finite b n =>
    if n.units = 0 then
      if m.units = 0 then quietNan else .infinity (a != b)
    else ofRatio (a != b) (m.units * unitsPerOne) n.units

/-- What is left of `x` after taking away `y` as often as it fits, toward zero. The sign is that of
    `x`. -/
def remainder : Binary64 → Binary64 → Binary64
  | .nan _, _ => quietNan
  | _, .nan _ => quietNan
  | .infinity _, _ => quietNan
  | .finite a m, .infinity _ => .finite a m
  | .finite a m, .finite _ n =>
    if n.units = 0 then quietNan else ofRatio a (m.units % n.units) 1

/-- Square root. The root of a magnitude has at least 2^537 units, so half a unit of doubt, kept as the
    last bit of a doubled root, decides every rounding. -/
def sqrt : Binary64 → Binary64
  | .nan _ => quietNan
  | .infinity negative => if negative then quietNan else .infinity false
  | .finite negative m =>
    if m.units = 0 then .finite negative m
    else if negative then quietNan
    else
      let square := m.units * unitsPerOne
      let root := floorSqrt square
      ofRatio false (2 * root + if root * root = square then 0 else 1) 2

end Binary64

end Calculator
