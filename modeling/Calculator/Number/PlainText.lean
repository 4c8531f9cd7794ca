import Calculator.Number.Decimal

/-! # The fewest digits that read back

Inside an expression a number is written with as few significant digits as read back to it, and never with an
exponent.
-/

namespace Calculator

namespace Magnitude

/-- Whether a decimal reads back to the magnitude. -/
def readsBack (m : Magnitude) (d : Decimal) : Bool := d.toBinary64 = .finite false m

/-- The decimal with `count` significant digits that reads back, if there is one: of the two neighbours on that
    grid the nearer one, and the upper one of two equally near. -/
def withDigits? (m : Magnitude) (count : Nat) : Option Decimal :=
  let exponent := decimalExponent m.units unitsPerOne - (count : Int) + 1
  let (num, den) := match exponent with
    | .ofNat k => (m.units, unitsPerOne * 10 ^ k)
    | .negSucc k => (m.units * 10 ^ (k + 1), unitsPerOne)
  let lower := Decimal.ofScientific (num / den) exponent
  let upper := Decimal.ofScientific (num / den + 1) exponent
  let (nearer, farther) := if 2 * (num % den) < den then (lower, upper) else (upper, lower)
  if m.readsBack nearer then some nearer
  else if m.readsBack farther then some farther
  else none

/-- The exact value: units of 2^-1074 are units of 10^-1074 times a power of five. -/
def exact (m : Magnitude) : Decimal := ⟨m.units * 5 ^ unitPlaces, unitPlaces⟩

/-- Seventeen significant digits always read back. -/
def maxDigits : Nat := 17

/-- The decimal with the fewest significant digits that reads back. -/
def shortest (m : Magnitude) : Decimal :=
  if m.units = 0 then ⟨0, 0⟩
  else ((List.range' 1 maxDigits).findSome? m.withDigits?).getD m.exact

end Magnitude

/-- A number as an expression shows it. -/
def Binary64.plainText : Binary64 → String
  | .nan _ => "NaN"
  | .infinity negative => signed negative ['i', 'n', 'f']
  | .finite negative m => signed negative m.shortest.digits

end Calculator
