/-! # Binary64 numbers

The numbers of the calculator are the values of the IEEE 754 binary64 format. Of a NaN only its kind is
kept, quiet or signaling; its sign and payload never matter. Finite magnitudes are counted in increasing
order, so a magnitude is its index; its exact value is a whole number of units of 2^-1074. Rounding to the
format is one function on ratios of units.
-/

namespace Calculator

/-- Powers of natural numbers, the same in this namespace with and without an algebraic library beside it. -/
scoped instance (priority := 1100) instPowNatural : Pow Nat Nat := instPowNat

/-- Stored bits of a significand. -/
def fractionBits : Nat := 52

/-- Number of finite magnitudes: 2047 binades, each with every fraction. -/
def magnitudeCount : Nat := 2047 * 2 ^ fractionBits

/-- Place of the sign in an encoding. -/
def signPlace : Nat := 63

/-- Binary places of the unit that magnitudes are counted in. -/
def unitPlaces : Nat := 1074

/-- The value 1 in units of 2^-1074. -/
def unitsPerOne : Nat := 2 ^ unitPlaces

/-- A finite nonnegative value, given by its index in increasing order. -/
abbrev Magnitude := Fin magnitudeCount

/-- A binary64 value. -/
inductive Binary64 where
  /-- Not a number. A signaling one can be stored, but no computation accepts it or delivers it. -/
  | nan (signaling : Bool)
  /-- An infinity. -/
  | infinity (negative : Bool)
  /-- A signed finite value; both zeros are of this kind. -/
  | finite (negative : Bool) (magnitude : Magnitude)
  deriving DecidableEq, Repr

/-- The quotient `num / den` rounded to an integer; a half goes to the even neighbour. -/
def roundHalfEven (num den : Nat) : Nat :=
  let quotient := num / den
  let doubled := 2 * (num % den)
  if doubled < den then quotient
  else if den < doubled then quotient + 1
  else if quotient % 2 = 0 then quotient
  else quotient + 1

namespace Magnitude

/-- The magnitude zero. -/
def zero : Magnitude := ⟨0, by decide⟩

/-- The exact value in units of 2^-1074. The first binade is evenly spaced from zero; every later one
    doubles the spacing of the one before it. -/
def units (m : Magnitude) : Nat :=
  let binade := m.val / 2 ^ fractionBits
  let fraction := m.val % 2 ^ fractionBits
  if binade = 0 then fraction else (2 ^ fractionBits + fraction) * 2 ^ (binade - 1)

/-- Index of the magnitude nearest to `num / den` units, ties to the even index, on the grid continued
    beyond the largest finite value. Once the spacing `2 ^ shift` is known, the significand and the
    binade add up to the index, also when the significand is rounded up to a power of two. -/
def nearestIndex (num den : Nat) : Nat :=
  let shift := Nat.log2 (num / den) - fractionBits
  shift * 2 ^ fractionBits + roundHalfEven num (den * 2 ^ shift)

end Magnitude

namespace Binary64

/-- The value `num / den` units, rounded to nearest with ties to even; beyond the finite range it is an
    infinity. -/
def ofRatio (negative : Bool) (num den : Nat) : Binary64 :=
  let index := Magnitude.nearestIndex num den
  if h : index < magnitudeCount then .finite negative ⟨index, h⟩ else .infinity negative

/-- The quiet NaN, which every computation without a numerical result delivers. -/
def quietNan : Binary64 := .nan false

/-- Whether this is a signaling NaN. -/
def isSignaling : Binary64 → Bool
  | .nan signaling => signaling
  | _ => false

/-- A signed zero. -/
def zero (negative : Bool) : Binary64 := .finite negative Magnitude.zero

/-- The least index of a quiet NaN. Signaling ones lie between it and infinity. -/
def quietIndex : Nat := magnitudeCount + 2 ^ (fractionBits - 1)

/-- The interchange encoding: sign, then the index of the magnitude; infinity follows the largest
    finite value, and the NaNs follow infinity. -/
def toBits : Binary64 → UInt64
  | .nan signaling => .ofNat (if signaling then magnitudeCount + 1 else quietIndex)
  | .infinity negative => .ofNat ((if negative then 2 ^ signPlace else 0) + magnitudeCount)
  | .finite negative m => .ofNat ((if negative then 2 ^ signPlace else 0) + m.val)

/-- The value of an encoding; of a NaN pattern, its kind. -/
def ofBits (bits : UInt64) : Binary64 :=
  let negative := 2 ^ signPlace ≤ bits.toNat
  let index := bits.toNat % 2 ^ signPlace
  if h : index < magnitudeCount then .finite negative ⟨index, h⟩
  else if index = magnitudeCount then .infinity negative
  else .nan (index < quietIndex)

end Binary64

end Calculator
