import Calculator.Number.Decimal

/-! # Results in six significant digits

Results are shown in general notation: six significant digits, plain for moderate exponents and with an exponent
otherwise, without trailing zeros. A number is first written in scientific notation. The exponent found in that text
says which notation to show; the plain one is rounded anew from the number itself.
-/

namespace Calculator

/-- Significant digits of a shown result. -/
def displayPrecision : Nat := 6

/-- A decimal in scientific form: `significand * 10 ^ (exponent - 5)` with a significand of six digits. -/
structure SixDigits where
  significand : Nat
  exponent : Int
  deriving DecidableEq, Repr

namespace SixDigits

/-- The scaled quotient `num / den / 10 ^ e`, rounded to an integer with ties to even. -/
def scaled (num den : Nat) (e : Int) : Nat :=
  match e with
  | .ofNat k => roundHalfEven num (den * 10 ^ k)
  | .negSucc k => roundHalfEven (num * 10 ^ (k + 1)) den

/-- A positive ratio rounded to six significant digits, ties to even. Rounding up to a seventh digit moves the
    exponent. -/
def ofRatio (num den : Nat) : SixDigits :=
  let exponent := decimalExponent num den
  let rounded := scaled num den (exponent - 5)
  if rounded = 10 ^ displayPrecision then ⟨10 ^ (displayPrecision - 1), exponent + 1⟩ else ⟨rounded, exponent⟩

end SixDigits

/-- Every digit of a decimal: the integer part, then a point and as many digits as there are places. -/
def Decimal.allDigits (d : Decimal) : List Char :=
  let whole := decimalDigits (d.coefficient / 10 ^ d.places)
  let digits := decimalDigits (d.coefficient % 10 ^ d.places)
  if d.places = 0 then whole else whole ++ '.' :: (List.replicate (d.places - digits.length) '0' ++ digits)

/-- The digits of an integer behind its sign, which only a negative one has. -/
def integerDigits (n : Int) : List Char :=
  if n < 0 then '-' :: decimalDigits n.natAbs else decimalDigits n.natAbs

/-- One more than the largest integer of 32 bits. -/
def integerLimit : Int := 2147483648

/-- The integer of 32 bits that a text denotes: digits, maybe behind a sign. -/
def readInteger? (text : List Char) : Option Int :=
  let negative := text.head? = some '-'
  let digits := if negative ∨ text.head? = some '+' then text.drop 1 else text
  let size : Int := Nat.ofDigitChars 10 digits 0
  let value := if negative then -size else size
  if digits ≠ [] ∧ digits.all Char.isDigit ∧ -integerLimit ≤ value ∧ value < integerLimit then some value else none

/-- The parts of a text in front of the first `c` and behind it. -/
def splitOnce? (c : Char) (text : List Char) : Option (List Char × List Char) :=
  match text.dropWhile (· ≠ c) with
  | [] => none
  | _ :: behind => some (text.takeWhile (· ≠ c), behind)

/-- A text without the characters `c` at its end. -/
def trimEnd (c : Char) (text : List Char) : List Char := (text.reverse.dropWhile (· = c)).reverse

/-- A number text without zeros at the end of its fraction, and without a point at its end. -/
def trimFraction (text : List Char) : List Char :=
  if '.' ∈ text then trimEnd '.' (trimEnd '0' text) else text

/-- The size of an exponent behind its sign, in at least two digits. -/
def exponentDigits (e : Int) : List Char :=
  let digits := decimalDigits e.natAbs
  (if e < 0 then '-' else '+') :: (List.replicate (2 - digits.length) '0' ++ digits)

namespace Magnitude

/-- Scientific notation with six digits. -/
def scientificDigits (m : Magnitude) : List Char :=
  let s := SixDigits.ofRatio m.units unitsPerOne
  (Decimal.mk s.significand (displayPrecision - 1)).allDigits ++ 'e' :: integerDigits s.exponent

/-- Plain notation with a number of places, the last one rounded with ties to even. -/
def fixedDigits (m : Magnitude) (places : Nat) : List Char :=
  (Decimal.mk (roundHalfEven (m.units * 10 ^ places) unitsPerOne) places).allDigits

/-- General notation of a nonzero magnitude: plain for exponents from -4 to 5. -/
def generalDigits (m : Magnitude) : List Char :=
  match splitOnce? 'e' m.scientificDigits with
  | none => m.scientificDigits
  | some (significand, exponentText) =>
    let exponent := (readInteger? exponentText).getD 0
    if -4 ≤ exponent ∧ exponent < displayPrecision then
      trimFraction (m.fixedDigits (displayPrecision - 1 - exponent).toNat)
    else
      trimFraction significand ++ 'e' :: exponentDigits exponent

end Magnitude

/-- A number as a result shows it. -/
def Binary64.generalText : Binary64 → String
  | .nan _ => "nan"
  | .infinity negative => signed negative ['i', 'n', 'f']
  | .finite negative m => signed negative (if m.units = 0 then ['0'] else m.generalDigits)

end Calculator
