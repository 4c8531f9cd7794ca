import Calculator.Number.Binary64

/-! # Decimals

A decimal is a natural number with its last digits behind the point. Number literals are read as decimals and
every number text is written from one.
-/

namespace Calculator

/-- The value `coefficient / 10 ^ places`. -/
structure Decimal where
  coefficient : Nat
  places : Nat
  deriving DecidableEq, Repr

/-- Decimal digits of a number. -/
def decimalDigits (n : Nat) : List Char := Nat.toDigits 10 n

/-- Number of decimal digits; zero has one. -/
def digitCount (n : Nat) : Nat := (decimalDigits n).length

/-- The integer `e` with `10 ^ e ≤ num / den < 10 ^ (e + 1)`, for a positive ratio. Below one it is found from
    the largest integer under the inverted ratio. -/
def decimalExponent (num den : Nat) : Int :=
  if num < den then -(digitCount ((den - 1) / num) : Int) else (digitCount (num / den) : Int) - 1

/-- A text with its sign in front. -/
def signed (negative : Bool) (digits : List Char) : String :=
  String.ofList (if negative then '-' :: digits else digits)

namespace Decimal

/-- The nearest binary64 value, ties to even. -/
def toBinary64 (d : Decimal) : Binary64 :=
  .ofRatio false (d.coefficient * unitsPerOne) (10 ^ d.places)

/-- The value `coefficient * 10 ^ exponent`. -/
def ofScientific (coefficient : Nat) (exponent : Int) : Decimal :=
  match exponent with
  | .ofNat e => ⟨coefficient * 10 ^ e, 0⟩
  | .negSucc e => ⟨coefficient, e + 1⟩

/-- Digits behind the point, without trailing zeros. -/
def fractionDigits (d : Decimal) : List Char :=
  let digits := decimalDigits (d.coefficient % 10 ^ d.places)
  let padded := List.replicate (d.places - digits.length) '0' ++ digits
  (padded.reverse.dropWhile (· = '0')).reverse

/-- Plain notation: integer part, then a point and the fraction if there is one. -/
def digits (d : Decimal) : List Char :=
  let whole := decimalDigits (d.coefficient / 10 ^ d.places)
  match d.fractionDigits with
  | [] => whole
  | fraction => whole ++ '.' :: fraction

/-- Where the part of a literal that counts ends: at its second point, or at the end of the text. -/
def literalEnd (text : List Char) : Nat :=
  match text.findIdx? (· = '.') with
  | none => text.length
  | some point =>
    match (text.drop (point + 1)).findIdx? (· = '.') with
    | none => text.length
    | some next => point + 1 + next

/-- The decimal that digits around a point denote; without a point there are no places. -/
def ofText (text : List Char) : Decimal :=
  let whole := text.takeWhile (· ≠ '.')
  let fraction := (text.dropWhile (· ≠ '.')).drop 1
  ⟨Nat.ofDigitChars 10 (whole ++ fraction) 0, fraction.length⟩

/-- Read a run of digits and points. Only the part before a second point counts, and it must have a
    digit. -/
def read? (text : List Char) : Option Decimal :=
  let counted := text.take (literalEnd text)
  if counted.any Char.isDigit then some (ofText counted) else none

end Decimal

end Calculator
