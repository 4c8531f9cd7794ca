import Calculator.Session.Channel
import Calculator.Text.Utf8

/-! # Inputs

Byte streams and their lines. A line ends with a line feed; carriage returns before it do not belong to the
line. What follows the last line feed is a line too, unless reading fails before the end.
-/

namespace Calculator

/-- The bytes that a stream delivers, and the error behind them if it does not end there. -/
structure Input where
  bytes : List UInt8
  failure : Option StreamError
  deriving DecidableEq, Repr

namespace Input

/-- A stream that ends behind its bytes. -/
def ofBytes (bytes : List UInt8) : Input := ⟨bytes, none⟩

/-- The line feed. -/
def lineFeed : UInt8 := 10

/-- The lines that end with a line feed, without it, and the bytes behind the last one. -/
def splitLines : List UInt8 → List (List UInt8) × List UInt8
  | [] => ([], [])
  | b :: rest =>
    let (lines, last) := splitLines rest
    if b = lineFeed then ([] :: lines, last)
    else
      match lines with
      | [] => ([], b :: last)
      | line :: more => ((b :: line) :: more, last)

/-- The lines that can be read before the stream ends or fails. -/
def lines (input : Input) : List (List UInt8) :=
  let (lines, last) := splitLines input.bytes
  if last.isEmpty ∨ input.failure.isSome then lines else lines ++ [last]

/-- The text of a line, without trailing carriage returns. -/
def lineText (line : List UInt8) : String :=
  String.ofList ((Utf8.decode line).toList.reverse.dropWhile (· = '\r')).reverse

end Input

end Calculator
