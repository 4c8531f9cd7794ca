import Calculator.Command
import Calculator.Session.Input

/-! # Lines

What a line of a stream asks for. A leading colon makes it a command, everything else is an expression.
-/

namespace Calculator

/-- A line of a stream. -/
inductive Line where
  /-- Nothing to do. -/
  | blank
  /-- A command. -/
  | command (command : Command)
  /-- A command line that cannot be split into terms. -/
  | malformed (error : CommandError)
  /-- An expression to evaluate. -/
  | expression (text : String)
  deriving DecidableEq, Repr

namespace Line

/-- The meaning of a command line, without its colon. -/
def ofCommandText (text : String) : Line :=
  match Command.parse text with
  | .ok (some named) => .command named
  | .ok none => .blank
  | .error error => .malformed error

/-- The meaning of the text of a line. -/
def ofText (text : String) : Line :=
  match text.toList with
  | [] => .blank
  | ':' :: rest => ofCommandText (String.ofList rest)
  | _ => .expression text

/-- The files that a line runs. -/
def paths : Line → List String
  | .command (.file paths) => paths
  | _ => []

end Line

namespace Input

/-- The lines that a stream delivers before it ends or fails. -/
def script (input : Input) : List Line := input.lines.map fun line => Line.ofText (lineText line)

/-- The files that the lines of a stream run. -/
def paths (input : Input) : List String := input.script.flatMap Line.paths

end Input

end Calculator
