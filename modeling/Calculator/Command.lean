/-! # Commands

A command line is split into terms at spaces. Quotes keep spaces inside a term, and a backslash takes the next
character as it is. The first term names the command.
-/

namespace Calculator

/-- Why a command line cannot be split. -/
inductive CommandError where
  /-- A quote without its partner. -/
  | unclosedQuote (quote : Char)
  deriving DecidableEq, Repr

/-- The text of an error. -/
def CommandError.message : CommandError → String
  | .unclosedQuote _ => "Unclosed quote in input string."

/-- How far a line has been split. -/
structure TermScan where
  /-- Finished terms. -/
  terms : List String
  /-- The term being read. -/
  term : String
  /-- The quote that is open. -/
  quote : Option Char
  /-- Whether the next character is taken as it is. -/
  escaping : Bool
  deriving DecidableEq, Repr

namespace TermScan

/-- Nothing read yet. -/
def initial : TermScan := ⟨[], "", none, false⟩

/-- End the term being read; an empty one does not count. -/
def flush (scan : TermScan) : TermScan :=
  if scan.term.isEmpty then scan else { scan with terms := scan.terms ++ [scan.term], term := "" }

/-- Add a character to the term being read. -/
def push (scan : TermScan) (c : Char) : TermScan :=
  { scan with term := scan.term.push c, escaping := false }

/-- Read one character. -/
def step (scan : TermScan) (c : Char) : TermScan :=
  if scan.escaping then scan.push c
  else if c = '\\' then { scan with escaping := true }
  else
    match scan.quote with
    | some quote => if c = quote then { scan with quote := none } else scan.push c
    | none =>
      if c = '\'' ∨ c = '"' then { scan with quote := some c }
      else if c = ' ' then scan.flush
      else scan.push c

/-- The terms at the end of the line. A backslash that nothing follows is dropped. -/
def finish (scan : TermScan) : Except CommandError (List String) :=
  match scan.quote with
  | some quote => .error (.unclosedQuote quote)
  | none => .ok scan.flush.terms

end TermScan

/-- Split a command line into terms. -/
def splitTerms (line : String) : Except CommandError (List String) :=
  (line.toList.foldl TermScan.step .initial).finish

/-- A command. -/
inductive Command where
  /-- Leave the current stream. -/
  | exit
  /-- Show the help text. -/
  | help
  /-- Run files. -/
  | file (paths : List String)
  /-- A word that is no command. -/
  | unknown (word : String)
  deriving DecidableEq, Repr

namespace Command

/-- The command of a list of terms; none if there are no terms. -/
def ofTerms? : List String → Option Command
  | [] => none
  | word :: rest =>
    if word = "e" ∨ word = "exit" then some .exit
    else if word = "h" ∨ word = "help" then some .help
    else if word = "f" ∨ word = "file" then some (.file rest)
    else some (.unknown word)

/-- Read a command line, without its leading colon. -/
def parse (line : String) : Except CommandError (Option Command) :=
  (splitTerms line).map ofTerms?

end Command

end Calculator
