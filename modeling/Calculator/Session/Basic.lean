import Calculator.Calculate
import Calculator.Number.GeneralText
import Calculator.Session.Line
import Calculator.Session.Volume

/-! # Sessions

A session keeps the variables and two output channels while it works through streams of lines. A line is an
expression or, with a leading colon, a command. Errors of a line are reported and the stream goes on; only a channel
or an input that fails ends it.
-/

namespace Calculator

/-- Deepest level of nested files that is still read; the outermost stream is at level zero. -/
def maxDepth : Nat := 128

/-- Written before each interactive read. -/
def prompt : String := "> "

/-- The usage text. -/
def helpText : String :=
  "Usage: scalc [options]\n" ++
  "Options:\n" ++
  "  -h --help         Display this information.\n" ++
  "  -v --version      Display calculator version information.\n" ++
  "  -o --once         Run the calculation only once and then exit.\n" ++
  "  -f <path>\n" ++
  "    --file <path>   Execute commands from specified file.\n" ++
  "Interactive commands:\n" ++
  "  :e :exit          Exit interactive mode.\n" ++
  "  :h :help          Display this information.\n" ++
  "  :f <paths>\n" ++
  "    :file <paths>   Execute commands from specified files.\n" ++
  "  <expression>      Calculate expression. The result is stored in variable '" ++ answerName ++ "'.\n" ++
  "Functions:\n" ++
  "  " ++ " ".intercalate (Builtin.table.map fun b => b.name ++ "/" ++ b.arity.repr) ++ "\n"

/-- An error as the error channel shows it: a red line. -/
def errorLine (message : String) : String :=
  "\x1b[38;5;9mError: " ++ message ++ "\x1b[39m\n"

/-- A result as the output channel shows it. -/
def answerLine (value : Binary64) : String :=
  answerName ++ ": " ++ value.generalText ++ "\n"

/-- The state of a session. -/
structure Session where
  /-- The variables. -/
  env : Environment
  /-- Whether an interactive stream stops after its first line. -/
  once : Bool
  /-- Results, prompts and help. -/
  out : Channel
  /-- Errors. -/
  err : Channel
  deriving DecidableEq, Repr

/-- Work of a session. What is done before a failure stays done. -/
abbrev SessionM := EStateM StreamError Session

/-- Whether a stream goes on after a line. -/
inductive Flow where
  | proceed
  | stop
  deriving DecidableEq, Repr

namespace Session

/-- A session with a fresh environment. -/
def start (once : Bool) (out err : Channel) : Session := ⟨.initial, once, out, err⟩

/-- Write to the output channel. -/
def writeOut (text : String) : SessionM Unit := fun s =>
  let bytes := Utf8.encode text
  let after := { s with out := s.out.write bytes }
  if s.out.fits bytes then .ok () after else .error .sinkFull after

/-- Write to the error channel. -/
def writeErr (text : String) : SessionM Unit := fun s =>
  let bytes := Utf8.encode text
  let after := { s with err := s.err.write bytes }
  if s.err.fits bytes then .ok () after else .error .sinkFull after

/-- Report an error. -/
def report (message : String) : SessionM Unit := writeErr (errorLine message)

/-- Evaluate an expression line and keep its value as the answer. -/
def evaluate (line : String) : EStateM CalculationError Session Binary64 := fun s =>
  match calculate (answerName ++ " = " ++ line) s.env with
  | .ok value env => .ok value { s with env := env }
  | .error error env => .error error { s with env := env }

/-- Run an expression line: show its value if the stream is interactive, or report its error. -/
def runExpression (interactive : Bool) (line : String) : SessionM Unit := fun s =>
  match evaluate line s with
  | .ok value after => if interactive then writeOut (answerLine value) after else .ok () after
  | .error error after => report error.message after

/-- Run the stream of a file. If it fails, that is reported and the caller goes on. -/
def source (run : Input → SessionM Unit) (input : Input) : SessionM Unit := fun s =>
  match run input s with
  | .ok _ after => .ok () after
  | .error error after => report error.message after

/-- Run a file that a command names. -/
def sourcePath (files : FileMap) (run : Input → SessionM Unit) (path : String) : SessionM Unit :=
  match files path with
  | some input => source run input
  | none => report ("Cannot open file " ++ path)

/-- Carry out a command; `run` runs the stream of a file. -/
def runCommand (files : FileMap) (run : Input → SessionM Unit) (interactive : Bool) : Command → SessionM Flow
  | .exit => pure .stop
  | .help => do
    if interactive then writeOut helpText
    pure .proceed
  | .file paths => do
    paths.forM (sourcePath files run)
    pure .proceed
  | .unknown _ => pure .proceed

/-- Handle one line; `run` runs the stream of a file. -/
def handleLine (files : FileMap) (run : Input → SessionM Unit) (interactive : Bool) : Line → SessionM Flow
  | .blank => pure .proceed
  | .command command => runCommand files run interactive command
  | .malformed error => do
    report error.message
    pure .proceed
  | .expression text => do
    runExpression interactive text
    pure .proceed

/-- Work through the lines of a stream, each after a prompt if the stream is interactive. Behind the last line the
    stream ends or fails. -/
def runLines (handle : Line → SessionM Flow) (interactive : Bool) (failure : Option StreamError) :
    List Line → SessionM Unit
  | [] => do
    if interactive then writeOut prompt
    match failure with
    | some error => throw error
    | none => pure ()
  | line :: rest => do
    if interactive then writeOut prompt
    let flow ← handle line
    if flow = .stop ∨ (interactive ∧ (← get).once) then pure ()
    else runLines handle interactive failure rest

/-- Run a stream with so many levels of files left, its own included. Without a level left it is skipped. -/
def runWithin (files : FileMap) : Nat → Bool → Input → SessionM Unit
  | 0, _, _ => pure ()
  | levels + 1, interactive, input =>
    runLines (handleLine files (runWithin files levels false) interactive) interactive input.failure input.script

/-- Run a stream at a depth; beyond the deepest level it is skipped. -/
def process (files : FileMap) (interactive : Bool) (depth : Nat) (input : Input) : SessionM Unit :=
  runWithin files (maxDepth + 1 - depth) interactive input

/-- Run the startup files that can be opened, in order. -/
def runStartup (files : FileMap) (paths : List String) : SessionM Unit :=
  paths.forM fun path =>
    match files path with
    | some input => source (process files false 0) input
    | none => pure ()

theorem process_of_le (files : FileMap) (interactive : Bool) (input : Input) {depth : Nat} (h : depth ≤ maxDepth) :
    process files interactive depth input =
      runLines (handleLine files (process files false (depth + 1)) interactive) interactive input.failure
        input.script := by
  have levels : maxDepth + 1 - depth = (maxDepth + 1 - (depth + 1)) + 1 := by omega
  unfold process
  rw [levels]
  rfl

theorem process_of_lt (files : FileMap) (interactive : Bool) (input : Input) {depth : Nat} (h : maxDepth < depth) :
    process files interactive depth input = pure () := by
  have levels : maxDepth + 1 - depth = 0 := by omega
  unfold process
  rw [levels]
  rfl

end Session

end Calculator
