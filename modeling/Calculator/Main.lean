import Calculator.CommandLine

/-! # The program

Standard input is read line by line, so that a prompt stands before each read. The files that a line may run are
loaded before it is handled.
-/

namespace Calculator.Program

/-- Files looked at, with what those that could be opened deliver. -/
abbrev Loaded := List (String × Option Input)

/-- What is left of an open file. A directory delivers nothing and cannot be run. -/
partial def readRest (handle : IO.FS.Handle) (bytes : ByteArray) : IO (Option Input) := do
  try
    let chunk ← handle.read 4096
    if chunk.isEmpty then return some (.ofBytes bytes.toList)
    readRest handle (bytes ++ chunk)
  catch
    | .inappropriateType .. => return none
    | _ => return some ⟨bytes.toList, some .inputBroken⟩

/-- What a file delivers, if it can be opened. -/
def readFile? (path : String) : IO (Option Input) := do
  try
    let handle ← IO.FS.Handle.mk path .read
    readRest handle .empty
  catch _ => return none

/-- Load files and all files that they run. -/
partial def load (known : Loaded) : List String → IO Loaded
  | [] => return known
  | path :: rest => do
    if known.any (·.1 = path) then load known rest
    else
      let input ← readFile? path
      let inner := input.elim [] Input.paths
      load ((path, input) :: known) (inner ++ rest)

/-- Loaded files as a file map. -/
def fileMap (known : Loaded) : FileMap := fun path => (known.lookup path).join

/-- Send what a session has written to the terminal. -/
def deliver (s : Session) : IO Session := do
  let out ← IO.getStdout
  let err ← IO.getStderr
  out.write s.out.written.toByteArray
  out.flush
  err.write s.err.written.toByteArray
  err.flush
  return { s with out := .unbounded, err := .unbounded }

/-- Run part of a session and send what it writes. -/
def perform {α : Type} (work : SessionM α) (s : Session) : IO (Except StreamError α × Session) := do
  match work s with
  | .ok value after => return (.ok value, ← deliver after)
  | .error error after => return (.error error, ← deliver after)

/-- Read up to and including a line feed; nothing at the end of input. -/
partial def readLine (stdin : IO.FS.Stream) (line : ByteArray) : IO ByteArray := do
  let next ← stdin.read 1
  let line := line ++ next
  if next.toList = [] ∨ next.toList = [Input.lineFeed] then return line else readLine stdin line

/-- End with an error that no line is to blame for. -/
def fail (message : String) : IO UInt32 := do
  (← IO.getStderr).putStr (message ++ "\n")
  return 1

/-- The text of a read that failed. -/
def readFailure : IO.Error → String
  | .inappropriateType .. => StreamError.isDirectory.message
  | error => error.toString

/-- Handle the lines of a chunk of input, one at most; tell whether to go on. -/
def handle (input : Input) (s : Session) : IO (Except StreamError Flow × Session) := do
  let files := fileMap (← load [] input.paths)
  match input.script with
  | [] => return (.ok .stop, s)
  | line :: _ => perform (Session.handleLine files (Session.process files false 1) true line) s

/-- Prompt for a line, handle it and go on. -/
partial def converse (stdin : IO.FS.Stream) (s : Session) : IO UInt32 := do
  let (prompted, s) ← perform (Session.writeOut prompt) s
  match prompted with
  | .error error => fail error.message
  | .ok _ =>
    let (flow, s) ← handle (.ofBytes (← readLine stdin .empty).toList) s
    match flow with
    | .error error => fail error.message
    | .ok .stop => return 0
    | .ok .proceed => if s.once then return 0 else converse stdin s

/-- Run a session: startup files first, then standard input. -/
def runSession (options : Options) : IO UInt32 := do
  let paths := initFile :: options.files
  let files := fileMap (← load [] paths)
  let start := Session.start options.once .unbounded .unbounded
  let (started, s) ← perform (Session.runStartup files paths) start
  match started with
  | .error error => fail error.message
  | .ok _ =>
    try converse (← IO.getStdin) s
    catch error => fail (readFailure error)

end Calculator.Program

open Calculator in
/-- The calculator. -/
def main (arguments : List String) : IO UInt32 := do
  match Invocation.decode arguments with
  | .run options => Program.runSession options
  | _ =>
    let outcome := runProgram arguments (fun _ => none) (.ofBytes [])
    (← IO.getStdout).write outcome.out.toByteArray
    (← IO.getStderr).write outcome.err.toByteArray
    return outcome.code.toUInt32
