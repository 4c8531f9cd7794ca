import Calculator.Session.Basic

/-! # The command line

Options of the program and the program as a function from arguments, files and standard input to an exit code and
two outputs. Arguments are read from left to right; help, version or the first mistake decides at once. `decode` follows
the syntax that the argument parser is taken to have for these options: clusters of short options, values attached or
apart, no value that looks like an option. What that parser says about a mistake is left out; only the code is kept.
-/

namespace Calculator

/-- The program's name. -/
def programName : String := "scalc"

/-- What the version option shows behind the program's name. -/
def versionText : String := "0.1.1\nCopyright (C) 2025 Qvito"

/-- Sourced at startup if it is there. -/
def initFile : String := "init.scalc"

/-- Options of a run. -/
structure Options where
  /-- Stop after the first line. -/
  once : Bool
  /-- Files to run first, in order. -/
  files : List String
  deriving DecidableEq, Repr

/-- What the arguments ask for. -/
inductive Invocation where
  /-- Show the usage text. -/
  | help
  /-- Show the version. -/
  | version
  /-- Run a session. -/
  | run (options : Options)
  /-- The arguments cannot be understood. -/
  | misuse
  deriving DecidableEq, Repr

/-- What is known after an argument. -/
inductive ArgumentStep where
  /-- Go on with these options. -/
  | proceed (options : Options)
  /-- The next argument is the path of a file. -/
  | needsPath (options : Options)
  /-- The rest of the arguments does not matter. -/
  | decided (invocation : Invocation)
  deriving DecidableEq, Repr

namespace Options

/-- Options when none is given. -/
def initial : Options := ⟨false, []⟩

/-- Note the once flag, which may be given once only. -/
def withOnce (options : Options) : ArgumentStep :=
  if options.once then .decided .misuse else .proceed { options with once := true }

/-- Add a file; its path must not be empty. -/
def withFile (options : Options) (path : String) : ArgumentStep :=
  if path.isEmpty then .decided .misuse else .proceed { options with files := options.files ++ [path] }

/-- Read a cluster of short options. A path may follow its option directly or behind an equals sign. -/
def short (options : Options) : List Char → ArgumentStep
  | [] => .proceed options
  | 'h' :: _ => .decided .help
  | 'v' :: _ => .decided .version
  | 'o' :: rest =>
    if options.once then .decided .misuse else short { options with once := true } rest
  | 'f' :: rest =>
    match rest with
    | [] => .needsPath options
    | '=' :: path => options.withFile (String.ofList path)
    | path => options.withFile (String.ofList path)
  | _ => .decided .misuse

/-- Read a long option: its name, and its value if there is an equals sign. -/
def long (options : Options) (text : List Char) : ArgumentStep :=
  let name := String.ofList (text.takeWhile (· ≠ '='))
  match text.dropWhile (· ≠ '=') with
  | [] =>
    if name = "help" then .decided .help
    else if name = "version" then .decided .version
    else if name = "once" then options.withOnce
    else if name = "file" then .needsPath options
    else .decided .misuse
  | _ :: path => if name = "file" then options.withFile (String.ofList path) else .decided .misuse

/-- Read one argument. There are no positional arguments. -/
def argument (options : Options) (text : String) : ArgumentStep :=
  match text.toList with
  | '-' :: '-' :: rest => options.long rest
  | '-' :: c :: rest => options.short (c :: rest)
  | _ => .decided .misuse

/-- Whether an argument of its own can be a path: it must not look like an option. -/
def isPath (text : String) : Bool := text = "-" || !text.startsWith "-"

end Options

namespace Invocation

/-- Read arguments from left to right. A lone double dash ends the options, and nothing may follow it. -/
def decodeFrom (options : Options) : List String → Invocation
  | [] => .run options
  | text :: rest =>
    if text = "--" then
      if rest.isEmpty then .run options else .misuse
    else
      match options.argument text with
      | .decided invocation => invocation
      | .proceed options => decodeFrom options rest
      | .needsPath options =>
        match rest with
        | [] => .misuse
        | path :: rest =>
          if Options.isPath path then
            match options.withFile path with
            | .proceed options => decodeFrom options rest
            | _ => .misuse
          else .misuse

/-- What a list of arguments asks for. -/
def decode (arguments : List String) : Invocation := decodeFrom .initial arguments

end Invocation

/-- What a run of the program leaves. -/
structure Outcome where
  code : Nat
  out : List UInt8
  err : List UInt8
  deriving DecidableEq, Repr

/-- Run a session: startup files first, then standard input as an interactive stream. -/
def runSession (options : Options) (files : FileMap) (stdin : Input) : Outcome :=
  let work : SessionM Unit := do
    Session.runStartup files (initFile :: options.files)
    Session.process files true 0 stdin
  match work (.start options.once .unbounded .unbounded) with
  | .ok _ s => ⟨0, s.out.written, s.err.written⟩
  | .error error s => ⟨1, s.out.written, s.err.written ++ Utf8.encode (error.message ++ "\n")⟩

/-- What the version option shows. -/
def versionLine : String := programName ++ " " ++ versionText ++ "\n"

/-- Run the program. -/
def runProgram (arguments : List String) (files : FileMap) (stdin : Input) : Outcome :=
  match Invocation.decode arguments with
  | .help => ⟨0, Utf8.encode helpText, []⟩
  | .version => ⟨0, Utf8.encode versionLine, []⟩
  | .misuse => ⟨2, [], []⟩
  | .run options => runSession options files stdin

end Calculator
