import Calculator.CommandLine
import Calculator.Proofs.Transcript

/-! # Invocations

A file can be named on the command line in five ways, and all of them ask for the same. Whatever the mixture, the
program runs the startup files in the order in which they are named and then its standard input, in one session. What
the startup files hold does not matter: none of them keeps the next one, or the input, from being run.
-/

namespace Calculator

/-- Ways to name a file on the command line. -/
inductive FileSpelling where
  /-- As in `-f path`. -/
  | short
  /-- As in `-f=path`. -/
  | shortEquals
  /-- As in `-fpath`. -/
  | shortJoined
  /-- As in `--file path`. -/
  | long
  /-- As in `--file=path`. -/
  | longEquals
  deriving DecidableEq, Repr

/-- A file named on the command line. -/
structure FileOption where
  spelling : FileSpelling
  path : String
  nonempty : path ≠ ""
  /-- The path does not look like an option. -/
  plain : path.startsWith "-" = false
  /-- An equals sign directly behind the option would not be part of the path. -/
  joinable : spelling = .shortJoined → path.startsWith "=" = false

/-- The arguments that name a file. -/
def FileOption.arguments (given : FileOption) : List String :=
  match given.spelling with
  | .short => ["-f", given.path]
  | .shortEquals => ["-f=" ++ given.path]
  | .shortJoined => ["-f" ++ given.path]
  | .long => ["--file", given.path]
  | .longEquals => ["--file=" ++ given.path]

/-- Ways to give the flag. -/
inductive OnceSpelling where
  | short
  | long
  deriving DecidableEq, Repr

def OnceSpelling.argument : OnceSpelling → String
  | short => "-o"
  | long => "--once"

namespace Options

/-- The options with one more file. -/
def adding (options : Options) (path : String) : Options := { options with files := options.files ++ [path] }

variable {options : Options} {path : String}

theorem withFile_eq (nonempty : path ≠ "") : options.withFile path = .proceed (options.adding path) := by
  have filled : path.isEmpty = false := by simpa using nonempty
  simp only [withFile, filled, adding, Bool.false_eq_true, if_false]

theorem argument_shortEquals : options.argument ("-f=" ++ path) = options.withFile path := by
  simp [argument, short]

theorem argument_longEquals : options.argument ("--file=" ++ path) = options.withFile path := by
  simp [argument, long]

theorem short_path {c : Char} (notEquals : c ≠ '=') (rest : List Char) :
    options.short ('f' :: c :: rest) = options.withFile (String.ofList (c :: rest)) := by
  simp [short, notEquals]

theorem argument_shortJoined (nonempty : path ≠ "") (joinable : path.startsWith "=" = false) :
    options.argument ("-f" ++ path) = options.withFile path := by
  have cluster : options.argument ("-f" ++ path) = options.short ('f' :: path.toList) := by simp [argument]
  have same : String.ofList path.toList = path := String.ofList_toList
  rw [cluster]
  cases characters : path.toList with
  | nil => exact absurd (String.toList_eq_nil_iff.mp characters) nonempty
  | cons c rest =>
    have notEquals : c ≠ '=' := by
      rintro rfl
      have begins : path.startsWith "=" = true := by
        rw [String.startsWith_string_iff, characters]
        exact ⟨rest, rfl⟩
      rw [joinable] at begins
      cases begins
    rw [short_path notEquals, ← characters, same]

theorem argument_once (flag : OnceSpelling) (first : options.once = false) :
    options.argument flag.argument = .proceed { options with once := true } := by
  obtain ⟨once, files⟩ := options
  obtain rfl : once = false := first
  cases flag <;> rfl

end Options

namespace Invocation

open Options

variable {options options' : Options} {text : String}

theorem decodeFrom_of_proceed (step : options.argument text = .proceed options') (rest : List String) :
    decodeFrom options (text :: rest) = decodeFrom options' rest := by
  have other : text ≠ "--" := by
    rintro rfl
    cases step
  rw [decodeFrom, if_neg other, step]

theorem decodeFrom_of_needsPath (step : options.argument text = .needsPath options') {path : String}
    (nonempty : path ≠ "") (plain : path.startsWith "-" = false) (rest : List String) :
    decodeFrom options (text :: path :: rest) = decodeFrom (options'.adding path) rest := by
  have other : text ≠ "--" := by
    rintro rfl
    cases step
  have isPath : Options.isPath path = true := by simp [Options.isPath, plain]
  rw [decodeFrom, if_neg other, step]
  simp only [isPath, if_true, withFile_eq nonempty]

theorem decodeFrom_arguments (options : Options) (given : FileOption) (rest : List String) :
    decodeFrom options (given.arguments ++ rest) = decodeFrom (options.adding given.path) rest := by
  obtain ⟨spelling, path, nonempty, plain, joinable⟩ := given
  cases spelling with
  | short => exact decodeFrom_of_needsPath rfl nonempty plain rest
  | long => exact decodeFrom_of_needsPath rfl nonempty plain rest
  | shortEquals => exact decodeFrom_of_proceed (argument_shortEquals.trans (withFile_eq nonempty)) rest
  | longEquals => exact decodeFrom_of_proceed (argument_longEquals.trans (withFile_eq nonempty)) rest
  | shortJoined =>
    exact decodeFrom_of_proceed ((argument_shortJoined nonempty (joinable rfl)).trans (withFile_eq nonempty)) rest

theorem decodeFrom_flatMap (options : Options) (given : List FileOption) (rest : List String) :
    decodeFrom options (given.flatMap FileOption.arguments ++ rest) =
      decodeFrom { options with files := options.files ++ given.map FileOption.path } rest := by
  induction given generalizing options with
  | nil => simp
  | cons first more ih =>
    rw [List.flatMap_cons, List.append_assoc, decodeFrom_arguments, ih]
    simp [adding]

/-- Spellings may be mixed, and the flag may stand anywhere between them. -/
theorem decode_spelled (before after : List FileOption) (flag : Option OnceSpelling) :
    decode (before.flatMap FileOption.arguments ++ flag.toList.map OnceSpelling.argument ++
        after.flatMap FileOption.arguments) =
      .run ⟨flag.isSome, (before ++ after).map FileOption.path⟩ := by
  have closing (options : Options) : decodeFrom options (after.flatMap FileOption.arguments) =
      .run { options with files := options.files ++ after.map FileOption.path } := by
    have decoded := decodeFrom_flatMap options after []
    rwa [List.append_nil] at decoded
  rw [decode, List.append_assoc, decodeFrom_flatMap]
  cases flag with
  | none =>
    rw [Option.toList_none, List.map_nil, List.nil_append, closing]
    simp [Options.initial]
  | some flag =>
    rw [Option.toList_some, List.map_singleton, List.singleton_append,
      decodeFrom_of_proceed (argument_once flag rfl), closing]
    simp [Options.initial]

end Invocation

namespace Session

open Act Plan

variable {files : FileMap}

/-- The acts for startup files. -/
def startupPlan (files : FileMap) (paths : List String) : List Act :=
  paths.flatMap fun path => (files path).elim [] fun input => (plan files false false 0 input).map caught

theorem suits_startupPlan (paths : List String) : ∀ act ∈ startupPlan files paths, act.Suits false none := by
  intro act member
  obtain ⟨path, _, member⟩ := List.mem_flatMap.mp member
  cases found : files path with
  | none => simp [found] at member
  | some input =>
    rw [found] at member
    exact (closing_plan 0 input).suits act member

/-- Startup files are run one after the other, and the flag is not looked at. -/
theorem performs_runStartup (once : Bool) (paths : List String) :
    Performs once (runStartup files paths) (startupPlan files paths) () := by
  apply performs_forM
  intro path
  cases files path with
  | none => exact performs_pure
  | some input =>
    have same : plan files once false 0 input = plan files false false 0 input := within_once once _ input
    simp only [Option.elim_some, ← same]
    exact (performs_process false 0 input).source (closing_plan 0 input)

theorem runStartup_unlimited (paths : List String) (s : Session) :
    runStartup files paths s.unlimited = .ok () ((total (startupPlan files paths) s.env).after s.unlimited) := by
  have performs : runStartup files paths s.unlimited = perform (startupPlan files paths) s.unlimited :=
    (performs_runStartup s.once paths).eq_perform rfl
  exact performs.trans (perform_unlimited_of_suits (suits_startupPlan paths) s)

theorem bind_of_ok {α β : Type} {x : SessionM α} {s t : Session} {value : α} (run : x s = .ok value t)
    (f : α → SessionM β) : (x >>= f) s = f value t := by
  simp only [bind, EStateM.bind, run]

theorem runStartup_append (files : FileMap) (first rest : List String) (s : Session) :
    runStartup files (first ++ rest) s = (runStartup files first >>= fun _ => runStartup files rest) s := by
  unfold runStartup
  rw [List.forM_eq_forM, List.forM_append]

theorem runSession_eq {options : Options} {stdin : Input} {t u : Session}
    (started : runStartup files (initFile :: options.files) (start options.once .unbounded .unbounded) = .ok () t)
    (processed : process files true 0 stdin t = .ok () u) :
    runSession options files stdin = ⟨0, u.out.written, u.err.written⟩ := by
  have work := bind_of_ok started fun _ => process files true 0 stdin
  rw [processed] at work
  unfold runSession
  dsimp only
  rw [work]

end Session

open Session in
/-- However files are named, with the flag or without, the program succeeds and shows what a session shows that runs the
    initial file, then the files in order, then the standard input. The startup files always run to their end: each
    starts where the ones before it leave the session, and the flag makes no difference to them. -/
theorem runProgram_spelled (before after : List FileOption) (flag : Option OnceSpelling) (files : FileMap)
    (stdin : List UInt8) :
    ∃ t u : Session,
      runStartup files ("init.scalc" :: (before ++ after).map FileOption.path)
        (start flag.isSome .unbounded .unbounded) = .ok () t ∧
      process files true 0 (.ofBytes stdin) t = .ok () u ∧
      runProgram (before.flatMap FileOption.arguments ++ flag.toList.map OnceSpelling.argument ++
        after.flatMap FileOption.arguments) files (.ofBytes stdin) = ⟨0, u.out.written, u.err.written⟩ ∧
      (∀ first rest, first ++ rest = "init.scalc" :: (before ++ after).map FileOption.path →
        ∃ v, runStartup files first (start flag.isSome .unbounded .unbounded) = .ok () v ∧
          runStartup files rest v = .ok () t) ∧
      ∀ once, runStartup files ("init.scalc" :: (before ++ after).map FileOption.path)
        (start once .unbounded .unbounded) = .ok () { t with once := once } := by
  let paths := "init.scalc" :: (before ++ after).map FileOption.path
  let fresh := start flag.isSome .unbounded .unbounded
  let t := (Act.total (startupPlan files paths) .initial).after fresh
  have started : runStartup files paths fresh = .ok () t := runStartup_unlimited paths fresh
  have processed : process files true 0 (.ofBytes stdin) t = .ok () _ := process_ofBytes_unlimited files true 0 stdin t
  refine ⟨t, _, started, processed, ?_, ?_, ?_⟩
  · rw [runProgram, Invocation.decode_spelled]
    exact runSession_eq started processed
  · intro first rest split
    have begun : runStartup files first fresh = .ok () _ := runStartup_unlimited first fresh
    have both := runStartup_append files first rest fresh
    rw [split, started] at both
    exact ⟨_, begun, (bind_of_ok begun fun _ => runStartup files rest).symm.trans both.symm⟩
  · intro once
    exact runStartup_unlimited paths (start once .unbounded .unbounded)

open Session in
theorem runProgram_spelled_mixed :
    ∃ t u : Session,
      runStartup .leaving ["init.scalc", "a b", "=c", "f"] (start true .unbounded .unbounded) = .ok () t ∧
      process .leaving true 0 (.ofBytes (Utf8.encode "x\n2\n")) t = .ok () u ∧
      runProgram ["-fa b", "--once", "--file==c", "-f", "f"] .leaving (.ofBytes (Utf8.encode "x\n2\n")) =
        ⟨0, u.out.written, u.err.written⟩ := by
  have plain : "a b".startsWith "-" = false ∧ "=c".startsWith "-" = false ∧ "f".startsWith "-" = false := by
    simp only [← Bool.not_eq_true, String.startsWith_string_iff]
    decide
  have joinable : "a b".startsWith "=" = false := by
    simp only [← Bool.not_eq_true, String.startsWith_string_iff]
    decide
  let first : FileOption := ⟨.shortJoined, "a b", by decide, plain.1, fun _ => joinable⟩
  let second : FileOption := ⟨.longEquals, "=c", by decide, plain.2.1, by decide⟩
  let third : FileOption := ⟨.short, "f", by decide, plain.2.2, by decide⟩
  obtain ⟨t, u, started, processed, outcome, _⟩ :=
    runProgram_spelled [first] [second, third] (some .long) .leaving (Utf8.encode "x\n2\n")
  exact ⟨t, u, started, processed, outcome⟩

end Calculator
