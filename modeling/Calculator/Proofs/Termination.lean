import Calculator.Proofs.Effect
import Mathlib.Logic.Relation

/-! # Runs end

Files may name each other and themselves, and what a file holds does not get smaller from one level to the next. So a
run is followed here step by step, on a machine with a stack of what is left to do and no bound on its steps. The one
thing that keeps the stack from growing is the test of the depth where a stream is opened. The machine always halts,
and it halts with the result of the run.
-/

namespace Calculator

namespace Machine

/-- A stream that is being read. -/
structure Stream where
  interactive : Bool
  depth : Nat
  failure : Option StreamError
  deriving DecidableEq, Repr

/-- One entry of the stack. -/
inductive Frame where
  /-- A stream that is to be read if it is not too deep. -/
  | opening (interactive : Bool) (depth : Nat) (input : Input)
  /-- A stream in front of lines. -/
  | reading (stream : Stream) (lines : List Line)
  /-- A stream that has just read a line. -/
  | handling (stream : Stream) (line : Line) (rest : List Line)
  /-- A stream behind a line. -/
  | pausing (stream : Stream) (rest : List Line)
  /-- The paths of a command, in a stream at a depth. -/
  | sourcing (depth : Nat) (paths : List String)
  /-- Behind a file, whose failure is reported. -/
  | guarding
  /-- Startup files. -/
  | starting (paths : List String)
  deriving DecidableEq

/-- A session with a stack, innermost first; an error on its way drops the stack up to the next file. -/
inductive Config where
  | running (s : Session) (frames : List Frame)
  | failing (error : StreamError) (s : Session) (frames : List Frame)
  deriving DecidableEq

def Config.frames : Config → List Frame
  | running _ frames | failing _ _ frames => frames

/-- Go on with a stack behind some work. -/
def Config.behind (frames : List Frame) : EStateM.Result StreamError Session Unit → Config
  | .ok _ s => running s frames
  | .error error s => failing error s frames

open Session

/-- Write the prompt of a stream. -/
def Stream.prompted (stream : Stream) : SessionM Unit := if stream.interactive then writeOut prompt else pure ()

/-- What a line does that neither ends its stream nor runs files. -/
def Stream.work (stream : Stream) : Line → SessionM Unit
  | .command .help => if stream.interactive then writeOut helpText else pure ()
  | .malformed error => report error.message
  | .expression text => runExpression stream.interactive text
  | .blank | .command .exit | .command (.file _) | .command (.unknown _) => pure ()

/-- Take up the innermost frame. -/
def Frame.enter (files : FileMap) (s : Session) (frames : List Frame) : Frame → Config
  | opening interactive depth input =>
    if maxDepth < depth then .running s frames
    else .running s (reading ⟨interactive, depth, input.failure⟩ input.script :: frames)
  | reading stream [] =>
    .behind frames ((do
      stream.prompted
      finish stream.failure) s)
  | reading stream (line :: rest) => .behind (handling stream line rest :: frames) (stream.prompted s)
  | handling stream line rest =>
    match line with
    | .command .exit => .running s frames
    | .command (.file paths) => .running s (sourcing stream.depth paths :: pausing stream rest :: frames)
    | line => .behind (pausing stream rest :: frames) (stream.work line s)
  | pausing stream rest =>
    if stream.interactive ∧ s.once then .running s frames else .running s (reading stream rest :: frames)
  | sourcing _ [] => .running s frames
  | sourcing depth (path :: rest) =>
    match files path with
    | some input => .running s (opening false (depth + 1) input :: guarding :: sourcing depth rest :: frames)
    | none => .behind (sourcing depth rest :: frames) (report ("Cannot open file " ++ path) s)
  | guarding => .running s frames
  | starting [] => .running s frames
  | starting (path :: rest) =>
    match files path with
    | some input => .running s (opening false 0 input :: guarding :: starting rest :: frames)
    | none => .running s (starting rest :: frames)

/-- Leave the innermost frame with an error. -/
def Frame.unwind (error : StreamError) (s : Session) (frames : List Frame) : Frame → Config
  | guarding => .behind frames (report error.message s)
  | _ => .failing error s frames

/-- One step. Without a frame left there is none. -/
def step (files : FileMap) : Config → Option Config
  | .running s (frame :: frames) => some (frame.enter files s frames)
  | .failing error s (frame :: frames) => some (frame.unwind error s frames)
  | .running _ [] | .failing _ _ [] => none

/-- Some number of steps leads from one configuration to another. -/
abbrev Reaches (files : FileMap) : Config → Config → Prop :=
  Relation.ReflTransGen fun c c' => step files c = some c'

/-- Taking up the frame carries out the action, whatever is below it on the stack. -/
def Does (files : FileMap) (frame : Frame) (action : SessionM Unit) : Prop :=
  ∀ s frames, Reaches files (.running s (frame :: frames)) (.behind frames (action s))

variable {files : FileMap}

theorem Does.of_enter {frame : Frame} {action : SessionM Unit}
    (rest : ∀ s frames, Reaches files (frame.enter files s frames) (.behind frames (action s))) :
    Does files frame action := by
  intro s frames
  exact .head rfl (rest s frames)

/-- Some work in front of a frame. If it fails, the frame is dropped. -/
theorem Does.behind {next : Frame} {action : SessionM Unit} (does : Does files next action)
    (unguarded : next ≠ .guarding) (work : SessionM Unit) (s : Session) (frames : List Frame) :
    Reaches files (.behind (next :: frames) (work s)) (.behind frames ((do work; action) s)) := by
  simp only [bind, EStateM.bind]
  cases work s with
  | ok _ t => exact does t frames
  | error error t =>
    have dropped : next.unwind error t frames = .failing error t frames := by
      cases next with
      | guarding => exact absurd rfl unguarded
      | _ => rfl
    exact .single (congrArg some dropped)

theorem Does.guarded {depth : Nat} {run : Input → SessionM Unit} (input : Input)
    (does : Does files (.opening false depth input) (run input)) (s : Session)
    (frames : List Frame) :
    Reaches files (.running s (.opening false depth input :: .guarding :: frames))
      (.behind frames (source run input s)) := by
  refine .tail (does s (.guarding :: frames)) ?_
  unfold source
  cases run input s <;> rfl

/-- Paths in order, where the frame of some paths takes up the first and leaves the frame of the others. -/
theorem does_forM {frame : List String → Frame} {each : String → SessionM Unit}
    (unguarded : ∀ paths, frame paths ≠ .guarding)
    (last : ∀ s frames, (frame []).enter files s frames = .running s frames)
    (first : ∀ path rest s frames,
      Reaches files ((frame (path :: rest)).enter files s frames) (.behind (frame rest :: frames) (each path s)))
    (paths : List String) : Does files (frame paths) (paths.forM each) := by
  apply Does.of_enter
  induction paths with
  | nil =>
    intro s frames
    rw [last]
    exact .refl
  | cons path rest ih =>
    intro s frames
    rw [List.forM_eq_forM, List.forM_cons]
    exact (first path rest s frames).trans ((Does.of_enter ih).behind (unguarded rest) (each path) s frames)

theorem does_sourcing {depth : Nat}
    (deeper : ∀ input, Does files (.opening false (depth + 1) input) (process files false (depth + 1) input)) :
    ∀ paths, Does files (.sourcing depth paths)
      (paths.forM (sourcePath files (process files false (depth + 1)))) := by
  apply does_forM (by simp) (fun _ _ => rfl)
  intro path rest s frames
  unfold sourcePath
  simp only [Frame.enter]
  cases files path with
  | none => exact .refl
  | some input => exact Does.guarded input (deeper _) s _

/-- What is done behind a line, where `rest` reads on. -/
def Stream.proceed (stream : Stream) (rest : SessionM Unit) (flow : Flow) : SessionM Unit := do
  if flow = .stop ∨ (stream.interactive ∧ (← get).once) then pure () else rest

theorem runLines_nil (stream : Stream) (handle : Line → SessionM Flow) :
    runLines handle stream.interactive stream.failure [] = (do stream.prompted; finish stream.failure) := by
  obtain ⟨interactive, depth, failure⟩ := stream
  cases interactive <;> cases failure <;> rfl

theorem runLines_cons (stream : Stream) (handle : Line → SessionM Flow) (line : Line) (rest : List Line) :
    runLines handle stream.interactive stream.failure (line :: rest) = (do
      stream.prompted
      handle line >>= stream.proceed (runLines handle stream.interactive stream.failure rest)) := by
  obtain ⟨interactive, depth, failure⟩ := stream
  cases interactive <;> rfl

theorem does_pausing {stream : Stream} {rest : List Line} {action : SessionM Unit}
    (reading : Does files (.reading stream rest) action) :
    Does files (.pausing stream rest) (stream.proceed action .proceed) := by
  apply Does.of_enter
  intro s frames
  have looked : stream.proceed action .proceed s =
      (if Flow.proceed = .stop ∨ (stream.interactive ∧ s.once) then pure () else action : SessionM Unit) s := rfl
  rw [looked, Frame.enter]
  by_cases once : stream.interactive ∧ s.once
  · rw [if_pos once, if_pos (.inr once)]
    exact .refl
  · rw [if_neg once, if_neg (by simpa using once)]
    exact reading s frames

theorem does_handling {stream : Stream} {rest : List Line} {action : SessionM Unit}
    (sourcing : ∀ paths, Does files (.sourcing stream.depth paths)
      (paths.forM (sourcePath files (process files false (stream.depth + 1)))))
    (reading : Does files (.reading stream rest) action) (line : Line) :
    Does files (.handling stream line rest)
      (handleLine files (process files false (stream.depth + 1)) stream.interactive line >>=
        stream.proceed action) := by
  apply Does.of_enter
  intro s frames
  have next := fun work => (does_pausing reading).behind (by simp) work s frames
  have proceeding : ∀ work : SessionM Unit,
      (do work; pure Flow.proceed) >>= stream.proceed action = (do work; stream.proceed action .proceed) := by
    intro work
    simp
  match line with
  | .blank | .command (.unknown _) => exact next (pure ())
  | .malformed _ | .expression _ =>
    unfold handleLine
    rw [proceeding]
    exact next _
  | .command .help =>
    have helping : handleLine files (process files false (stream.depth + 1)) stream.interactive (.command .help) =
        (do stream.work (.command .help); pure .proceed) := by
      obtain ⟨interactive, depth, failure⟩ := stream
      cases interactive <;> rfl
    rw [helping, proceeding]
    exact next _
  | .command .exit => exact .refl
  | .command (.file paths) =>
    unfold handleLine runCommand
    rw [proceeding]
    exact (sourcing paths s _).trans (next _)

theorem does_reading {stream : Stream}
    (sourcing : ∀ paths, Does files (.sourcing stream.depth paths)
      (paths.forM (sourcePath files (process files false (stream.depth + 1))))) (lines : List Line) :
    Does files (.reading stream lines)
      (runLines (handleLine files (process files false (stream.depth + 1)) stream.interactive) stream.interactive
        stream.failure lines) := by
  induction lines with
  | nil =>
    rw [runLines_nil]
    exact .of_enter fun _ _ => .refl
  | cons line rest ih =>
    rw [runLines_cons]
    apply Does.of_enter
    exact (does_handling sourcing ih line).behind (by simp) stream.prompted

/-- A stream at any depth. The induction is on the levels that are left; on each, lines and paths get fewer. -/
theorem does_opening (interactive : Bool) (depth : Nat) (input : Input) :
    Does files (.opening interactive depth input) (process files interactive depth input) := by
  induction levels : maxDepth + 1 - depth generalizing interactive depth input with
  | zero =>
    have deep : maxDepth < depth := by omega
    rw [process_of_lt files interactive input deep]
    apply Does.of_enter
    intro s frames
    rw [Frame.enter, if_pos deep]
    exact .refl
  | succ levels ih =>
    have shallow : depth ≤ maxDepth := by omega
    have deeper : ∀ input, Does files (.opening false (depth + 1) input) (process files false (depth + 1) input) :=
      fun input => ih false (depth + 1) input (by omega)
    rw [process_of_le files interactive input shallow]
    apply Does.of_enter
    intro s frames
    rw [Frame.enter, if_neg (Nat.not_lt.mpr shallow)]
    let stream : Stream := ⟨interactive, depth, input.failure⟩
    have sourcing : ∀ paths, Does files (.sourcing stream.depth paths) _ := does_sourcing deeper
    exact does_reading sourcing input.script s frames

theorem does_starting (paths : List String) : Does files (.starting paths) (runStartup files paths) := by
  refine does_forM (by simp) (fun _ _ => rfl) ?_ paths
  intro path rest s frames
  simp only [Frame.enter]
  cases files path with
  | none => exact .refl
  | some input => exact Does.guarded input (does_opening _ _ _) s _

/-- Streams are read and files are run at the deepest level at most. A stream is opened where the run starts, or at
    most one level beyond. -/
def Frame.Shallow (start : Nat) : Frame → Prop
  | opening _ depth _ => depth = start ∨ depth ≤ maxDepth + 1
  | reading stream _ | handling stream _ _ | pausing stream _ => stream.depth ≤ maxDepth
  | sourcing depth _ => depth ≤ maxDepth
  | guarding | starting _ => True

/-- Every frame of a configuration keeps to the deepest level. -/
def Config.Shallow (start : Nat) (c : Config) : Prop := ∀ frame ∈ c.frames, frame.Shallow start

theorem Config.shallow_behind {start : Nat} {frames : List Frame} (shallow : ∀ frame ∈ frames, frame.Shallow start)
    (result : EStateM.Result StreamError Session Unit) : (behind frames result).Shallow start := by
  cases result <;> exact shallow

theorem shallow_enter {start : Nat} {frame : Frame} (first : frame.Shallow start) (s : Session)
    {frames : List Frame} (rest : ∀ frame ∈ frames, frame.Shallow start) :
    (frame.enter files s frames).Shallow start := by
  have push : ∀ {frame : Frame} {frames}, frame.Shallow start → (∀ frame ∈ frames, frame.Shallow start) →
      ∀ other ∈ frame :: frames, other.Shallow start := fun top below => List.forall_mem_cons.mpr ⟨top, below⟩
  cases frame with
  | opening interactive depth input =>
    rw [Frame.enter]
    split
    · exact rest
    · exact push (Nat.not_lt.mp ‹_›) rest
  | reading stream lines =>
    cases lines with
    | nil => exact Config.shallow_behind rest _
    | cons line lines =>
      apply Config.shallow_behind
      exact push first rest
  | handling stream line lines =>
    match line with
    | .command .exit => exact rest
    | .command (.file paths) => exact push first (push first rest)
    | .blank | .command (.unknown _) => exact push first rest
    | .malformed _ | .expression _ | .command .help =>
      apply Config.shallow_behind
      exact push first rest
  | pausing stream lines =>
    rw [Frame.enter]
    split
    · exact rest
    · exact push first rest
  | sourcing depth paths =>
    cases paths with
    | nil => exact rest
    | cons path paths =>
      rw [Frame.enter]
      split
      · exact push (.inr (Nat.succ_le_succ first)) (push trivial (push first rest))
      · apply Config.shallow_behind
        exact push first rest
  | guarding => exact rest
  | starting paths =>
    cases paths with
    | nil => exact rest
    | cons path paths =>
      rw [Frame.enter]
      split
      · exact push (.inr (Nat.zero_le _)) (push trivial (push trivial rest))
      · exact push trivial rest

theorem shallow_unwind {start : Nat} (frame : Frame) (error : StreamError) (s : Session) {frames : List Frame}
    (rest : ∀ frame ∈ frames, frame.Shallow start) : (frame.unwind error s frames).Shallow start := by
  cases frame with
  | guarding => exact Config.shallow_behind rest _
  | _ => exact rest

theorem shallow_step {start : Nat} {c c' : Config} (shallow : c.Shallow start) (stepped : step files c = some c') :
    c'.Shallow start := by
  match c with
  | .running _ [] | .failing _ _ [] => cases stepped
  | .running s (frame :: frames) =>
    obtain ⟨first, rest⟩ := List.forall_mem_cons.mp shallow
    rw [← Option.some.inj stepped]
    exact shallow_enter first s rest
  | .failing error s (frame :: frames) =>
    obtain ⟨_, rest⟩ := List.forall_mem_cons.mp shallow
    rw [← Option.some.inj stepped]
    exact shallow_unwind frame error s rest

theorem shallow_of_reaches {start : Nat} {c c' : Config} (shallow : c.Shallow start) (reached : Reaches files c c') :
    c'.Shallow start := by
  induction reached with
  | refl => exact shallow
  | tail _ stepped ih => exact shallow_step ih stepped

theorem step_behind_nil (result : EStateM.Result StreamError Session Unit) : step files (.behind [] result) = none := by
  cases result <;> rfl

/-- Runs end, whatever files name each other and however the channels fail: taking up a stream or the startup files, the
    machine comes to a halt with the result of the run. On its way no stream is read beyond level 128, files are run
    one level deeper from these levels alone, and a stream beyond is dropped with nothing changed. -/
theorem reaches_process (files : FileMap) (s : Session) :
    (∀ interactive depth input,
      Reaches files (.running s [.opening interactive depth input])
        (.behind [] (process files interactive depth input s)) ∧
      ∀ c, Reaches files (.running s [.opening interactive depth input]) c → c.Shallow depth) ∧
    (∀ paths,
      Reaches files (.running s [.starting paths]) (.behind [] (runStartup files paths s)) ∧
      ∀ c, Reaches files (.running s [.starting paths]) c → c.Shallow 0) ∧
    (∀ result, step files (.behind [] result) = none) ∧
    ∀ interactive depth input t frames, 128 < depth →
      step files (.running t (.opening interactive depth input :: frames)) = some (.running t frames) ∧
      process files interactive depth input t = .ok () t := by
  refine ⟨?_, ?_, step_behind_nil, ?_⟩
  · intro interactive depth input
    refine ⟨does_opening interactive depth input s [], fun c => shallow_of_reaches ?_⟩
    exact List.forall_mem_singleton.mpr (.inl rfl)
  · intro paths
    refine ⟨does_starting paths s [], fun c => shallow_of_reaches ?_⟩
    exact List.forall_mem_singleton.mpr trivial
  · intro interactive depth input t frames deep
    rw [process_of_lt files interactive input deep]
    exact ⟨congrArg some (if_pos deep), rfl⟩

/-- A file that runs itself twice. -/
def doubling : FileMap
  | "f" => some (.ofBytes (Utf8.encode ":file f f"))
  | _ => none

theorem reaches_process_doubling :
    128 < 129 ∧
    Reaches doubling
      (.running (.start false .unbounded .unbounded) [.opening true 0 (.ofBytes (Utf8.encode ":file f"))])
      (.behind [] (process doubling true 0 (.ofBytes (Utf8.encode ":file f")) (.start false .unbounded .unbounded))) ∧
    (Reaches doubling (.running (.start false .unbounded .unbounded) [.starting ["f"]])
        (.running (.start false .unbounded .unbounded)
          [.opening false 0 (.ofBytes (Utf8.encode ":file f f")), .guarding, .starting []]) ∧
      Config.Shallow 0 (.running (.start false .unbounded .unbounded)
        [.opening false 0 (.ofBytes (Utf8.encode ":file f f")), .guarding, .starting []])) ∧
    step doubling (.running (.start false .unbounded .unbounded)
      [.opening false 129 (.ofBytes (Utf8.encode ":file f f")), .guarding]) =
        some (.running (.start false .unbounded .unbounded) [.guarding]) := by
  obtain ⟨stream, startup, _, skipped⟩ := reaches_process doubling (.start false .unbounded .unbounded)
  have opened : Reaches doubling (.running (.start false .unbounded .unbounded) [.starting ["f"]])
      (.running (.start false .unbounded .unbounded)
        [.opening false 0 (.ofBytes (Utf8.encode ":file f f")), .guarding, .starting []]) := .single rfl
  exact ⟨by decide, (stream true 0 _).1, ⟨opened, (startup ["f"]).2 _ opened⟩,
    (skipped false 129 _ _ [.guarding] (by decide)).1⟩

end Machine

end Calculator
