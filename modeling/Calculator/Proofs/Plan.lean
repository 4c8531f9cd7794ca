import Calculator.Proofs.Effect

/-! # The plan of a run

Which acts a stream asks for is settled by its lines and the files they name: no variable and no channel has a say. So a
run is the list of its acts, those of nested files among them, performed until one fails. A nested file whose stream
breaks off reports that as its last act. It cannot hide any other failure: only a full error channel stops it, and that
channel does not take the report either.
-/

namespace Calculator

/-- An act in the stream of a file, where a failure is reported. -/
def Act.caught : Act → Act
  | fail error => report error.message
  | act => act

namespace Plan

/-- The acts for a file that a command names; `run` gives those of its stream. -/
def ofPath (files : FileMap) (run : Input → List Act) (path : String) : List Act :=
  match files path with
  | some input => (run input).map Act.caught
  | none => [.report ("Cannot open file " ++ path)]

/-- The acts for a line. -/
def ofLine (files : FileMap) (run : Input → List Act) (interactive : Bool) : Line → List Act
  | .blank | .command .exit | .command (.unknown _) => []
  | .command .help => if interactive then [.print helpText] else []
  | .command (.file paths) => paths.flatMap (ofPath files run)
  | .malformed error => [.report error.message]
  | .expression text => [.evaluate interactive text]

def prompts (interactive : Bool) : List Act := if interactive then [.print prompt] else []

/-- The acts for the lines of a stream, up to the line that ends it. -/
def ofLines (handle : Line → List Act) (interactive once : Bool) (failure : Option StreamError) :
    List Line → List Act
  | [] => prompts interactive ++ failure.toList.map .fail
  | line :: rest =>
    prompts interactive ++ (handle line ++
      if line = .command .exit ∨ (interactive ∧ once) then [] else ofLines handle interactive once failure rest)

/-- The acts for a stream with so many levels of files left. -/
def within (files : FileMap) (once : Bool) : Nat → Bool → Input → List Act
  | 0, _, _ => []
  | levels + 1, interactive, input =>
    ofLines (ofLine files (within files once levels false) interactive) interactive once input.failure input.script

end Plan

/-- The acts for a stream at a depth. -/
def Session.plan (files : FileMap) (once interactive : Bool) (depth : Nat) (input : Input) : List Act :=
  Plan.within files once (maxDepth + 1 - depth) interactive input

namespace Act

/-- Whether an act can belong to a stream of this kind: only an interactive one writes to the output channel, and only
    the input's own failure ends it. -/
def Suits (interactive : Bool) (failure : Option StreamError) : Act → Prop
  | print _ => interactive = true
  | report _ => True
  | evaluate shown _ => shown = true → interactive = true
  | fail error => failure = some error

variable {act : Act} {env : Environment} {interactive : Bool} {failure : Option StreamError}

theorem Suits.of_quiet (suits : act.Suits false none) : act.Suits interactive failure := by
  cases act with
  | print | fail => cases suits
  | report => trivial
  | evaluate shown line =>
    intro h
    cases suits h

theorem Suits.out_eq_nil (suits : act.Suits false failure) : (act.effect env).out = [] := by
  cases act with
  | print => cases suits
  | report | fail => rfl
  | evaluate shown line =>
    have hidden : shown = false := by simpa [Suits] using suits
    simp only [effect, hidden]
    split <;> rfl

theorem Suits.failure_eq_none (suits : act.Suits interactive none) : (act.effect env).failure = none := by
  apply failure_eq_none_of_ne
  rintro error rfl
  cases suits

theorem Suits.caught_eq (suits : act.Suits interactive none) : act.caught = act := by
  cases act with
  | fail => cases suits
  | print | report | evaluate => rfl

theorem map_caught_of_suits {acts : List Act} (suits : ∀ act ∈ acts, act.Suits interactive none) :
    acts.map Act.caught = acts := by
  have same : acts.map Act.caught = acts.map id := List.map_congr_left fun act member => (suits act member).caught_eq
  rw [same, List.map_id]

/-- Acts of a silent stream, of which only the last one can be a failure. -/
def Closing (acts : List Act) : Prop :=
  ∃ (front : List Act) (failure : Option StreamError), acts = front ++ failure.toList.map .fail ∧
    ∀ act ∈ front, act.Suits false none

theorem Closing.suits {acts : List Act} (closing : Closing acts) : ∀ act ∈ acts.map caught, act.Suits false none := by
  intro act member
  obtain ⟨front, failure, rfl, quiet⟩ := closing
  rw [List.map_append, map_caught_of_suits quiet, List.map_map] at member
  rcases List.mem_append.mp member with member | member
  · exact quiet act member
  · obtain ⟨error, _, rfl⟩ := List.mem_map.mp member
    trivial

end Act

namespace Plan

open Act

variable {files : FileMap} {once interactive : Bool} {run : Input → List Act}

theorem suits_ofPath (closing : ∀ input, Closing (run input)) {path : String} :
    ∀ act ∈ ofPath files run path, act.Suits false none := by
  intro act member
  unfold ofPath at member
  split at member
  · exact (closing _).suits act member
  · obtain rfl := List.mem_singleton.mp member
    trivial

theorem suits_ofLine (closing : ∀ input, Closing (run input)) {line : Line}
    {failure : Option StreamError} : ∀ act ∈ ofLine files run interactive line, act.Suits interactive failure := by
  intro act member
  match line with
  | .blank | .command .exit | .command (.unknown _) => cases member
  | .command .help =>
    simp only [ofLine, List.mem_ite_nil_right, List.mem_singleton] at member
    rw [member.2]
    exact member.1
  | .command (.file paths) =>
    obtain ⟨path, _, member⟩ := List.mem_flatMap.mp member
    exact (suits_ofPath closing act member).of_quiet
  | .malformed error =>
    obtain rfl := List.mem_singleton.mp member
    trivial
  | .expression text =>
    obtain rfl := List.mem_singleton.mp member
    exact id

theorem suits_prompts {failure : Option StreamError} : ∀ act ∈ prompts interactive, act.Suits interactive failure := by
  intro act member
  simp only [prompts, List.mem_ite_nil_right, List.mem_singleton] at member
  rw [member.2]
  exact member.1

theorem suits_ofLines {handle : Line → List Act} {failure : Option StreamError}
    (handled : ∀ line, ∀ act ∈ handle line, act.Suits interactive failure) (lines : List Line) :
    ∀ act ∈ ofLines handle interactive once failure lines, act.Suits interactive failure := by
  intro act member
  induction lines with
  | nil =>
    rcases List.mem_append.mp member with member | member
    · exact suits_prompts act member
    · obtain ⟨error, given, rfl⟩ := List.mem_map.mp member
      exact Option.mem_toList.mp given
  | cons line rest ih =>
    simp only [ofLines, List.mem_append, List.mem_ite_nil_left] at member
    rcases member with member | member | member
    · exact suits_prompts act member
    · exact handled line act member
    · exact ih member.2

theorem closing_ofLines {handle : Line → List Act} (handled : ∀ line, ∀ act ∈ handle line, act.Suits false none)
    (failure : Option StreamError) (lines : List Line) : Closing (ofLines handle false once failure lines) := by
  induction lines with
  | nil => exact ⟨[], failure, rfl, nofun⟩
  | cons line rest ih =>
    obtain ⟨front, ending, split, quiet⟩ := ih
    rw [ofLines]
    split
    · exact ⟨handle line, none, by simp [prompts], handled line⟩
    · refine ⟨handle line ++ front, ending, by simp [prompts, split], ?_⟩
      intro act member
      exact (List.mem_append.mp member).elim (handled line act) (quiet act)

/-- A silent stream fails at its end if at all. -/
theorem closing_within (levels : Nat) (input : Input) : Closing (within files once levels false input) := by
  induction levels generalizing input with
  | zero => exact ⟨[], none, rfl, nofun⟩
  | succ levels ih => exact closing_ofLines (fun _ => suits_ofLine ih) input.failure input.script

theorem suits_within {levels : Nat} {input : Input} :
    ∀ act ∈ within files once levels interactive input, act.Suits interactive input.failure := by
  cases levels with
  | zero =>
    intro act member
    cases member
  | succ levels => exact suits_ofLines (fun _ => suits_ofLine (closing_within levels)) input.script

theorem map_caught_within (levels : Nat) (bytes : List UInt8) :
    (within files once levels false (.ofBytes bytes)).map caught = within files once levels false (.ofBytes bytes) :=
  map_caught_of_suits suits_within

end Plan

namespace Session

open Act

theorem once_perform {acts : List Act} {s t : Session} (done : perform acts s = .ok () t) : t.once = s.once := by
  induction acts generalizing s with
  | nil =>
    cases done
    rfl
  | cons act rest ih =>
    rw [perform_cons, perform_eq_apply, Effect.apply] at done
    cases ending : (if (act.effect s.env).fits s then (act.effect s.env).failure else some .sinkFull) with
    | none =>
      rw [ending] at done
      have kept : t.once = ((act.effect s.env).after s).once := ih done
      exact kept
    | some error =>
      rw [ending] at done
      cases done

/-- Acts of a file fail only because the error channel is full. -/
theorem full_of_perform_eq_error {acts : List Act} (quiet : ∀ act ∈ acts, act.Suits false none) {s t : Session}
    {error : StreamError} (failed : perform acts s = .error error t) : error = .sinkFull ∧ t.err.room = some 0 := by
  induction acts generalizing s with
  | nil => cases failed
  | cons act rest ih =>
    have suits := quiet act List.mem_cons_self
    cases enough : (act.effect s.env).fits s with
    | true =>
      rw [perform_cons_of_none suits.failure_eq_none enough] at failed
      exact ih (fun act member => quiet act (List.mem_cons_of_mem _ member)) failed
    | false =>
      rw [perform_cons, perform_eq_apply, Effect.apply_of_not_fits enough] at failed
      cases failed
      refine ⟨rfl, Channel.room_write_of_not_fits ?_⟩
      simpa [Effect.fits, suits.out_eq_nil] using enough

theorem report_of_full {s : Session} (full : s.err.room = some 0) (message : String) :
    report message s = .error .sinkFull s := by
  have something : Utf8.encode (errorLine message) ≠ [] := by
    intro nothing
    have member : '\x1b' ∈ (errorLine message).toList := by
      unfold errorLine
      rw [String.toList_append, String.toList_append]
      exact List.mem_append_left _ (List.mem_append_left _ (by decide))
    have escape : String.utf8EncodeChar '\x1b' = [] := List.flatMap_eq_nil_iff.mp nothing _ member
    cases escape
  have stopped := Channel.not_fits_of_full full something
  simp [report, writeErr, stopped, Channel.write_of_full full]

/-- An action that performs acts and returns a value, in any session with the given flag. -/
def Performs {α : Type} (once : Bool) (action : SessionM α) (acts : List Act) (value : α) : Prop :=
  ∀ s : Session, s.once = once → action s =
    match perform acts s with
    | .ok _ t => .ok value t
    | .error error t => .error error t

section Performs

variable {α β : Type} {once : Bool} {acts more : List Act} {a : α} {b : β}

theorem performs_pure : Performs once (pure a : SessionM α) [] a := by
  intro s _
  rfl

theorem performs_act (act : Act) : Performs once act.perform [act] () := by
  intro s _
  rw [perform_cons]
  cases act.perform s <;> rfl

theorem performs_throw (error : StreamError) : Performs once (throw error : SessionM α) [.fail error] a := by
  intro s _
  rfl

theorem Performs.bind {x : SessionM α} {f : α → SessionM β} (first : Performs once x acts a)
    (second : Performs once (f a) more b) : Performs once (x >>= f) (acts ++ more) b := by
  intro s h
  simp only [Bind.bind, EStateM.bind]
  rw [first s h, perform_append]
  cases done : perform acts s with
  | error => rfl
  | ok _ t => exact second t ((once_perform done).trans h)

theorem Performs.eq_perform {action : SessionM Unit} (performs : Performs once action acts ()) {s : Session}
    (same : s.once = once) : action s = perform acts s := by
  rw [performs s same]
  cases perform acts s <;> rfl

theorem Performs.returning {x : SessionM α} (performs : Performs once x acts a) :
    Performs once (x >>= fun _ => pure b) acts b := by
  have returned : Performs once (x >>= fun _ => pure b) (acts ++ []) b := performs.bind performs_pure
  rwa [List.append_nil] at returned

theorem Performs.get {f : Session → SessionM β} (each : ∀ s : Session, s.once = once → Performs once (f s) acts b) :
    Performs once (MonadState.get >>= f) acts b := by
  intro s h
  exact each s h s h

theorem Performs.whenever {condition : Prop} [Decidable condition] {x : SessionM Unit} {f : Unit → SessionM β}
    (first : Performs once x acts ()) (second : Performs once (f ()) more b) :
    Performs once (if condition then x >>= f else f ()) ((if condition then acts else []) ++ more) b := by
  split
  · exact first.bind second
  · exact second

theorem performs_forM {f : β → SessionM Unit} {each : β → List Act} (runs : ∀ b, Performs once (f b) (each b) ())
    (list : List β) : Performs once (list.forM f) (list.flatMap each) () := by
  induction list with
  | nil => exact performs_pure
  | cons b rest ih =>
    rw [List.forM_eq_forM, List.forM_cons, List.flatMap_cons]
    exact (runs b).bind ih

theorem Performs.source {run : Input → SessionM Unit} {input : Input} (runs : Performs once (run input) acts ())
    (closing : Closing acts) : Performs once (source run input) (acts.map caught) () := by
  intro s h
  obtain ⟨front, failure, rfl, quiet⟩ := closing
  rw [Session.source, runs s h, List.map_append, map_caught_of_suits quiet, perform_append, perform_append]
  cases done : perform front s with
  | ok _ t =>
    cases failure with
    | none => rfl
    | some error => exact performs_act (.report error.message) t ((once_perform done).trans h)
  | error error t =>
    obtain ⟨rfl, full⟩ := full_of_perform_eq_error quiet done
    exact report_of_full full _

end Performs

variable {files : FileMap} {once interactive : Bool} {run : Input → SessionM Unit} {acts : Input → List Act}

theorem performs_sourcePath (runs : ∀ input, Performs once (run input) (acts input) ())
    (closing : ∀ input, Closing (acts input)) (path : String) :
    Performs once (sourcePath files run path) (Plan.ofPath files acts path) () := by
  unfold sourcePath Plan.ofPath
  cases files path with
  | some input => exact (runs input).source (closing input)
  | none => exact performs_act (.report _)

theorem performs_paths (runs : ∀ input, Performs once (run input) (acts input) ())
    (closing : ∀ input, Closing (acts input)) (paths : List String) :
    Performs once (paths.forM (sourcePath files run)) (paths.flatMap (Plan.ofPath files acts)) () :=
  performs_forM (performs_sourcePath runs closing) paths

/-- Whether a stream goes on behind a line does not depend on what the line does. -/
def flow (line : Line) : Flow := if line = .command .exit then .stop else .proceed

theorem performs_handleLine (runs : ∀ input, Performs once (run input) (acts input) ())
    (closing : ∀ input, Closing (acts input)) (line : Line) :
    Performs once (handleLine files run interactive line) (Plan.ofLine files acts interactive line) (flow line) := by
  match line with
  | .blank => exact performs_pure
  | .command .exit => exact performs_pure
  | .command (.unknown _) => exact performs_pure
  | .command .help =>
    cases interactive with
    | false => exact performs_pure
    | true => exact (performs_act (.print helpText)).returning
  | .command (.file paths) => exact (performs_paths runs closing paths).returning
  | .malformed error => exact (performs_act (.report error.message)).returning
  | .expression text => exact (performs_act (.evaluate interactive text)).returning

theorem performs_runLines {handle : Line → SessionM Flow} {handled : Line → List Act}
    (performs : ∀ line, Performs once (handle line) (handled line) (flow line)) (failure : Option StreamError)
    (lines : List Line) :
    Performs once (runLines handle interactive failure lines)
      (Plan.ofLines handled interactive once failure lines) () := by
  induction lines with
  | nil =>
    unfold runLines
    apply (performs_act (.print prompt)).whenever
    cases failure with
    | none => exact performs_pure
    | some error => exact performs_throw error
  | cons line rest ih =>
    rw [runLines]
    apply (performs_act (.print prompt)).whenever
    apply (performs line).bind
    apply Performs.get
    intro s h
    have stops : flow line = .stop ∨ (interactive ∧ s.once) ↔ line = .command .exit ∨ (interactive ∧ once) := by
      simp [flow, h]
    simp only [stops]
    split
    · exact performs_pure
    · exact ih

theorem performs_runWithin (levels : Nat) (interactive : Bool) (input : Input) :
    Performs once (runWithin files levels interactive input) (Plan.within files once levels interactive input) () := by
  induction levels generalizing interactive input with
  | zero => exact performs_pure
  | succ levels ih =>
    apply performs_runLines
    intro line
    exact performs_handleLine (ih false) (Plan.closing_within levels) line

theorem performs_process (interactive : Bool) (depth : Nat) (input : Input) :
    Performs once (process files interactive depth input) (plan files once interactive depth input) () :=
  performs_runWithin _ interactive input

theorem closing_plan (depth : Nat) (input : Input) : Closing (plan files once false depth input) :=
  Plan.closing_within _ input

theorem suits_plan {depth : Nat} {input : Input} :
    ∀ act ∈ plan files once interactive depth input, act.Suits interactive input.failure :=
  Plan.suits_within

variable (files)

/-- A run performs its plan, whatever its channels take. -/
theorem process_eq_perform (interactive : Bool) (depth : Nat) (input : Input) (s : Session) :
    process files interactive depth input s = perform (plan files s.once interactive depth input) s :=
  (performs_process interactive depth input).eq_perform rfl

theorem source_eq_perform (depth : Nat) (input : Input) (s : Session) :
    source (process files false depth) input s = perform ((plan files s.once false depth input).map caught) s :=
  ((performs_process false depth input).source (closing_plan depth input)).eq_perform rfl

theorem sourcePath_eq_perform (depth : Nat) (path : String) (s : Session) :
    sourcePath files (process files false depth) path s =
      perform (Plan.ofPath files (plan files s.once false depth) path) s :=
  (performs_sourcePath (performs_process false depth) (closing_plan depth) path).eq_perform rfl

end Session

end Calculator
