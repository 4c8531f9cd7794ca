import Calculator.Proofs.Capacity

/-! # Interactive streams

An interactive stream shows prompts, results and help, and these are all that sets it apart: without them its plan is
the plan of the same stream run silently. A silent stream does not touch the output channel, not even a full one.
-/

namespace Calculator

/-- An effect without what it shows. -/
def Effect.hidden (effect : Effect) : Effect := { effect with out := [] }

namespace Act

/-- The act without what it shows, if anything is left of it. -/
def muted : Act → Option Act
  | print _ => none
  | evaluate _ line => some (evaluate false line)
  | report message => some (report message)
  | fail error => some (fail error)

theorem effect_of_muted_eq_some {act act' : Act} (h : act.muted = some act') (env : Environment) :
    act'.effect env = (act.effect env).hidden := by
  cases act with
  | print => cases h
  | report | fail =>
    cases h
    rfl
  | evaluate interactive line =>
    cases h
    simp only [effect]
    split <;> rfl

theorem muted_of_suits {act : Act} {failure : Option StreamError} (suits : act.Suits false failure) :
    act.muted = some act := by
  cases act with
  | print => cases suits
  | report | fail => rfl
  | evaluate shown line =>
    have hidden : shown = false := by simpa [Suits] using suits
    rw [muted, hidden]

theorem Suits.of_muted {act act' : Act} {interactive : Bool} {failure : Option StreamError}
    (suits : act.Suits interactive failure) (h : act.muted = some act') : act'.Suits false failure := by
  cases act with
  | print => cases h
  | report | fail =>
    cases h
    exact suits
  | evaluate =>
    cases h
    exact id

theorem filterMap_muted_of_suits {acts : List Act} {failure : Option StreamError}
    (suits : ∀ act ∈ acts, act.Suits false failure) : acts.filterMap muted = acts := by
  induction acts with
  | nil => rfl
  | cons act rest ih =>
    rw [List.filterMap_cons_some (muted_of_suits (suits act List.mem_cons_self)),
      ih fun act member => suits act (List.mem_cons_of_mem _ member)]

theorem total_filterMap_muted (acts : List Act) (env : Environment) :
    total (acts.filterMap muted) env = (total acts env).hidden := by
  induction acts generalizing env with
  | nil => rfl
  | cons act rest ih =>
    cases h : act.muted with
    | none =>
      rw [List.filterMap_cons_none h, ih]
      match act, h with
      | print text, _ =>
        rw [total_cons_of_none rfl]
        rfl
    | some act' =>
      have effect := effect_of_muted_eq_some h env
      rw [List.filterMap_cons_some h]
      cases failure : (act.effect env).failure with
      | some error =>
        rw [total_cons_of_some failure, total_cons_of_some (by rw [effect]; exact failure), effect]
      | none =>
        rw [total_cons_of_none failure, total_cons_of_none (by rw [effect]; exact failure), effect, ih]
        rfl

end Act

namespace Plan

open Act

variable {files : FileMap} {interactive once : Bool}

theorem filterMap_muted_ofLine {run : Input → List Act}
    (closing : ∀ input, Closing (run input)) (line : Line) :
    (ofLine files run interactive line).filterMap muted = ofLine files run false line := by
  match line with
  | .blank | .command .exit | .command (.unknown _) | .malformed _ | .expression _ => rfl
  | .command .help => cases interactive <;> rfl
  | .command (.file paths) =>
    apply filterMap_muted_of_suits
    intro act member
    obtain ⟨path, _, member⟩ := List.mem_flatMap.mp member
    exact suits_ofPath closing act member

theorem filterMap_muted_ofLines {handle silent : Line → List Act}
    (each : ∀ line, (handle line).filterMap muted = silent line) (mode : interactive = false ∨ once = false)
    (failure : Option StreamError) (lines : List Line) :
    (ofLines handle interactive once failure lines).filterMap muted = ofLines silent false once failure lines := by
  have prompted : (prompts interactive).filterMap muted = [] := by cases interactive <;> rfl
  induction lines with
  | nil => cases failure <;> simp [ofLines, prompts, muted]
  | cons line rest ih =>
    have several : ¬ (interactive = true ∧ once = true) := by
      rintro ⟨rfl, rfl⟩
      simp at mode
    simp only [ofLines, List.filterMap_append, prompted, each, several, or_false]
    split
    · simp_all [prompts]
    · simp_all [prompts]

theorem filterMap_muted_within (mode : interactive = false ∨ once = false) (levels : Nat) (input : Input) :
    (within files once levels interactive input).filterMap muted = within files once levels false input := by
  cases levels with
  | zero => rfl
  | succ levels =>
    apply filterMap_muted_ofLines _ mode
    exact filterMap_muted_ofLine (closing_within levels)

end Plan

namespace Session

open Act

/-- The session with another output channel. -/
def withOut (s : Session) (channel : Channel) : Session := { s with out := channel }

theorem perform_unlimited_eq_muted (acts : List Act) (s : Session) :
    perform acts s.unlimited =
      finish (total (acts.filterMap muted) s.env).failure
        (((total (acts.filterMap muted) s.env).after s.unlimited).withOut
          (s.unlimited.out.write (total acts s.env).out)) := by
  rw [perform_unlimited, total_filterMap_muted]
  rfl

/-- An action that leaves the output channel alone, whatever that channel is. -/
def Silent (action : SessionM Unit) : Prop :=
  ∀ s : Session, ∃ failure, ∃ t : Session, ∀ channel, action (s.withOut channel) = finish failure (t.withOut channel)

theorem apply_withOut {effect : Effect} (unseen : effect.out = []) (s : Session) (channel : Channel) :
    effect.apply (s.withOut channel) =
      finish (if effect.fits s then effect.failure else some .sinkFull) ((effect.after s).withOut channel) := by
  simp [Effect.apply, Effect.fits, Effect.after, withOut, unseen]

theorem silent_perform {acts : List Act} {failure : Option StreamError}
    (suits : ∀ act ∈ acts, act.Suits false failure) : Silent (perform acts) := by
  induction acts with
  | nil =>
    intro s
    exact ⟨none, s, fun _ => rfl⟩
  | cons act rest ih =>
    intro s
    let effect := act.effect s.env
    have unseen : effect.out = [] := (suits act List.mem_cons_self).out_eq_nil
    have performed : ∀ channel, act.perform (s.withOut channel) =
        finish (if effect.fits s then effect.failure else some .sinkFull) ((effect.after s).withOut channel) := by
      intro channel
      exact (perform_eq_apply act _).trans (apply_withOut unseen s channel)
    cases ending : (if effect.fits s then effect.failure else some .sinkFull) with
    | some error =>
      refine ⟨some error, effect.after s, fun channel => ?_⟩
      rw [perform_cons, performed, ending]
      rfl
    | none =>
      obtain ⟨failure, t, rested⟩ := ih (fun act member => suits act (List.mem_cons_of_mem _ member)) (effect.after s)
      refine ⟨failure, t, fun channel => ?_⟩
      rw [perform_cons, performed, ending]
      exact rested channel

theorem silent_process (files : FileMap) (depth : Nat) (input : Input) : Silent (process files false depth input) := by
  intro s
  obtain ⟨failure, t, performed⟩ := silent_perform suits_plan s
  exact ⟨failure, t, fun channel => (process_eq_perform files false depth input _).trans (performed channel)⟩

theorem silent_sourcePath (files : FileMap) (depth : Nat) (path : String) :
    Silent (sourcePath files (process files false depth) path) := by
  intro s
  obtain ⟨failure, t, performed⟩ := silent_perform (Plan.suits_ofPath (closing_plan depth)) s
  exact ⟨failure, t, fun channel => (sourcePath_eq_perform files depth path _).trans (performed channel)⟩

/-- A run that does not stop after one line ends and leaves all but the output channel as a silent run does. -/
theorem process_unlimited (files : FileMap) {interactive : Bool} (depth : Nat) (input : Input) {s : Session}
    (mode : interactive = false ∨ s.once = false) :
    ∃ shown : List UInt8, process files interactive depth input s.unlimited =
      finish (total (plan files s.once false depth input) s.env).failure
        (((total (plan files s.once false depth input) s.env).after s.unlimited).withOut
          (s.unlimited.out.write shown)) := by
  let acts := plan files s.once interactive depth input
  have silenced : acts.filterMap muted = plan files s.once false depth input := Plan.filterMap_muted_within mode _ input
  refine ⟨(total acts s.env).out, ?_⟩
  rw [← silenced]
  exact (process_eq_perform files interactive depth input _).trans (perform_unlimited_eq_muted acts s)

/-- Interactive or not, a stream ends alike and leaves the same variables and errors; an interactive one shows something
    besides. A silent stream, and any file that a stream sources, leaves the output channel alone. -/
theorem process_interactive (files : FileMap) (depth : Nat) (input : Input) (s : Session) (several : s.once = false) :
    (∃ (failure : Option StreamError) (t : Session) (shown : List UInt8),
      process files false depth input s.unlimited = finish failure t ∧ t.out = s.unlimited.out ∧
      process files true depth input s.unlimited = finish failure (t.withOut (t.out.write shown))) ∧
    Silent (process files false depth input) ∧
    ∀ level path, Silent (sourcePath files (process files false level) path) := by
  refine ⟨?_, silent_process files depth input, silent_sourcePath files⟩
  let silent := total (plan files s.once false depth input) s.env
  have unseen : (silent.after s.unlimited).out = s.unlimited.out := by
    have silenced := total_filterMap_muted (plan files s.once false depth input) s.env
    rw [filterMap_muted_of_suits suits_plan] at silenced
    have nothing : silent.out = [] := congrArg Effect.out silenced
    simp [Effect.after, nothing]
  obtain ⟨shown, run⟩ := process_unlimited files depth input (.inr several)
  refine ⟨silent.failure, silent.after s.unlimited, shown, ?_, unseen, ?_⟩
  · exact (process_eq_perform files false depth input _).trans (perform_unlimited _ s)
  · rw [unseen]
    exact run

theorem process_interactive_help :
    (Session.start false .unbounded .unbounded).once = false ∧
      ∃ (failure : Option StreamError) (t : Session) (shown : List UInt8),
        process (fun _ => none) false 0 ⟨Utf8.encode ":help\nx = 1\n:file f\nx +", some .inputBroken⟩
            (.start false .unbounded .unbounded) = finish failure t ∧
          t.out = .unbounded ∧
          process (fun _ => none) true 0 ⟨Utf8.encode ":help\nx = 1\n:file f\nx +", some .inputBroken⟩
            (.start false .unbounded .unbounded) = finish failure (t.withOut (t.out.write shown)) :=
  ⟨rfl, (process_interactive _ 0 _ (.start false .unbounded .unbounded) rfl).1⟩

end Session

end Calculator
