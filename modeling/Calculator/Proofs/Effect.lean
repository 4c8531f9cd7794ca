import Calculator.Session.Basic

/-! # Acts of a session and their effects

A session works through single acts: it shows a text, reports an error, evaluates a line, or fails with its input. An
act changes the variables and then writes to one of the channels at most, so all that it does is said by one effect.
Acts in sequence have one effect too, as long as the channels take it.
-/

namespace Calculator

namespace Channel

variable (channel : Channel) (first second bytes : List UInt8)

@[simp]
theorem write_nil : channel.write [] = channel := by
  obtain ⟨taken, room⟩ := channel
  cases room <;> simp [write, fitting]

@[simp]
theorem fits_nil : channel.fits [] = true := by
  obtain ⟨taken, room⟩ := channel
  cases room <;> simp [fits]

theorem write_append : channel.write (first ++ second) = (channel.write first).write second := by
  obtain ⟨taken, room⟩ := channel
  cases room with
  | none => simp [write, fitting]
  | some room => simp [write, fitting, List.take_append, Nat.sub_sub]

theorem fits_append :
    channel.fits (first ++ second) = (channel.fits first && (channel.write first).fits second) := by
  obtain ⟨taken, room⟩ := channel
  cases room with
  | none => rfl
  | some room =>
    simp only [fits, write, Option.map_some, List.length_append, ← Bool.decide_and, decide_eq_decide]
    omega

variable {channel bytes}

theorem room_write_of_not_fits (overflow : channel.fits bytes = false) : (channel.write bytes).room = some 0 := by
  obtain ⟨taken, room⟩ := channel
  cases room with
  | none => simp [fits] at overflow
  | some room =>
    simp only [fits, decide_eq_false_iff_not] at overflow
    simp only [write, Option.map_some, Option.some.injEq]
    omega

theorem write_of_full (full : channel.room = some 0) : channel.write bytes = channel := by
  obtain ⟨taken, room⟩ := channel
  simp only at full
  simp [write, fitting, full]

theorem not_fits_of_full (full : channel.room = some 0) (something : bytes ≠ []) : channel.fits bytes = false := by
  simpa [fits, full] using something

end Channel

/-- What happens at once in a session: the variables it leaves, the bytes it writes to each channel, and the error it
    ends with. -/
structure Effect where
  env : Environment
  out : List UInt8
  err : List UInt8
  failure : Option StreamError
  deriving DecidableEq, Repr

/-- End a run, with an error or without. -/
def Session.finish (failure : Option StreamError) : SessionM Unit := fun s =>
  match failure with
  | none => .ok () s
  | some error => .error error s

namespace Effect

/-- Nothing happens. -/
def idle (env : Environment) : Effect := ⟨env, [], [], none⟩

/-- One effect behind another. -/
def andThen (first second : Effect) : Effect :=
  ⟨second.env, first.out ++ second.out, first.err ++ second.err, second.failure⟩

/-- Whether the channels of a session take all that is written. -/
def fits (effect : Effect) (s : Session) : Bool := s.out.fits effect.out && s.err.fits effect.err

/-- The session behind an effect. Channels keep what they take. -/
def after (effect : Effect) (s : Session) : Session :=
  { s with env := effect.env, out := s.out.write effect.out, err := s.err.write effect.err }

/-- Let an effect happen. -/
def apply (effect : Effect) : SessionM Unit := fun s =>
  Session.finish (if effect.fits s then effect.failure else some .sinkFull) (effect.after s)

variable {first second : Effect} {s : Session}

@[simp]
theorem env_idle {env : Environment} : (idle env).env = env := rfl

@[simp]
theorem after_idle : (idle s.env).after s = s := by simp [after, idle]

@[simp]
theorem fits_idle {env : Environment} : (idle env).fits s = true := by simp [fits, idle]

theorem after_andThen : (first.andThen second).after s = second.after (first.after s) := by
  simp [after, andThen, Channel.write_append]

theorem fits_andThen : (first.andThen second).fits s = (first.fits s && second.fits (first.after s)) := by
  simp only [fits, andThen, after, Channel.fits_append]
  ac_rfl

theorem apply_of_fits (enough : first.fits s = true) (lasting : first.failure = none) :
    first.apply s = .ok () (first.after s) := by
  simp [apply, enough, lasting, Session.finish]

theorem apply_of_not_fits (overflow : first.fits s = false) : first.apply s = .error .sinkFull (first.after s) := by
  simp [apply, overflow, Session.finish]

theorem apply_andThen (enough : first.fits s = true) :
    (first.andThen second).apply s = second.apply (first.after s) := by
  simp only [apply, fits_andThen, after_andThen, enough, Bool.true_and]
  rfl

end Effect

/-- One act of a session. -/
inductive Act where
  /-- Write a text to the output channel. -/
  | print (text : String)
  /-- Report an error. -/
  | report (message : String)
  /-- Evaluate an expression line, and show its value in an interactive stream. -/
  | evaluate (interactive : Bool) (line : String)
  /-- Fail as the input does. -/
  | fail (error : StreamError)
  deriving DecidableEq, Repr

namespace Act

def perform : Act → SessionM Unit
  | print text => Session.writeOut text
  | report message => Session.report message
  | evaluate interactive line => Session.runExpression interactive line
  | fail error => throw error

def effect : Act → Environment → Effect
  | print text, env => ⟨env, Utf8.encode text, [], none⟩
  | report message, env => ⟨env, [], Utf8.encode (errorLine message), none⟩
  | evaluate interactive line, env =>
    match calculate (answerName ++ " = " ++ line) env with
    | .ok value env => ⟨env, if interactive then Utf8.encode (answerLine value) else [], [], none⟩
    | .error error env => ⟨env, [], Utf8.encode (errorLine error.message), none⟩
  | fail error, env => ⟨env, [], [], some error⟩

theorem writeOut_eq_apply (text : String) (s : Session) :
    Session.writeOut text s = (Effect.mk s.env (Utf8.encode text) [] none).apply s := by
  simp only [Session.writeOut, Effect.apply, Effect.fits, Effect.after, Channel.write_nil, Channel.fits_nil,
    Bool.and_true]
  cases s.out.fits (Utf8.encode text) <;> rfl

theorem writeErr_eq_apply (text : String) (s : Session) :
    Session.writeErr text s = (Effect.mk s.env [] (Utf8.encode text) none).apply s := by
  simp only [Session.writeErr, Effect.apply, Effect.fits, Effect.after, Channel.write_nil, Channel.fits_nil,
    Bool.true_and]
  cases s.err.fits (Utf8.encode text) <;> rfl

/-- All that an act does is its effect. -/
theorem perform_eq_apply (act : Act) (s : Session) : act.perform s = (act.effect s.env).apply s := by
  cases act with
  | print text => exact writeOut_eq_apply text s
  | report message => exact writeErr_eq_apply (errorLine message) s
  | fail error =>
    simp only [Effect.apply, Effect.fits, Effect.after, effect, Channel.write_nil, Channel.fits_nil, Bool.and_true]
    rfl
  | evaluate interactive line =>
    unfold perform effect Session.runExpression Session.evaluate
    dsimp only
    cases calculate (answerName ++ " = " ++ line) s.env with
    | error error env => exact writeErr_eq_apply (errorLine error.message) { s with env := env }
    | ok value env =>
      cases interactive with
      | true => exact writeOut_eq_apply (answerLine value) { s with env := env }
      | false =>
        simp [Effect.apply, Effect.fits, Effect.after, Session.finish]

/-- What acts do in order, up to the first that fails. -/
def total : List Act → Environment → Effect
  | [], env => .idle env
  | act :: rest, env =>
    match (act.effect env).failure with
    | some _ => act.effect env
    | none => (act.effect env).andThen (total rest (act.effect env).env)

variable {act : Act} {rest : List Act} {env : Environment}

theorem total_cons_of_some {error : StreamError} (failing : (act.effect env).failure = some error) :
    total (act :: rest) env = act.effect env := by
  simp [total, failing]

theorem total_cons_of_none (lasting : (act.effect env).failure = none) :
    total (act :: rest) env = (act.effect env).andThen (total rest (act.effect env).env) := by
  simp [total, lasting]

theorem total_singleton : total [act] env = act.effect env := by
  cases failure : (act.effect env).failure with
  | some error => exact total_cons_of_some failure
  | none =>
    rw [total_cons_of_none failure]
    simp [total, Effect.andThen, Effect.idle, ← failure]

theorem total_append {acts : List Act} (lasting : (total acts env).failure = none) (more : List Act) :
    total (acts ++ more) env = (total acts env).andThen (total more (total acts env).env) := by
  induction acts generalizing env with
  | nil => simp [total, Effect.idle, Effect.andThen]
  | cons act rest ih =>
    cases failure : (act.effect env).failure with
    | some error =>
      rw [total_cons_of_some failure, failure] at lasting
      cases lasting
    | none =>
      rw [total_cons_of_none failure] at lasting ⊢
      rw [List.cons_append, total_cons_of_none failure, ih lasting]
      simp [Effect.andThen]

theorem total_snoc {acts : List Act} (lasting : (total acts env).failure = none) :
    total (acts ++ [act]) env = (total acts env).andThen (act.effect (total acts env).env) := by
  rw [total_append lasting, total_singleton]

theorem failure_eq_none_of_ne (lasting : ∀ error, act ≠ .fail error) : (act.effect env).failure = none := by
  cases act with
  | print | report => rfl
  | fail error => exact absurd rfl (lasting error)
  | evaluate interactive line =>
    simp only [effect]
    split <;> rfl

theorem failure_eq_none_of_not_fits {s : Session} (overflow : (act.effect env).fits s = false) :
    (act.effect env).failure = none := by
  apply failure_eq_none_of_ne
  rintro error rfl
  simp [effect, Effect.fits] at overflow

end Act

namespace Session

open Act

/-- Perform acts in order. The first that fails ends the run. -/
def perform (acts : List Act) : SessionM Unit := acts.forM Act.perform

theorem perform_cons (act : Act) (rest : List Act) (s : Session) :
    perform (act :: rest) s =
      match act.perform s with
      | .ok _ t => perform rest t
      | .error error t => .error error t := by
  simp only [perform, List.forM_eq_forM, List.forM_cons, bind, EStateM.bind]
  cases act.perform s <;> rfl

theorem perform_append (first second : List Act) (s : Session) :
    perform (first ++ second) s =
      match perform first s with
      | .ok _ t => perform second t
      | .error error t => .error error t := by
  simp only [perform, List.forM_eq_forM, List.forM_append, bind, EStateM.bind]
  cases forM first Act.perform s <;> rfl

theorem perform_cons_of_none {act : Act} {rest : List Act} {s : Session} (lasting : (act.effect s.env).failure = none)
    (enough : (act.effect s.env).fits s = true) :
    perform (act :: rest) s = perform rest ((act.effect s.env).after s) := by
  rw [perform_cons, perform_eq_apply, Effect.apply_of_fits enough lasting]

theorem perform_of_fits {acts : List Act} {s : Session} (enough : (total acts s.env).fits s = true) :
    perform acts s = (total acts s.env).apply s := by
  induction acts generalizing s with
  | nil =>
    rw [Effect.apply_of_fits enough rfl, total, Effect.after_idle]
    rfl
  | cons act rest ih =>
    -- an act that fails by itself is the last one; behind any other the channels still take what the rest writes
    cases failure : (act.effect s.env).failure with
    | some error =>
      rw [total_cons_of_some failure] at enough ⊢
      simp [perform_cons, perform_eq_apply, Effect.apply, enough, failure, finish]
    | none =>
      rw [total_cons_of_none failure] at enough ⊢
      rw [Effect.fits_andThen, Bool.and_eq_true] at enough
      rw [perform_cons_of_none failure enough.1, ih enough.2, Effect.apply_andThen enough.1]
      rfl

end Session

end Calculator
