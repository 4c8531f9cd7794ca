import Calculator.Expr.Eval
import Calculator.Proofs.Subexpression

/-! # Definition before use

What an evaluation may trip over, in the order in which it gets there: variables read, variables bound and functions
looked up. The list is a matter of the tree alone. Whether an evaluation succeeds, how it fails and which names are
bound behind it follow from the list and from the names bound in front, whatever the numbers are.
-/

namespace Calculator

/-- A thing done by an evaluation that has to do with names. -/
inductive Event where
  /-- The value of a variable is taken. -/
  | read (name : String)
  /-- A variable is given a value. -/
  | bind (name : String)
  /-- A function is looked up by its name and its number of arguments. -/
  | call (name : String) (arity : Nat)
  deriving DecidableEq, Repr

namespace Expr

mutual

/-- The events of an evaluation that nothing stops. A function is looked up in front of its arguments; a variable is
    bound behind its value. -/
def events : Expr → List Event
  | number _ => []
  | var name => [.read name]
  | assign name value => value.events ++ [.bind name]
  | call name arguments => .call name arguments.length :: eventsAll arguments
  | neg operand => operand.events
  | binary _ left right => left.events ++ right.events

def eventsAll : List Expr → List Event
  | [] => []
  | e :: rest => e.events ++ eventsAll rest

end

mutual

/-- An expression with every number replaced by zero. -/
def shape : Expr → Expr
  | number _ => number (.zero false)
  | var name => var name
  | assign name value => assign name value.shape
  | call name arguments => call name (shapes arguments)
  | neg operand => neg operand.shape
  | binary op left right => binary op left.shape right.shape

def shapes : List Expr → List Expr
  | [] => []
  | e :: rest => e.shape :: shapes rest

end

theorem length_shapes (arguments : List Expr) : (shapes arguments).length = arguments.length := by
  induction arguments with
  | nil => rfl
  | cons e rest ih => simp [shapes, ih]

theorem eventsAll_shapes {arguments : List Expr} (same : ∀ e ∈ arguments, e.shape.events = e.events) :
    eventsAll (shapes arguments) = eventsAll arguments := by
  induction arguments with
  | nil => rfl
  | cons e rest ih => simp_all [shapes, eventsAll]

/-- Numbers are no events. -/
theorem events_shape (e : Expr) : e.shape.events = e.events := by
  induction e with
  | number | var => simp [shape, events]
  | assign name value ih => simp [shape, events, ih]
  | call name arguments ih => simp [shape, events, length_shapes, eventsAll_shapes ih]
  | neg operand ih => simp [shape, events, ih]
  | binary op left right ihLeft ihRight => simp [shape, events, ihLeft, ihRight]

end Expr

namespace Event

/-- Whether an event fails behind others: a variable bound neither at the start nor since, or a function that no
    entry of the table has. -/
def Fails (env : Environment) (earlier : List Event) : Event → Prop
  | read name => env.get? name = none ∧ bind name ∉ earlier
  | bind _ => False
  | call name arity => ∀ b ∈ Builtin.table, ¬ (b.name = name ∧ b.arity = arity)

/-- The error of an event that fails. -/
def error? : Event → Option EvalError
  | read name => some (.undefinedVariable name)
  | bind _ => none
  | call name arity => some (.unknownFunction name arity)

/-- No event of the list fails. -/
def Clean (env : Environment) (events : List Event) : Prop :=
  ∀ earlier event later, events = earlier ++ event :: later → ¬ event.Fails env earlier

/-- The first event of the list that fails, with those in front of it. -/
structure FirstFailure (env : Environment) (events earlier : List Event) (event : Event) : Prop where
  occurs : ∃ later, events = earlier ++ event :: later
  clean : Clean env earlier
  fails : event.Fails env earlier

/-- The names bound behind the events are those bound at the start and those that the events bind. -/
def Binds (env : Environment) (events : List Event) (after : Environment) : Prop :=
  ∀ name, (after.get? name).isSome ↔ (env.get? name).isSome ∨ bind name ∈ events

variable {env mid after : Environment} {earlier events more : List Event} {event : Event}

theorem clean_nil : Clean env [] := by
  intro earlier event later split
  simp at split

theorem binds_nil : Binds env [] env := by
  simp [Binds]

theorem clean_singleton : Clean env [event] ↔ ¬ event.Fails env [] := by
  constructor
  · intro clean
    exact clean [] event [] rfl
  · intro holds earlier other later split
    cases earlier with
    | nil =>
      cases split
      exact holds
    | cons head earlier => simp at split

theorem binds_trans (first : Binds env events mid) (second : Binds mid more after) :
    Binds env (events ++ more) after := by
  intro name
  rw [second, first, List.mem_append, or_assoc]

theorem fails_append (bound : Binds env events mid) :
    event.Fails env (events ++ earlier) ↔ event.Fails mid earlier := by
  cases event with
  | read name =>
    have known := bound name
    simp only [Option.isSome_iff_ne_none] at known
    simp only [Fails, List.mem_append]
    grind
  | bind name => rfl
  | call name arity => rfl

theorem clean_append (bound : Binds env events mid) (first : Clean env events) (second : Clean mid more) :
    Clean env (events ++ more) := by
  intro earlier event later split fails
  rcases List.append_eq_append_iff.mp split with ⟨between, rfl, rest⟩ | ⟨between, rest, behind⟩
  · exact second between event later rest ((fails_append bound).mp fails)
  · cases between with
    | nil =>
      rw [List.append_nil] at rest
      subst rest
      rw [← List.append_nil events] at fails
      exact second [] event later behind.symm ((fails_append bound).mp fails)
    | cons head between =>
      cases behind
      exact first earlier event between rest fails

theorem FirstFailure.append_left (bound : Binds env events mid) (clean : Clean env events)
    (failure : FirstFailure mid more earlier event) : FirstFailure env (events ++ more) (events ++ earlier) event where
  occurs := by
    obtain ⟨later, rfl⟩ := failure.occurs
    exact ⟨later, (List.append_assoc ..).symm⟩
  clean := clean_append bound clean failure.clean
  fails := (fails_append bound).mpr failure.fails

theorem FirstFailure.append_right (failure : FirstFailure env events earlier event) (more : List Event) :
    FirstFailure env (events ++ more) earlier event where
  occurs := by
    obtain ⟨later, rfl⟩ := failure.occurs
    exact ⟨later ++ more, by simp⟩
  clean := failure.clean
  fails := failure.fails

theorem FirstFailure.not_clean (failure : FirstFailure env events earlier event) : ¬ Clean env events := by
  intro clean
  obtain ⟨later, split⟩ := failure.occurs
  exact clean _ _ _ split failure.fails

/-- Nothing in front of the first event to fail fails, so there is only one. -/
theorem FirstFailure.unique {earlier' : List Event} {event' : Event} (failure : FirstFailure env events earlier event)
    (failure' : FirstFailure env events earlier' event') : earlier = earlier' ∧ event = event' := by
  obtain ⟨later, split⟩ := failure.occurs
  obtain ⟨later', split'⟩ := failure'.occurs
  rcases List.append_eq_append_iff.mp (split.symm.trans split') with
    ⟨between, prefixed, rest⟩ | ⟨between, prefixed, rest⟩
  · cases between with
    | nil => simp_all
    | cons head between =>
      cases rest
      exact absurd failure.fails (failure'.clean _ _ _ prefixed)
  · cases between with
    | nil => simp_all
    | cons head between =>
      cases rest
      exact absurd failure'.fails (failure.clean _ _ _ prefixed)

instance decidableFails (env : Environment) (earlier : List Event) :
    (event : Event) → Decidable (event.Fails env earlier)
  | read name => inferInstanceAs (Decidable (env.get? name = none ∧ bind name ∉ earlier))
  | bind _ => inferInstanceAs (Decidable False)
  | call name arity => List.decidableBAll (fun b : Builtin => ¬ (b.name = name ∧ b.arity = arity)) Builtin.table

/-- The events that an evaluation gets to, behind earlier ones. The first one to fail is the last. -/
def tried (env : Environment) (earlier : List Event) : List Event → List Event
  | [] => []
  | event :: rest => event :: if event.Fails env earlier then [] else tried env (earlier ++ [event]) rest

theorem tried_prefix (env : Environment) (earlier events : List Event) : tried env earlier events <+: events := by
  induction events generalizing earlier with
  | nil => exact List.prefix_rfl
  | cons event rest ih =>
    rw [tried, List.prefix_cons_inj]
    split
    · exact List.nil_prefix
    · exact ih _

theorem tried_singleton : tried env earlier [event] = [event] := by
  simp [tried]

theorem tried_append
    (holds : ∀ before event later, events = before ++ event :: later → ¬ event.Fails env (earlier ++ before)) :
    tried env earlier (events ++ more) = events ++ tried env (earlier ++ events) more := by
  induction events generalizing earlier with
  | nil => simp
  | cons event rest ih =>
    have head : ¬ event.Fails env earlier := by simpa using holds [] event rest rfl
    have tail : tried env (earlier ++ [event]) (rest ++ more) =
        rest ++ tried env (earlier ++ [event] ++ rest) more := by
      apply ih
      rintro before other later rfl
      simpa using holds (event :: before) other later rfl
    rw [List.cons_append, tried, if_neg head, tail]
    simp

theorem tried_behind (bound : Binds env events mid) : tried env (events ++ earlier) more = tried mid earlier more := by
  induction more generalizing earlier with
  | nil => rfl
  | cons event rest ih =>
    rw [tried, tried, List.append_assoc, ih]
    simp only [fails_append bound]

theorem tried_eq_self (clean : Clean env events) : tried env [] events = events := by
  have split : tried env [] (events ++ []) = events ++ tried env ([] ++ events) [] := tried_append clean
  simpa [tried] using split

theorem tried_of_clean (clean : Clean env events) (bound : Binds env events mid) :
    tried env [] (events ++ more) = events ++ tried mid [] more := by
  have split : tried env [] (events ++ more) = events ++ tried env ([] ++ events) more := tried_append clean
  have behind : tried env (events ++ []) more = tried mid [] more := tried_behind bound
  rw [split, ← behind, List.nil_append, List.append_nil]

theorem tried_of_firstFailure (failure : FirstFailure env events earlier event) :
    tried env [] events = earlier ++ [event] := by
  obtain ⟨later, rfl⟩ := failure.occurs
  have split : tried env [] (earlier ++ event :: later) = earlier ++ tried env ([] ++ earlier) (event :: later) :=
    tried_append failure.clean
  rw [split, List.nil_append, tried, if_pos failure.fails]

end Event

/-- The error that an evaluation ends with, if it fails. -/
def EvalM.failure? {α : Type} : EStateM.Result EvalError Environment α → Option EvalError
  | .ok _ _ => none
  | .error error _ => some error

/-- The environment that an evaluation ends with, whether or not it fails. -/
def EvalM.final {α : Type} : EStateM.Result EvalError Environment α → Environment
  | .ok _ after | .error _ after => after

namespace Event

open EvalM

variable {α β : Type} {env mid after : Environment} {events more : List Event}

/-- A result is what the events lead to: all of them if it is a value, and those in front of the first one to fail if
    it is an error. -/
def LeadTo (env : Environment) (events : List Event) (result : EStateM.Result EvalError Environment α) : Prop :=
  (failure? result = none → Clean env events ∧ Binds env events (final result)) ∧
  ∀ error, failure? result = some error → ∃ earlier event,
    FirstFailure env events earlier event ∧ event.error? = some error ∧ Binds env earlier (final result)

theorem LeadTo.of_ok {value : α} (clean : Clean env events) (bound : Binds env events after) :
    LeadTo env events (.ok value after : EStateM.Result EvalError Environment α) :=
  ⟨fun _ => ⟨clean, bound⟩, nofun⟩

theorem leadTo_pure (env : Environment) (value : α) : LeadTo env [] ((pure value : EvalM α) env) :=
  .of_ok clean_nil binds_nil

theorem leadTo_throw {event : Event} {error : EvalError} (fails : event.Fails env [])
    (own : event.error? = some error) (more : List Event) :
    LeadTo env (event :: more) ((throw error : EvalM α) env) := by
  refine ⟨nofun, ?_⟩
  rintro _ ⟨⟩
  exact ⟨[], event, ⟨⟨more, rfl⟩, clean_nil, fails⟩, own, binds_nil⟩

theorem LeadTo.append_left {result : EStateM.Result EvalError Environment α} (clean : Clean env events)
    (bound : Binds env events mid) (rest : LeadTo mid more result) : LeadTo env (events ++ more) result := by
  constructor
  · intro succeeds
    obtain ⟨clean', bound'⟩ := rest.1 succeeds
    exact ⟨clean_append bound clean clean', binds_trans bound bound'⟩
  · intro error fails
    obtain ⟨earlier, event, failure, own, bound'⟩ := rest.2 error fails
    exact ⟨events ++ earlier, event, failure.append_left bound clean, own, binds_trans bound bound'⟩

/-- Events of a second computation stand behind those of the first and start from where the first ends. -/
theorem LeadTo.bind {x : EvalM α} {f : α → EvalM β} (first : LeadTo env events (x env))
    (second : ∀ value mid, x env = .ok value mid → LeadTo mid more (f value mid)) :
    LeadTo env (events ++ more) ((x >>= f) env) := by
  have run : (x >>= f) env = EStateM.bind x f env := rfl
  rw [run, EStateM.bind]
  cases outcome : x env with
  | error error mid =>
    rw [outcome] at first
    refine ⟨nofun, ?_⟩
    rintro _ ⟨⟩
    obtain ⟨earlier, event, failure, own, bound⟩ := first.2 error rfl
    exact ⟨earlier, event, failure.append_right more, own, bound⟩
  | ok value mid =>
    rw [outcome] at first
    obtain ⟨clean, bound⟩ := first.1 rfl
    exact (second value mid outcome).append_left clean bound

theorem tried_append_of_error {result : EStateM.Result EvalError Environment α} {error : EvalError}
    (lead : LeadTo env events result) (failed : failure? result = some error) (more : List Event) :
    tried env [] (events ++ more) = tried env [] events := by
  obtain ⟨earlier, event, failure, _⟩ := lead.2 error failed
  rw [tried_of_firstFailure (failure.append_right more), tried_of_firstFailure failure]

theorem LeadTo.unique {result : EStateM.Result EvalError Environment α}
    {result' : EStateM.Result EvalError Environment β} (lead : LeadTo env events result)
    (lead' : LeadTo env events result') :
    failure? result' = failure? result ∧
      ∀ name, ((final result').get? name).isSome = ((final result).get? name).isSome := by
  have sameNames : ∀ {earlier : List Event} {after after' : Environment}, Binds env earlier after →
      Binds env earlier after' → ∀ name, (after'.get? name).isSome = (after.get? name).isSome := by
    intro earlier after after' bound bound' name
    rw [Bool.eq_iff_iff, bound', bound]
  cases outcome : failure? result with
  | none =>
    obtain ⟨clean, bound⟩ := lead.1 outcome
    cases outcome' : failure? result' with
    | none => exact ⟨rfl, sameNames bound (lead'.1 outcome').2⟩
    | some error =>
      obtain ⟨earlier, event, failure, _⟩ := lead'.2 error outcome'
      exact absurd clean failure.not_clean
  | some error =>
    obtain ⟨earlier, event, failure, own, bound⟩ := lead.2 error outcome
    cases outcome' : failure? result' with
    | none => exact absurd (lead'.1 outcome').1 failure.not_clean
    | some error' =>
      obtain ⟨earlier', event', failure', own', bound'⟩ := lead'.2 error' outcome'
      obtain ⟨rfl, rfl⟩ := failure.unique failure'
      exact ⟨own'.symm.trans own, sameNames bound bound'⟩

theorem leadTo_readVariable (env : Environment) (name : String) : LeadTo env [.read name] (readVariable name env) := by
  have looked : LeadTo env [] ((get : EvalM Environment) env) := .of_ok clean_nil binds_nil
  apply looked.bind
  rintro value mid ⟨⟩
  cases found : env.get? name with
  | none =>
    have unbound : (Event.read name).Fails env [] := ⟨found, List.not_mem_nil⟩
    exact leadTo_throw unbound rfl []
  | some value =>
    have bound : ¬ (Event.read name).Fails env [] := by simp [Fails, found]
    exact .of_ok (clean_singleton.mpr bound) (by simp [Binds])

theorem leadTo_set (env : Environment) (name : String) (value : Binary64) :
    LeadTo env [.bind name] ((modify (·.set name value) : EvalM PUnit) env) := by
  refine .of_ok (clean_singleton.mpr fun fails => fails) fun other => ?_
  by_cases same : other = name <;> simp [same]

end Event

theorem EvalM.bind_of_ok {α β : Type} {x : EvalM α} {env mid : Environment} {value : α} (run : x env = .ok value mid)
    (f : α → EvalM β) : (x >>= f) env = f value mid := by
  have opened : (x >>= f) env = EStateM.bind x f env := rfl
  rw [opened, EStateM.bind, run]

theorem EvalM.bind_of_error {α β : Type} {x : EvalM α} {env mid : Environment} {error : EvalError}
    (run : x env = .error error mid) (f : α → EvalM β) : (x >>= f) env = .error error mid := by
  have opened : (x >>= f) env = EStateM.bind x f env := rfl
  rw [opened, EStateM.bind, run]

theorem EvalM.exists_of_bind_eq_ok {α β : Type} {x : EvalM α} {f : α → EvalM β} {env after : Environment} {value : β}
    (run : (x >>= f) env = .ok value after) :
    ∃ first mid, x env = .ok first mid ∧ f first mid = .ok value after := by
  have opened : EStateM.bind x f env = .ok value after := run
  unfold EStateM.bind at opened
  cases outcome : x env with
  | ok first mid => exact ⟨first, mid, rfl, by simpa [outcome] using opened⟩
  | error error mid => simp [outcome] at opened

namespace Builtin

theorem find?_eq_none {name : String} {arity : Nat} (missing : find? name arity = none) :
    ∀ b ∈ table, ¬ (b.name = name ∧ b.arity = arity) := by
  simpa [find?] using missing

theorem of_find?_eq_some {b : Builtin} {name : String} {arity : Nat} (found : find? name arity = some b) :
    b ∈ table ∧ b.name = name ∧ b.arity = arity :=
  ⟨List.mem_of_find?_eq_some found, by simpa using List.find?_some found⟩

end Builtin

namespace Event

variable {env : Environment} {name : String} {arity : Nat}

theorem clean_call {b : Builtin} (found : Builtin.find? name arity = some b) : Clean env [.call name arity] := by
  obtain ⟨listed, named, fits⟩ := Builtin.of_find?_eq_some found
  exact clean_singleton.mpr fun unknown => unknown b listed ⟨named, fits⟩

theorem binds_call : Binds env [.call name arity] env := by
  simp [Binds]

theorem tried_call_of_found {b : Builtin} (found : Builtin.find? name arity = some b) (events : List Event) :
    tried env [] (.call name arity :: events) = .call name arity :: tried env [] events :=
  tried_of_clean (clean_call found) binds_call

theorem tried_call_of_missing (missing : Builtin.find? name arity = none) (events : List Event) :
    tried env [] (.call name arity :: events) = [.call name arity] := by
  have unknown : (Event.call name arity).Fails env [] := Builtin.find?_eq_none missing
  rw [tried, if_pos unknown]

end Event

namespace Expr

open Event EvalM

theorem length_of_evalAll {arguments : List Expr} {env after : Environment} {values : List Binary64}
    (evaluated : evalAll arguments env = .ok values after) : values.length = arguments.length := by
  induction arguments generalizing env values after with
  | nil =>
    cases evaluated
    rfl
  | cons e rest ih =>
    obtain ⟨value, mid, _, evaluated⟩ := exists_of_bind_eq_ok evaluated
    obtain ⟨others, mid', evaluatedRest, evaluated⟩ := exists_of_bind_eq_ok evaluated
    cases evaluated
    simp [ih evaluatedRest]

theorem leadTo_evalAll {arguments : List Expr} (each : ∀ e ∈ arguments, ∀ env, LeadTo env e.events (e.eval env))
    (env : Environment) : LeadTo env (eventsAll arguments) (evalAll arguments env) := by
  induction arguments generalizing env with
  | nil => exact leadTo_pure env []
  | cons e rest ih =>
    rw [eventsAll, evalAll]
    apply (each e List.mem_cons_self env).bind
    intro value mid _
    rw [← List.append_nil (eventsAll rest)]
    apply (ih (fun e member => each e (List.mem_cons_of_mem _ member)) mid).bind
    intro values after _
    exact leadTo_pure after _

/-- An expression evaluates as its events say. -/
theorem leadTo_eval (e : Expr) (env : Environment) : LeadTo env e.events (e.eval env) := by
  induction e generalizing env with
  | number value =>
    rw [events, eval]
    exact leadTo_pure env value
  | var name =>
    rw [events, eval]
    exact leadTo_readVariable env name
  | assign name value ih =>
    rw [events, eval]
    apply (ih env).bind
    intro result mid _
    rw [← List.append_nil [Event.bind name]]
    apply (leadTo_set mid name result).bind
    intro _ after _
    exact leadTo_pure after result
  | call name arguments ih =>
    rw [events, eval]
    cases found : Builtin.find? name arguments.length with
    | none =>
      have unknown : (Event.call name arguments.length).Fails env [] := Builtin.find?_eq_none found
      exact leadTo_throw unknown rfl _
    | some builtin =>
      obtain ⟨listed, _, arity⟩ := Builtin.of_find?_eq_some found
      apply LeadTo.append_left (clean_call found) binds_call
      rw [← List.append_nil (eventsAll arguments)]
      apply (leadTo_evalAll ih env).bind
      intro values after evaluated
      have fits : (builtin.valueAt? values).isSome :=
        Builtin.consistent_of_mem_table builtin listed values ((length_of_evalAll evaluated).trans arity.symm)
      obtain ⟨result, value⟩ := Option.isSome_iff_exists.mp fits
      rw [value]
      exact leadTo_pure after result
  | neg operand ih =>
    rw [events, eval, ← List.append_nil operand.events]
    apply (ih env).bind
    intro value after _
    exact leadTo_pure after _
  | binary op left right ihLeft ihRight =>
    rw [events, eval]
    apply (ihLeft env).bind
    intro first mid _
    rw [← List.append_nil right.events]
    apply (ihRight mid).bind
    intro second after _
    exact leadTo_pure after _

/-- An evaluation succeeds exactly if none of its events fails. Otherwise its error is that of the first one to fail.
    The names bound behind it are those bound in front and those that events bind up to there. So nothing of this
    depends on a number, in the expression or in the environment. -/
theorem eval_events (e : Expr) (env : Environment) :
    (failure? (e.eval env) = none ↔ Clean env e.events) ∧
    (failure? (e.eval env) = none → Binds env e.events (final (e.eval env))) ∧
    (∀ error, failure? (e.eval env) = some error → ∃ earlier event, FirstFailure env e.events earlier event ∧
      event.error? = some error ∧ Binds env earlier (final (e.eval env))) ∧
    ∀ (e' : Expr) (env' : Environment), e'.shape = e.shape →
      (∀ name, (env'.get? name).isSome = (env.get? name).isSome) →
      failure? (e'.eval env') = failure? (e.eval env) ∧
        ∀ name, ((final (e'.eval env')).get? name).isSome = ((final (e.eval env)).get? name).isSome := by
  have lead := e.leadTo_eval env
  refine ⟨⟨fun succeeds => (lead.1 succeeds).1, fun clean => ?_⟩, fun succeeds => (lead.1 succeeds).2, lead.2, ?_⟩
  · cases outcome : failure? (e.eval env) with
    | none => rfl
    | some error =>
      obtain ⟨earlier, event, failure, _⟩ := lead.2 error outcome
      exact absurd clean failure.not_clean
  · intro e' env' sameShape sameNames
    have lead' := e'.leadTo_eval env'
    rw [← events_shape, sameShape, events_shape] at lead'
    -- an environment with the same names is one that no events lead to
    have bound : Binds env [] env' := by simp [Binds, sameNames]
    exact lead.unique (lead'.append_left clean_nil bound)

end Expr

end Calculator
