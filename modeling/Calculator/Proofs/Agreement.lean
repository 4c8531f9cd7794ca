import Calculator.Proofs.Events

/-! # Names read first

An evaluation depends on a variable only if it reads it before it has bound it itself. Two environments that agree
on those variables give the same value or the same error, and they still agree behind the evaluation, on what it has
bound as well. What it has not bound is left as it was.
-/

namespace Calculator

namespace Event

/-- The names that are read before they are bound. -/
def readFirst : List Event → List String
  | [] => []
  | read name :: rest => name :: readFirst rest
  | bind name :: rest => (readFirst rest).filter (· ≠ name)
  | call _ _ :: rest => readFirst rest

theorem mem_readFirst_append {name : String} {events more : List Event} :
    name ∈ readFirst (events ++ more) ↔ name ∈ readFirst events ∨ bind name ∉ events ∧ name ∈ readFirst more := by
  induction events with
  | nil => simp [readFirst]
  | cons event rest ih =>
    cases event with
    | read other => simp [readFirst, ih, or_assoc]
    | bind other =>
      simp only [List.cons_append, readFirst, List.mem_filter, ih, List.mem_cons, bind.injEq, decide_eq_true_eq]
      grind
    | call other arity => simp [readFirst, ih]

theorem read_mem_of_mem_readFirst {name : String} {events : List Event} (first : name ∈ readFirst events) :
    read name ∈ events := by
  induction events with
  | nil => cases first
  | cons event rest ih =>
    cases event with
    | read other =>
      rcases List.mem_cons.mp first with rfl | first
      · exact List.mem_cons_self
      · exact List.mem_cons_of_mem _ (ih first)
    | bind other => exact List.mem_cons_of_mem _ (ih (List.mem_filter.mp first).1)
    | call other arity => exact List.mem_cons_of_mem _ (ih first)

end Event

/-- The value or the error that an evaluation ends with. -/
def EvalM.outcome {α : Type} : EStateM.Result EvalError Environment α → Except EvalError α
  | .ok value _ => .ok value
  | .error error _ => .error error

namespace Event

open EvalM

variable {α β : Type} {env env' mid : Environment} {events more : List Event}

/-- The environments agree on the names that are read first, as far as an evaluation gets. -/
def AgreeOn (events : List Event) (env env' : Environment) : Prop :=
  ∀ name ∈ readFirst (tried env [] events), env'.get? name = env.get? name

/-- Two results of these events that come to the same from different environments. -/
structure Parallel (events : List Event) (env env' : Environment)
    (result result' : EStateM.Result EvalError Environment α) : Prop where
  outcome : outcome result' = outcome result
  reach : tried env' [] events = tried env [] events
  bound : ∀ name, bind name ∈ tried env [] events → (final result').get? name = (final result).get? name
  kept : ∀ name, bind name ∉ tried env [] events →
    (final result).get? name = env.get? name ∧ (final result').get? name = env'.get? name

/-- A computation with these events that depends on no variable but those read first. -/
def SeesFirst (events : List Event) (x : EvalM α) : Prop :=
  ∀ env env', AgreeOn events env env' → Parallel events env env' (x env) (x env')

theorem seesFirst_pure (value : α) : SeesFirst [] (pure value : EvalM α) :=
  fun _ _ _ => ⟨rfl, rfl, nofun, fun _ _ => ⟨rfl, rfl⟩⟩

theorem seesFirst_throw (error : EvalError) : SeesFirst [] (throw error : EvalM α) :=
  fun _ _ _ => ⟨rfl, rfl, nofun, fun _ _ => ⟨rfl, rfl⟩⟩

section Sequence

variable {mid mid' : Environment} {value value' : α} {error error' : EvalError}
  {result result' : EStateM.Result EvalError Environment β}

/-- Behind a computation, the environments agree on what is read first then: it has bound or kept it. -/
theorem Parallel.agreeOn (first : Parallel events env env' (.ok value mid) (.ok value' mid')) (clean : Clean env events)
    (binds : Binds env events mid) (agree : AgreeOn (events ++ more) env env') : AgreeOn more mid mid' := by
  intro name member
  by_cases bound : bind name ∈ events
  · exact first.bound name (by rwa [tried_eq_self clean])
  · obtain ⟨kept, kept'⟩ := first.kept name (by rwa [tried_eq_self clean])
    have before : env'.get? name = env.get? name := by
      apply agree
      rw [tried_of_clean clean binds]
      exact mem_readFirst_append.mpr (.inr ⟨bound, member⟩)
    exact kept'.trans (before.trans kept.symm)

theorem Parallel.append (first : Parallel events env env' (.ok value mid) (.ok value' mid')) (clean : Clean env events)
    (binds : Binds env events mid) (clean' : Clean env' events) (binds' : Binds env' events mid')
    (second : Parallel more mid mid' result result') : Parallel (events ++ more) env env' result result' where
  outcome := second.outcome
  reach := by rw [tried_of_clean clean binds, tried_of_clean clean' binds', second.reach]
  bound := by
    intro name member
    rw [tried_of_clean clean binds] at member
    by_cases again : bind name ∈ tried mid [] more
    · exact second.bound name again
    · have earlier : bind name ∈ events := (List.mem_append.mp member).resolve_right again
      obtain ⟨kept, kept'⟩ := second.kept name again
      exact kept'.trans ((first.bound name (by rwa [tried_eq_self clean])).trans kept.symm)
  kept := by
    intro name unbound
    rw [tried_of_clean clean binds, List.mem_append, not_or] at unbound
    obtain ⟨kept, kept'⟩ := first.kept name (by rw [tried_eq_self clean]; exact unbound.1)
    obtain ⟨still, still'⟩ := second.kept name unbound.2
    exact ⟨still.trans kept, still'.trans kept'⟩

end Sequence

theorem SeesFirst.bind {x : EvalM α} {f : α → EvalM β} (lead : ∀ env, LeadTo env events (x env))
    (first : SeesFirst events x) (second : ∀ value, SeesFirst more (f value)) :
    SeesFirst (events ++ more) (x >>= f) := by
  intro env env' agree
  have led := lead env
  have led' := lead env'
  cases ran : x env with
  | error error mid =>
    rw [ran] at led
    have reach := tried_append_of_error led rfl more
    have parallel := first env env' (by rwa [AgreeOn, ← reach])
    rw [ran] at parallel
    cases ran' : x env' with
    | ok value' mid' => cases ran' ▸ parallel.outcome
    | error error' mid' =>
      rw [ran'] at parallel led'
      have reach' := tried_append_of_error led' rfl more
      obtain rfl : error' = error := Except.error.inj parallel.outcome
      rw [bind_of_error ran, bind_of_error ran']
      refine ⟨rfl, ?_, ?_, ?_⟩
      · rw [reach, reach', parallel.reach]
      · rw [reach]
        exact parallel.bound
      · rw [reach]
        exact parallel.kept
  | ok value mid =>
    rw [ran] at led
    obtain ⟨clean, binds⟩ := led.1 rfl
    have agreeFirst : AgreeOn events env env' := by
      intro name member
      rw [tried_eq_self clean] at member
      apply agree
      rw [tried_of_clean clean binds]
      exact mem_readFirst_append.mpr (.inl member)
    have parallel := first env env' agreeFirst
    rw [ran] at parallel
    cases ran' : x env' with
    | error error' mid' => cases ran' ▸ parallel.outcome
    | ok value' mid' =>
      rw [ran'] at parallel led'
      obtain ⟨clean', binds'⟩ := led'.1 rfl
      obtain rfl : value' = value := Except.ok.inj parallel.outcome
      have agreeSecond := parallel.agreeOn clean binds agree
      rw [bind_of_ok ran, bind_of_ok ran']
      exact parallel.append clean binds clean' binds' (second value' mid mid' agreeSecond)

theorem seesFirst_readVariable (name : String) : SeesFirst [.read name] (readVariable name) := by
  intro env env' agree
  have reach (env : Environment) : tried env [] [.read name] = [.read name] := tried_singleton
  have same : env'.get? name = env.get? name := agree name (by simp [reach, readFirst])
  have looked (env : Environment) :
      readVariable name env = ((env.get? name).elim (throw (.undefinedVariable name)) pure : EvalM Binary64) env := by
    have opened (f : Environment → EvalM Binary64) : (get >>= f) env = f env env := rfl
    rw [readVariable, opened]
    cases env.get? name <;> rfl
  rw [looked, looked, same]
  cases env.get? name with
  | none => exact ⟨rfl, by rw [reach, reach], by simp [reach], fun _ _ => ⟨rfl, rfl⟩⟩
  | some value => exact ⟨rfl, by rw [reach, reach], by simp [reach], fun _ _ => ⟨rfl, rfl⟩⟩

theorem seesFirst_set (name : String) (value : Binary64) :
    SeesFirst [.bind name] (modify (·.set name value) : EvalM PUnit) := by
  intro env env' _
  have reach : ∀ env, tried env [] [.bind name] = [.bind name] := fun _ => tried_singleton
  refine ⟨rfl, by rw [reach, reach], ?_, ?_⟩
  · intro other member
    obtain rfl : other = name := by simpa [reach] using member
    have stored : ∀ env : Environment, (env.set other value).get? other = some value := by simp
    exact (stored env').trans (stored env).symm
  · intro other unbound
    have distinct : other ≠ name := by simpa [reach] using unbound
    have kept : ∀ env : Environment, (env.set name value).get? other = env.get? other := by simp [distinct]
    exact ⟨kept env, kept env'⟩

theorem SeesFirst.call {x : EvalM α} {name : String} {arity : Nat} {b : Builtin}
    (found : Builtin.find? name arity = some b) (rest : SeesFirst events x) :
    SeesFirst (.call name arity :: events) x := by
  have reach (env : Environment) :
      tried env [] (.call name arity :: events) = .call name arity :: tried env [] events :=
    tried_call_of_found found events
  intro env env' agree
  have parallel := rest env env' (by simpa [AgreeOn, reach, readFirst] using agree)
  refine ⟨parallel.outcome, ?_, ?_, ?_⟩
  · rw [reach, reach, parallel.reach]
  · simpa [reach] using parallel.bound
  · simpa [reach] using parallel.kept

theorem seesFirst_unknown {name : String} {arity : Nat} (missing : Builtin.find? name arity = none) (error : EvalError)
    (more : List Event) : SeesFirst (.call name arity :: more) (throw error : EvalM α) := by
  have reach (env : Environment) : tried env [] (.call name arity :: more) = [.call name arity] :=
    tried_call_of_missing missing more
  intro env env' _
  refine ⟨rfl, by rw [reach, reach], ?_, fun _ _ => ⟨rfl, rfl⟩⟩
  simp [reach]

end Event

namespace Expr

open Event EvalM

theorem seesFirst_evalAll {arguments : List Expr} (each : ∀ e ∈ arguments, SeesFirst e.events e.eval) :
    SeesFirst (eventsAll arguments) (evalAll arguments) := by
  induction arguments with
  | nil =>
    rw [eventsAll, evalAll]
    exact seesFirst_pure []
  | cons e rest ih =>
    rw [eventsAll, evalAll]
    apply (each e List.mem_cons_self).bind e.leadTo_eval
    intro value
    rw [← List.append_nil (eventsAll rest)]
    apply (ih fun e member => each e (List.mem_cons_of_mem _ member)).bind (leadTo_evalAll fun e _ => e.leadTo_eval)
    intro values
    exact seesFirst_pure _

/-- An expression depends on no variable but those it reads first. -/
theorem seesFirst_eval (e : Expr) : SeesFirst e.events e.eval := by
  induction e with
  | number value =>
    rw [events, eval]
    exact seesFirst_pure value
  | var name =>
    rw [events, eval]
    exact seesFirst_readVariable name
  | assign name value ih =>
    rw [events, eval]
    apply ih.bind value.leadTo_eval
    intro result
    rw [← List.append_nil [Event.bind name]]
    apply (seesFirst_set name result).bind fun env => leadTo_set env name result
    intro _
    exact seesFirst_pure result
  | call name arguments ih =>
    rw [events, eval]
    cases found : Builtin.find? name arguments.length with
    | none => exact seesFirst_unknown found _ _
    | some builtin =>
      apply SeesFirst.call found
      rw [← List.append_nil (eventsAll arguments)]
      apply (seesFirst_evalAll ih).bind (leadTo_evalAll fun e _ => e.leadTo_eval)
      intro values
      cases builtin.valueAt? values with
      | some result => exact seesFirst_pure result
      | none => exact seesFirst_throw _
  | neg operand ih =>
    rw [events, eval, ← List.append_nil operand.events]
    apply ih.bind operand.leadTo_eval
    intro value
    exact seesFirst_pure _
  | binary op left right ihLeft ihRight =>
    rw [events, eval]
    apply ihLeft.bind left.leadTo_eval
    intro first
    rw [← List.append_nil right.events]
    apply ihRight.bind right.leadTo_eval
    intro second
    exact seesFirst_pure _

/-- Environments that agree on the names that an expression reads first, as far as its evaluation gets, give the same
    value or the same error by the same events. Behind it they agree on every name that is bound on the way and on
    every name that they agreed on; a name that is not bound on the way is as it was in each. -/
theorem eval_agree (e : Expr) (env env' : Environment)
    (agree : ∀ name ∈ readFirst e.events, .read name ∈ tried env [] e.events → env'.get? name = env.get? name) :
    outcome (e.eval env') = outcome (e.eval env) ∧
    tried env' [] e.events = tried env [] e.events ∧
    (∀ name, (env'.get? name = env.get? name ∨ .bind name ∈ tried env [] e.events) →
      (final (e.eval env')).get? name = (final (e.eval env)).get? name) ∧
    ∀ name, .bind name ∉ tried env [] e.events →
      (final (e.eval env)).get? name = env.get? name ∧ (final (e.eval env')).get? name = env'.get? name := by
  have agreeTried : AgreeOn e.events env env' := by
    intro name member
    obtain ⟨later, split⟩ := tried_prefix env [] e.events
    have first : name ∈ readFirst e.events := by
      rw [← split]
      exact mem_readFirst_append.mpr (.inl member)
    exact agree name first (read_mem_of_mem_readFirst member)
  have parallel := e.seesFirst_eval env env' agreeTried
  refine ⟨parallel.outcome, parallel.reach, ?_, parallel.kept⟩
  intro name known
  by_cases bound : .bind name ∈ tried env [] e.events
  · exact parallel.bound name bound
  · obtain ⟨kept, kept'⟩ := parallel.kept name bound
    exact kept'.trans ((known.resolve_right bound).trans kept.symm)

theorem eval_agree_rebound :
    readFirst (binary .mul (assign "a" (var "b")) (binary .add (var "a") (var "c"))).events = ["b", "c"] ∧
    outcome ((binary .mul (assign "a" (var "b")) (binary .add (var "a") (var "c"))).eval
        ⟨[("a", .infinity true), ("b", .zero false)]⟩) =
      outcome ((binary .mul (assign "a" (var "b")) (binary .add (var "a") (var "c"))).eval ⟨[("b", .zero false)]⟩) ∧
    (final ((binary .mul (assign "a" (var "b")) (binary .add (var "a") (var "c"))).eval
        ⟨[("a", .infinity true), ("b", .zero false)]⟩)).get? "a" =
      (final ((binary .mul (assign "a" (var "b")) (binary .add (var "a") (var "c"))).eval
        ⟨[("b", .zero false)]⟩)).get? "a" := by
  have agree := eval_agree (binary .mul (assign "a" (var "b")) (binary .add (var "a") (var "c"))) ⟨[("b", .zero false)]⟩
    ⟨[("a", .infinity true), ("b", .zero false)]⟩ (by decide)
  exact ⟨by decide, agree.1, agree.2.2.1 "a" (.inr (by decide))⟩

end Expr

end Calculator
