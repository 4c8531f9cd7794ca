import Calculator.Calculate
import Calculator.Proofs.Events
import Calculator.Proofs.Watched

/-! # Calculations without faults

Evaluation and calculation under watch. A function takes the values it was handed by their index, and the run breaks off
if there is none at that index or if their number is not the one that the function was declared with. Together with the
grammar under watch this covers a calculation from its text to its value. It never breaks off, since the rows of the
table look for no more values than they are declared for.
-/

namespace Calculator

/-- Hand values to a function. -/
def Builtin.invoke (b : Builtin) (values : List Binary64) : Except Fault Binary64 :=
  if values.length = b.arity then
    match b.valueAt? values with
    | some x => .ok x
    | none => .error .missingValue
  else .error (.wrongCount values.length)

/-- A function of the table that is handed as many values as it was declared with finds those it looks for. -/
theorem Builtin.invoke_eq {b : Builtin} (listed : b ∈ table) {values : List Binary64}
    (count : values.length = b.arity) : ∃ x, b.invoke values = .ok x ∧ b.valueAt? values = some x := by
  obtain ⟨x, value⟩ := Option.isSome_iff_exists.mp (consistent_of_mem_table b listed values count)
  refine ⟨x, ?_, value⟩
  rw [invoke, if_pos count, value]

/-- An evaluation that may break off. -/
abbrev WatchedEval (α : Type) := Environment → Except Fault (EStateM.Result EvalError Environment α)

namespace WatchedEval

variable {α β : Type}

/-- A step that cannot break off. -/
def plain (x : EvalM α) : WatchedEval α := fun env => .ok (x env)

/-- Continue with a value in the environment that is left. -/
def andThen (first : WatchedEval α) (next : α → WatchedEval β) : WatchedEval β := fun env =>
  match first env with
  | .error fault => .error fault
  | .ok (.error error mid) => .ok (.error error mid)
  | .ok (.ok a mid) => next a mid

theorem andThen_eq {first : WatchedEval α} {next : α → WatchedEval β} {x : EvalM α} {f : α → EvalM β}
    {env : Environment} (same : first env = .ok (x env))
    (goesOn : ∀ a mid, x env = .ok a mid → next a mid = .ok (f a mid)) :
    first.andThen next env = .ok ((x >>= f) env) := by
  rw [andThen, same]
  cases run : x env with
  | ok a mid => exact (goesOn a mid run).trans (congrArg Except.ok (EvalM.bind_of_ok run f).symm)
  | error error mid => exact congrArg Except.ok (EvalM.bind_of_error run f).symm

end WatchedEval

namespace Expr

open WatchedEval

mutual

/-- The value of an expression, under watch. -/
def evalWatched : Expr → WatchedEval Binary64
  | number value => plain (pure value)
  | var name => plain (readVariable name)
  | assign name value =>
    value.evalWatched.andThen fun result => plain do
      modify (·.set name result)
      pure result
  | call name arguments =>
    match Builtin.find? name arguments.length with
    | none => plain (throw (.unknownFunction name arguments.length))
    | some builtin => (evalAllWatched arguments).andThen fun values env => (builtin.invoke values).map (.ok · env)
  | neg operand => operand.evalWatched.andThen fun value => plain (pure value.neg)
  | binary op left right =>
    left.evalWatched.andThen fun first => right.evalWatched.andThen fun second => plain (pure (op.apply first second))

/-- The values of a list of expressions, under watch. -/
def evalAllWatched : List Expr → WatchedEval (List Binary64)
  | [] => plain (pure [])
  | e :: rest =>
    e.evalWatched.andThen fun value => (evalAllWatched rest).andThen fun values => plain (pure (value :: values))

end

theorem evalAllWatched_eq {arguments : List Expr}
    (each : ∀ e ∈ arguments, ∀ env, e.evalWatched env = .ok (e.eval env)) (env : Environment) :
    evalAllWatched arguments env = .ok (evalAll arguments env) := by
  induction arguments generalizing env with
  | nil => rfl
  | cons e rest ih =>
    have eachRest := fun e (member : e ∈ rest) => each e (List.mem_cons_of_mem _ member)
    rw [evalAllWatched, evalAll]
    refine andThen_eq (each e List.mem_cons_self env) fun value mid _ => ?_
    exact andThen_eq (ih eachRest mid) fun values after _ => rfl

/-- Evaluation does not break off. A function is handed one value for each of its arguments, and it was found by their
    number. -/
theorem evalWatched_eq (e : Expr) (env : Environment) : e.evalWatched env = .ok (e.eval env) := by
  induction e generalizing env with
  | number | var => rfl
  | assign name value ih =>
    rw [evalWatched, eval]
    exact andThen_eq (ih env) fun result mid _ => rfl
  | call name arguments ih =>
    rw [evalWatched, eval]
    cases found : Builtin.find? name arguments.length with
    | none => rfl
    | some builtin =>
      refine andThen_eq (evalAllWatched_eq ih env) fun values after evaluated => ?_
      obtain ⟨listed, _, arity⟩ := Builtin.of_find?_eq_some found
      have count : values.length = builtin.arity := (length_of_evalAll evaluated).trans arity.symm
      obtain ⟨result, invoked, value⟩ := Builtin.invoke_eq listed count
      rw [invoked, value]
      rfl
  | neg operand ih =>
    rw [evalWatched, eval]
    exact andThen_eq (ih env) fun value mid _ => rfl
  | binary op left right ihLeft ihRight =>
    rw [evalWatched, eval]
    refine andThen_eq (ihLeft env) fun first mid _ => ?_
    exact andThen_eq (ihRight mid) fun second after _ => rfl

/-- The expression at the start of a text, read under watch. -/
def parseWatched (text : String) : Except Fault (Except ParseError Expr) :=
  match TokenStream.ofText text.toList with
  | .error error => .ok (.error error)
  | .ok s =>
    match (Watched.expression s).outcome with
    | .error fault => .error fault
    | .ok (.done e _ _) => .ok (.ok e)
    | .ok (.failed error _) => .ok (.error error)

theorem parseWatched_eq (text : String) : parseWatched text = .ok (parse text) := by
  rw [parseWatched, parse, read, TokenStream.ofText]
  cases TokenStream.read text.toList with
  | error error rest => rfl
  | ok token rest =>
    dsimp only [TokenStream.expression]
    rw [(Grammar.expression_watched ⟨token, rest⟩).outcome]
    cases Grammar.expression ⟨token, rest⟩ <;> rfl

end Expr

/-- The value of the expression at the start of a text, calculated under watch. -/
def calculateWatched (text : String) (env : Environment) :
    Except Fault (EStateM.Result CalculationError Environment Binary64) :=
  match Expr.parseWatched text with
  | .error fault => .error fault
  | .ok (.error error) => .ok (.error (.parse error) env)
  | .ok (.ok e) =>
    match e.evalWatched env with
    | .error fault => .error fault
    | .ok (.error error after) => .ok (.error (.eval error) after)
    | .ok (.ok value after) => .ok (.ok value after)

/-- No text and no environment make a calculation break off: under watch it ends with the same value or error, and in
    the same environment, as it does without. What it moves past is always the token that was current, and if a kind of
    token was asked for, of that kind. -/
theorem calculate_faultFree (text : String) (env : Environment) :
    calculateWatched text env = .ok (calculate text env) ∧
    (∀ s token t, TokenStream.advance s = .ok token t → token = s.current) ∧
    ∀ kind s token t, TokenStream.consume kind s = .ok token t → token = s.current ∧ token.map Token.kind = kind := by
  refine ⟨?_, fun s token t advanced => TokenStream.eq_current_of_advance advanced, fun kind s token t consumed => ?_⟩
  · rw [calculateWatched, calculate, Expr.parseWatched_eq]
    cases Expr.parse text with
    | error error => rfl
    | ok e =>
      dsimp only
      rw [Expr.evalWatched_eq]
      cases e.eval env <;> rfl
  · unfold TokenStream.consume at consumed
    split at consumed
    · rename_i wanted
      obtain rfl := TokenStream.eq_current_of_advance consumed
      exact ⟨rfl, wanted⟩
    · cases consumed

theorem calculate_faultFree_assignment :
    calculateWatched "x=log(1..2,$" .initial = .ok (calculate "x=log(1..2,$" .initial) ∧
    TokenStream.consume (some .identifier) ⟨some (.identifier "x"), "=log(1..2,$".toList⟩ =
      .ok (some (.identifier "x")) ⟨some (.symbol .equals), "log(1..2,$".toList⟩ ∧
    (some (.identifier "x")).map Token.kind = some .identifier := by
  obtain ⟨same, -, consumed⟩ := calculate_faultFree "x=log(1..2,$" .initial
  exact ⟨same, rfl, (consumed (some .identifier) ⟨some (.identifier "x"), "=log(1..2,$".toList⟩ _ _ rfl).2⟩

end Calculator
