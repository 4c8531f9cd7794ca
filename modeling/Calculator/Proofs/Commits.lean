import Calculator.Proofs.Events

/-! # Commits

The assignments of an expression in the order in which they take effect, and what an evaluation has stored when it
ends. It has carried out an initial segment of them, each with the value that its right side has where that right side
is reached. If it succeeds, these are all; if it fails, they are those that bind a variable in front of the first event
to fail. So nothing is taken back.
-/

namespace Calculator

theorem split_append {α : Type} {xs ys earlier later : List α} {c : α} (split : xs ++ ys = earlier ++ c :: later) :
    (∃ between, earlier = xs ++ between ∧ ys = between ++ c :: later) ∨
      ∃ between, xs = earlier ++ c :: between ∧ later = between ++ ys := by
  rcases List.append_eq_append_iff.mp split with ⟨between, front, back⟩ | ⟨between, front, back⟩
  · exact .inl ⟨between, front, back⟩
  · cases between with
    | nil => exact .inl ⟨[], by simpa using front.symm, back.symm⟩
    | cons head between =>
      cases back
      exact .inr ⟨between, front, rfl⟩

/-- An assignment that stands in an expression. -/
structure Assignment where
  name : String
  value : Expr

/-- An assignment carried out. -/
structure Commit extends Assignment where
  result : Binary64

namespace Environment

/-- Carry out assignments, the first one first. -/
def commit (env : Environment) (commits : List Commit) : Environment :=
  commits.foldl (fun env c => env.set c.name c.result) env

variable {env : Environment} {commits earlier later : List Commit} {c : Commit} {name : String}

theorem commit_append (env : Environment) (earlier later : List Commit) :
    env.commit (earlier ++ later) = (env.commit earlier).commit later :=
  List.foldl_append

theorem get?_commit_of_forall_ne (others : ∀ c ∈ commits, c.name ≠ name) :
    (env.commit commits).get? name = env.get? name := by
  induction commits generalizing env with
  | nil => rfl
  | cons c rest ih =>
    have other : name ≠ c.name := (others c List.mem_cons_self).symm
    have kept : ((env.set c.name c.result).commit rest).get? name = (env.set c.name c.result).get? name :=
      ih fun d member => others d (List.mem_cons_of_mem c member)
    rwa [Environment.get?_set, if_neg other] at kept

theorem get?_commit_of_last (last : ∀ d ∈ later, d.name ≠ c.name) :
    (env.commit (earlier ++ c :: later)).get? c.name = some c.result := by
  have stored : ((env.commit earlier).set c.name c.result).get? c.name = some c.result := by simp
  rw [commit_append]
  exact (get?_commit_of_forall_ne last).trans stored

end Environment

namespace Expr

mutual

/-- An expression and its subexpressions, each behind its own parts, left to right. -/
def postorder : Expr → List Expr
  | e@(number _) => [e]
  | e@(var _) => [e]
  | e@(assign _ value) => value.postorder ++ [e]
  | e@(call _ arguments) => postorders arguments ++ [e]
  | e@(neg operand) => operand.postorder ++ [e]
  | e@(binary _ left right) => left.postorder ++ (right.postorder ++ [e])

def postorders : List Expr → List Expr
  | [] => []
  | e :: rest => e.postorder ++ postorders rest

end

def assignment? : Expr → Option Assignment
  | assign name value => some ⟨name, value⟩
  | _ => none

end Expr

/-- The assignments among nodes. -/
def assignmentsAmong (nodes : List Expr) : List Assignment := nodes.filterMap Expr.assignment?

theorem assignmentsAmong_append (nodes more : List Expr) :
    assignmentsAmong (nodes ++ more) = assignmentsAmong nodes ++ assignmentsAmong more :=
  List.filterMap_append

theorem eq_of_length_assignmentsAmong {nodes front front' back back' : List Expr} (a a' : Assignment)
    (split : nodes = front ++ .assign a.name a.value :: back)
    (split' : nodes = front' ++ .assign a'.name a'.value :: back')
    (place : (assignmentsAmong front).length = (assignmentsAmong front').length) : front = front' ∧ a = a' := by
  have counted (a : Assignment) (nodes : List Expr) : 0 < (assignmentsAmong (.assign a.name a.value :: nodes)).length :=
    Nat.succ_pos _
  rcases split_append (split.symm.trans split') with ⟨between, rfl, rest⟩ | ⟨between, rfl, rest⟩
  · cases between with
    | nil =>
      cases a
      cases a'
      cases rest
      simp
    | cons node between =>
      cases rest
      have more := counted a between
      rw [assignmentsAmong_append, List.length_append] at place
      omega
  · have more := counted a' between
    rw [assignmentsAmong_append, List.length_append] at place
    omega

/-- A commit behind earlier ones is that of an assignment among the nodes. The earlier ones are those of the
    assignments in front of it. Its right side has the result where the assignments in front of the right side have
    been carried out, and carries out the others itself. -/
def Commit.Accounted (env : Environment) (nodes : List Expr) (earlier : List Commit) (c : Commit) : Prop :=
  ∃ before after, nodes = before ++ c.value.postorder ++ .assign c.name c.value :: after ∧
    earlier.map Commit.toAssignment = assignmentsAmong (before ++ c.value.postorder) ∧
    c.value.eval (env.commit (earlier.take (assignmentsAmong before).length)) = .ok c.result (env.commit earlier)

namespace Commit

variable {env : Environment} {nodes more : List Expr} {commits earlier : List Commit} {c : Commit}

theorem Accounted.append_right (accounted : c.Accounted env nodes earlier) (more : List Expr) :
    c.Accounted env (nodes ++ more) earlier := by
  obtain ⟨before, after, rfl, front, evaluated⟩ := accounted
  exact ⟨before, after ++ more, by simp, front, evaluated⟩

theorem Accounted.append_left (carried : commits.map toAssignment = assignmentsAmong nodes)
    (accounted : c.Accounted (env.commit commits) more earlier) :
    c.Accounted env (nodes ++ more) (commits ++ earlier) := by
  obtain ⟨before, after, rfl, front, evaluated⟩ := accounted
  have length : (assignmentsAmong (nodes ++ before)).length = commits.length + (assignmentsAmong before).length := by
    rw [assignmentsAmong_append, List.length_append, ← carried, List.length_map]
  refine ⟨nodes ++ before, after, by simp, ?_, ?_⟩
  · rw [List.map_append, carried, front, List.append_assoc, assignmentsAmong_append nodes]
  · rw [length, List.take_length_add_append, Environment.commit_append, Environment.commit_append]
    exact evaluated

end Commit

namespace Event

def bound? : Event → Option String
  | bind name => some name
  | _ => none

/-- The names that events bind, in order. -/
def boundBy (events : List Event) : List String := events.filterMap bound?

theorem boundBy_append (events more : List Event) : boundBy (events ++ more) = boundBy events ++ boundBy more :=
  List.filterMap_append

/-- The event that fails binds nothing, so what is bound is bound in front of it. -/
theorem boundBy_tried_of_firstFailure {env : Environment} {events earlier : List Event} {event : Event}
    (failure : FirstFailure env events earlier event) : boundBy (tried env [] events) = boundBy earlier := by
  have unbound : boundBy [event] = [] := by
    cases event with
    | bind name => exact failure.fails.elim
    | read | call => rfl
  rw [tried_of_firstFailure failure, boundBy_append, unbound, List.append_nil]

end Event

namespace EvalM

open Event

variable {α β : Type} {env : Environment} {events later : List Event} {nodes more : List Expr}

/-- The commits that an evaluation of nodes, with these events, has made when it ends with a result. -/
structure Committed (env : Environment) (events : List Event) (nodes : List Expr)
    (result : EStateM.Result EvalError Environment α) (commits : List Commit) : Prop where
  segment : commits.map Commit.toAssignment <+: assignmentsAmong nodes
  all : failure? result = none → commits.map Commit.toAssignment = assignmentsAmong nodes
  named : commits.map (·.name) = boundBy (tried env [] events)
  stored : final result = env.commit commits
  accounted : ∀ earlier c later, commits = earlier ++ c :: later → c.Accounted env nodes earlier

theorem committed_pure (value : α) (empty : assignmentsAmong nodes = [])
    (unbound : boundBy (tried env [] events) = []) :
    Committed env events nodes ((pure value : EvalM α) env) [] where
  segment := List.nil_prefix
  all := fun _ => empty.symm
  named := unbound.symm
  stored := rfl
  accounted := by simp

theorem committed_throw (error : EvalError) (nodes : List Expr) (unbound : boundBy (tried env [] events) = []) :
    Committed env events nodes ((throw error : EvalM α) env) [] where
  segment := List.nil_prefix
  all := nofun
  named := unbound.symm
  stored := rfl
  accounted := by simp

theorem Committed.append_right_of_error {error : EvalError} {mid : Environment} {commits : List Commit}
    (made : Committed env events nodes (.error error mid : EStateM.Result EvalError Environment α) commits)
    (lead : LeadTo env events (.error error mid : EStateM.Result EvalError Environment α)) (later : List Event)
    (more : List Expr) :
    Committed env (events ++ later) (nodes ++ more) (.error error mid : EStateM.Result EvalError Environment β)
      commits where
  segment := by
    rw [assignmentsAmong_append]
    exact made.segment.trans (List.prefix_append ..)
  all := nofun
  named := by rw [made.named, tried_append_of_error lead rfl]
  stored := made.stored
  accounted := fun earlier c later split => (made.accounted earlier c later split).append_right more

theorem exists_committed_bind {x : EvalM α} {f : α → EvalM β} (lead : LeadTo env events (x env))
    (first : ∃ commits, Committed env events nodes (x env) commits)
    (second : ∀ value mid, x env = .ok value mid → ∃ commits, Committed mid later more (f value mid) commits) :
    ∃ commits, Committed env (events ++ later) (nodes ++ more) ((x >>= f) env) commits := by
  obtain ⟨commits, made⟩ := first
  cases outcome : x env with
  | error error mid =>
    rw [outcome] at made lead
    rw [bind_of_error outcome]
    exact ⟨commits, made.append_right_of_error lead later more⟩
  | ok value mid =>
    rw [outcome] at made lead
    have carried := made.all rfl
    obtain ⟨clean, binds⟩ : Clean env events ∧ Binds env events mid := lead.1 rfl
    obtain rfl : mid = env.commit commits := made.stored
    obtain ⟨commits', made'⟩ := second value _ outcome
    rw [bind_of_ok outcome]
    refine ⟨commits ++ commits', ?_, fun succeeds => ?_, ?_, ?_, fun earlier c later split => ?_⟩
    · rw [List.map_append, carried, assignmentsAmong_append]
      exact (List.prefix_append_right_inj _).mpr made'.segment
    · rw [List.map_append, carried, made'.all succeeds, assignmentsAmong_append]
    · rw [List.map_append, made.named, made'.named, tried_eq_self clean, tried_of_clean clean binds, boundBy_append]
    · rw [Environment.commit_append]
      exact made'.stored
    · rcases split_append split with ⟨between, rfl, rest⟩ | ⟨between, rfl, _⟩
      · exact (made'.accounted between c later rest).append_left carried
      · exact (made.accounted earlier c between rfl).append_right more

theorem exists_committed_call {name : String} {arity : Nat} {b : Builtin} (found : Builtin.find? name arity = some b)
    {result : EStateM.Result EvalError Environment α} (rest : ∃ commits, Committed env events nodes result commits) :
    ∃ commits, Committed env (.call name arity :: events) nodes result commits := by
  obtain ⟨commits, made⟩ := rest
  have named : commits.map (·.name) = boundBy (tried env [] (.call name arity :: events)) := by
    rw [made.named, tried_call_of_found found]
    rfl
  exact ⟨commits, made.segment, made.all, named, made.stored, made.accounted⟩

theorem exists_committed_readVariable (env : Environment) (name : String) :
    ∃ commits, Committed env [.read name] [.var name] (readVariable name env) commits := by
  have unbound : boundBy (tried env [] [.read name]) = [] := by
    rw [tried_singleton]
    rfl
  have lead : LeadTo env [] ((get : EvalM Environment) env) := .of_ok clean_nil binds_nil
  have looked : ∃ commits, Committed env [] [] ((get : EvalM Environment) env) commits :=
    ⟨[], committed_pure env rfl rfl⟩
  apply exists_committed_bind lead looked
  rintro value mid ⟨⟩
  cases env.get? name with
  | none => exact ⟨[], committed_throw _ _ unbound⟩
  | some value => exact ⟨[], committed_pure value rfl unbound⟩

end EvalM

namespace Expr

open EvalM Event

theorem boundBy_eventsAll {arguments : List Expr}
    (each : ∀ e ∈ arguments, boundBy e.events = (assignmentsAmong e.postorder).map Assignment.name) :
    boundBy (eventsAll arguments) = (assignmentsAmong (postorders arguments)).map Assignment.name := by
  induction arguments with
  | nil => rfl
  | cons e rest ih =>
    rw [eventsAll, postorders, boundBy_append, assignmentsAmong_append, List.map_append, each e List.mem_cons_self,
      ih fun e member => each e (List.mem_cons_of_mem _ member)]

/-- The variables that the events bind are those of the assignments, in the same order. -/
theorem boundBy_events (e : Expr) : boundBy e.events = (assignmentsAmong e.postorder).map Assignment.name := by
  induction e with
  | number | var =>
    rw [events, postorder]
    rfl
  | assign name value ih =>
    rw [events, postorder, boundBy_append, assignmentsAmong_append, List.map_append, ih]
    rfl
  | call name arguments ih =>
    have all := boundBy_eventsAll ih
    rw [events, postorder, assignmentsAmong_append, List.map_append, ← all]
    exact (List.append_nil _).symm
  | neg operand ih =>
    rw [events, postorder, assignmentsAmong_append, List.map_append, ← ih]
    exact (List.append_nil _).symm
  | binary op left right ihLeft ihRight =>
    rw [events, postorder, boundBy_append, assignmentsAmong_append, assignmentsAmong_append, List.map_append,
      List.map_append, ← ihLeft, ← ihRight]
    exact congrArg _ (List.append_nil _).symm

theorem exists_committed_evalAll {arguments : List Expr}
    (each : ∀ e ∈ arguments, ∀ env, ∃ commits, Committed env e.events e.postorder (e.eval env) commits)
    (env : Environment) :
    ∃ commits, Committed env (eventsAll arguments) (postorders arguments) (evalAll arguments env) commits := by
  induction arguments generalizing env with
  | nil => exact ⟨[], committed_pure [] rfl rfl⟩
  | cons e rest ih =>
    rw [eventsAll, postorders, evalAll]
    apply exists_committed_bind (e.leadTo_eval env) (each e List.mem_cons_self env)
    intro value mid _
    have lead := leadTo_evalAll (fun e (_ : e ∈ rest) => e.leadTo_eval) mid
    rw [← List.append_nil (eventsAll rest), ← List.append_nil (postorders rest)]
    apply exists_committed_bind lead (ih (fun e member => each e (List.mem_cons_of_mem _ member)) mid)
    intro values after _
    exact ⟨[], committed_pure _ rfl rfl⟩

theorem exists_committed_assign {value : Expr} {env : Environment} (name : String)
    (right : ∃ commits, Committed env value.events value.postorder (value.eval env) commits) :
    ∃ commits, Committed env (assign name value).events (assign name value).postorder
      ((assign name value).eval env) commits := by
  obtain ⟨commits, made⟩ := right
  have lead := value.leadTo_eval env
  rw [eval, postorder, events]
  cases outcome : value.eval env with
  | error error mid =>
    rw [outcome] at made lead
    rw [bind_of_error outcome]
    exact ⟨commits, made.append_right_of_error lead _ _⟩
  | ok result mid =>
    rw [outcome] at made lead
    have carried := made.all rfl
    obtain ⟨clean, binds⟩ : Clean env value.events ∧ Binds env value.events mid := lead.1 rfl
    obtain rfl : mid = env.commit commits := made.stored
    let own : Commit := ⟨⟨name, value⟩, result⟩
    have total : (commits ++ [own]).map Commit.toAssignment =
        assignmentsAmong (value.postorder ++ [assign name value]) := by
      rw [List.map_append, carried, assignmentsAmong_append]
      rfl
    rw [bind_of_ok outcome]
    refine ⟨commits ++ [own], total ▸ List.prefix_rfl, fun _ => total, ?_, ?_, fun earlier c later split => ?_⟩
    · rw [List.map_append, made.named, tried_eq_self clean, tried_of_clean clean binds, tried_singleton,
        boundBy_append]
      rfl
    · rw [Environment.commit_append]
      rfl
    · rcases split_append split with ⟨between, rfl, rest⟩ | ⟨between, rfl, _⟩
      · obtain ⟨rfl, rfl⟩ : between = [] ∧ own = c := by
          cases between <;> simp_all
        rw [List.append_nil]
        exact ⟨[], [], rfl, carried, outcome⟩
      · exact (made.accounted earlier c between rfl).append_right _

theorem exists_committed_eval (e : Expr) (env : Environment) :
    ∃ commits, Committed env e.events e.postorder (e.eval env) commits := by
  induction e generalizing env with
  | number value =>
    rw [events, postorder, eval]
    exact ⟨[], committed_pure value rfl rfl⟩
  | var name =>
    rw [events, postorder, eval]
    exact exists_committed_readVariable env name
  | assign name value ih => exact exists_committed_assign name (ih env)
  | call name arguments ih =>
    rw [events, postorder, eval]
    cases found : Builtin.find? name arguments.length with
    | none =>
      have unbound : boundBy (tried env [] (.call name arguments.length :: eventsAll arguments)) = [] := by
        rw [tried_call_of_missing found]
        rfl
      exact ⟨[], committed_throw _ _ unbound⟩
    | some builtin =>
      have lead := leadTo_evalAll (fun e (_ : e ∈ arguments) => e.leadTo_eval) env
      apply exists_committed_call found
      rw [← List.append_nil (eventsAll arguments)]
      apply exists_committed_bind lead (exists_committed_evalAll ih env)
      intro values after _
      cases builtin.valueAt? values with
      | some result => exact ⟨[], committed_pure result rfl rfl⟩
      | none => exact ⟨[], committed_throw _ _ rfl⟩
  | neg operand ih =>
    rw [events, postorder, eval, ← List.append_nil operand.events]
    apply exists_committed_bind (operand.leadTo_eval env) (ih env)
    intro value after _
    exact ⟨[], committed_pure _ rfl rfl⟩
  | binary op left right ihLeft ihRight =>
    rw [events, postorder, eval]
    apply exists_committed_bind (left.leadTo_eval env) (ihLeft env)
    intro first mid _
    rw [← List.append_nil right.events]
    apply exists_committed_bind (right.leadTo_eval mid) (ihRight mid)
    intro second after _
    exact ⟨[], committed_pure _ rfl rfl⟩

end Expr

/-- Where a right side fails, its assignment is not carried out, and none behind it. -/
theorem EvalM.Committed.segment_of_error {α : Type} {env : Environment} {nodes : List Expr}
    {events : List Event} {result : EStateM.Result EvalError Environment α} {commits : List Commit}
    (made : Committed env events nodes result commits) {before after : List Expr} {name : String} {value : Expr}
    (split : nodes = before ++ value.postorder ++ .assign name value :: after) {error : EvalError} {left : Environment}
    (failed : value.eval (env.commit (commits.take (assignmentsAmong before).length)) = .error error left) :
    commits.map Commit.toAssignment <+: assignmentsAmong (before ++ value.postorder) := by
  rcases Nat.lt_or_ge (assignmentsAmong (before ++ value.postorder)).length commits.length with reached | short
  · exfalso
    obtain ⟨earlier, c, later, rfl, place⟩ : ∃ earlier c later, commits = earlier ++ c :: later ∧
        earlier.length = (assignmentsAmong (before ++ value.postorder)).length :=
      ⟨_, _, _, by rw [List.getElem_cons_drop reached, List.take_append_drop],
        List.length_take_of_le (Nat.le_of_lt reached)⟩
    obtain ⟨before', after', split', front, evaluated⟩ := made.accounted earlier c later rfl
    rw [← List.length_map Commit.toAssignment, front] at place
    obtain ⟨sameFront, same⟩ := eq_of_length_assignmentsAmong c.toAssignment ⟨name, value⟩ split' split place
    obtain rfl : c.value = value := congrArg Assignment.value same
    obtain rfl := List.append_cancel_right sameFront
    have within : (assignmentsAmong before').length ≤ earlier.length := by
      rw [← List.length_map Commit.toAssignment, front, assignmentsAmong_append, List.length_append]
      exact Nat.le_add_right ..
    rw [List.take_append_of_le_length within, evaluated] at failed
    cases failed
  · have among : assignmentsAmong (before ++ value.postorder) <+: assignmentsAmong nodes := by
      rw [split, assignmentsAmong_append (before ++ value.postorder)]
      exact List.prefix_append ..
    exact List.prefix_of_prefix_length_le made.segment among (by simpa using short)

/-- When an evaluation ends, with a value or an error, it has carried out an initial segment of the assignments of the
    expression and has stored nothing else. With a value, these are all assignments; with an error, they are those whose
    variable is bound in front of the first event to fail, and none of them is taken back. So a name that no commit is
    about is as it was, a name has the result of the last commit that is about it, and an assignment whose right side
    fails is none of those carried out. -/
theorem Expr.eval_commits (e : Expr) (env : Environment) :
    Event.boundBy e.events = (assignmentsAmong e.postorder).map Assignment.name ∧
    ∃ commits : List Commit,
      commits.map Commit.toAssignment <+: assignmentsAmong e.postorder ∧
      (EvalM.failure? (e.eval env) = none → commits.map Commit.toAssignment = assignmentsAmong e.postorder) ∧
      (∀ error, EvalM.failure? (e.eval env) = some error → ∃ earlier event,
        Event.FirstFailure env e.events earlier event ∧ event.error? = some error ∧
        commits.map (·.name) = Event.boundBy earlier) ∧
      EvalM.final (e.eval env) = env.commit commits ∧
      (∀ earlier c later, commits = earlier ++ c :: later → c.Accounted env e.postorder earlier) ∧
      (∀ name, (∀ c ∈ commits, c.name ≠ name) → (EvalM.final (e.eval env)).get? name = env.get? name) ∧
      (∀ earlier c later, commits = earlier ++ c :: later → (∀ d ∈ later, d.name ≠ c.name) →
        (EvalM.final (e.eval env)).get? c.name = some c.result) ∧
      ∀ before name value after error left, e.postorder = before ++ value.postorder ++ .assign name value :: after →
        value.eval (env.commit (commits.take (assignmentsAmong before).length)) = .error error left →
        commits.map Commit.toAssignment <+: assignmentsAmong (before ++ value.postorder) := by
  obtain ⟨commits, made⟩ := e.exists_committed_eval env
  refine ⟨e.boundBy_events, commits, made.segment, made.all, ?_, made.stored, made.accounted, ?_, ?_, ?_⟩
  · intro error failed
    obtain ⟨earlier, event, failure, own, _⟩ := (e.leadTo_eval env).2 error failed
    exact ⟨earlier, event, failure, own, made.named.trans (Event.boundBy_tried_of_firstFailure failure)⟩
  · intro name others
    rw [made.stored]
    exact Environment.get?_commit_of_forall_ne others
  · rintro earlier c later rfl last
    rw [made.stored]
    exact Environment.get?_commit_of_last last
  · intro before name value after error left split failed
    exact made.segment_of_error split failed

example : EvalM.final ((Expr.call "log" [.assign "x" (.number (.zero true)), .var "y"]).eval ⟨[]⟩) =
    ⟨[("x", .zero true)]⟩ := rfl

end Calculator
