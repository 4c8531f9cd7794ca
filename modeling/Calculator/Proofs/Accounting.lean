import Calculator.Proofs.Message
import Calculator.Proofs.Reading
import Calculator.Proofs.Wording

/-! # What the error channel tells

Three things that a session is asked for can fail: to evaluate a line, to split a command into its terms, and to open a
file. A file that is open can fail too, while it is read. Each failure is reported by a line of its own, in the order of
the run and at whatever depth, and nothing else is written to the error channel.
-/

namespace Calculator

/-- Something that a session is asked for and that may fail. -/
inductive Item where
  /-- Evaluate an expression. -/
  | expression (text : String)
  /-- Carry out a command with a quote left open. -/
  | unclosed (error : CommandError)
  /-- Run a file that cannot be opened. -/
  | unopened (path : String)
  /-- Read on in a file that breaks off. Files that can be read have no such item. -/
  | broken (error : StreamError)
  deriving DecidableEq, Repr

namespace Item

/-- The items of a line; `inner` gives those of a file that the line runs. -/
def ofLine (files : FileMap) (inner : Input → List Item) : Line → List Item
  | .expression text => [expression text]
  | .malformed error => [unclosed error]
  | .command (.file paths) => paths.flatMap fun path => (files path).elim [unopened path] inner
  | .blank | .command .exit | .command .help | .command (.unknown _) => []

/-- The items of a stream in the order of its run, those of files included, with so many levels of files left. -/
def executed (files : FileMap) : Nat → Bool → Input → List Item
  | 0, _, _ => []
  | levels + 1, single, input =>
    (Script.taken single input.script).flatMap (ofLine files (executed files levels false)) ++
      if Script.runsOut single input.script then input.failure.toList.map broken else []

/-- The error of an item, if it fails, and the variables behind it. -/
def outcome : Item → Environment → Option String × Environment
  | expression text, env =>
    match calculate (answerName ++ " = " ++ text) env with
    | .ok _ after => (none, after)
    | .error error after => (some error.message, after)
  | unclosed error, env => (some error.message, env)
  | unopened path, env => (some ("Cannot open file " ++ path), env)
  | broken error, env => (some error.message, env)

/-- The errors of the items that fail, in order. -/
def failures : List Item → Environment → List String
  | [], _ => []
  | item :: rest, env => (item.outcome env).1.toList ++ failures rest (item.outcome env).2

/-- The act of a silent stream for an item. -/
def act : Item → Act
  | expression text => .evaluate false text
  | unclosed error => .report error.message
  | unopened path => .report ("Cannot open file " ++ path)
  | broken error => .report error.message

theorem effect_act (item : Item) (env : Environment) :
    item.act.effect env =
      ⟨(item.outcome env).2, [], (item.outcome env).1.toList.flatMap fun message => Utf8.encode (errorLine message),
        none⟩ := by
  unfold outcome
  cases item with
  | unclosed | unopened | broken =>
    rw [Option.toList_some, List.flatMap_singleton]
    rfl
  | expression text =>
    unfold act Act.effect
    dsimp only
    cases calculate (answerName ++ " = " ++ text) env <;> simp

theorem total_map_act (items : List Item) (env : Environment) :
    (Act.total (items.map act) env).failure = none ∧
      (Act.total (items.map act) env).err =
        (failures items env).flatMap fun message => Utf8.encode (errorLine message) := by
  induction items generalizing env with
  | nil => exact ⟨rfl, rfl⟩
  | cons item rest ih =>
    have lasting : (item.act.effect env).failure = none := by rw [effect_act]
    obtain ⟨lastingRest, written⟩ := ih (item.outcome env).2
    rw [List.map_cons, Act.total_cons_of_none lasting, effect_act]
    refine ⟨lastingRest, ?_⟩
    simp [Effect.andThen, failures, written]

theorem map_act_ofLine {files : FileMap} {inner : Input → List Item} {run : Input → List Act}
    (same : ∀ input, (inner input).map act = (run input).map Act.caught) (line : Line) :
    (ofLine files inner line).map act = Plan.ofLine files run false line := by
  match line with
  | .blank | .command .exit | .command .help | .command (.unknown _) | .malformed _ | .expression _ => rfl
  | .command (.file paths) =>
    have each : ∀ path, ((files path).elim [unopened path] inner).map act = Plan.ofPath files run path := by
      intro path
      unfold Plan.ofPath
      cases files path with
      | none => rfl
      | some input => exact same input
    simp only [ofLine, Plan.ofLine, List.map_flatMap, each]

/-- Without what it shows, a plan is made of items, if its failure is one of them. -/
theorem map_act_executed (files : FileMap) (once interactive : Bool) (levels : Nat) (input : Input) :
    (executed files levels (interactive && once) input).map act =
      ((Plan.within files once levels interactive input).filterMap Act.muted).map Act.caught := by
  induction levels generalizing interactive input with
  | zero => rfl
  | succ levels ih =>
    have inner (input : Input) : (executed files levels false input).map act =
        (Plan.within files once levels false input).map Act.caught := by
      have muted := ih false input
      rwa [Bool.false_and, Act.filterMap_muted_of_suits Plan.suits_within] at muted
    have closing (input : Input) : Act.Closing (Plan.within files once levels false input) :=
      Plan.closing_within levels input
    have prompted : (Plan.prompts interactive).filterMap Act.muted = [] := by cases interactive <;> rfl
    have line (line : Line) : ((Plan.prompts interactive ++
        Plan.ofLine files (Plan.within files once levels false) interactive line).filterMap Act.muted).map Act.caught =
          (ofLine files (executed files levels false) line).map act := by
      rw [List.filterMap_append, prompted, List.nil_append, Plan.filterMap_muted_ofLine closing,
        Act.map_caught_of_suits (Plan.suits_ofLine closing), map_act_ofLine inner]
    have ending : ((if Script.runsOut (interactive && once) input.script then
          Plan.prompts interactive ++ input.failure.toList.map .fail
        else []).filterMap Act.muted).map Act.caught =
          (if Script.runsOut (interactive && once) input.script then input.failure.toList.map broken else []).map
            act := by
      split
      · rw [List.filterMap_append, prompted]
        cases input.failure <;> rfl
      · rfl
    rw [executed, Plan.within, Plan.ofLines_eq, List.filterMap_append, List.filterMap_flatMap, List.map_append,
      List.map_append, ending, List.map_flatMap, List.map_flatMap]
    simp only [line]

theorem map_act_executed_ofBytes (files : FileMap) (once interactive : Bool) (levels : Nat) (bytes : List UInt8) :
    (executed files levels (interactive && once) (.ofBytes bytes)).map act =
      (Plan.within files once levels interactive (.ofBytes bytes)).filterMap Act.muted := by
  rw [map_act_executed]
  apply Act.map_caught_of_suits
  intro act' member
  obtain ⟨act, inPlan, muted⟩ := List.mem_filterMap.mp member
  exact (Plan.suits_within act inPlan).of_muted muted

theorem isSingleLine_of_mem_executed {files : FileMap} {levels : Nat} {single : Bool} {input : Input} {path : String}
    (member : unopened path ∈ executed files levels single input) : IsSingleLine path := by
  induction levels generalizing single input with
  | zero => cases member
  | succ levels ih =>
    have inLines : unopened path ∈ (Script.taken single input.script).flatMap
        (ofLine files (executed files levels false)) := by
      refine (List.mem_append.mp member).resolve_right fun atEnd => ?_
      simp at atEnd
    obtain ⟨line, inTaken, member⟩ := List.mem_flatMap.mp inLines
    match line with
    | .blank | .command .exit | .command .help | .command (.unknown _) => cases member
    | .malformed _ | .expression _ => cases List.mem_singleton.mp member
    | .command (.file paths) =>
      obtain ⟨named, inPaths, member⟩ := List.mem_flatMap.mp member
      cases opened : files named with
      | some input =>
        rw [opened] at member
        exact ih member
      | none =>
        rw [opened] at member
        cases List.mem_singleton.mp member
        have inScript := Script.mem_of_mem_taken inTaken
        exact Input.newline_not_mem_of_mem_paths (List.mem_flatMap.mpr ⟨_, inScript, inPaths⟩)

theorem isSingleLine_of_mem_outcome {item : Item} (framed : ∀ path, item = unopened path → IsSingleLine path)
    {env : Environment} {message : String} (failed : (item.outcome env).1 = some message) : IsSingleLine message := by
  cases item with
  | expression text =>
    unfold outcome at failed
    cases calculated : calculate (answerName ++ " = " ++ text) env with
    | ok value after => simp [calculated] at failed
    | error error after =>
      simp only [calculated, Option.some.injEq] at failed
      rw [← failed]
      exact isSingleLine_of_calculate calculated
  | unclosed error =>
    cases failed
    simp [CommandError.message, IsSingleLine]
  | broken error =>
    cases failed
    cases error <;> simp [StreamError.message, IsSingleLine]
  | unopened path =>
    cases failed
    exact isSingleLine_append.mpr ⟨by simp [IsSingleLine], framed path rfl⟩

theorem isSingleLine_of_mem_failures {items : List Item} (framed : ∀ path, unopened path ∈ items → IsSingleLine path)
    {env : Environment} {message : String} (member : message ∈ failures items env) : IsSingleLine message := by
  induction items generalizing env with
  | nil => cases member
  | cons item rest ih =>
    rcases List.mem_append.mp member with now | later
    · apply isSingleLine_of_mem_outcome _ (Option.mem_toList.mp now)
      rintro path rfl
      exact framed path List.mem_cons_self
    · exact ih (fun path member => framed path (List.mem_cons_of_mem _ member)) later

end Item

theorem count_lineFeed_of_isSingleLine {text : String} (single : IsSingleLine text) :
    (Utf8.encode text).count Input.lineFeed = 0 := by
  apply List.count_eq_zero.mpr
  intro member
  exact single (Utf8.mem_toList_of_mem_encode (by decide) member)

theorem count_lineFeed_errorLine {message : String} (single : IsSingleLine message) :
    (Utf8.encode (errorLine message)).count Input.lineFeed = 1 := by
  have opening : IsSingleLine "\x1b[38;5;9mError: " := by simp [IsSingleLine]
  have closing : (Utf8.encode "\x1b[39m\n").count Input.lineFeed = 1 := by rfl
  unfold errorLine
  rw [Utf8.encode_append, Utf8.encode_append, List.count_append, List.count_append,
    count_lineFeed_of_isSingleLine opening, count_lineFeed_of_isSingleLine single, closing]

theorem count_lineFeed_errorLines {messages : List String} (single : ∀ message ∈ messages, IsSingleLine message) :
    (messages.flatMap fun message => Utf8.encode (errorLine message)).count Input.lineFeed = messages.length := by
  induction messages with
  | nil => rfl
  | cons message rest ih =>
    rw [List.flatMap_cons, List.count_append, count_lineFeed_errorLine (single message List.mem_cons_self),
      ih fun message member => single message (List.mem_cons_of_mem _ member), List.length_cons, Nat.add_comm]

/-- A stream that ends normally is run without a failure, whatever its lines hold. The error channel gets one red line
    for each item of the run that fails, in order, and nothing else; each of these lines holds a single line feed. -/
theorem Session.process_reports (files : FileMap) (interactive : Bool) (depth : Nat) (bytes : List UInt8)
    (s : Session) :
    ∃ (t : Session) (messages : List String) (reports : List UInt8),
      process files interactive depth (.ofBytes bytes) s.unlimited = .ok () t ∧
      t.err.written = s.err.written ++ reports ∧
      messages =
        Item.failures (Item.executed files (129 - depth) (interactive && s.once) (.ofBytes bytes)) s.env ∧
      reports = messages.flatMap (fun message => Utf8.encode ("\x1b[38;5;9mError: " ++ message ++ "\x1b[39m\n")) ∧
      (∀ message ∈ messages, '\n' ∉ message.toList) ∧
      reports.count Input.lineFeed = messages.length := by
  let items := Item.executed files (maxDepth + 1 - depth) (interactive && s.once) (.ofBytes bytes)
  let effect := Act.total (plan files s.once interactive depth (.ofBytes bytes)) s.env
  have hidden : Act.total (items.map Item.act) s.env = effect.hidden := by
    rw [← Act.total_filterMap_muted]
    exact congrArg (Act.total · s.env) (Item.map_act_executed_ofBytes files s.once interactive _ bytes)
  obtain ⟨lasting, written⟩ := Item.total_map_act items s.env
  rw [hidden] at lasting written
  have run : process files interactive depth (.ofBytes bytes) s.unlimited = .ok () (effect.after s.unlimited) := by
    rw [process_eq_total]
    exact congrArg (finish · (effect.after s.unlimited)) lasting
  have single : ∀ message ∈ Item.failures items s.env, IsSingleLine message := by
    intro message member
    exact Item.isSingleLine_of_mem_failures (fun _ => Item.isSingleLine_of_mem_executed) member
  refine ⟨_, Item.failures items s.env, effect.err, run, (written_after_unlimited effect s).2, rfl, written, single, ?_⟩
  rw [show effect.err = _ from written]
  exact count_lineFeed_errorLines single

end Calculator
