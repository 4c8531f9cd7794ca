import Calculator.Proofs.AnswerLine
import Calculator.Proofs.Composition
import Calculator.Proofs.Decoding
import Calculator.Proofs.RoundTrip

/-! # The transcript of an interactive stream

What an interactive stream shows is a prompt for each line that it reads, and behind it the reply to the line: the value
of an expression in the variables at hand, or the usage text. One more prompt stands at the end of the input. Files that
a line runs add nothing, but later replies are given in the variables that they leave.
-/

namespace Calculator

/-- What an interactive stream shows for a line. -/
def Line.reply (env : Environment) : Line → String
  | .expression text =>
    match calculate (answerName ++ " = " ++ text) env with
    | .ok value _ => "Ans: " ++ value.generalText ++ "\n"
    | .error _ _ => ""
  | .command .help => helpText
  | .blank | .malformed _ | .command .exit | .command (.file _) | .command (.unknown _) => ""

namespace Session

/-- The variables behind a line of a stream at a depth. -/
def behind (files : FileMap) (depth : Nat) (env : Environment) (line : Line) : Environment :=
  match handleLine files (process files false (depth + 1)) true line ⟨env, false, .unbounded, .unbounded⟩ with
  | .ok _ t | .error _ t => t.env

/-- Prompts and replies for lines, one after the other. -/
def transcript (files : FileMap) (depth : Nat) : Environment → List Line → String
  | _, [] => ""
  | env, line :: rest => prompt ++ line.reply env ++ transcript files depth (behind files depth env line) rest

end Session

theorem Act.out_total_eq_nil {acts : List Act} (quiet : ∀ act ∈ acts, act.Suits false none) (env : Environment) :
    (total acts env).out = [] := by
  have silenced := total_filterMap_muted acts env
  rw [filterMap_muted_of_suits quiet] at silenced
  exact congrArg Effect.out silenced

namespace Plan

variable {files : FileMap} {run : Input → List Act}

theorem within_once (once : Bool) (levels : Nat) (input : Input) :
    within files once levels false input = within files false levels false input := by
  induction levels generalizing input with
  | zero => rfl
  | succ levels ih =>
    have inner : within files once levels false = within files false levels false := funext ih
    rw [within, within, ofLines_eq, ofLines_eq, inner, Bool.false_and, Bool.false_and]

theorem out_total_ofLine (closing : ∀ input, Act.Closing (run input)) (line : Line) (env : Environment) :
    (Act.total (ofLine files run true line) env).out = Utf8.encode (line.reply env) := by
  match line with
  | .blank | .command .exit | .command (.unknown _) => rfl
  | .malformed error => exact congrArg Effect.out Act.total_singleton
  | .command .help =>
    unfold ofLine Line.reply
    generalize helpText = text
    exact congrArg Effect.out Act.total_singleton
  | .command (.file paths) =>
    apply Act.out_total_eq_nil
    intro act member
    obtain ⟨path, _, member⟩ := List.mem_flatMap.mp member
    exact suits_ofPath closing act member
  | .expression text =>
    have answer : answerName ++ ": " = "Ans: " := by decide
    unfold ofLine Line.reply
    dsimp only
    rw [Act.total_singleton, Act.effect]
    cases calculate (answerName ++ " = " ++ text) env with
    | error => rfl
    | ok value after => simp [answerLine, answer]

theorem total_ending (interactive : Bool) (failure : Option StreamError) (env : Environment) :
    Act.total (prompts interactive ++ failure.toList.map .fail) env =
      ⟨env, if interactive then Utf8.encode prompt else [], [], failure⟩ := by
  rw [Act.total_append (by rw [total_prompts]), total_prompts]
  cases failure with
  | none => simp [Act.total, Effect.andThen, Effect.idle]
  | some error => simp [Act.total_singleton, Effect.andThen, Act.effect]

end Plan

namespace Session

open Act Plan

variable {files : FileMap} {depth : Nat}

theorem behind_eq (once : Bool) (env : Environment) (line : Line) :
    behind files depth env line = (total (ofLine files (plan files once false (depth + 1)) true line) env).env := by
  have same : plan files once false (depth + 1) = plan files false false (depth + 1) :=
    funext (within_once once (maxDepth + 1 - (depth + 1)))
  have handled :
      handleLine files (process files false (depth + 1)) true line ⟨env, false, .unbounded, .unbounded⟩ = _ :=
    handleLine_unlimited files true (depth + 1) line ⟨env, false, .unbounded, .unbounded⟩
  rw [same, behind, handled]
  rfl

/-- What the lines of an interactive stream do: their transcript is shown, and the variables change line by line. -/
theorem total_lines (once : Bool) (lines : List Line) (env : Environment) :
    ∃ err, total (lines.flatMap fun line =>
        prompts true ++ ofLine files (plan files once false (depth + 1)) true line) env =
      ⟨lines.foldl (behind files depth) env, Utf8.encode (transcript files depth env lines), err, none⟩ := by
  induction lines generalizing env with
  | nil => exact ⟨[], rfl⟩
  | cons line rest ih =>
    let acts := ofLine files (plan files once false (depth + 1)) true line
    have lasting : (total acts env).failure = none :=
      failure_total_eq_none (suits_ofLine (closing_plan (depth + 1))) env
    have out : (total acts env).out = Utf8.encode (line.reply env) :=
      out_total_ofLine (closing_plan (depth + 1)) line env
    have prompted : total (prompts true ++ acts) env =
        ⟨behind files depth env line, Utf8.encode prompt ++ Utf8.encode (line.reply env), (total acts env).err,
          none⟩ := by
      rw [total_append (by rw [total_prompts]), total_prompts, behind_eq once]
      simp [Effect.andThen, out, lasting, acts]
    obtain ⟨err, rested⟩ := ih (behind files depth env line)
    refine ⟨(total acts env).err ++ err, ?_⟩
    rw [List.flatMap_cons, total_append (by rw [prompted]), prompted, rested]
    simp [Effect.andThen, transcript, Utf8.encode_append]

theorem plan_once (shallow : depth ≤ maxDepth) {input : Input} {line : Line} {rest : List Line}
    (script : input.script = line :: rest) :
    plan files true true depth input = prompts true ++ ofLine files (plan files true false (depth + 1)) true line := by
  have single : (true && true) = true := rfl
  rw [plan_of_le shallow, script, single, Script.taken_cons_of_stop (.inr rfl), Script.runsOut_cons_of_stop (.inr rfl)]
  simp

/-- With the flag, the first line is all that is handled. -/
theorem process_once (files : FileMap) (shallow : depth ≤ maxDepth) {input : Input} {line : Line} {rest : List Line}
    (script : input.script = line :: rest) {s : Session} (once : s.once = true) :
    process files true depth input s =
      (do
        writeOut prompt
        let _ ← handleLine files (process files false (depth + 1)) true line
        pure ()) s := by
  have prompting : Performs true (writeOut prompt) (prompts true) () := performs_act (.print prompt)
  have handling : Performs true (handleLine files (process files false (depth + 1)) true line >>= fun _ => pure ())
      (ofLine files (plan files true false (depth + 1)) true line) () :=
    (performs_line files true true (depth + 1) line).returning
  have performs : Performs true (writeOut prompt >>= fun _ =>
      handleLine files (process files false (depth + 1)) true line >>= fun _ => pure ()) _ () := prompting.bind handling
  rw [process_eq_perform, once, plan_once shallow script]
  exact (performs.eq_perform once).symm

theorem exists_script_eq_cons (first : List UInt8) :
    ∃ line, ∀ more failure, ∃ rest, Input.script ⟨first ++ [Input.lineFeed] ++ more, failure⟩ = line :: rest := by
  have whole := Input.isWhole_append_lineFeed first
  cases script : (Input.ofBytes (first ++ [Input.lineFeed])).script with
  | nil =>
    rw [Input.ofBytes, Input.script_of_isWhole whole, Input.splitLines_append_lineFeed] at script
    simp at script
  | cons line rest =>
    refine ⟨line, fun more failure => ⟨rest ++ Input.script ⟨more, failure⟩, ?_⟩⟩
    rw [Input.script_ofBytes_append whole, script, List.cons_append]

theorem get?_answerName_of_calculate {text : String} {env after : Environment} {value : Binary64}
    (calculated : calculate (answerName ++ " = " ++ text) env = .ok value after) :
    after.get? answerName = some value := by
  have name : isName answerName = true := by decide
  unfold calculate at calculated
  rw [Expr.parse_assign name] at calculated
  cases parsed : Expr.parse text with
  | error error => simp [parsed, Except.map] at calculated
  | ok e =>
    simp only [parsed, Except.map, Expr.eval_assign] at calculated
    cases evaluated : e.eval env with
    | error error after => simp [evaluated] at calculated
    | ok result after =>
      simp only [evaluated, EStateM.Result.ok.injEq] at calculated
      obtain ⟨rfl, rfl⟩ := calculated
      simp

theorem total_plan_interactive (shallow : depth ≤ maxDepth) (once : Bool) (input : Input) (env : Environment) :
    ∃ err, total (plan files once true depth input) env =
      ⟨(Script.taken once input.script).foldl (behind files depth) env,
        Utf8.encode (transcript files depth env (Script.taken once input.script)) ++
          (if Script.runsOut once input.script then Utf8.encode prompt else []),
        err, if Script.runsOut once input.script then input.failure else none⟩ := by
  obtain ⟨err, shown⟩ := total_lines once (Script.taken once input.script) env
  refine ⟨err, ?_⟩
  rw [plan_of_le shallow, Bool.true_and, total_append (by rw [shown]), shown]
  split
  · simp [total_ending, Effect.andThen]
  · simp [total, Effect.andThen, Effect.idle]

/-- An interactive stream shows the transcript of the lines that it reads, and one more prompt if it gets to the end of
    its input. An expression leaves its value as the answer. If the stream is to stop after one line, its first line is
    handled, whatever it is, and nothing behind that line matters. -/
theorem process_transcript (files : FileMap) {depth : Nat} (shallow : depth ≤ maxDepth) (input : Input) (s : Session) :
    (∃ t : Session, process files true depth input s.unlimited =
        finish (if Script.runsOut s.once input.script then input.failure else none) t ∧
      t.out.written = s.out.written ++ Utf8.encode (transcript files depth s.env (Script.taken s.once input.script)) ++
        (if Script.runsOut s.once input.script then Utf8.encode prompt else []) ∧
      t.env = (Script.taken s.once input.script).foldl (behind files depth) s.env) ∧
    (∀ text env value after, calculate (answerName ++ " = " ++ text) env = .ok value after →
      behind files depth env (.expression text) = after ∧ after.get? answerName = some value) ∧
    ∀ t : Session, t.once = true →
      (∀ line rest, input.script = line :: rest →
        process files true depth input t =
          (do
            writeOut prompt
            let _ ← handleLine files (process files false (depth + 1)) true line
            pure ()) t) ∧
      ∀ first more more' failure failure',
        process files true depth ⟨first ++ [Input.lineFeed] ++ more, failure⟩ t =
          process files true depth ⟨first ++ [Input.lineFeed] ++ more', failure'⟩ t := by
  refine ⟨?_, ?_, fun t once => ⟨fun line rest script => process_once files shallow script once, ?_⟩⟩
  · obtain ⟨err, shown⟩ := total_plan_interactive shallow s.once input s.env
    refine ⟨_, by rw [process_eq_total, shown], ?_, rfl⟩
    rw [(written_after_unlimited _ s).1, List.append_assoc]
  · intro text env value after calculated
    refine ⟨?_, get?_answerName_of_calculate calculated⟩
    rw [behind_eq false, ofLine, total_singleton, effect, calculated]
  · intro first more more' failure failure'
    obtain ⟨line, script⟩ := exists_script_eq_cons first
    obtain ⟨rest, scriptMore⟩ := script more failure
    obtain ⟨rest', scriptMore'⟩ := script more' failure'
    rw [process_once files shallow scriptMore once, process_once files shallow scriptMore' once]

theorem process_transcript_answer :
    128 ≤ maxDepth ∧
    (∃ t : Session, process .leaving true 128 (.ofBytes (Utf8.encode "Ans\n:h")) (start false .unbounded .unbounded) =
        .ok () t ∧
      t.out.written = Utf8.encode (transcript .leaving 128 .initial [.expression "Ans", .command .help]) ++
        Utf8.encode "> ") ∧
    (calculate (answerName ++ " = " ++ "Ans") .initial = .ok (.zero false) .initial ∧
      behind .leaving 128 .initial (.expression "Ans") = .initial ∧
      Environment.initial.get? answerName = some (.zero false)) ∧
    process .leaving true 128 ⟨Utf8.encode "Ans\n1\n", none⟩ (start true .unbounded .unbounded) =
      process .leaving true 128 ⟨Utf8.encode "Ans\n2", some .inputBroken⟩ (start true .unbounded .unbounded) := by
  have deepest : 128 ≤ maxDepth := Nat.le_refl 128
  have parsed : Expr.parse "Ans" = .ok (.var "Ans") := Expr.parse_text_eq (e := .var "Ans") (by decide)
  have calculated : calculate (answerName ++ " = " ++ "Ans") .initial = .ok (.zero false) .initial := by
    unfold calculate
    rw [Expr.parse_assign (by decide), parsed]
    rfl
  have script : (Input.ofBytes (Utf8.encode "Ans\n:h")).script = [.expression "Ans", .command .help] := by decide
  have taken : Script.taken false [.expression "Ans", .command .help] = [.expression "Ans", .command .help] := by decide
  have ends : Script.runsOut false [.expression "Ans", .command .help] = true := by decide
  have first : Utf8.encode "Ans\n1\n" = Utf8.encode "Ans" ++ [Input.lineFeed] ++ Utf8.encode "1\n" := by decide
  have second : Utf8.encode "Ans\n2" = Utf8.encode "Ans" ++ [Input.lineFeed] ++ Utf8.encode "2" := by decide
  obtain ⟨⟨t, run, out, _⟩, answer, once⟩ :=
    process_transcript .leaving deepest (.ofBytes (Utf8.encode "Ans\n:h")) (start false .unbounded .unbounded)
  have several : (start false .unbounded .unbounded).once = false := rfl
  have nothing : (start false .unbounded .unbounded).out.written = [] := rfl
  rw [script, several, ends] at run
  rw [script, several, taken, ends, nothing, List.nil_append, if_pos rfl] at out
  refine ⟨deepest, ⟨t, run, out⟩, ⟨calculated, answer _ _ _ _ calculated⟩, ?_⟩
  rw [first, second]
  exact (once (start true .unbounded .unbounded) rfl).2 (Utf8.encode "Ans") (Utf8.encode "1\n") (Utf8.encode "2") none
    (some .inputBroken)

end Session

end Calculator
