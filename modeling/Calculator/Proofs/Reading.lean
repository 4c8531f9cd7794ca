import Calculator.Proofs.Interaction

/-! # Which lines are read

A stream is read up to a line that leaves it or, if it is to stop after one line, up to its first line. What it does is
what these lines ask for, one after the other. Only a stream that gets past all of its lines meets the end of its input.
-/

namespace Calculator

namespace Script

/-- The lines that are read, the one that leaves the stream among them. -/
def taken (single : Bool) : List Line → List Line
  | [] => []
  | line :: rest => line :: if line = .command .exit ∨ single then [] else taken single rest

/-- Whether the end of the input is reached. -/
def runsOut (single : Bool) (lines : List Line) : Bool :=
  lines.isEmpty || (!single && !lines.contains (.command .exit))

variable {single : Bool} {line : Line} {first lines : List Line}

@[simp]
theorem taken_nil : taken single [] = [] := rfl

@[simp]
theorem runsOut_nil : runsOut single [] = true := rfl

theorem runsOut_false : runsOut false lines = !lines.contains (.command .exit) := by
  cases lines <;> simp [runsOut]

theorem runsOut_eq_false_iff :
    runsOut single lines = false ↔ .command .exit ∈ lines ∨ (single = true ∧ lines ≠ []) := by
  cases single with
  | false =>
    rw [runsOut_false, Bool.not_eq_false', List.contains_iff_mem]
    simp
  | true => cases lines <;> simp [runsOut]

theorem taken_cons_of_stop (stop : line = .command .exit ∨ single = true) : taken single (line :: lines) = [line] := by
  rw [taken, if_pos stop]

theorem runsOut_cons_of_stop (stop : line = .command .exit ∨ single = true) :
    runsOut single (line :: lines) = false := by
  rcases stop with rfl | rfl <;> simp [runsOut]

theorem taken_cons_of_stay (stay : ¬ (line = .command .exit ∨ single = true)) :
    taken single (line :: lines) = line :: taken single lines := by
  rw [taken, if_neg stay]

theorem runsOut_cons_of_stay (stay : ¬ (line = .command .exit ∨ single = true)) :
    runsOut single (line :: lines) = runsOut single lines := by
  obtain ⟨other, several⟩ := not_or.mp stay
  rw [Bool.not_eq_true] at several
  subst several
  simp [runsOut_false, Ne.symm other]

theorem taken_append_of_staying (staying : .command .exit ∉ first) (lines : List Line) :
    taken false (first ++ lines) = first ++ taken false lines := by
  induction first with
  | nil => rfl
  | cons line first ih =>
    rw [List.mem_cons, not_or] at staying
    have stay : ¬ (line = .command .exit ∨ false = true) := by simp [Ne.symm staying.1]
    rw [List.cons_append, taken_cons_of_stay stay, ih staying.2, List.cons_append]

theorem runsOut_append_of_staying (staying : .command .exit ∉ first) (lines : List Line) :
    runsOut false (first ++ lines) = runsOut false lines := by
  simp [runsOut_false, staying]

theorem taken_append_of_exit (exits : .command .exit ∈ first) (lines : List Line) :
    taken single (first ++ lines) = taken single first := by
  induction first with
  | nil => cases exits
  | cons line first ih =>
    by_cases stop : line = .command .exit ∨ single = true
    · rw [List.cons_append, taken_cons_of_stop stop, taken_cons_of_stop stop]
    · have later : .command .exit ∈ first := (List.mem_cons.mp exits).resolve_left fun h => stop (.inl h.symm)
      rw [List.cons_append, taken_cons_of_stay stop, taken_cons_of_stay stop, ih later]

theorem mem_of_mem_taken (member : line ∈ taken single lines) : line ∈ lines := by
  induction lines with
  | nil => exact member
  | cons first rest ih =>
    rcases List.mem_cons.mp member with rfl | member
    · exact List.mem_cons_self
    · exact List.mem_cons_of_mem _ (ih (List.mem_ite_nil_left.mp member).2)

theorem runsOut_of_exit (exits : .command .exit ∈ lines) : runsOut single lines = false := by
  have some : lines ≠ [] := List.ne_nil_of_mem exits
  simp [runsOut, some, exits]

end Script

namespace Plan

variable {files : FileMap} {interactive once : Bool}

/-- A plan is made of the lines that are read, each behind its prompt, and of the end of the input if it is reached. -/
theorem ofLines_eq (handle : Line → List Act) (failure : Option StreamError) (lines : List Line) :
    ofLines handle interactive once failure lines =
      (Script.taken (interactive && once) lines).flatMap (fun line => prompts interactive ++ handle line) ++
        if Script.runsOut (interactive && once) lines then prompts interactive ++ failure.toList.map .fail else [] := by
  induction lines with
  | nil => simp [ofLines]
  | cons line rest ih =>
    have stops : (line = .command .exit ∨ (interactive = true ∧ once = true)) ↔
        (line = .command .exit ∨ (interactive && once) = true) := by rw [Bool.and_eq_true]
    rw [ofLines, ih]
    by_cases stop : line = .command .exit ∨ (interactive && once) = true
    · rw [if_pos (stops.mpr stop), Script.taken_cons_of_stop stop, Script.runsOut_cons_of_stop stop]
      simp
    · rw [if_neg (mt stops.mp stop), Script.taken_cons_of_stay stop, Script.runsOut_cons_of_stay stop]
      simp

theorem total_prompts (env : Environment) :
    Act.total (prompts interactive) env = ⟨env, if interactive then Utf8.encode prompt else [], [], none⟩ := by
  cases interactive with
  | false => rfl
  | true => exact Act.total_singleton

end Plan

theorem Act.failure_total_eq_none {acts : List Act} {interactive : Bool}
    (suits : ∀ act ∈ acts, act.Suits interactive none) (env : Environment) : (total acts env).failure = none := by
  induction acts generalizing env with
  | nil => rfl
  | cons act rest ih =>
    rw [total_cons_of_none (suits act List.mem_cons_self).failure_eq_none]
    exact ih (fun act member => suits act (List.mem_cons_of_mem _ member)) _

namespace Session

theorem plan_of_le {files : FileMap} {once interactive : Bool} {depth : Nat} (shallow : depth ≤ maxDepth)
    (input : Input) :
    plan files once interactive depth input =
      (Script.taken (interactive && once) input.script).flatMap (fun line =>
          Plan.prompts interactive ++ Plan.ofLine files (plan files once false (depth + 1)) interactive line) ++
        if Script.runsOut (interactive && once) input.script then
          Plan.prompts interactive ++ input.failure.toList.map .fail
        else [] := by
  have levels : maxDepth + 1 - depth = (maxDepth + 1 - (depth + 1)) + 1 := by omega
  unfold plan
  rw [levels, Plan.within, Plan.ofLines_eq]

/-- As long as the channels take it, a run does what its plan does in total. -/
theorem process_eq_total (files : FileMap) (interactive : Bool) (depth : Nat) (input : Input) (s : Session) :
    process files interactive depth input s.unlimited =
      finish (Act.total (plan files s.once interactive depth input) s.env).failure
        ((Act.total (plan files s.once interactive depth input) s.env).after s.unlimited) :=
  (process_eq_perform ..).trans (perform_unlimited _ s)

theorem performs_line (files : FileMap) (once interactive : Bool) (depth : Nat) (line : Line) :
    Performs once (handleLine files (process files false depth) interactive line)
      (Plan.ofLine files (plan files once false depth) interactive line) (flow line) :=
  performs_handleLine (performs_process false depth) (closing_plan depth) line

theorem perform_unlimited_of_suits {acts : List Act} {interactive : Bool}
    (suits : ∀ act ∈ acts, act.Suits interactive none) (s : Session) :
    perform acts s.unlimited = .ok () ((Act.total acts s.env).after s.unlimited) := by
  rw [perform_unlimited, Act.failure_total_eq_none suits]
  rfl

theorem process_ofBytes_unlimited (files : FileMap) (interactive : Bool) (depth : Nat) (bytes : List UInt8)
    (s : Session) :
    process files interactive depth (.ofBytes bytes) s.unlimited =
      .ok () ((Act.total (plan files s.once interactive depth (.ofBytes bytes)) s.env).after s.unlimited) :=
  (process_eq_perform ..).trans (perform_unlimited_of_suits suits_plan s)

/-- A line always gets handled as long as the channels take what it writes. Only what the line says decides whether the
    stream goes on. -/
theorem handleLine_unlimited (files : FileMap) (interactive : Bool) (depth : Nat) (line : Line) (s : Session) :
    handleLine files (process files false depth) interactive line s.unlimited =
      .ok (flow line)
        ((Act.total (Plan.ofLine files (plan files s.once false depth) interactive line) s.env).after s.unlimited) := by
  have suits : ∀ act ∈ Plan.ofLine files (plan files s.once false depth) interactive line, act.Suits interactive none :=
    Plan.suits_ofLine (closing_plan depth)
  rw [performs_line files s.once interactive depth line s.unlimited rfl, perform_unlimited_of_suits suits]

/-- Handle a line behind its prompt. -/
def handlePrompted (files : FileMap) (interactive : Bool) (depth : Nat) (line : Line) : SessionM Unit := do
  if interactive then writeOut prompt
  let _ ← handleLine files (process files false (depth + 1)) interactive line
  pure ()

/-- Meet the end of the input behind a prompt. -/
def meetEnd (interactive : Bool) (failure : Option StreamError) : SessionM Unit := do
  if interactive then writeOut prompt
  failure.forM throw

/-- A stream handles the lines that are read, one after the other, and meets the end of its input if it gets there. -/
theorem process_eq_taken (files : FileMap) (interactive : Bool) {depth : Nat} (shallow : depth ≤ maxDepth)
    (input : Input) (s : Session) :
    process files interactive depth input s =
      (do
        (Script.taken (interactive && s.once) input.script).forM (handlePrompted files interactive depth)
        if Script.runsOut (interactive && s.once) input.script then meetEnd interactive input.failure) s := by
  have handled (line : Line) : Performs s.once (handlePrompted files interactive depth line)
      (Plan.prompts interactive ++ Plan.ofLine files (plan files s.once false (depth + 1)) interactive line) () := by
    unfold handlePrompted
    apply (performs_act (.print prompt)).whenever
    exact (performs_line files s.once interactive (depth + 1) line).returning
  have met : Performs s.once (meetEnd interactive input.failure)
      (Plan.prompts interactive ++ input.failure.toList.map .fail) () := by
    unfold meetEnd
    apply (performs_act (.print prompt)).whenever
    cases input.failure with
    | none => exact performs_pure
    | some error => exact performs_throw error
  have ended : Performs s.once
      (if Script.runsOut (interactive && s.once) input.script then meetEnd interactive input.failure else pure ())
      (if Script.runsOut (interactive && s.once) input.script then
        Plan.prompts interactive ++ input.failure.toList.map .fail
      else []) () := by
    split
    · exact met
    · exact performs_pure
  rw [process_eq_perform, plan_of_le shallow]
  exact (((performs_forM handled _).bind ended).eq_perform rfl).symm

end Session

end Calculator
