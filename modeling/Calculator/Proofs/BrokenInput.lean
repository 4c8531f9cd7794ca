import Calculator.Proofs.Framing
import Calculator.Proofs.Reading

/-! # Inputs that fail

An input may stop delivering in the middle of a line. That line is lost, and nothing else is: the run is the run over
the lines in front of it, prompts included, and the failure is met only where that run meets the end of its input. In a
file the failure is then reported, and the stream that runs the file goes on.
-/

namespace Calculator

namespace Input

/-- The bytes up to the last line feed, that one included. -/
def closed (bytes : List UInt8) : List UInt8 := (bytes.reverse.dropWhile (· ≠ lineFeed)).reverse

theorem exists_closed_append (bytes : List UInt8) :
    ∃ last, closed bytes ++ last = bytes ∧ lineFeed ∉ last ∧ IsWhole (closed bytes) := by
  obtain ⟨last, split, unfinished, ends⟩ := exists_trimmed_append (· ≠ lineFeed) bytes
  refine ⟨last, split, fun member => by simpa using unfinished lineFeed member, ?_⟩
  cases final : (closed bytes).getLast? with
  | none => exact .inl (List.getLast?_eq_none_iff.mp final)
  | some b =>
    have feed : b = lineFeed := by simpa using ends b final
    exact .inr (by rw [final, feed])

theorem isWhole_closed (bytes : List UInt8) : IsWhole (closed bytes) := by
  obtain ⟨_, _, _, whole⟩ := exists_closed_append bytes
  exact whole

theorem script_of_failing (bytes : List UInt8) (error : StreamError) :
    script ⟨bytes, some error⟩ = (ofBytes (closed bytes)).script := by
  obtain ⟨last, split, unfinished, whole⟩ := exists_closed_append bytes
  have lost : script ⟨last, some error⟩ = [] := by simp [script, lines, splitLines_of_not_mem unfinished]
  calc script ⟨bytes, some error⟩
      = script ⟨closed bytes ++ last, some error⟩ := by rw [split]
    _ = script ⟨closed bytes, some error⟩ := by rw [script_append whole, lost, List.append_nil]
    _ = (ofBytes (closed bytes)).script := by rw [script_of_isWhole whole, ofBytes, script_of_isWhole whole]

end Input

namespace Session

open Act Plan

variable {files : FileMap} {once interactive : Bool} {depth : Nat}

theorem plan_of_failing (shallow : depth ≤ maxDepth) (bytes : List UInt8) (error : StreamError) :
    plan files once interactive depth ⟨bytes, some error⟩ =
      plan files once interactive depth (.ofBytes (Input.closed bytes)) ++
        if Script.runsOut (interactive && once) (Input.ofBytes (Input.closed bytes)).script then [.fail error]
        else [] := by
  rw [plan_of_le shallow, plan_of_le shallow, Input.script_of_failing]
  split <;> simp [Input.ofBytes]

/-- A run over an input that fails is the run over its lines and then the failure. The channels may be of any size: one
    that is full stops both runs at the same write. -/
theorem process_of_failing (files : FileMap) (interactive : Bool) (shallow : depth ≤ maxDepth) (bytes : List UInt8)
    (error : StreamError) (s : Session) :
    process files interactive depth ⟨bytes, some error⟩ s =
      match process files interactive depth (.ofBytes (Input.closed bytes)) s with
      | .ok _ t =>
        finish (if Script.runsOut (interactive && s.once) (Input.ofBytes (Input.closed bytes)).script then some error
          else none) t
      | .error e t => .error e t := by
  rw [process_eq_perform, process_eq_perform, plan_of_failing shallow, perform_append]
  cases perform (plan files s.once interactive depth (.ofBytes (Input.closed bytes))) s with
  | error e t => rfl
  | ok _ t => cases Script.runsOut (interactive && s.once) (Input.ofBytes (Input.closed bytes)).script <;> rfl

/-- A file that fails is run like its whole lines, and if their end is reached, the failure is reported. -/
theorem source_of_failing (files : FileMap) (shallow : depth ≤ maxDepth) (bytes : List UInt8) (error : StreamError)
    (s : Session) :
    source (process files false depth) ⟨bytes, some error⟩ s =
      (do
        source (process files false depth) (.ofBytes (Input.closed bytes))
        if Script.runsOut false (Input.ofBytes (Input.closed bytes)).script then report error.message) s := by
  have lines : Performs s.once (source (process files false depth) (.ofBytes (Input.closed bytes)))
      ((plan files s.once false depth (.ofBytes (Input.closed bytes))).map caught) () :=
    (performs_process false depth _).source (closing_plan depth _)
  rw [source_eq_perform, plan_of_failing shallow, List.map_append, Bool.false_and]
  cases Script.runsOut false (Input.ofBytes (Input.closed bytes)).script with
  | true => exact ((lines.bind (performs_act (.report error.message))).eq_perform rfl).symm
  | false => exact ((lines.bind performs_pure).eq_perform rfl).symm

/-- An input that fails behind some bytes is run like the whole lines among them: the two runs leave the same session,
    with the same variables and the same bytes written. The failure is returned if the run over the lines gets to their
    end, and not if it stops before, at a line that leaves the stream or behind the first line if one is enough. -/
theorem process_broken (files : FileMap) (interactive : Bool) {depth : Nat} (shallow : depth ≤ maxDepth)
    (bytes : List UInt8) (error : StreamError) (s : Session) :
    ∃ t : Session,
      process files interactive depth (.ofBytes (Input.closed bytes)) s.unlimited = .ok () t ∧
      process files interactive depth ⟨bytes, some error⟩ s.unlimited =
        (if Script.runsOut (interactive && s.once) (Input.ofBytes (Input.closed bytes)).script then .error error t
          else .ok () t) ∧
      (Script.runsOut (interactive && s.once) (Input.ofBytes (Input.closed bytes)).script = false ↔
        .command .exit ∈ (Input.ofBytes (Input.closed bytes)).script ∨
          (interactive = true ∧ s.once = true ∧ Input.closed bytes ≠ [])) := by
  have run := process_ofBytes_unlimited files interactive depth (Input.closed bytes) s
  have same : s.unlimited.once = s.once := rfl
  refine ⟨_, run, ?_, ?_⟩
  · rw [process_of_failing files interactive shallow, run, same]
    cases Script.runsOut (interactive && s.once) (Input.ofBytes (Input.closed bytes)).script <;> rfl
  · have empty : (Input.ofBytes (Input.closed bytes)).script = [] ↔ Input.closed bytes = [] :=
      Input.script_eq_nil_iff (Input.isWhole_closed bytes) none
    rw [Script.runsOut_eq_false_iff, Ne, empty, Bool.and_eq_true, and_assoc]

theorem process_broken_unfinished :
    128 ≤ maxDepth ∧
    (Input.closed (Utf8.encode "x\n1") = Utf8.encode "x\n" ∧
      ∃ t : Session,
        process (fun _ => none) true 128 (.ofBytes (Utf8.encode "x\n")) (start false .unbounded .unbounded) = .ok () t ∧
        process (fun _ => none) true 128 ⟨Utf8.encode "x\n1", some .inputBroken⟩ (start false .unbounded .unbounded) =
          .error .inputBroken t) ∧
    Input.closed (Utf8.encode ":e\r\n1") = Utf8.encode ":e\r\n" ∧
      ∃ t : Session,
        process (fun _ => none) true 128 (.ofBytes (Utf8.encode ":e\r\n")) (start false .unbounded .unbounded) =
          .ok () t ∧
        process (fun _ => none) true 128 ⟨Utf8.encode ":e\r\n1", some .inputBroken⟩
            (start false .unbounded .unbounded) = .ok () t := by
  have deepest : 128 ≤ maxDepth := Nat.le_refl 128
  have first : Input.closed (Utf8.encode "x\n1") = Utf8.encode "x\n" := by decide
  have second : Input.closed (Utf8.encode ":e\r\n1") = Utf8.encode ":e\r\n" := by decide
  have reached : Script.runsOut (true && false) (Input.ofBytes (Utf8.encode "x\n")).script = true := by decide
  have left : Script.runsOut (true && false) (Input.ofBytes (Utf8.encode ":e\r\n")).script = false := by decide
  let fresh := start false .unbounded .unbounded
  have several : fresh.once = false := rfl
  obtain ⟨t, whole, broken, _⟩ := process_broken (fun _ => none) true deepest (Utf8.encode "x\n1") .inputBroken fresh
  obtain ⟨u, whole', broken', _⟩ :=
    process_broken (fun _ => none) true deepest (Utf8.encode ":e\r\n1") .inputBroken fresh
  rw [first] at whole broken
  rw [several, reached, if_pos rfl] at broken
  rw [second] at whole' broken'
  rw [several, left, if_neg Bool.false_ne_true] at broken'
  exact ⟨deepest, ⟨first, t, whole, broken⟩, second, u, whole', broken'⟩

end Session

end Calculator
