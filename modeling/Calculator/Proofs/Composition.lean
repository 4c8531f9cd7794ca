import Calculator.Proofs.Framing
import Calculator.Proofs.Reading

/-! # Streams one after the other

A stream of whole lines can be cut in two anywhere between its lines: running it is running the first part and then the
second, in one session. The only trace of the cut is the prompt at the end of the first part. A line that leaves the
stream makes all the difference, since nothing behind it is read; in a file that a line runs it does not count.
-/

namespace Calculator

theorem Input.script_ofBytes_append {bytes : List UInt8} (whole : IsWhole bytes) (more : List UInt8)
    (failure : Option StreamError) :
    script ⟨bytes ++ more, failure⟩ = (ofBytes bytes).script ++ script ⟨more, failure⟩ := by
  rw [script_append whole, script_of_isWhole whole, ofBytes, script_of_isWhole whole]

namespace Session

open Act Plan

variable {files : FileMap} {once interactive : Bool} {depth : Nat} {a : List UInt8}

theorem plan_append (shallow : depth ≤ maxDepth) (several : (interactive && once) = false) (whole : Input.IsWhole a)
    (staying : .command .exit ∉ (Input.ofBytes a).script) :
    ∃ acts, (∀ act ∈ acts, act.Suits interactive none) ∧
      plan files once interactive depth (.ofBytes a) = acts ++ prompts interactive ∧
      ∀ b failure, plan files once interactive depth ⟨a ++ b, failure⟩ =
        acts ++ plan files once interactive depth ⟨b, failure⟩ := by
  let acts := (Input.ofBytes a).script.flatMap fun line =>
    prompts interactive ++ ofLine files (plan files once false (depth + 1)) interactive line
  have alone : plan files once interactive depth (.ofBytes a) = acts ++ prompts interactive := by
    have taken := Script.taken_append_of_staying staying []
    have runsOut := Script.runsOut_append_of_staying staying []
    rw [List.append_nil] at taken runsOut
    rw [plan_of_le shallow, several, taken, runsOut]
    simp [acts, Input.ofBytes]
  refine ⟨acts, ?_, alone, ?_⟩
  · intro act member
    exact suits_plan act (by rw [alone]; exact List.mem_append_left _ member)
  · intro b failure
    rw [plan_of_le shallow, plan_of_le shallow, several, Input.script_ofBytes_append whole,
      Script.taken_append_of_staying staying, Script.runsOut_append_of_staying staying, List.flatMap_append,
      List.append_assoc]

theorem plan_append_of_exit (whole : Input.IsWhole a) (exits : .command .exit ∈ (Input.ofBytes a).script)
    (b : List UInt8) (failure : Option StreamError) :
    plan files once interactive depth ⟨a ++ b, failure⟩ = plan files once interactive depth (.ofBytes a) := by
  by_cases shallow : depth ≤ maxDepth
  · rw [plan_of_le shallow, plan_of_le shallow, Input.script_ofBytes_append whole, Script.taken_append_of_exit exits,
      Script.runsOut_of_exit exits, Script.runsOut_of_exit (List.mem_append_left _ exits)]
    rfl
  · have levels : maxDepth + 1 - depth = 0 := by omega
    simp [plan, levels, within]

/-- Running whole lines and then another stream is running both as one stream, which saves the prompt between them. If
    one of the lines leaves the stream, what stands behind them is not looked at. A line that runs files is never such a
    line. -/
theorem process_append (files : FileMap) (interactive : Bool) {depth : Nat} (shallow : depth ≤ maxDepth) (s : Session)
    (mode : interactive = false ∨ s.once = false) {a : List UInt8} (whole : Input.IsWhole a) (b : List UInt8)
    (failure : Option StreamError) :
    (.command .exit ∉ (Input.ofBytes a).script →
      ∃ (t u v : Session) (ending : Option StreamError) (first second : List UInt8),
        process files interactive depth (.ofBytes a) s.unlimited = .ok () t ∧
        process files interactive depth ⟨b, failure⟩ t = finish ending u ∧
        process files interactive depth ⟨a ++ b, failure⟩ s.unlimited = finish ending v ∧
        v.env = u.env ∧ v.err.written = u.err.written ∧
        t.out.written = s.out.written ++ first ++ (if interactive then Utf8.encode prompt else []) ∧
        u.out.written = t.out.written ++ second ∧
        v.out.written = s.out.written ++ first ++ second) ∧
    (.command .exit ∈ (Input.ofBytes a).script →
      ∀ t : Session, process files interactive depth ⟨a ++ b, failure⟩ t =
        process files interactive depth (.ofBytes a) t) ∧
    ∀ (paths : List String) (t : Session), ∃ u,
      handleLine files (process files false (depth + 1)) interactive (.command (.file paths)) t.unlimited =
        .ok .proceed u := by
  refine ⟨fun staying => ?_, fun exits t => ?_, fun paths t => ⟨_, handleLine_unlimited files interactive _ _ t⟩⟩
  · obtain ⟨acts, suits, alone, both⟩ := plan_append shallow (Bool.and_eq_false_iff.mpr mode) whole staying
    let lines := total acts s.env
    let rest := total (plan files s.once interactive depth ⟨b, failure⟩) lines.env
    let prompting : Effect := ⟨lines.env, if interactive then Utf8.encode prompt else [], [], none⟩
    have lasting : lines.failure = none := failure_total_eq_none suits s.env
    have total_first : total (plan files s.once interactive depth (.ofBytes a)) s.env = lines.andThen prompting := by
      rw [alone, total_append lasting, total_prompts]
    have total_both : total (plan files s.once interactive depth ⟨a ++ b, failure⟩) s.env = lines.andThen rest := by
      rw [both, total_append lasting]
    let t := (lines.andThen prompting).after s.unlimited
    have first : process files interactive depth (.ofBytes a) s.unlimited = .ok () t := by
      rw [process_eq_total, total_first]
      rfl
    have second : process files interactive depth ⟨b, failure⟩ t = finish rest.failure (rest.after t) :=
      process_eq_total files interactive depth ⟨b, failure⟩ t
    have joined : process files interactive depth ⟨a ++ b, failure⟩ s.unlimited =
        finish rest.failure ((lines.andThen rest).after s.unlimited) := by
      rw [process_eq_total, total_both]
      rfl
    obtain ⟨outFirst, errFirst⟩ : t.out.written = _ ∧ t.err.written = _ :=
      written_after_unlimited (lines.andThen prompting) s
    obtain ⟨outSecond, errSecond⟩ : (rest.after t).out.written = _ ∧ (rest.after t).err.written = _ :=
      written_after_unlimited rest t
    obtain ⟨outJoined, errJoined⟩ := written_after_unlimited (lines.andThen rest) s
    refine ⟨t, rest.after t, _, rest.failure, lines.out, rest.out, first, second, joined, rfl, ?_, ?_, outSecond, ?_⟩
    · rw [errJoined, errSecond, errFirst]
      simp [Effect.andThen, prompting]
    · rw [outFirst]
      simp [Effect.andThen, prompting]
    · rw [outJoined]
      simp [Effect.andThen]
  · rw [process_eq_perform, process_eq_perform, plan_append_of_exit whole exits]

end Session

/-- A file that leaves its stream between two lines. -/
def FileMap.leaving : FileMap
  | "f" => some (.ofBytes (Utf8.encode "x = 1\n:exit\nx = 2\n"))
  | _ => none

theorem Session.process_append_leaving :
    (.command .exit ∉ (Input.ofBytes (Utf8.encode ":file f\n")).script ∧
      ∃ (t u v : Session) (ending : Option StreamError) (first second : List UInt8),
        process .leaving true 127 (.ofBytes (Utf8.encode ":file f\n")) (start false .unbounded .unbounded) = .ok () t ∧
        process .leaving true 127 (.ofBytes (Utf8.encode "x +")) t = finish ending u ∧
        process .leaving true 127 (.ofBytes (Utf8.encode ":file f\nx +")) (start false .unbounded .unbounded) =
          finish ending v ∧
        v.env = u.env ∧ v.err.written = u.err.written ∧
        t.out.written = first ++ Utf8.encode "> " ∧ u.out.written = t.out.written ++ second ∧
        v.out.written = first ++ second) ∧
    .command .exit ∈ (Input.ofBytes (Utf8.encode "1\n: \"e\" \r\n")).script ∧
      process .leaving true 127 (.ofBytes (Utf8.encode "1\n: \"e\" \r\n2")) (start false .unbounded .unbounded) =
        process .leaving true 127 (.ofBytes (Utf8.encode "1\n: \"e\" \r\n")) (start false .unbounded .unbounded) := by
  have staying : .command .exit ∉ (Input.ofBytes (Utf8.encode ":file f\n")).script := by decide
  have exits : .command .exit ∈ (Input.ofBytes (Utf8.encode "1\n: \"e\" \r\n")).script := by decide
  have wholeFirst : Input.IsWhole (Utf8.encode ":file f\n") := .inr rfl
  have wholeSecond : Input.IsWhole (Utf8.encode "1\n: \"e\" \r\n") := .inr rfl
  have shallow : 127 ≤ maxDepth := by decide
  let fresh := start false .unbounded .unbounded
  refine ⟨⟨staying, ?_⟩, exits, ?_⟩
  · have composed := process_append .leaving true shallow fresh (.inr rfl) wholeFirst (Utf8.encode "x +") none
    exact composed.1 staying
  · have left := process_append .leaving true shallow fresh (.inr rfl) wholeSecond (Utf8.encode "2") none
    exact left.2.1 exits fresh

end Calculator
