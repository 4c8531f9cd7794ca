import Calculator.Proofs.Plan

/-! # Channels of limited capacity

A channel that takes only so much cuts a run off and changes nothing before. Up to the write that does not fit the run
is the one with channels that take anything; that write leaves what fits, and nothing is done behind it, neither in the
stream at hand nor in those around it.
-/

namespace Calculator

namespace Session

open Act

/-- The session with channels that take anything. -/
def unlimited (s : Session) : Session :=
  { s with out := ⟨s.out.taken, none⟩, err := ⟨s.err.taken, none⟩ }

/-- The session with channels that take so many more bytes. -/
def limited (s : Session) (out err : Nat) : Session :=
  { s with out := ⟨s.out.taken, some out⟩, err := ⟨s.err.taken, some err⟩ }

theorem fits_unlimited (effect : Effect) (s : Session) : effect.fits s.unlimited = true := rfl

theorem fits_limited {effect : Effect} {s : Session} {o e : Nat} :
    effect.fits (s.limited o e) = true ↔ effect.out.length ≤ o ∧ effect.err.length ≤ e := by
  simp [Effect.fits, limited, Channel.fits]

theorem after_limited {effect : Effect} {s : Session} {o e : Nat} (enough : effect.fits (s.limited o e) = true) :
    effect.after (s.limited o e) =
      (effect.after s.unlimited).limited (o - effect.out.length) (e - effect.err.length) := by
  obtain ⟨outFits, errFits⟩ := fits_limited.mp enough
  simp [Effect.after, limited, unlimited, Channel.write, Channel.fitting, List.take_of_length_le, outFits, errFits]

theorem written_after_unlimited (effect : Effect) (s : Session) :
    (effect.after s.unlimited).out.written = s.out.written ++ effect.out ∧
      (effect.after s.unlimited).err.written = s.err.written ++ effect.err := by
  simp [Effect.after, unlimited, Channel.written, Channel.write, Channel.fitting]

theorem written_after_limited (effect : Effect) (s : Session) (o e : Nat) :
    (effect.after (s.limited o e)).out.written = s.out.written ++ effect.out.take o ∧
      (effect.after (s.limited o e)).err.written = s.err.written ++ effect.err.take e := by
  simp [Effect.after, limited, Channel.written, Channel.write, Channel.fitting]

theorem exists_overflow {acts : List Act} {s : Session} (overflow : (total acts s.env).fits s = false) :
    ∃ before act after, acts = before ++ act :: after ∧ (total before s.env).failure = none ∧
      (total before s.env).fits s = true ∧
      (act.effect (total before s.env).env).fits ((total before s.env).after s) = false := by
  induction acts generalizing s with
  | nil => simp [total] at overflow
  | cons act rest ih =>
    cases enough : (act.effect s.env).fits s with
    | false => exact ⟨[], act, rest, rfl, rfl, by simp [total], by simpa [total] using enough⟩
    | true =>
      cases failure : (act.effect s.env).failure with
      | some error =>
        rw [total_cons_of_some failure, enough] at overflow
        cases overflow
      | none =>
        rw [total_cons_of_none failure, Effect.fits_andThen, enough, Bool.true_and] at overflow
        obtain ⟨before, act', after, rfl, lasting, fitting, stopped⟩ := ih overflow
        refine ⟨act :: before, act', after, rfl, ?_⟩
        rw [total_cons_of_none failure, Effect.fits_andThen, Effect.after_andThen, enough, Bool.true_and]
        exact ⟨lasting, fitting, stopped⟩

theorem perform_of_overflow {before : List Act} {act : Act} {s : Session}
    (lasting : (total before s.env).failure = none) (fitting : (total before s.env).fits s = true)
    (stopped : (act.effect (total before s.env).env).fits ((total before s.env).after s) = false) (after : List Act) :
    perform (before ++ act :: after) s = .error .sinkFull ((total (before ++ [act]) s.env).after s) := by
  have env : ((total before s.env).after s).env = (total before s.env).env := rfl
  rw [perform_append, perform_of_fits fitting, Effect.apply_of_fits fitting lasting]
  simp only
  rw [perform_cons, perform_eq_apply, env, Effect.apply_of_not_fits stopped, total_snoc lasting, Effect.after_andThen]

theorem perform_unlimited (acts : List Act) (s : Session) :
    perform acts s.unlimited = finish (total acts s.env).failure ((total acts s.env).after s.unlimited) :=
  perform_of_fits (fits_unlimited _ s)

theorem perform_limited {acts : List Act} {s : Session} {o e : Nat}
    (enough : (total acts s.env).fits (s.limited o e) = true) :
    perform acts (s.limited o e) = finish (total acts s.env).failure
      (((total acts s.env).after s.unlimited).limited (o - (total acts s.env).out.length)
        (e - (total acts s.env).err.length)) := by
  have performed : perform acts (s.limited o e) = (total acts s.env).apply (s.limited o e) := perform_of_fits enough
  rw [performed, Effect.apply, enough, after_limited enough]
  rfl

/-- Acts that write too much are cut off by the first that does, whatever stands behind it. -/
theorem perform_limited_of_overflow {acts : List Act} {s : Session} {o e : Nat}
    (overflow : (total acts s.env).fits (s.limited o e) = false) :
    ∃ before act after, acts = before ++ act :: after ∧ (total (before ++ [act]) s.env).failure = none ∧
      (∃ t, perform before (s.limited o e) = .ok () t) ∧
      (total (before ++ [act]) s.env).fits (s.limited o e) = false ∧
      ∀ rest, perform (before ++ act :: rest) (s.limited o e) =
        .error .sinkFull ((total (before ++ [act]) s.env).after (s.limited o e)) := by
  have env : (s.limited o e).env = s.env := rfl
  rw [← env] at overflow
  obtain ⟨before, act, after, rfl, lasting, fitting, stopped⟩ := exists_overflow overflow
  refine ⟨before, act, after, rfl, ?_, ⟨(total before s.env).after (s.limited o e), ?_⟩, ?_,
    perform_of_overflow lasting fitting stopped⟩
  · rw [← env, total_snoc lasting]
    exact failure_eq_none_of_not_fits stopped
  · exact (perform_of_fits fitting).trans (Effect.apply_of_fits fitting lasting)
  · rw [← env, total_snoc lasting, Effect.fits_andThen, stopped, Bool.and_false]

theorem prefix_total (acts more : List Act) (env : Environment) :
    (total acts env).out <+: (total (acts ++ more) env).out ∧
      (total acts env).err <+: (total (acts ++ more) env).err := by
  induction acts generalizing env with
  | nil => simp [total, Effect.idle]
  | cons act rest ih =>
    cases failure : (act.effect env).failure with
    | some error =>
      rw [List.cons_append, total_cons_of_some failure, total_cons_of_some failure]
      exact ⟨List.prefix_rfl, List.prefix_rfl⟩
    | none =>
      rw [List.cons_append, total_cons_of_none failure, total_cons_of_none failure]
      obtain ⟨out, err⟩ := ih (act.effect env).env
      exact ⟨(List.prefix_append_right_inj _).mpr out, (List.prefix_append_right_inj _).mpr err⟩

/-- A run with limited channels is the run without limits as long as what it writes fits. Otherwise it ends, with the
    error of a full channel, in the first act whose write does not fit: it leaves the variables as they are at that
    moment of the run without limits, has written what that run writes up to the limit, and does nothing more. -/
theorem process_limited (files : FileMap) (interactive : Bool) (depth : Nat) (input : Input) (s : Session)
    (o e : Nat) :
    (∀ t : Session, t.once = s.once →
      process files interactive depth input t = perform (plan files s.once interactive depth input) t) ∧
    ∃ (failure : Option StreamError) (free : Session) (out err : List UInt8),
      process files interactive depth input s.unlimited = finish failure free ∧
      free.out.written = s.out.written ++ out ∧ free.err.written = s.err.written ++ err ∧
      (out.length ≤ o ∧ err.length ≤ e →
        process files interactive depth input (s.limited o e) =
          finish failure (free.limited (o - out.length) (e - err.length))) ∧
      (¬ (out.length ≤ o ∧ err.length ≤ e) →
        ∃ (before after : List Act) (act : Act) (moment cut : Session),
          plan files s.once interactive depth input = before ++ act :: after ∧
          perform (before ++ [act]) s.unlimited = .ok () moment ∧
          (∃ t, perform before (s.limited o e) = .ok () t) ∧
          perform (before ++ [act]) (s.limited o e) = .error .sinkFull cut ∧
          process files interactive depth input (s.limited o e) = .error .sinkFull cut ∧
          cut.env = moment.env ∧
          cut.out.written <+: free.out.written ∧ cut.err.written <+: free.err.written ∧
          ((s.out.written.length + o < moment.out.written.length ∧
              cut.out.written.length = s.out.written.length + o) ∨
            (s.err.written.length + e < moment.err.written.length ∧
              cut.err.written.length = s.err.written.length + e))) := by
  have performs : ∀ t : Session, t.once = s.once →
      process files interactive depth input t = perform (plan files s.once interactive depth input) t := by
    intro t same
    rw [process_eq_perform, same]
  refine ⟨performs, ?_⟩
  let acts := plan files s.once interactive depth input
  obtain ⟨outWritten, errWritten⟩ := written_after_unlimited (total acts s.env) s
  refine ⟨_, _, _, _, (performs s.unlimited rfl).trans (perform_unlimited acts s), outWritten, errWritten, ?_, ?_⟩
  · intro enough
    exact (performs (s.limited o e) rfl).trans (perform_limited (fits_limited.mpr enough))
  · intro tooMuch
    rw [← fits_limited, Bool.not_eq_true] at tooMuch
    obtain ⟨before, act, after, split, lasting, reached, overflow, cut⟩ := perform_limited_of_overflow tooMuch
    let part := total (before ++ [act]) s.env
    have moment : perform (before ++ [act]) s.unlimited = .ok () (part.after s.unlimited) := by
      rw [perform_unlimited, lasting]
      rfl
    have ended : process files interactive depth input (s.limited o e) =
        .error .sinkFull (part.after (s.limited o e)) := by
      have all : perform acts (s.limited o e) = perform (before ++ act :: after) (s.limited o e) := by rw [← split]
      exact (performs (s.limited o e) rfl).trans (all.trans (cut after))
    obtain ⟨outMoment, errMoment⟩ := written_after_unlimited part s
    obtain ⟨outCut, errCut⟩ := written_after_limited part s o e
    have acts_eq : acts = (before ++ [act]) ++ after := by
      rw [List.append_cons] at split
      exact split
    obtain ⟨outPrefix, errPrefix⟩ : part.out <+: (total acts s.env).out ∧ part.err <+: (total acts s.env).err := by
      rw [acts_eq]
      exact prefix_total _ after s.env
    refine ⟨before, after, act, _, _, split, moment, reached, cut [], ended, rfl, ?_, ?_, ?_⟩
    · rw [outCut, outWritten, List.prefix_append_right_inj]
      exact (List.take_prefix o part.out).trans outPrefix
    · rw [errCut, errWritten, List.prefix_append_right_inj]
      exact (List.take_prefix e part.err).trans errPrefix
    · have tooLong : ¬ (part.out.length ≤ o ∧ part.err.length ≤ e) := by
        rw [← fits_limited, overflow]
        exact Bool.false_ne_true
      rw [outCut, errCut, outMoment, errMoment]
      simp only [List.length_append, List.length_take]
      omega

example :
    (match process (fun _ => some (.ofBytes (Utf8.encode ":'\n:'\n"))) false 0 (.ofBytes (Utf8.encode ":file f\n:'\n"))
        (start false ⟨[], some 0⟩ ⟨[], some 60⟩) with
      | .ok _ _ => none
      | .error error t => some (error, t.err.written.length)) = some (.sinkFull, 60) := rfl

end Session

end Calculator
