import Calculator.Proofs.Dissection
import Calculator.Proofs.Watched

/-! # Where a stream stands

Whatever is asked of a stream, in whatever order and with whatever failures, it does by attempts to move. So it always
stands at some place of its text, given by the number of reads, and what it has moved past is what the text has up to
there, with nothing left out and nothing twice.
-/

namespace Calculator

/-- What a read delivers that meets a lexeme or, if there is none, the end of input; nothing at a stray character. -/
def delivered? : Option Lexeme → Option (Option Token)
  | none => some none
  | some (.token token) => some (some token)
  | some (.stray _) => none

/-- What the first `m` reads of a text deliver. Behind the last lexeme each read delivers the end of input. -/
def deliveries (text : List Char) (m : Nat) : List (Option Token) :=
  (List.range m).filterMap fun n => delivered? (Lexeme.all text)[n]?

namespace Attempt

/-- The tokens, or the end of input again and again, that attempts have moved past. -/
def tokens : List Attempt → List (Option Token)
  | [] => []
  | moved token :: attempts => token :: tokens attempts
  | stopped _ :: attempts => tokens attempts

theorem tokens_append (before after : List Attempt) : tokens (before ++ after) = tokens before ++ tokens after := by
  induction before with
  | nil => rfl
  | cons attempt before ih => cases attempt <;> simp [tokens, ih]

end Attempt

namespace TokenStream

variable {text rest : List Char} {m : Nat} {token : Option Token} {error : ParseError}

theorem all_behind (text : List Char) : Lexeme.all (behind text) = (Lexeme.all text).tail := by
  unfold behind read
  cases found : Lexeme.next? text with
  | none =>
    rw [Lexeme.all_of_next?_eq_none found]
    exact Lexeme.all_of_next?_eq_none rfl
  | some piece =>
    obtain ⟨lexeme, rest⟩ := piece
    rw [Lexeme.all_of_next?_eq_some found]
    cases lexeme <;> rfl

theorem all_unread (m : Nat) (text : List Char) : Lexeme.all (unread m text) = (Lexeme.all text).drop m := by
  induction m generalizing text with
  | zero => rfl
  | succ m ih => rw [unread, ih, all_behind, List.drop_tail]

theorem unread_succ_eq (m : Nat) (text : List Char) : unread (m + 1) text = behind (unread m text) :=
  unread_add m 1 text

theorem head?_all_unread (m : Nat) (text : List Char) :
    (Lexeme.all (unread m text)).head? = (Lexeme.all text)[m]? := by
  rw [all_unread, List.head?_drop]

theorem deliveries_succ (text : List Char) (m : Nat) :
    deliveries text (m + 1) = deliveries text m ++ (delivered? (Lexeme.all text)[m]?).toList := by
  simp only [deliveries, List.range_succ, List.filterMap_append]
  cases found : delivered? (Lexeme.all text)[m]? <;> simp [found]

theorem delivered?_of_read (found : read (unread m text) = .ok token rest) :
    delivered? (Lexeme.all text)[m]? = some token := by
  rw [← head?_all_unread, all_of_read_eq_ok found, head?_lexemes]
  cases token <;> rfl

theorem delivered?_of_read_eq_error (found : read (unread m text) = .error error rest) :
    delivered? (Lexeme.all text)[m]? = none := by
  obtain ⟨c, -, all⟩ := all_of_read_eq_error found
  rw [← head?_all_unread, all]
  rfl

end TokenStream

open TokenStream

/-- A stream that has made `m` reads of a text and has moved past some tokens. These and the current one are all that
    the reads have delivered. -/
structure StandsAt (text : List Char) (m : Nat) (moved : List (Option Token)) (s : TokenStream) : Prop where
  rest : s.rest = unread m text
  order : moved ++ [s.current] = deliveries text m

namespace StandsAt

variable {text : List Char} {m : Nat} {moved : List (Option Token)} {s t : TokenStream}

theorem start (lexed : ofText text = .ok s) : StandsAt text 1 [] s := by
  unfold ofText at lexed
  split at lexed <;> cases lexed
  rename_i token rest found
  refine ⟨?_, ?_⟩
  · rw [unread_succ found, unread]
  · have first : delivered? (Lexeme.all text)[0]? = some token := delivered?_of_read found
    rw [deliveries_succ, first]
    rfl

theorem getLast? (h : StandsAt text m moved s) : (deliveries text m).getLast? = some s.current := by
  rw [← h.order, List.getLast?_concat]

theorem move {token : Option Token} (h : StandsAt text m moved s) (advanced : s.advance = .ok token t) :
    StandsAt text (m + 1) (moved ++ [token]) t := by
  unfold advance at advanced
  split at advanced <;> cases advanced
  rename_i next rest found
  rw [h.rest] at found
  refine ⟨?_, ?_⟩
  · rw [unread_succ_eq, behind, found]
  · rw [deliveries_succ, delivered?_of_read found, ← h.order]
    rfl

theorem stop {error : ParseError} (h : StandsAt text m moved s) (advanced : s.advance = .error error t) :
    StandsAt text (m + 1) moved t := by
  unfold advance at advanced
  split at advanced <;> cases advanced
  rename_i rest found
  rw [h.rest] at found
  refine ⟨?_, ?_⟩
  · rw [unread_succ_eq, behind, found]
  · rw [deliveries_succ, delivered?_of_read_eq_error found, ← h.order]
    exact (List.append_nil _).symm

theorem trail {attempts : List Attempt} (h : StandsAt text m moved s) (trail : Trail s attempts t) :
    StandsAt text (m + attempts.length) (moved ++ Attempt.tokens attempts) t := by
  induction trail generalizing m moved with
  | stay s =>
    rw [Attempt.tokens, List.append_nil]
    exact h
  | moved advanced _ ih =>
    rw [List.length_cons, ← Nat.add_assoc m, Nat.add_right_comm m, Attempt.tokens, List.append_cons]
    exact ih (h.move advanced)
  | stopped advanced _ ih =>
    rw [List.length_cons, ← Nat.add_assoc m, Nat.add_right_comm m, Attempt.tokens]
    exact ih (h.stop advanced)

end StandsAt

namespace TokenStream

/-- The attempt that a move makes. -/
def attempt (s : TokenStream) : Attempt :=
  match s.advance with
  | .ok token _ => .moved token
  | .error error _ => .stopped error

/-- The stream that is left, whether or not something failed. -/
def left {α : Type} : EStateM.Result ParseError TokenStream α → TokenStream
  | .ok _ t | .error _ t => t

end TokenStream

/-- Something that is asked of a stream. -/
inductive Request where
  /-- Move past the current token. -/
  | advance
  /-- Move past a token of a kind, or past the end of input. -/
  | consume (kind : Option Token.Kind)
  /-- Name the current token as one that cannot stand here. -/
  | unexpected
  /-- Read an expression, which is a chain of terms. -/
  | expression
  /-- Read a term. -/
  | term

namespace Request

/-- The attempts that a request makes. -/
def attempts (s : TokenStream) : Request → List Attempt
  | advance => [s.attempt]
  | consume kind => if s.current.map Token.kind = kind then [s.attempt] else []
  | unexpected => []
  | expression => (Watched.expression s).attempts
  | term => (Watched.term s).attempts

/-- The stream that a request leaves, whether or not it fails. -/
def after (s : TokenStream) : Request → TokenStream
  | advance => left s.advance
  | consume kind => left (s.consume kind)
  | unexpected => s
  | expression => left s.expression
  | term => left s.term

variable {s : TokenStream} {kind : Option Token.Kind}

theorem attempts_of_wanted (wanted : s.current.map Token.kind = kind) :
    (consume kind).attempts s = advance.attempts s :=
  if_pos wanted

theorem after_of_wanted (wanted : s.current.map Token.kind = kind) : (consume kind).after s = advance.after s :=
  congrArg left (if_pos wanted)

theorem attempts_of_unwanted (unwanted : s.current.map Token.kind ≠ kind) : (consume kind).attempts s = [] :=
  if_neg unwanted

theorem after_of_unwanted (unwanted : s.current.map Token.kind ≠ kind) : (consume kind).after s = s :=
  congrArg left (if_neg unwanted)

theorem trail_attempt (s : TokenStream) : Trail s [s.attempt] (left s.advance) := by
  unfold attempt
  cases advanced : s.advance with
  | ok token t => exact .moved advanced (.stay t)
  | error error t => exact .stopped advanced (.stay t)

theorem left_result {α : Type} {bound : Nat} (outcome : Parsed α bound) : left outcome.result = outcome.stream := by
  cases outcome <;> rfl

/-- A request changes a stream by its attempts alone. -/
theorem trail (s : TokenStream) (request : Request) : Trail s (request.attempts s) (request.after s) := by
  cases request with
  | advance => exact trail_attempt s
  | unexpected => exact .stay s
  | expression =>
    have watched := (Grammar.expression_watched s).trail
    rwa [← left_result] at watched
  | term =>
    have watched := (Grammar.term_watched s).trail
    rwa [← left_result] at watched
  | consume kind =>
    by_cases wanted : s.current.map Token.kind = kind
    · rw [attempts_of_wanted wanted, after_of_wanted wanted]
      exact trail_attempt s
    · rw [attempts_of_unwanted wanted, after_of_unwanted wanted]
      exact .stay s

end Request

/-- What has happened to a stream so far: the attempts made, and the stream that is left. -/
structure Handling where
  attempts : List Attempt
  stream : TokenStream

namespace Handling

/-- The number of reads so far. One was made for the first token. -/
def position (h : Handling) : Nat := 1 + h.attempts.length

/-- The tokens moved past so far. -/
def moved (h : Handling) : List (Option Token) := Attempt.tokens h.attempts

/-- Since then the current token was moved past, and maybe others behind it. -/
def Progress (before after : Handling) : Prop :=
  ∃ token more, before.stream.current = some token ∧ after.moved = before.moved ++ some token :: more

/-- Ask for one thing more. -/
def step (h : Handling) (request : Request) : Handling :=
  ⟨h.attempts ++ request.attempts h.stream, request.after h.stream⟩

/-- Ask for one thing after the other. -/
def run (start : TokenStream) (requests : List Request) : Handling := requests.foldl step ⟨[], start⟩

theorem run_concat (start : TokenStream) (requests : List Request) (request : Request) :
    run start (requests ++ [request]) = (run start requests).step request := by
  rw [run, List.foldl_append]
  rfl

theorem moved_step (h : Handling) (request : Request) :
    (h.step request).moved = h.moved ++ Attempt.tokens (request.attempts h.stream) :=
  Attempt.tokens_append h.attempts (request.attempts h.stream)

theorem position_step (h : Handling) (request : Request) :
    (h.step request).position = h.position + (request.attempts h.stream).length := by
  rw [position, step, List.length_append, ← Nat.add_assoc]
  rfl

variable {text : List Char} {start : TokenStream} {h : Handling}

theorem trail_foldl {requests : List Request} (soFar : Trail start h.attempts h.stream) :
    Trail start (requests.foldl step h).attempts (requests.foldl step h).stream := by
  induction requests generalizing h with
  | nil => exact soFar
  | cons request requests ih => exact ih (soFar.append (request.trail h.stream))

/-- However many requests there were, the stream stands where their attempts have led. -/
theorem standsAt_run (lexed : ofText text = .ok start) (requests : List Request) :
    StandsAt text (run start requests).position (run start requests).moved (run start requests).stream := by
  have trail : Trail start (run start requests).attempts (run start requests).stream := trail_foldl (.stay start)
  exact (StandsAt.start lexed).trail trail

end Handling

namespace Watched

variable {α : Type} {bound : Nat} {s : TokenStream}

theorem Mirrors.moves {run : Watched α bound} {plain : Parsed α bound} (h : run.Mirrors s plain)
    (done : plain.isDone = true) (elsewhere : plain.stream ≠ s) :
    ∃ token more, s.current = some token ∧ Attempt.tokens run.attempts = some token :: more := by
  have trail := h.trail
  cases attempts : run.attempts with
  | nil =>
    rw [attempts] at trail
    cases trail
    exact absurd rfl elsewhere
  | cons attempt rest =>
    obtain ⟨token, rfl⟩ := h.smooth done attempt (attempts ▸ List.mem_cons_self)
    rw [attempts] at trail
    cases trail with
    | moved advanced _ => exact ⟨token, Attempt.tokens rest, (eq_current_of_advance advanced).symm, rfl⟩

end Watched

theorem Derivation.Reads.ne {r : Rule} {d : Derivation r} {s t : TokenStream} (h : d.Reads s t)
    (nonempty : r.startedBy none = false) : t ≠ s := by
  rintro rfl
  have word : d.word.map Lexeme.token = [] := List.append_left_eq_self.mp h.lexemes.symm
  exact d.word_ne_nil nonempty (List.map_eq_nil_iff.mp word)

namespace Request

/-- What a request does to a stream, beside the attempts it makes. -/
def Law (before after : Handling) : Request → Prop
  | advance => after.position = before.position + 1 ∧
    ∀ error t, before.stream.advance = .error error t →
      after.stream.current = before.stream.current ∧ after.moved = before.moved
  | consume kind =>
    (before.stream.current.map Token.kind = kind → after = before.step advance) ∧
    (before.stream.current.map Token.kind ≠ kind →
      before.stream.consume kind = .error before.stream.unexpected before.stream ∧ after = before)
  | unexpected => after = before
  | expression => (Watched.expression before.stream).outcome = .ok (Grammar.expression before.stream) ∧
    ∀ e t, before.stream.expression = .ok e t → before.Progress after
  | term => (Watched.term before.stream).outcome = .ok (Grammar.term before.stream) ∧
    ∀ e t, before.stream.term = .ok e t → before.Progress after

/-- A rule that succeeds with a word that is not empty has moved past the current token first. -/
theorem moves_of_result (r : Rule) {s t : TokenStream} {tree : r.Tree} {watched : Watched r.Tree s.size}
    {plain : Parsed r.Tree s.size} (mirrors : watched.Mirrors s plain)
    (reads : plain.Meets (Derivation.Done s) Grammar.anyFailure) (nonempty : r.startedBy none = false)
    (ok : plain.result = .ok tree t) :
    ∃ token more, s.current = some token ∧ Attempt.tokens watched.attempts = some token :: more := by
  obtain ⟨d, -, read⟩ := reads.of_ok ok
  cases plain with
  | failed => cases ok
  | done =>
    cases ok
    exact mirrors.moves rfl (read.ne nonempty)

theorem law_step (h : Handling) (request : Request) : request.Law h (h.step request) := by
  cases request with
  | advance =>
    refine ⟨h.position_step advance, fun error t stopped => ⟨?_, ?_⟩⟩
    · rw [← current_of_advance_eq_error stopped, Handling.step, after, stopped]
      rfl
    · rw [h.moved_step, attempts, attempt, stopped]
      exact List.append_nil h.moved
  | unexpected =>
    rw [Law, Handling.step, attempts, after, List.append_nil]
  | consume kind =>
    refine ⟨fun wanted => ?_, fun unwanted => ⟨if_neg unwanted, ?_⟩⟩
    · rw [Handling.step, attempts_of_wanted wanted, after_of_wanted wanted]
      rfl
    · rw [Handling.step, attempts_of_unwanted unwanted, after_of_unwanted unwanted, List.append_nil]
  | expression =>
    have watched := Grammar.expression_watched h.stream
    refine ⟨watched.outcome, fun e t ok => ?_⟩
    have reads := Grammar.expression_reads h.stream
    obtain ⟨token, more, current, tokens⟩ := moves_of_result .expression watched reads rfl ok
    exact ⟨token, more, current, (h.moved_step expression).trans (congrArg (h.moved ++ ·) tokens)⟩
  | term =>
    have watched := Grammar.term_watched h.stream
    refine ⟨watched.outcome, fun e t ok => ?_⟩
    have reads := Grammar.term_reads h.stream
    obtain ⟨token, more, current, tokens⟩ := moves_of_result .term watched reads rfl ok
    exact ⟨token, more, current, (h.moved_step term).trans (congrArg (h.moved ++ ·) tokens)⟩

end Request

namespace Handling

/-- Whatever was asked of a stream, it stands at a place of its text: the text behind it is what so many reads leave,
    its current token is the last one they have delivered, and together with the tokens moved past they have
    delivered nothing else. Further requests never lead back. One that is refused changes nothing, a stray character
    costs one read and keeps the current token, and whatever is parsed has at least one token. -/
theorem run_position {text : List Char} {start : TokenStream} (lexed : ofText text = .ok start)
    (requests : List Request) :
    StandsAt text (run start requests).position (run start requests).moved (run start requests).stream ∧
    (deliveries text (run start requests).position).getLast? = some (run start requests).stream.current ∧
    ∀ request, (run start requests).position ≤ (run start (requests ++ [request])).position ∧
      request.Law (run start requests) (run start (requests ++ [request])) := by
  have stands := standsAt_run lexed requests
  refine ⟨stands, stands.getLast?, fun request => ?_⟩
  rw [run_concat, position_step]
  exact ⟨Nat.le_add_right _ _, request.law_step _⟩

theorem run_position_stray : ofText "a$b".toList = .ok ⟨some (.identifier "a"), "$b".toList⟩ ∧
    (run ⟨some (.identifier "a"), "$b".toList⟩ [.advance, .consume (some .number), .advance, .advance]).position = 4 ∧
    [some (.identifier "a"), some (.identifier "b"), none] = deliveries "a$b".toList 4 := by
  have lexed : ofText "a$b".toList = .ok ⟨some (.identifier "a"), "$b".toList⟩ := rfl
  have stands := (run_position lexed [.advance, .consume (some .number), .advance, .advance]).1
  exact ⟨lexed, rfl, stands.order⟩

end Handling

end Calculator
