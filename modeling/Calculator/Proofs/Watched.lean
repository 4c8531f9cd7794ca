import Calculator.Proofs.ByteOffsets
import Calculator.Proofs.Descent

/-! # The grammar under watch

The rules of the grammar once more, this time with a witness. Every attempt to move is put on record, and what a rule
uses of a token it takes from the move past it and not from an earlier look. Where something turns up that the rules do
not provide for, the run breaks off with a fault.

A rule under watch never breaks off: it ends as the plain rule does, and its record is that of the moves which lead
there.
-/

namespace Calculator

/-- Something that is not provided for. -/
inductive Fault where
  /-- A rule moves on at the end of input. -/
  | pastEnd
  /-- A token moved past is not of the kind that was looked for. -/
  | otherToken (found : Option Token)
  /-- A literal is cut inside a character or behind its end. -/
  | badCut
  /-- A function is handed another number of values than it takes. -/
  | wrongCount (count : Nat)
  /-- A function looks for a value that it was not handed. -/
  | missingValue
  deriving DecidableEq, Repr

/-- An attempt to move past the current token. -/
inductive Attempt where
  /-- The token, or the end of input, that was moved past. -/
  | moved (token : Option Token)
  /-- The error met instead. -/
  | stopped (error : ParseError)
  deriving DecidableEq, Repr

/-- Attempts, one after the other, that lead from one stream to another. -/
inductive Trail : TokenStream → List Attempt → TokenStream → Prop where
  | stay (s : TokenStream) : Trail s [] s
  | moved {s t u : TokenStream} {token : Option Token} {attempts : List Attempt} :
    s.advance = .ok token t → Trail t attempts u → Trail s (.moved token :: attempts) u
  | stopped {s t u : TokenStream} {error : ParseError} {attempts : List Attempt} :
    s.advance = .error error t → Trail t attempts u → Trail s (.stopped error :: attempts) u

theorem Trail.append {s t u : TokenStream} {before after : List Attempt} (first : Trail s before t)
    (second : Trail t after u) : Trail s (before ++ after) u := by
  induction first with
  | stay => exact second
  | moved advanced _ ih => exact .moved advanced (ih second)
  | stopped advanced _ ih => exact .stopped advanced (ih second)

namespace Parsed

variable {α : Type} {bound : Nat}

/-- The stream that an outcome ends with, whether or not it is an error. -/
def stream : Parsed α bound → TokenStream
  | done _ s _ | failed _ s => s

theorem stream_weaken {larger : Nat} (le : bound ≤ larger) (outcome : Parsed α bound) :
    (outcome.weaken le).stream = outcome.stream := by
  cases outcome <;> rfl

/-- Whether the outcome is a value. -/
def isDone : Parsed α bound → Bool
  | done .. => true
  | failed .. => false

theorem isDone_weaken {larger : Nat} (le : bound ≤ larger) (outcome : Parsed α bound) :
    (outcome.weaken le).isDone = outcome.isDone := by
  cases outcome <;> rfl

end Parsed

/-- A run of a grammar rule that started with `bound` to come: its attempts to move, and its outcome unless it broke
    off. -/
structure Watched (α : Type) (bound : Nat) where
  attempts : List Attempt
  outcome : Except Fault (Parsed α bound)

namespace Watched

variable {α β : Type} {bound : Nat} {s : TokenStream}

/-- A rule that reads nothing. -/
def value (a : α) (s : TokenStream) : Watched α s.size := ⟨[], .ok (.value a s)⟩

/-- A rule that refuses what it finds. -/
def failed (error : ParseError) (s : TokenStream) : Watched α s.size := ⟨[], .ok (.failed error s)⟩

/-- A run that breaks off. -/
def broken (fault : Fault) : Watched α bound := ⟨[], .error fault⟩

/-- Continue behind a value. -/
def andThen (first : Watched α bound) (next : α → (s : TokenStream) → s.size ≤ bound → Watched β s.size) :
    Watched β bound :=
  match first.outcome with
  | .ok (.done a s shrinks) =>
    ⟨first.attempts ++ (next a s shrinks).attempts, (next a s shrinks).outcome.map (Parsed.weaken shrinks)⟩
  | .ok (.failed error s) => ⟨first.attempts, .ok (.failed error s)⟩
  | .error fault => ⟨first.attempts, .error fault⟩

/-- Change the value. -/
def map (f : α → β) (run : Watched α bound) : Watched β bound := ⟨run.attempts, run.outcome.map (Parsed.map f)⟩

/-- Move past the current token and continue with that token, as the move returns it. -/
def shift (s : TokenStream) (next : Option Token → (t : TokenStream) → t.size < s.size → Watched α t.size) :
    Watched α s.size :=
  if h : s.current.isSome then
    match moved : s.advance with
    | .ok token t =>
      have shorter : t.size < s.size := TokenStream.advance_size_lt h moved
      ⟨.moved token :: (next token t shorter).attempts,
        (next token t shorter).outcome.map (Parsed.weaken (Nat.le_of_lt shorter))⟩
    | .error error t => ⟨[.stopped error], .ok (.failed error t)⟩
  else broken .pastEnd

/-- Move past a token of the given kind and continue with it. -/
def consume (kind : Token.Kind) (s : TokenStream)
    (next : Option Token → (t : TokenStream) → t.size < s.size → Watched α t.size) : Watched α s.size :=
  if s.current.map Token.kind = some kind then shift s next else failed s.unexpected s

/-- The number of a literal that was moved past. -/
def number (literal : String) (s : TokenStream) : Watched Expr s.size :=
  match countedPart? literal.toList with
  | none => broken .badCut
  | some counted =>
    if counted.any Char.isDigit then value (.number (Decimal.ofText counted).toBinary64) s
    else failed (.invalidNumber literal) s

mutual

/-- A chain of terms. -/
def expression (s : TokenStream) : Watched Expr s.size :=
  (term s).andThen fun left t _ => moreTerms left t
termination_by 6 * s.size + 4

/-- The rest of a chain of terms, to the right of `left`. -/
def moreTerms (left : Expr) (s : TokenStream) : Watched Expr s.size :=
  match s.operator? BinaryOp.isAdditive with
  | some op => shift s fun _ t _ => (term t).andThen fun right u _ => moreTerms (.binary op left right) u
  | none => value left s
termination_by 6 * s.size

/-- A chain of factors. -/
def term (s : TokenStream) : Watched Expr s.size :=
  (unary s).andThen fun left t _ => moreFactors left t
termination_by 6 * s.size + 3

/-- The rest of a chain of factors, to the right of `left`. -/
def moreFactors (left : Expr) (s : TokenStream) : Watched Expr s.size :=
  match s.operator? BinaryOp.isMultiplicative with
  | some op => shift s fun _ t _ => (unary t).andThen fun right u _ => moreFactors (.binary op left right) u
  | none => value left s
termination_by 6 * s.size

/-- A negation or a power. -/
def unary (s : TokenStream) : Watched Expr s.size :=
  if s.current = some (.symbol .minus) then shift s fun _ t _ => (unary t).map .neg else power s
termination_by 6 * s.size + 2

/-- A primary expression, maybe raised to a power. -/
def power (s : TokenStream) : Watched Expr s.size :=
  (primary s).andThen fun base t _ =>
    if t.current = some (.symbol .caret) then shift t fun _ u _ => (unary u).map (.binary .pow base) else value base t
termination_by 6 * s.size + 1

/-- A number, a call, an assignment, a variable or a parenthesised expression. -/
def primary (s : TokenStream) : Watched Expr s.size :=
  match s.current with
  | some (.number _) =>
    shift s fun token t _ =>
      match token with
      | some (.number literal) => number literal t
      | other => broken (.otherToken other)
  | some (.identifier _) =>
    consume .identifier s fun token t _ =>
      match token with
      | some (.identifier name) =>
        if t.current = some (.symbol .leftParen) then
          shift t fun _ u _ =>
            if u.current = some (.symbol .rightParen) then shift u fun _ v _ => value (.call name []) v
            else (arguments u).map (.call name)
        else if t.current = some (.symbol .equals) then shift t fun _ u _ => (expression u).map (.assign name)
        else value (.var name) t
      | other => broken (.otherToken other)
  | some (.symbol .leftParen) =>
    consume (.symbol .leftParen) s fun _ t _ =>
      (expression t).andThen fun e u _ => consume (.symbol .rightParen) u fun _ v _ => value e v
  | _ => failed s.unexpected s
termination_by 6 * s.size

/-- One or more arguments and the closing parenthesis. -/
def arguments (s : TokenStream) : Watched (List Expr) s.size :=
  (expression s).andThen fun first t _ =>
    if t.current = some (.symbol .comma) then shift t fun _ u _ => (arguments u).map (first :: ·)
    else consume (.symbol .rightParen) t fun _ u _ => value [first] u
termination_by 6 * s.size + 5

end

/-- A run under watch that starts at a stream, next to the plain outcome. It does not break off, its attempts lead to
    the same stream, and if it succeeds, each of them has moved past a token. -/
structure Mirrors (run : Watched α bound) (s : TokenStream) (plain : Parsed α bound) : Prop where
  outcome : run.outcome = .ok plain
  trail : Trail s run.attempts plain.stream
  smooth : plain.isDone = true → ∀ attempt ∈ run.attempts, ∃ token, attempt = .moved (some token)

theorem mirrors_value (a : α) (s : TokenStream) : (value a s).Mirrors s (.value a s) :=
  ⟨rfl, .stay s, fun _ _ member => absurd member List.not_mem_nil⟩

theorem mirrors_failed (error : ParseError) (s : TokenStream) :
    (failed error s : Watched α s.size).Mirrors s (.failed error s) :=
  ⟨rfl, .stay s, fun _ _ member => absurd member List.not_mem_nil⟩

theorem mirrors_map {run : Watched α bound} {plain : Parsed α bound} (f : α → β) (h : run.Mirrors s plain) :
    (run.map f).Mirrors s (plain.map f) := by
  refine ⟨?_, ?_, ?_⟩
  · rw [map, h.outcome]
    rfl
  · cases plain <;> exact h.trail
  · cases plain <;> exact h.smooth

theorem mirrors_andThen {first : Watched α bound} {plain : Parsed α bound}
    {next : α → (t : TokenStream) → t.size ≤ bound → Watched β t.size}
    {plainNext : α → (t : TokenStream) → t.size ≤ bound → Parsed β t.size} (h : first.Mirrors s plain)
    (step : ∀ a t shrinks, (next a t shrinks).Mirrors t (plainNext a t shrinks)) :
    (first.andThen next).Mirrors s (plain.andThen plainNext) := by
  unfold andThen
  rw [h.outcome]
  cases plain with
  | failed error t => exact ⟨rfl, h.trail, fun done => by cases done⟩
  | done a t shrinks =>
    have rest := step a t shrinks
    rw [Parsed.andThen_done]
    refine ⟨?_, ?_, ?_⟩
    · exact congrArg (Except.map (Parsed.weaken shrinks)) rest.outcome
    · rw [Parsed.stream_weaken]
      exact h.trail.append rest.trail
    · intro done attempt member
      rw [Parsed.isDone_weaken] at done
      rcases List.mem_append.mp member with early | late
      · exact h.smooth rfl attempt early
      · exact rest.smooth done attempt late

theorem shift_of_ok {next : Option Token → (t : TokenStream) → t.size < s.size → Watched α t.size} {t : TokenStream}
    {token : Option Token} (isSome : s.current.isSome) (advanced : s.advance = .ok token t) :
    shift s next = ⟨.moved token :: (next token t (TokenStream.advance_size_lt isSome advanced)).attempts,
      (next token t (TokenStream.advance_size_lt isSome advanced)).outcome.map (Parsed.weaken
        (Nat.le_of_lt (TokenStream.advance_size_lt isSome advanced)))⟩ := by
  unfold shift
  rw [dif_pos isSome]
  split <;> cases ‹s.advance = _›.symm.trans advanced
  rfl

theorem shift_of_error {next : Option Token → (t : TokenStream) → t.size < s.size → Watched α t.size}
    {t : TokenStream} {error : ParseError} (isSome : s.current.isSome) (advanced : s.advance = .error error t) :
    shift s next = ⟨[.stopped error], .ok (.failed error t)⟩ := by
  unfold shift
  rw [dif_pos isSome]
  split <;> cases ‹s.advance = _›.symm.trans advanced
  rfl

theorem mirrors_shift {token : Token} {next : Option Token → (t : TokenStream) → t.size < s.size → Watched α t.size}
    {plainNext : (t : TokenStream) → t.size < s.size → Parsed α t.size} (current : s.current = some token)
    (step : ∀ t shorter, (next (some token) t shorter).Mirrors t (plainNext t shorter)) :
    (shift s next).Mirrors s (s.shift plainNext) := by
  have isSome : s.current.isSome := by rw [current]; rfl
  cases advanced : s.advance with
  | error error t =>
    rw [shift_of_error isSome advanced, TokenStream.shift_of_error isSome advanced]
    exact ⟨rfl, .stopped advanced (.stay t), fun done => by cases done⟩
  | ok found t =>
    obtain rfl : found = some token := (TokenStream.eq_current_of_advance advanced).trans current
    have rest := step t (TokenStream.advance_size_lt isSome advanced)
    rw [shift_of_ok isSome advanced, TokenStream.shift_of_ok isSome advanced]
    refine ⟨congrArg (Except.map _) rest.outcome, ?_, ?_⟩
    · rw [Parsed.stream_weaken]
      exact .moved advanced rest.trail
    · intro done attempt member
      rw [Parsed.isDone_weaken] at done
      rcases List.mem_cons.mp member with rfl | member
      · exact ⟨token, rfl⟩
      · exact rest.smooth done attempt member

theorem mirrors_consume {kind : Token.Kind} {token : Token}
    {next : Option Token → (t : TokenStream) → t.size < s.size → Watched α t.size}
    {plainNext : (t : TokenStream) → t.size < s.size → Parsed α t.size} (current : s.current = some token)
    (wanted : token.kind = kind) (step : ∀ t shorter, (next (some token) t shorter).Mirrors t (plainNext t shorter)) :
    (consume kind s next).Mirrors s (s.shift plainNext) := by
  have same : s.current.map Token.kind = some kind := by rw [current, ← wanted]; rfl
  rw [consume, if_pos same]
  exact mirrors_shift current step

theorem kind_eq_symbol {token : Token} {symbol : Symbol} (same : token.kind = .symbol symbol) :
    token = .symbol symbol := by
  cases token <;> cases same
  rfl

theorem mirrors_consume_of_ne {symbol : Symbol}
    {next : Option Token → (t : TokenStream) → t.size < s.size → Watched α t.size}
    (other : s.current ≠ some (.symbol symbol)) :
    (consume (.symbol symbol) s next).Mirrors s (.failed s.unexpected s) := by
  have unwanted : s.current.map Token.kind ≠ some (.symbol symbol) := by
    intro same
    obtain ⟨token, current, kind⟩ := Option.map_eq_some_iff.mp same
    exact other (current.trans (congrArg some (kind_eq_symbol kind)))
  rw [consume, if_neg unwanted]
  exact mirrors_failed s.unexpected s

theorem mirrors_number (literal : String) (s : TokenStream) :
    (number literal s).Mirrors s (match numberOfLiteral literal with
      | .ok value => .value (.number value) s
      | .error error => .failed error s) := by
  rw [number, countedPart?_eq]
  dsimp only
  by_cases digit : (beforePoint 1 literal.toList).any Char.isDigit = true
  · have counts : hasDigit literal = true := digit
    rw [numberOfLiteral_of_hasDigit counts, if_pos digit]
    exact mirrors_value _ s
  · have digitless : hasDigit literal = false := Bool.eq_false_iff.mpr digit
    rw [numberOfLiteral_of_not_hasDigit digitless, if_neg digit]
    exact mirrors_failed _ s

end Watched

namespace Grammar

open Watched

-- The rules are opened side by side. Where the watched rule asks for a token, the plain rule has matched on it.
mutual

theorem expression_watched (s : TokenStream) : (Watched.expression s).Mirrors s (expression s) := by
  rw [Watched.expression, expression]
  exact mirrors_andThen (term_watched s) fun left t shrinks => moreTerms_watched left t
termination_by 6 * s.size + 4

theorem moreTerms_watched (left : Expr) (s : TokenStream) :
    (Watched.moreTerms left s).Mirrors s (moreTerms left s) := by
  rw [Watched.moreTerms, moreTerms]
  cases found : s.operator? BinaryOp.isAdditive with
  | none => exact mirrors_value left s
  | some op =>
    obtain ⟨current, _⟩ := TokenStream.operator?_eq_some found
    exact mirrors_shift current fun t shorter =>
      mirrors_andThen (term_watched t) fun right u shrinks => moreTerms_watched (.binary op left right) u
termination_by 6 * s.size

theorem term_watched (s : TokenStream) : (Watched.term s).Mirrors s (term s) := by
  rw [Watched.term, term]
  exact mirrors_andThen (unary_watched s) fun left t shrinks => moreFactors_watched left t
termination_by 6 * s.size + 3

theorem moreFactors_watched (left : Expr) (s : TokenStream) :
    (Watched.moreFactors left s).Mirrors s (moreFactors left s) := by
  rw [Watched.moreFactors, moreFactors]
  cases found : s.operator? BinaryOp.isMultiplicative with
  | none => exact mirrors_value left s
  | some op =>
    obtain ⟨current, _⟩ := TokenStream.operator?_eq_some found
    exact mirrors_shift current fun t shorter =>
      mirrors_andThen (unary_watched t) fun right u shrinks => moreFactors_watched (.binary op left right) u
termination_by 6 * s.size

theorem unary_watched (s : TokenStream) : (Watched.unary s).Mirrors s (unary s) := by
  rw [unary]
  split
  · rename_i current
    rw [Watched.unary, if_pos current]
    exact mirrors_shift current fun t shorter => mirrors_map Expr.neg (unary_watched t)
  · rename_i other
    rw [Watched.unary, if_neg other]
    exact power_watched s
termination_by 6 * s.size + 2

theorem power_watched (s : TokenStream) : (Watched.power s).Mirrors s (power s) := by
  rw [Watched.power, power]
  refine mirrors_andThen (primary_watched s) fun base t shrinks => ?_
  by_cases current : t.current = some (.symbol .caret)
  · rw [if_pos current, current]
    exact mirrors_shift current fun u shorter => mirrors_map (Expr.binary .pow base) (unary_watched u)
  · rw [if_neg current]
    split
    · contradiction
    · exact mirrors_value base t
termination_by 6 * s.size + 1

theorem primary_watched (s : TokenStream) : (Watched.primary s).Mirrors s (primary s) := by
  rw [primary]
  split
  · rename_i literal current
    rw [Watched.primary, current]
    exact mirrors_shift current fun t shorter => mirrors_number literal t
  · rename_i name current
    rw [Watched.primary, current]
    refine mirrors_consume current rfl fun t shorter => ?_
    dsimp only
    by_cases opened : t.current = some (.symbol .leftParen)
    · rw [if_pos opened, opened]
      refine mirrors_shift opened fun u shorter' => ?_
      by_cases closed : u.current = some (.symbol .rightParen)
      · rw [if_pos closed, closed]
        exact mirrors_shift closed fun v shorter'' => mirrors_value (Expr.call name []) v
      · rw [if_neg closed]
        split
        · contradiction
        · exact mirrors_map (Expr.call name) (arguments_watched u)
    by_cases equals : t.current = some (.symbol .equals)
    · rw [if_neg opened, if_pos equals, equals]
      exact mirrors_shift equals fun u shorter' => mirrors_map (Expr.assign name) (expression_watched u)
    · rw [if_neg opened, if_neg equals]
      split
      · contradiction
      · contradiction
      · exact mirrors_value (Expr.var name) t
  · rename_i current
    rw [Watched.primary, current]
    refine mirrors_consume current rfl fun t shorter => ?_
    refine mirrors_andThen (expression_watched t) fun e u shrinks => ?_
    split
    · rename_i closed
      exact mirrors_consume closed rfl fun v shorter' => mirrors_value e v
    · rename_i other
      exact mirrors_consume_of_ne other
  · rename_i notNumber notName notParen
    rw [Watched.primary]
    split
    · exact absurd ‹s.current = _› (notNumber _)
    · exact absurd ‹s.current = _› (notName _)
    · exact absurd ‹s.current = _› notParen
    · exact mirrors_failed s.unexpected s
termination_by 6 * s.size

theorem arguments_watched (s : TokenStream) : (Watched.arguments s).Mirrors s (arguments s) := by
  rw [Watched.arguments, arguments]
  refine mirrors_andThen (expression_watched s) fun first t shrinks => ?_
  by_cases comma : t.current = some (.symbol .comma)
  · rw [if_pos comma, comma]
    exact mirrors_shift comma fun u shorter => mirrors_map (first :: ·) (arguments_watched u)
  · rw [if_neg comma]
    split
    · contradiction
    · rename_i closed
      exact mirrors_consume closed rfl fun u shorter => mirrors_value [first] u
    · rename_i other
      exact mirrors_consume_of_ne other
termination_by 6 * s.size + 5

end

end Grammar

end Calculator
