import Calculator.Proofs.Recognition

/-! # Viable texts

A text of tokens is viable if some continuation makes it a sentence. The outline is exact: it takes the viable texts
and no others, and calls the sentences complete and no others. So both notions can be decided.
-/

namespace Calculator

/-- Tokens that some continuation makes a sentence. -/
def Viable (w : List Token) : Prop := ∃ v, Sentence (w ++ v)

/-- Tokens that make an expression of every expression they stand in front of. -/
def Leads (u : List Token) : Prop :=
  ∀ d : Derivation .expression, ∃ d' : Derivation .expression, d'.word = u ++ d.word

theorem BinaryOp.isAdditive_or_isMultiplicative_or_eq_pow (op : BinaryOp) :
    op.isAdditive = true ∨ op.isMultiplicative = true ∨ op = .pow := by
  cases op <;> decide

namespace Derivation

theorem leads_minus : Leads [.symbol .minus]
  | .expression (.term first factors) terms => ⟨.expression (.term (.neg first) factors) terms, rfl⟩

theorem leads_equals (name : String) : Leads [.identifier name, .symbol .equals] := by
  intro d
  exact ⟨(assign name d).bare.alone, word_alone _⟩

/-- Whatever binds tighter in the expression to the right is split off it, since the operand to the left is a
    primary one. -/
theorem leads_operator (left : Derivation .primary) (op : BinaryOp) : Leads (left.word ++ [.symbol op.symbol])
  | .expression (.term first factors) terms => by
    rcases op.isAdditive_or_isMultiplicative_or_eq_pow with additive | multiplicative | rfl
    · refine ⟨.expression (.term left.bare .noFactors)
        (.moreTerms op additive (.term first factors) terms), ?_⟩
      simp only [word, word_bare, List.append_nil, List.append_assoc, List.singleton_append]
    · refine ⟨.expression (.term left.bare (.moreFactors op multiplicative first factors)) terms, ?_⟩
      simp only [word, word_bare, List.append_assoc, List.cons_append, List.nil_append]
    · refine ⟨.expression (.term (.plain (.raised left first)) factors) terms, ?_⟩
      simp only [word, BinaryOp.symbol, List.append_assoc, List.cons_append, List.nil_append]

end Derivation

abbrev Bracket.rule : Bracket → Rule
  | group => .expression
  | call => .arguments

/-- What makes a sentence where an operand is due: it closes all open parentheses, innermost first, and behind a
    partner it goes on as behind any operand. -/
def Finishes : List Bracket → List Token → Prop
  | [], w => Sentence w
  | bracket :: outer, w => ∃ (d : Derivation bracket.rule) (v : List Token), w = d.word ++ .symbol .rightParen :: v ∧
      ∀ operand : Derivation .primary, Finishes outer (operand.word ++ v)

namespace Finishes

variable {brackets : List Bracket} {w : List Token}

theorem lead {u : List Token} (leads : Leads u) (h : Finishes brackets w) : Finishes brackets (u ++ w) := by
  match brackets, h with
  | [], ⟨d, word⟩ =>
    obtain ⟨d', word'⟩ := leads d
    exact ⟨d', by rw [word', word]⟩
  | .group :: _, ⟨d, v, text, after⟩ =>
    obtain ⟨d', word'⟩ := leads d
    exact ⟨d', v, by rw [text, word', List.append_assoc], after⟩
  | .call :: _, ⟨.lastArgument e, v, text, after⟩ =>
    obtain ⟨e', word'⟩ := leads e
    exact ⟨.lastArgument e', v, by rw [text, Derivation.word, Derivation.word, word', List.append_assoc], after⟩
  | .call :: _, ⟨.argument e others, v, text, after⟩ =>
    obtain ⟨e', word'⟩ := leads e
    refine ⟨.argument e' others, v, ?_, after⟩
    rw [text, Derivation.word, Derivation.word, word']
    simp only [List.append_assoc]

theorem comma (operand : Derivation .primary) (h : Finishes (.call :: brackets) w) :
    Finishes (.call :: brackets) (operand.word ++ .symbol .comma :: w) := by
  obtain ⟨d, v, rfl, after⟩ := h
  refine ⟨.argument operand.bare.alone d, v, ?_, after⟩
  simp only [Derivation.word, Derivation.word_alone, Derivation.word_bare, List.append_assoc, List.cons_append]

theorem rightParen (operand : Derivation .primary) (bracket : Bracket)
    (after : ∀ outside : Derivation .primary, Finishes brackets (outside.word ++ w)) :
    Finishes (bracket :: brackets) (operand.word ++ .symbol .rightParen :: w) := by
  cases bracket with
  | group => exact ⟨operand.bare.alone, w, by rw [Derivation.word_alone, Derivation.word_bare], after⟩
  | call =>
    exact ⟨.lastArgument operand.bare.alone, w,
      by rw [Derivation.word, Derivation.word_alone, Derivation.word_bare], after⟩

theorem group (h : Finishes (.group :: brackets) w) : Finishes brackets (.symbol .leftParen :: w) := by
  obtain ⟨d, v, rfl, after⟩ := h
  have finished := after (.group d)
  rwa [Derivation.word, List.cons_append, List.append_assoc] at finished

theorem call (name : String) (h : Finishes (.call :: brackets) w) :
    Finishes brackets (.identifier name :: .symbol .leftParen :: w) := by
  obtain ⟨d, v, rfl, after⟩ := h
  have finished := after (.call name d)
  rwa [Derivation.word, List.cons_append, List.cons_append, List.append_assoc] at finished

end Finishes

namespace Place

/-- What makes a sentence from a place on, told by the operand in front of it. -/
def Finishes (p : Place) (w : List Token) : Prop :=
  match p.mode with
  | .operand => Calculator.Finishes p.brackets w
  | .firstArgument => ∀ outer, p.brackets = .call :: outer →
      ∀ name, Calculator.Finishes outer (.identifier name :: .symbol .leftParen :: w)
  | .name => ∀ name, Calculator.Finishes p.brackets (.identifier name :: w)
  | .value => ∀ operand : Derivation .primary, Calculator.Finishes p.brackets (operand.word ++ w)

variable {p q : Place} {token : Token} {w : List Token} {brackets : List Bracket}

theorem finishes_of_enter (entered : enter brackets token = some q) (rest : q.Finishes w) :
    Calculator.Finishes brackets (token :: w) := by
  match token, entered with
  | .number literal, rfl => exact rest (.number literal)
  | .identifier name, rfl => exact rest name
  | .symbol .leftParen, rfl => exact .group rest
  | .symbol .minus, rfl => exact .lead Derivation.leads_minus rest

theorem finishes_of_operator (op : BinaryOp) (rest : Calculator.Finishes brackets w) (operand : Derivation .primary) :
    Calculator.Finishes brackets (operand.word ++ .symbol op.symbol :: w) := by
  have finished := Calculator.Finishes.lead (Derivation.leads_operator operand op) rest
  rwa [List.append_assoc, List.singleton_append] at finished

theorem finishes_of_leave (left : leave brackets token = some q) (rest : q.Finishes w)
    (operand : Derivation .primary) : Calculator.Finishes brackets (operand.word ++ token :: w) := by
  match token, brackets, left with
  | .symbol .rightParen, bracket :: _, rfl => exact .rightParen operand bracket rest
  | .symbol .comma, .call :: _, rfl => exact .comma operand rest
  | .symbol .plus, _, rfl => exact finishes_of_operator .add rest operand
  | .symbol .minus, _, rfl => exact finishes_of_operator .sub rest operand
  | .symbol .star, _, rfl => exact finishes_of_operator .mul rest operand
  | .symbol .slash, _, rfl => exact finishes_of_operator .div rest operand
  | .symbol .caret, _, rfl => exact finishes_of_operator .pow rest operand

/-- A token that is taken can be put in front of what finishes the text behind it. -/
theorem finishes_of_step (step : p.step token = some q) (rest : q.Finishes w) : p.Finishes (token :: w) := by
  obtain ⟨mode, brackets⟩ := p
  cases mode with
  | operand => exact finishes_of_enter step rest
  | value => exact finishes_of_leave step rest
  | firstArgument =>
    rintro outer rfl name
    by_cases closed : token = .symbol .rightParen
    · subst closed
      cases step
      exact rest (.emptyCall name)
    · rw [step_firstArgument closed] at step
      exact .call name (finishes_of_enter step rest)
  | name =>
    intro name
    by_cases opened : token = .symbol .leftParen
    · subst opened
      cases step
      exact rest brackets rfl name
    · by_cases equals : token = .symbol .equals
      · subst equals
        cases step
        exact .lead (Derivation.leads_equals name) rest
      · rw [step_name opened equals] at step
        exact finishes_of_leave step rest (.var name)

theorem finishes_nil (complete : p.isComplete = true) : p.Finishes [] := by
  obtain ⟨isEnd, closed⟩ := Bool.and_eq_true_iff.mp complete
  obtain ⟨mode, brackets⟩ := p
  obtain rfl : brackets = [] := List.isEmpty_iff.mp closed
  cases mode with
  | operand | firstArgument => cases isEnd
  | name => exact fun name => ⟨(Derivation.var name).bare.alone, rfl⟩
  | value =>
    exact fun operand => ⟨operand.bare.alone, by rw [Derivation.word_alone, Derivation.word_bare, List.append_nil]⟩

theorem finishes_of_run (run : p.run w = some q) (complete : q.isComplete = true) : p.Finishes w := by
  -- from the end of the text on, where nothing is left to finish
  induction w generalizing p with
  | nil =>
    cases run
    exact finishes_nil complete
  | cons token w ih =>
    obtain ⟨next, step, run⟩ := Option.bind_eq_some_iff.mp run
    exact finishes_of_step step (ih run)

/-- Closing all open parentheses finishes a text that ends in an operand. -/
theorem run_rightParens {mode : Mode} (isEnd : mode.isEnd = true) (brackets : List Bracket) :
    ∃ w q, run ⟨mode, brackets⟩ w = some q ∧ q.isComplete = true := by
  induction brackets generalizing mode with
  | nil => exact ⟨[], ⟨mode, []⟩, rfl, by rw [isComplete, isEnd]; rfl⟩
  | cons bracket brackets ih =>
    obtain ⟨w, q, run, complete⟩ := @ih .value rfl
    exact ⟨.symbol .rightParen :: w, q, run_cons (step_rightParen isEnd bracket brackets) run, complete⟩

theorem run_complete (p : Place) : ∃ w q, p.run w = some q ∧ q.isComplete = true := by
  obtain ⟨mode, brackets⟩ := p
  cases mode with
  | name | value => exact run_rightParens rfl brackets
  | operand | firstArgument =>
    obtain ⟨w, q, run, complete⟩ := @run_rightParens .value rfl brackets
    exact ⟨.number "0" :: w, q, run, complete⟩

end Place

theorem sentence_iff_run {w : List Token} : Sentence w ↔ (Place.start.run w).any Place.isComplete = true := by
  rw [Option.any_eq_true]
  refine ⟨Sentence.run, ?_⟩
  rintro ⟨p, run, complete⟩
  exact Place.finishes_of_run run complete

theorem viable_iff_run {w : List Token} : Viable w ↔ (Place.start.run w).isSome = true := by
  constructor
  · rintro ⟨v, sentence⟩
    obtain ⟨p, run, _⟩ := sentence.run
    rw [Place.run_append] at run
    obtain ⟨q, run, _⟩ := Option.bind_eq_some_iff.mp run
    rw [run]
    rfl
  · intro taken
    obtain ⟨p, run⟩ := Option.isSome_iff_exists.mp taken
    obtain ⟨v, q, finish, complete⟩ := p.run_complete
    have sentence : Sentence (w ++ v) := Place.finishes_of_run (Place.run_trans run finish) complete
    exact ⟨v, sentence⟩

instance (w : List Token) : Decidable (Sentence w) := decidable_of_iff _ sentence_iff_run.symm

instance (w : List Token) : Decidable (Viable w) := decidable_of_iff _ viable_iff_run.symm

end Calculator
