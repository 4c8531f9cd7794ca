import Calculator.Proofs.Descent
import Calculator.Proofs.Outline

/-! # The verdict on a text

The outline of a text decides how reading it ends: in front of which piece, and with which error. The descent keeps
to the outline at every depth, whatever parentheses are open around the rule at work.
-/

namespace Calculator

/-- What is wrong with a token by itself: a literal that denotes no number. -/
def Token.fault? : Token → Option ParseError
  | .number literal =>
    match numberOfLiteral literal with
    | .ok _ => none
    | .error error => some error
  | _ => none

namespace Place

def close (p : Place) (found : Option Token) (left : List Lexeme) : Except ParseError (List Lexeme) :=
  if p.isComplete then .ok left else .error (.unexpected found)

/-- Read pieces as long as they are taken; what is left is given back. A stray character is met first, then a fault
    of the last token, and only then the next token is judged. -/
def scan (p : Place) (fault : Option ParseError) : List Lexeme → Except ParseError (List Lexeme)
  | .stray c :: _ => .error (.strayCharacter c)
  | [] =>
    match fault with
    | some error => .error error
    | none => p.close none []
  | .token token :: rest =>
    match fault with
    | some error => .error error
    | none =>
      match p.step token with
      | some q => q.scan token.fault? rest
      | none => p.close (some token) (.token token :: rest)

/-- What cannot stand behind an expression, given the parentheses around it. -/
theorem leave_eq_none {token : Token} {brackets : List Bracket}
    (ends : Rule.expression.continuedBy (some token) = false)
    (notClosed : token = .symbol .rightParen → brackets = [])
    (notComma : token = .symbol .comma → brackets.head? ≠ some .call) : leave brackets token = none := by
  rcases token with _ | _ | s
  · rfl
  · rfl
  · cases s with
    | plus | minus | star | slash | caret => cases ends
    | rightParen => rw [notClosed rfl]; rfl
    | comma => exact if_neg (notComma rfl)
    | leftParen | equals => rfl

theorem scan_step {p q : Place} {token : Token} (step : p.step token = some q) (rest : List Lexeme) :
    p.scan none (.token token :: rest) = q.scan token.fault? rest := by
  rw [scan, step]

theorem scan_stop {p : Place} {token : Token} (step : p.step token = none) (rest : List Lexeme) :
    p.scan none (.token token :: rest) = p.close (some token) (.token token :: rest) := by
  rw [scan, step]

theorem scan_congr {p q : Place} {token : Token} (step : p.step token = q.step token)
    (complete : p.isComplete = q.isComplete) (rest : List Lexeme) :
    p.scan none (.token token :: rest) = q.scan none (.token token :: rest) := by
  rw [scan, scan, step, close, close, complete]

theorem scan_run {p q : Place} {w : List Token} (run : p.run w = some q) (faultless : ∀ token ∈ w, token.fault? = none)
    (rest : List Lexeme) : p.scan none (w.map .token ++ rest) = q.scan none rest := by
  induction w generalizing p with
  | nil =>
    cases run
    rfl
  | cons token w ih =>
    obtain ⟨next, step, run⟩ := Option.bind_eq_some_iff.mp run
    rw [List.map_cons, List.cons_append, scan_step step, faultless token List.mem_cons_self]
    exact ih run fun other member => faultless other (List.mem_cons_of_mem token member)

end Place

namespace TokenStream

variable {s t : TokenStream} {token : Token} {p q : Place}

theorem scan_of_advance_eq_ok (current : s.current = some token) {moved : Option Token}
    (advanced : s.advance = .ok moved t) (step : p.step token = some q) :
    p.scan none s.lexemes = q.scan token.fault? t.lexemes := by
  rw [lexemes_of_advance_eq_ok current advanced, Place.scan_step step]

theorem scan_of_advance_eq_error (current : s.current = some token) {error : ParseError}
    (advanced : s.advance = .error error t) (step : p.step token = some q) :
    p.scan none s.lexemes = .error error := by
  obtain ⟨c, rfl, lexemes⟩ := lexemes_of_advance_eq_error current advanced
  rw [lexemes, Place.scan_step step, Place.scan]

/-- A stream has read its current token, so a fault of the token before it is met at once. -/
theorem scan_fault (s : TokenStream) (p : Place) (error : ParseError) :
    p.scan (some error) s.lexemes = .error error := by
  cases current : s.current with
  | none => rw [lexemes_eq_nil current]; rfl
  | some token => rw [lexemes_eq_cons current]; rfl

theorem scan_close (h : ∀ token, s.current = some token → p.step token = none) :
    p.scan none s.lexemes = p.close s.current s.lexemes := by
  cases current : s.current with
  | none => rw [lexemes_eq_nil current]; rfl
  | some token => rw [lexemes_eq_cons current, Place.scan_stop (h token current)]

theorem scan_firstArgument {brackets : List Bracket} (notClosed : s.current ≠ some (.symbol .rightParen)) :
    Place.scan ⟨.firstArgument, brackets⟩ none s.lexemes = Place.scan ⟨.operand, brackets⟩ none s.lexemes := by
  cases current : s.current with
  | none => rw [lexemes_eq_nil current]; rfl
  | some token =>
    rw [lexemes_eq_cons current]
    exact Place.scan_congr (Place.step_firstArgument (fun same => notClosed (same ▸ current)) brackets) rfl _

theorem scan_name {brackets : List Bracket} (notOpened : s.current ≠ some (.symbol .leftParen))
    (notEquals : s.current ≠ some (.symbol .equals)) :
    Place.scan ⟨.name, brackets⟩ none s.lexemes = Place.scan ⟨.value, brackets⟩ none s.lexemes := by
  cases current : s.current with
  | none => rw [lexemes_eq_nil current]; rfl
  | some token =>
    rw [lexemes_eq_cons current]
    exact Place.scan_congr (Place.step_name (fun same => notOpened (same ▸ current))
      (fun same => notEquals (same ▸ current)) brackets) rfl _

end TokenStream

namespace Parsed

variable {α β : Type} {bound : Nat} {verdict : Except ParseError (List Lexeme)} {p q : Place}

/-- An outcome that agrees with a verdict: an error is the verdict itself, and behind a value it is still the
    verdict of the place reached. -/
def Agrees (outcome : Parsed α bound) (verdict : Except ParseError (List Lexeme)) (reached : Place) : Prop :=
  outcome.Meets (fun _ t => verdict = reached.scan none t.lexemes) fun error _ => verdict = .error error

theorem agrees_map {outcome : Parsed α bound} {f : α → β} (h : outcome.Agrees verdict p) :
    (outcome.map f).Agrees verdict p :=
  meets_map h

theorem agrees_andThen {first : Parsed α bound} {next : α → (s : TokenStream) → s.size ≤ bound → Parsed β s.size}
    {read : α → TokenStream → Prop} (h : first.Agrees verdict p) (reads : first.Meets read Grammar.anyFailure)
    (step : ∀ a t shrinks, read a t → (next a t shrinks).Agrees (p.scan none t.lexemes) q) :
    (first.andThen next).Agrees verdict q := by
  refine meets_andThen ((h.and reads).mono (fun _ _ _ both => both) fun _ _ both => both.1) ?_
  intro a t shrinks ⟨same, readHere⟩
  rw [same]
  exact step a t shrinks readHere

theorem agrees_shift {s : TokenStream} {token : Token} {reached : Place}
    {next : (t : TokenStream) → t.size < s.size → Parsed α t.size} (current : s.current = some token)
    (step : p.step token = some q)
    (moved : ∀ t shorter, (next t shorter).Agrees (q.scan token.fault? t.lexemes) reached) :
    (s.shift next).Agrees (p.scan none s.lexemes) reached := by
  refine meets_shift current (fun t shorter advanced => ?_) fun error t advanced => ?_
  · rw [TokenStream.scan_of_advance_eq_ok current advanced step]
    exact moved t shorter
  · exact TokenStream.scan_of_advance_eq_error current advanced step

end Parsed

namespace Grammar

open Calculator.Derivation Calculator.Parsed

-- The parentheses around a rule are arbitrary: no rule looks at them, but they decide where its outline goes on.
mutual

theorem expression_agrees (s : TokenStream) (brackets : List Bracket) :
    (expression s).Agrees (Place.scan ⟨.operand, brackets⟩ none s.lexemes) ⟨.value, brackets⟩ := by
  rw [expression]
  exact agrees_andThen (term_agrees s brackets) (term_reads s) fun left t _ _ => moreTerms_agrees left t brackets
termination_by 6 * s.size + 4

theorem moreTerms_agrees (left : Expr) (s : TokenStream) (brackets : List Bracket) :
    (moreTerms left s).Agrees (Place.scan ⟨.value, brackets⟩ none s.lexemes) ⟨.value, brackets⟩ := by
  rw [moreTerms]
  split
  · rename_i op found
    obtain ⟨current, _⟩ := TokenStream.operator?_eq_some found
    refine agrees_shift current (Place.step_operator rfl brackets op) fun t shorter => ?_
    exact agrees_andThen (term_agrees t brackets) (term_reads t) fun right u _ _ =>
      moreTerms_agrees (.binary op left right) u brackets
  · exact rfl
termination_by 6 * s.size

theorem term_agrees (s : TokenStream) (brackets : List Bracket) :
    (term s).Agrees (Place.scan ⟨.operand, brackets⟩ none s.lexemes) ⟨.value, brackets⟩ := by
  rw [term]
  exact agrees_andThen (unary_agrees s brackets) (unary_reads s) fun left t _ _ => moreFactors_agrees left t brackets
termination_by 6 * s.size + 3

theorem moreFactors_agrees (left : Expr) (s : TokenStream) (brackets : List Bracket) :
    (moreFactors left s).Agrees (Place.scan ⟨.value, brackets⟩ none s.lexemes) ⟨.value, brackets⟩ := by
  rw [moreFactors]
  split
  · rename_i op found
    obtain ⟨current, _⟩ := TokenStream.operator?_eq_some found
    refine agrees_shift current (Place.step_operator rfl brackets op) fun t shorter => ?_
    exact agrees_andThen (unary_agrees t brackets) (unary_reads t) fun right u _ _ =>
      moreFactors_agrees (.binary op left right) u brackets
  · exact rfl
termination_by 6 * s.size

theorem unary_agrees (s : TokenStream) (brackets : List Bracket) :
    (unary s).Agrees (Place.scan ⟨.operand, brackets⟩ none s.lexemes) ⟨.value, brackets⟩ := by
  rw [unary]
  split
  · rename_i current
    exact agrees_shift current rfl fun t shorter => agrees_map (unary_agrees t brackets)
  · rename_i notMinus
    exact power_agrees s brackets notMinus
termination_by 6 * s.size + 2

theorem power_agrees (s : TokenStream) (brackets : List Bracket) (notMinus : s.current ≠ some (.symbol .minus)) :
    (power s).Agrees (Place.scan ⟨.operand, brackets⟩ none s.lexemes) ⟨.value, brackets⟩ := by
  rw [power]
  refine agrees_andThen (primary_agrees s brackets notMinus) (primary_reads s) fun base t _ _ => ?_
  split
  · rename_i current
    exact agrees_shift current rfl fun u shorter => agrees_map (unary_agrees u brackets)
  · exact rfl
termination_by 6 * s.size + 1

theorem primary_agrees (s : TokenStream) (brackets : List Bracket) (notMinus : s.current ≠ some (.symbol .minus)) :
    (primary s).Agrees (Place.scan ⟨.operand, brackets⟩ none s.lexemes) ⟨.value, brackets⟩ := by
  rw [primary]
  split
  · rename_i literal current
    refine agrees_shift current rfl fun t shorter => ?_
    cases value : numberOfLiteral literal with
    | ok x =>
      exact congrArg (fun fault => Place.scan ⟨.value, brackets⟩ fault t.lexemes) (by simp [Token.fault?, value])
    | error error =>
      have fault : (Token.number literal).fault? = some error := by simp [Token.fault?, value]
      rw [fault, TokenStream.scan_fault]
      exact rfl
  · rename_i name current
    refine agrees_shift current rfl fun t shorter => ?_
    split
    · rename_i opened
      refine agrees_shift opened rfl fun u shorter' => ?_
      split
      · rename_i closed
        exact agrees_shift closed rfl fun v shorter'' => rfl
      · rename_i notClosed
        have agreed := arguments_agrees u brackets
        rw [← TokenStream.scan_firstArgument notClosed] at agreed
        exact agrees_map agreed
    · rename_i equals
      exact agrees_shift equals rfl fun u shorter' => agrees_map (expression_agrees u brackets)
    · rename_i notOpened notEquals
      exact TokenStream.scan_name notOpened notEquals
  · rename_i current
    refine agrees_shift current rfl fun t shorter => ?_
    refine agrees_andThen (expression_agrees t (.group :: brackets)) (expression_reads t) fun e u _ read => ?_
    split
    · rename_i closed
      exact agrees_shift closed rfl fun v shorter' => rfl
    · rename_i notClosed
      obtain ⟨_, _, inner⟩ := read
      refine TokenStream.scan_close fun token current => ?_
      have ends := inner.maximal.ends
      rw [current] at ends
      exact Place.leave_eq_none ends (fun same => absurd (same ▸ current) notClosed) fun _ => by simp
  · rename_i notNumber notName notOpened
    refine TokenStream.scan_close fun token current => ?_
    rcases token with _ | _ | symbol
    · exact absurd current (notNumber _)
    · exact absurd current (notName _)
    · cases symbol with
      | leftParen => exact absurd current notOpened
      | minus => exact absurd current notMinus
      | plus | star | slash | caret | rightParen | equals | comma => rfl
termination_by 6 * s.size

theorem arguments_agrees (s : TokenStream) (brackets : List Bracket) :
    (arguments s).Agrees (Place.scan ⟨.operand, .call :: brackets⟩ none s.lexemes) ⟨.value, brackets⟩ := by
  rw [arguments]
  refine agrees_andThen (expression_agrees s (.call :: brackets)) (expression_reads s) fun e t _ read => ?_
  split
  · rename_i comma
    exact agrees_shift comma rfl fun u shorter => agrees_map (arguments_agrees u brackets)
  · rename_i closed
    exact agrees_shift closed rfl fun u shorter => rfl
  · rename_i notComma notClosed
    obtain ⟨_, _, last⟩ := read
    refine TokenStream.scan_close fun token current => ?_
    have ends := last.maximal.ends
    rw [current] at ends
    exact Place.leave_eq_none ends (fun same => absurd (same ▸ current) notClosed)
      fun same => absurd (same ▸ current) notComma
termination_by 6 * s.size + 5

end

/-- Reading an expression ends as its outline says. -/
theorem expression_verdict (s : TokenStream) :
    (expression s).Meets (fun _ t => Place.start.scan none s.lexemes = .ok t.lexemes)
      fun error _ => Place.start.scan none s.lexemes = .error error := by
  refine ((expression_agrees s []).and (expression_reads s)).mono ?_ fun _ _ both => both.1
  intro e t _ ⟨same, d, _, read⟩
  rw [Place.start, same]
  refine TokenStream.scan_close fun token current => ?_
  have ends := read.maximal.ends
  rw [current] at ends
  exact Place.leave_eq_none ends (fun _ => rfl) fun _ => by simp

end Grammar

end Calculator
