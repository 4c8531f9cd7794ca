import Calculator.Proofs.Derivation

/-! # Outlines

Whether tokens form an expression can be told from left to right with no tree at all: it takes to know whether an
operand is due and which parentheses are open. As far as words go, an assignment is a name and a sign in front of
an operand, so it does not matter where its value ends.
-/

namespace Calculator

/-- What an open parenthesis encloses. -/
inductive Bracket where
  | group
  | call
  deriving DecidableEq, Repr

/-- What the next token can do. -/
inductive Mode where
  /-- It must start an operand. -/
  | operand
  /-- It must start the first argument of a call or close the call. -/
  | firstArgument
  /-- It stands behind an operand that so far is a lone name. -/
  | name
  /-- It stands behind any other operand. -/
  | value
  deriving DecidableEq, Repr

/-- Whether an operand ends in front of the next token. -/
def Mode.isEnd : Mode → Bool
  | operand | firstArgument => false
  | name | value => true

/-- How far a text of tokens has come: what can follow, and the open parentheses, innermost first. -/
structure Place where
  mode : Mode
  brackets : List Bracket
  deriving DecidableEq, Repr

namespace Place

def start : Place := ⟨.operand, []⟩

/-- Whether an expression can end here. -/
def isComplete (p : Place) : Bool := p.mode.isEnd && p.brackets.isEmpty

/-- A token that starts an operand. -/
def enter (brackets : List Bracket) : Token → Option Place
  | .number _ => some ⟨.value, brackets⟩
  | .identifier _ => some ⟨.name, brackets⟩
  | .symbol .leftParen => some ⟨.operand, .group :: brackets⟩
  | .symbol .minus => some ⟨.operand, brackets⟩
  | _ => none

/-- A token behind an operand. -/
def leave (brackets : List Bracket) : Token → Option Place
  | .symbol .rightParen => brackets.tail?.map fun outer => ⟨.value, outer⟩
  | .symbol .comma => if brackets.head? = some .call then some ⟨.operand, brackets⟩ else none
  | .symbol s => if s.operator?.isSome then some ⟨.operand, brackets⟩ else none
  | _ => none

/-- The place behind a token, if it can stand here. -/
def step (p : Place) (token : Token) : Option Place :=
  match p.mode, token with
  | .operand, token => enter p.brackets token
  | .firstArgument, .symbol .rightParen => leave p.brackets token
  | .firstArgument, token => enter p.brackets token
  | .name, .symbol .leftParen => some ⟨.firstArgument, .call :: p.brackets⟩
  | .name, .symbol .equals => some ⟨.operand, p.brackets⟩
  | .name, token => leave p.brackets token
  | .value, token => leave p.brackets token

def run (p : Place) : List Token → Option Place
  | [] => some p
  | token :: rest => (p.step token).bind fun q => q.run rest

theorem run_nil (p : Place) : p.run [] = some p := rfl

theorem run_append (p : Place) (w v : List Token) : p.run (w ++ v) = (p.run w).bind fun q => q.run v := by
  induction w generalizing p with
  | nil => rfl
  | cons token w ih =>
    rw [List.cons_append, run, run, Option.bind_assoc]
    exact Option.bind_congr fun q _ => ih q

theorem run_cons {p q q' : Place} {token : Token} {w : List Token} (step : p.step token = some q)
    (run : q.run w = some q') : p.run (token :: w) = some q' := by
  rw [Place.run, step]
  exact run

theorem run_trans {p q q' : Place} {w v : List Token} (run : p.run w = some q) (run' : q.run v = some q') :
    p.run (w ++ v) = some q' := by
  rw [run_append, run]
  exact run'

theorem step_operator {mode : Mode} (isEnd : mode.isEnd = true) (brackets : List Bracket) (op : BinaryOp) :
    step ⟨mode, brackets⟩ (.symbol op.symbol) = some ⟨.operand, brackets⟩ := by
  cases mode with
  | operand | firstArgument => cases isEnd
  | name | value => cases op <;> rfl

theorem step_rightParen {mode : Mode} (isEnd : mode.isEnd = true) (bracket : Bracket) (brackets : List Bracket) :
    step ⟨mode, bracket :: brackets⟩ (.symbol .rightParen) = some ⟨.value, brackets⟩ := by
  cases mode with
  | operand | firstArgument => cases isEnd
  | name | value => rfl

theorem step_comma {mode : Mode} (isEnd : mode.isEnd = true) (brackets : List Bracket) :
    step ⟨mode, .call :: brackets⟩ (.symbol .comma) = some ⟨.operand, .call :: brackets⟩ := by
  cases mode with
  | operand | firstArgument => cases isEnd
  | name | value => rfl

theorem step_name {token : Token} (notOpened : token ≠ .symbol .leftParen) (notEquals : token ≠ .symbol .equals)
    (brackets : List Bracket) : step ⟨.name, brackets⟩ token = step ⟨.value, brackets⟩ token := by
  rcases token with _ | _ | s
  · rfl
  · rfl
  · cases s with
    | leftParen => exact absurd rfl notOpened
    | equals => exact absurd rfl notEquals
    | plus | minus | star | slash | caret | rightParen | comma => rfl

theorem step_firstArgument {token : Token} (inside : token ≠ .symbol .rightParen) (brackets : List Bracket) :
    step ⟨.firstArgument, brackets⟩ token = step ⟨.operand, brackets⟩ token := by
  rcases token with _ | _ | s
  · rfl
  · rfl
  · cases s with
    | rightParen => exact absurd rfl inside
    | plus | minus | star | slash | caret | leftParen | equals | comma => rfl

theorem run_firstArgument {w : List Token} {brackets : List Bracket} {q : Place} (nonempty : w ≠ [])
    (run : Place.run ⟨.operand, brackets⟩ w = some q) : Place.run ⟨.firstArgument, brackets⟩ w = some q := by
  cases w with
  | nil => exact absurd rfl nonempty
  | cons token w =>
    have inside : token ≠ .symbol .rightParen := by
      rintro rfl
      cases run
    rw [Place.run, step_firstArgument inside]
    exact run

end Place

namespace Rule

/-- Where the words of a rule can start. -/
def Enters : Rule → Place → Prop
  | .moreTerms, p | .moreFactors, p => p.mode.isEnd = true
  | .arguments, p => p.mode = .operand ∧ p.brackets.head? = some .call
  | _, p => p.mode = .operand

end Rule

namespace Derivation

variable {r : Rule}

/-- A word leads to the end of an operand and leaves the parentheses around it open. -/
theorem run_word (d : Derivation r) (mode : Mode) (brackets : List Bracket) (enters : r.Enters ⟨mode, brackets⟩) :
    ∃ mode' : Mode, mode'.isEnd = true ∧ Place.run ⟨mode, brackets⟩ d.word = some ⟨mode', brackets⟩ := by
  induction d generalizing mode brackets with
  | expression first rest ihFirst ihRest =>
    obtain ⟨middle, isEnd, run⟩ := ihFirst mode brackets enters
    obtain ⟨last, isEnd', run'⟩ := ihRest middle brackets isEnd
    exact ⟨last, isEnd', Place.run_trans run run'⟩
  | noTerms => exact ⟨mode, enters, rfl⟩
  | moreTerms op additive next rest ihNext ihRest =>
    obtain ⟨middle, isEnd, run⟩ := ihNext .operand brackets rfl
    obtain ⟨last, isEnd', run'⟩ := ihRest middle brackets isEnd
    exact ⟨last, isEnd', Place.run_cons (Place.step_operator enters brackets op) (Place.run_trans run run')⟩
  | term first rest ihFirst ihRest =>
    obtain ⟨middle, isEnd, run⟩ := ihFirst mode brackets enters
    obtain ⟨last, isEnd', run'⟩ := ihRest middle brackets isEnd
    exact ⟨last, isEnd', Place.run_trans run run'⟩
  | noFactors => exact ⟨mode, enters, rfl⟩
  | moreFactors op multiplicative next rest ihNext ihRest =>
    obtain ⟨middle, isEnd, run⟩ := ihNext .operand brackets rfl
    obtain ⟨last, isEnd', run'⟩ := ihRest middle brackets isEnd
    exact ⟨last, isEnd', Place.run_cons (Place.step_operator enters brackets op) (Place.run_trans run run')⟩
  | neg operand ih =>
    obtain rfl : mode = .operand := enters
    exact ih .operand brackets rfl
  | plain operand ih => exact ih mode brackets enters
  | base b ih => exact ih mode brackets enters
  | raised b exponent ihBase ihExponent =>
    obtain ⟨middle, isEnd, run⟩ := ihBase mode brackets enters
    obtain ⟨last, isEnd', run'⟩ := ihExponent .operand brackets rfl
    exact ⟨last, isEnd', Place.run_trans run (Place.run_cons (Place.step_operator isEnd brackets .pow) run')⟩
  | number literal =>
    obtain rfl : mode = .operand := enters
    exact ⟨.value, rfl, rfl⟩
  | emptyCall name =>
    obtain rfl : mode = .operand := enters
    exact ⟨.value, rfl, rfl⟩
  | call name arguments ih =>
    obtain rfl : mode = .operand := enters
    obtain ⟨last, isEnd, run⟩ := ih .operand (.call :: brackets) ⟨rfl, rfl⟩
    have inside := Place.run_firstArgument (arguments.word_ne_nil rfl) run
    have closed := Place.run_cons (Place.step_rightParen isEnd .call brackets) (Place.run_nil _)
    exact ⟨.value, rfl, Place.run_cons rfl (Place.run_cons rfl (Place.run_trans inside closed))⟩
  | assign name value ih =>
    obtain rfl : mode = .operand := enters
    exact ih .operand brackets rfl
  | var name =>
    obtain rfl : mode = .operand := enters
    exact ⟨.name, rfl, rfl⟩
  | group inner ih =>
    obtain rfl : mode = .operand := enters
    obtain ⟨last, isEnd, run⟩ := ih .operand (.group :: brackets) rfl
    have closed := Place.run_cons (Place.step_rightParen isEnd .group brackets) (Place.run_nil _)
    exact ⟨.value, rfl, Place.run_cons rfl (Place.run_trans run closed)⟩
  | lastArgument e ih => exact ih mode brackets enters.1
  | argument e rest ih ihRest =>
    obtain ⟨rfl, inCall⟩ := enters
    obtain ⟨outer, rfl⟩ := List.head?_eq_some_iff.mp inCall
    obtain ⟨middle, isEnd, run⟩ := ih .operand (.call :: outer) rfl
    obtain ⟨last, isEnd', run'⟩ := ihRest .operand (.call :: outer) ⟨rfl, rfl⟩
    exact ⟨last, isEnd', Place.run_trans run (Place.run_cons (Place.step_comma isEnd outer) run')⟩

end Derivation

end Calculator
