import Calculator.Proofs.Viability

/-! # Diagnosis

How parsing a text ends, told from the grammar alone: tokens are taken for as long as some continuation makes a
sentence of them. An error names the first token beyond that, and whatever stands further right does not matter.
-/

namespace Calculator

/-- The literal at the end of a text of tokens, if no digit stands in front of its second point. -/
def digitless? (w : List Token) : Option String :=
  match w.getLast? with
  | some (.number literal) => if hasDigit literal then none else some literal
  | _ => none

/-- What becomes of the tokens `w` if the next one cannot be taken. -/
def settle (w : List Token) (next : Option Token) : Except ParseError (List Token) :=
  if Sentence w then .ok w else .error (.unexpected next)

/-- Take pieces behind the tokens `w`. A stray character is met first, then a literal that denotes no number, and
    only then the next token is judged. -/
def diagnose (w : List Token) : List Lexeme → Except ParseError (List Token)
  | .stray c :: _ => .error (.strayCharacter c)
  | [] =>
    match digitless? w with
    | some literal => .error (.invalidNumber literal)
    | none => settle w none
  | .token token :: rest =>
    match digitless? w with
    | some literal => .error (.invalidNumber literal)
    | none => if Viable (w ++ [token]) then diagnose (w ++ [token]) rest else settle w (some token)

theorem Token.fault?_eq (token : Token) (w : List Token) :
    token.fault? = (digitless? (w ++ [token])).map .invalidNumber := by
  rw [digitless?, List.getLast?_concat]
  cases token with
  | identifier | symbol => rfl
  | number literal =>
    by_cases digit : hasDigit literal = true
    · have value := numberOfLiteral_of_hasDigit digit
      simp [fault?, value, digit]
    · have value := numberOfLiteral_of_not_hasDigit (Bool.eq_false_iff.mpr digit)
      simp [fault?, value, digit]

/-- A diagnosis and a verdict on the same text agree: both fail alike, or one names the tokens read and the other what
    is left. -/
def Concurs (text : List Lexeme) (diagnosis : Except ParseError (List Token))
    (verdict : Except ParseError (List Lexeme)) : Prop :=
  match diagnosis with
  | .ok w => ∃ left, verdict = .ok left ∧ text = w.map .token ++ left
  | .error error => verdict = .error error

variable {w : List Token} {p : Place}

theorem concurs_settle (run : Place.start.run w = some p) (next : Option Token) (left : List Lexeme) :
    Concurs (w.map .token ++ left) (settle w next) (p.close next left) := by
  have complete : Sentence w ↔ p.isComplete = true := by rw [sentence_iff_run, run]; rfl
  by_cases sentence : Sentence w
  · rw [settle, if_pos sentence, Place.close, if_pos (complete.mp sentence)]
    exact ⟨left, rfl, rfl⟩
  · rw [settle, if_neg sentence, Place.close, if_neg (mt complete.mpr sentence)]
    exact rfl

theorem concurs_diagnose {pieces : List Lexeme} (run : Place.start.run w = some p) :
    Concurs (w.map .token ++ pieces) (diagnose w pieces) (p.scan ((digitless? w).map .invalidNumber) pieces) := by
  induction pieces generalizing w p with
  | nil =>
    rw [diagnose]
    cases digitless? w with
    | some literal => exact rfl
    | none => exact concurs_settle run none []
  | cons piece pieces ih =>
    cases piece with
    | stray c => exact rfl
    | token token =>
      rw [diagnose]
      cases digitless? w with
      | some literal => exact rfl
      | none =>
        rw [Option.map_none, Place.scan]
        have viable : Viable (w ++ [token]) ↔ (p.step token).isSome = true := by
          rw [viable_iff_run, Place.run_append, run, Option.bind_some, Place.run, Option.isSome_bind]
          simp [Place.run]
        cases step : p.step token with
        | none =>
          rw [step] at viable
          rw [if_neg (by simpa using viable)]
          exact concurs_settle run (some token) (.token token :: pieces)
        | some q =>
          rw [step] at viable
          have taken : Place.start.run (w ++ [token]) = some q := Place.run_trans run (Place.run_cons step rfl)
          have concurs := ih taken
          rw [← Token.fault?_eq] at concurs
          rw [if_pos (viable.mpr rfl)]
          simpa using concurs

/-- Of every text, parsing gives what the diagnosis says: its error, or the tree of the greedy derivation of the
    tokens that it takes. An error about a token shows the token as it stands in the text. -/
theorem Expr.parse_diagnosis (text : String) :
    (match diagnose [] (Lexeme.all text.toList) with
      | .ok w => ∃ e, Expr.parse text = .ok e ∧ Builds w e
      | .error error => Expr.parse text = .error error) ∧
    ∀ found, (ParseError.unexpected found).message = "Unexpected token: " ++ found.elim "end of input" Token.text := by
  refine ⟨?_, fun found => by cases found <;> rfl⟩
  have concurs : Concurs (Lexeme.all text.toList) (diagnose [] (Lexeme.all text.toList))
      (Place.start.scan none (Lexeme.all text.toList)) :=
    concurs_diagnose (Place.run_nil _)
  have verdict := Expr.parse_verdict text
  cases diagnosis : diagnose [] (Lexeme.all text.toList) with
  | error error =>
    rw [diagnosis] at concurs
    rw [show Place.start.scan none (Lexeme.all text.toList) = .error error from concurs] at verdict
    exact verdict
  | ok w =>
    rw [diagnosis] at concurs
    obtain ⟨left, scan, pieces⟩ := concurs
    rw [scan] at verdict
    obtain ⟨v, e, pieces', builds, parsed⟩ := verdict
    have same := List.append_cancel_right (pieces.symm.trans pieces')
    obtain rfl := Lexeme.map_token_inj same
    exact ⟨e, parsed, builds⟩

example : diagnose [] [.token (.symbol .leftParen), .token (.number "1"), .token (.number "."), .stray '?'] =
    .error (.unexpected (some (.number "."))) := rfl

end Calculator
