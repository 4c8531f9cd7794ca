import Calculator.Proofs.Recognition
import Calculator.Session.Basic

/-! # Lines that store their value

A line of a session is evaluated with an assignment in front of it. The assignment takes in exactly the expression that
the line starts with: no expression ends in front of an operator, and the outline of a text is the same behind the sign
as at its start. So the line gives its own value or error, and its value is kept.
-/

namespace Calculator

theorem Builds.assign {w : List Token} {e : Expr} (builds : Builds w e) (name : String) :
    Builds (.identifier name :: .symbol .equals :: w) (.assign name e) := by
  obtain ⟨d, rfl, greedy, built, _⟩ := builds
  have greedy' : (Derivation.assign name d).bare.alone.Greedy none := by simpa [Derivation.Greedy] using greedy
  have built' : (Derivation.assign name d).bare.alone.tree? = some (.assign name e) := by
    simp [Derivation.tree?, built]
  have builds := Derivation.builds greedy' built'
  rwa [Derivation.word_alone, Derivation.word_bare, Derivation.word] at builds

namespace Expr

theorem all_assign {name : String} (spelled : isName name = true) (text : String) :
    Lexeme.all (name ++ " = " ++ text).toList =
      [.identifier name, .symbol .equals].map .token ++ Lexeme.all text.toList := by
  have pieces : (name ++ " = " ++ text).toList = name.toList ++ ' ' :: Symbol.equals.char :: ' ' :: text.toList := by
    simp [Symbol.char]
  rw [pieces, Lexeme.all_name spelled (separates_blank _), Lexeme.all_blank rfl, Lexeme.all_symbol,
    Lexeme.all_blank rfl]
  rfl

/-- An assignment in front of a text assigns the expression at the start of the text, or fails like the text. -/
theorem parse_assign {name : String} (spelled : isName name = true) (text : String) :
    parse (name ++ " = " ++ text) = (parse text).map (.assign name) := by
  have verdict := parse_verdict text
  have verdict' := parse_verdict (name ++ " = " ++ text)
  have start : Place.start.run [.identifier name, .symbol .equals] = some Place.start := rfl
  rw [all_assign spelled, Place.scan_run start (by simp [Token.fault?])] at verdict'
  cases scan : Place.start.scan none (Lexeme.all text.toList) with
  | error error =>
    rw [scan] at verdict verdict'
    rw [verdict, verdict']
    rfl
  | ok left =>
    rw [scan] at verdict verdict'
    obtain ⟨w, e, pieces, builds, parsed⟩ := verdict
    obtain ⟨w', e', pieces', builds', parsed'⟩ := verdict'
    rw [pieces, ← List.append_assoc, ← List.map_append] at pieces'
    have same := List.append_cancel_right pieces'
    obtain rfl := Lexeme.map_token_inj same
    rw [parsed, parsed', builds'.unique (builds.assign name)]
    rfl

theorem eval_assign (name : String) (e : Expr) (env : Environment) :
    (assign name e).eval env =
      match e.eval env with
      | .ok value after => .ok value (after.set name value)
      | .error error after => .error error after := by
  rw [eval]
  simp only [bind, EStateM.bind]
  cases e.eval env <;> rfl

end Expr

/-- A line of a session parses like the line itself behind an assignment to `Ans`. So it fails as a calculation does,
    in the same environment, and otherwise its value is also stored there. -/
theorem Session.evaluate_eq_calculate (line : String) :
    Expr.parse ("Ans = " ++ line) = (Expr.parse line).map (.assign "Ans") ∧
    ∀ s : Session, Session.evaluate line s =
      match calculate line s.env with
      | .ok value env => .ok value { s with env := env.set "Ans" value }
      | .error error env => .error error { s with env := env } := by
  have name : isName answerName = true := by decide
  have text : "Ans = " ++ line = answerName ++ " = " ++ line :=
    congrArg (· ++ line) (show "Ans = " = answerName ++ " = " by decide)
  refine ⟨by rw [text, Expr.parse_assign name, answerName], fun s => ?_⟩
  rw [evaluate, calculate, calculate, Expr.parse_assign name]
  cases Expr.parse line with
  | error error => rfl
  | ok e =>
    simp only [Except.map, Expr.eval_assign]
    cases e.eval s.env <;> rfl

end Calculator
