import Calculator.Expr.Eval
import Calculator.Expr.Grammar

/-! # Calculation

Reading and evaluating an expression in one step.
-/

namespace Calculator

/-- Why a text has no value. -/
inductive CalculationError where
  /-- The text is no expression. -/
  | parse (error : ParseError)
  /-- The expression has no value. -/
  | eval (error : EvalError)
  deriving DecidableEq, Repr

/-- The text of an error. -/
def CalculationError.message : CalculationError → String
  | parse error => error.message
  | eval error => error.message

/-- The value of the expression at the start of a text. -/
def calculate (text : String) : EStateM CalculationError Environment Binary64 := fun env =>
  match Expr.parse text with
  | .error error => .error (.parse error) env
  | .ok e =>
    match e.eval env with
    | .ok value after => .ok value after
    | .error error after => .error (.eval error) after

end Calculator
