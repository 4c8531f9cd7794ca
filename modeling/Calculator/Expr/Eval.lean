import Calculator.Builtin
import Calculator.Environment
import Calculator.Expr.Basic

/-! # Evaluation

Expressions are evaluated depth first, left to right. An assignment takes effect when its value is known and is
kept whatever fails later.
-/

namespace Calculator

/-- Why an expression has no value. -/
inductive EvalError where
  /-- A variable without a value. -/
  | undefinedVariable (name : String)
  /-- No function of this name takes this many arguments. -/
  | unknownFunction (name : String) (arity : Nat)
  deriving DecidableEq, Repr

namespace EvalError

/-- The text of an error. -/
def message : EvalError → String
  | undefinedVariable name => "Undefined variable: " ++ name
  | unknownFunction name arity => "Unknown function: " ++ name ++ " with " ++ arity.repr ++ " argument(s)"

end EvalError

/-- Evaluation against an environment, which a failure leaves as far as it got. -/
abbrev EvalM := EStateM EvalError Environment

/-- The value of an operator at two numbers. -/
def BinaryOp.apply : BinaryOp → Binary64 → Binary64 → Binary64
  | add => Binary64.add
  | sub => Binary64.sub
  | mul => Binary64.mul
  | div => Binary64.div
  | pow => Binary64.pow

/-- The value of a variable. -/
def readVariable (name : String) : EvalM Binary64 := do
  match (← get).get? name with
  | some value => pure value
  | none => throw (.undefinedVariable name)

namespace Expr

mutual

/-- The value of an expression. A function is looked up before its arguments are evaluated. -/
def eval : Expr → EvalM Binary64
  | number value => pure value
  | var name => readVariable name
  | assign name value => do
    let result ← value.eval
    modify (·.set name result)
    pure result
  | call name arguments => do
    match Builtin.find? name arguments.length with
    | none => throw (.unknownFunction name arguments.length)
    | some builtin =>
      let values ← evalAll arguments
      match builtin.valueAt? values with
      | some result => pure result
      | none => throw (.unknownFunction name values.length)
  | neg operand => do
    let value ← operand.eval
    pure value.neg
  | binary op left right => do
    let first ← left.eval
    let second ← right.eval
    pure (op.apply first second)

/-- The values of a list of expressions. -/
def evalAll : List Expr → EvalM (List Binary64)
  | [] => pure []
  | e :: rest => do
    let value ← e.eval
    let values ← evalAll rest
    pure (value :: values)

end

end Expr

end Calculator
