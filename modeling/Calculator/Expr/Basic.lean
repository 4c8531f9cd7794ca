import Calculator.Token.Basic
import Calculator.Number.PlainText

/-! # Expressions

Expression trees, their fully parenthesised text, and their subexpressions in preorder.
-/

namespace Calculator

/-- An operator between two operands. -/
inductive BinaryOp where
  | add
  | sub
  | mul
  | div
  | pow
  deriving DecidableEq, Repr

/-- The symbol that writes an operator. -/
def BinaryOp.symbol : BinaryOp → Symbol
  | add => .plus
  | sub => .minus
  | mul => .star
  | div => .slash
  | pow => .caret

/-- The operator that a symbol writes. -/
def Symbol.operator? : Symbol → Option BinaryOp
  | plus => some .add
  | minus => some .sub
  | star => some .mul
  | slash => some .div
  | caret => some .pow
  | _ => none

/-- An expression. -/
inductive Expr where
  /-- A number. -/
  | number (value : Binary64)
  /-- The value of a variable. -/
  | var (name : String)
  /-- Store a value in a variable; the expression has that value. -/
  | assign (name : String) (value : Expr)
  /-- Apply a function. -/
  | call (name : String) (arguments : List Expr)
  /-- Negation. -/
  | neg (operand : Expr)
  /-- An operator between two operands. -/
  | binary (op : BinaryOp) (left right : Expr)
  deriving Repr

namespace Expr

mutual

/-- The fully parenthesised text. -/
def text : Expr → String
  | number value => value.plainText
  | var name => name
  | assign name value => "(" ++ name ++ " = " ++ value.text ++ ")"
  | call name arguments => name ++ "(" ++ String.intercalate ", " (texts arguments) ++ ")"
  | neg operand => "(-" ++ operand.text ++ ")"
  | binary op left right => "(" ++ left.text ++ " " ++ op.symbol.char.toString ++ " " ++ right.text ++ ")"

/-- The texts of a list of expressions. -/
def texts : List Expr → List String
  | [] => []
  | e :: rest => e.text :: texts rest

end

mutual

/-- An expression and its subexpressions, each before its own parts, left to right. -/
def preorder : Expr → List Expr
  | e@(number _) => [e]
  | e@(var _) => [e]
  | e@(assign _ value) => e :: value.preorder
  | e@(call _ arguments) => e :: preorders arguments
  | e@(neg operand) => e :: operand.preorder
  | e@(binary _ left right) => e :: (left.preorder ++ right.preorder)

/-- The subexpressions of a list of expressions, one after the other. -/
def preorders : List Expr → List Expr
  | [] => []
  | e :: rest => e.preorder ++ preorders rest

end

end Expr

end Calculator
