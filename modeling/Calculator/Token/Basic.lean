/-! # Tokens

The words of the expression language. The end of input is not a token: where a token may be missing, it is the
`none` of an option.
-/

namespace Calculator

/-- A token of one fixed character. -/
inductive Symbol where
  | plus
  | minus
  | star
  | slash
  | caret
  | leftParen
  | rightParen
  | equals
  | comma
  deriving DecidableEq, Repr

namespace Symbol

/-- The character of a symbol. -/
def char : Symbol → Char
  | plus => '+'
  | minus => '-'
  | star => '*'
  | slash => '/'
  | caret => '^'
  | leftParen => '('
  | rightParen => ')'
  | equals => '='
  | comma => ','

/-- The symbol of a character. -/
def ofChar? : Char → Option Symbol
  | '+' => some plus
  | '-' => some minus
  | '*' => some star
  | '/' => some slash
  | '^' => some caret
  | '(' => some leftParen
  | ')' => some rightParen
  | '=' => some equals
  | ',' => some comma
  | _ => none

end Symbol

/-- A token. -/
inductive Token where
  /-- A run of digits and points, kept as written. -/
  | number (text : String)
  /-- A name. -/
  | identifier (name : String)
  /-- A fixed character. -/
  | symbol (symbol : Symbol)
  deriving DecidableEq, Repr

namespace Token

/-- What a token is, apart from its text. -/
inductive Kind where
  | number
  | identifier
  | symbol (symbol : Symbol)
  deriving DecidableEq, Repr

/-- The kind of a token. -/
def kind : Token → Kind
  | number _ => .number
  | identifier _ => .identifier
  | symbol s => .symbol s

/-- The token as it stands in the source. -/
def text : Token → String
  | number text => text
  | identifier name => name
  | symbol s => s.char.toString

/-- A token or the end of input, as error messages name it. -/
def describe : Option Token → String
  | some token => token.text
  | none => "end of input"

end Token

end Calculator
