import Calculator.Expr.Basic
import Calculator.Token.Stream

/-! # The grammar of expressions

Recursive descent over a token stream, with one token of lookahead:

    expression := term (("+" | "-") term)*
    term       := unary (("*" | "/") unary)*
    unary      := "-" unary | power
    power      := primary ("^" unary)?
    primary    := NUMBER | NAME "(" arguments ")" | NAME "=" expression | NAME | "(" expression ")"

Chains nest to the left. Every rule leaves at most as much to read as it found, and recursion goes through a token
that is moved past, so the descent ends. A failed rule keeps what it has read.
-/

namespace Calculator

/-- The outcome of a grammar rule that started with `bound` to come. -/
inductive Parsed (α : Type) (bound : Nat) where
  /-- A value, and the stream behind it. -/
  | done (value : α) (after : TokenStream) (shrinks : after.size ≤ bound)
  /-- An error, and the stream where it was met. -/
  | failed (error : ParseError) (after : TokenStream)

namespace Parsed

/-- A rule that reads nothing. -/
def value {α : Type} (a : α) (s : TokenStream) : Parsed α s.size := .done a s (Nat.le_refl _)

/-- Continue behind a value. -/
def andThen {α β : Type} {bound : Nat} (first : Parsed α bound)
    (next : α → (s : TokenStream) → s.size ≤ bound → Parsed β s.size) : Parsed β bound :=
  match first with
  | .done a s h =>
    match next a s h with
    | .done b t shrinks => .done b t (Nat.le_trans shrinks h)
    | .failed error t => .failed error t
  | .failed error s => .failed error s

/-- Change the value. -/
def map {α β : Type} {bound : Nat} (f : α → β) : Parsed α bound → Parsed β bound
  | .done a s h => .done (f a) s h
  | .failed error s => .failed error s

/-- The outcome without its bound. -/
def result {α : Type} {bound : Nat} : Parsed α bound → EStateM.Result ParseError TokenStream α
  | .done a s _ => .ok a s
  | .failed error s => .error error s

end Parsed

namespace TokenStream

/-- Move past the current token and continue. A grammar rule does so only at a token; at the end of input this
    fails like any token that is not wanted. -/
def shift {α : Type} (s : TokenStream) (next : (t : TokenStream) → t.size < s.size → Parsed α t.size) :
    Parsed α s.size :=
  if h : s.current.isSome then
    match moved : s.advance with
    | .ok _ t =>
      have shorter : t.size < s.size := advance_size_lt h moved
      match next t shorter with
      | .done a u shrinks => .done a u (Nat.le_of_lt (Nat.lt_of_le_of_lt shrinks shorter))
      | .failed error u => .failed error u
    | .error error t => .failed error t
  else .failed s.unexpected s

/-- The operator of the current token, if the rule at hand takes it. -/
def operator? (s : TokenStream) (taken : BinaryOp → Bool) : Option BinaryOp :=
  match s.current with
  | some (.symbol symbol) => symbol.operator?.filter taken
  | _ => none

end TokenStream

/-- Operators of a chain of terms. -/
def BinaryOp.isAdditive : BinaryOp → Bool
  | add | sub => true
  | _ => false

/-- Operators of a chain of factors. -/
def BinaryOp.isMultiplicative : BinaryOp → Bool
  | mul | div => true
  | _ => false

/-- The number that a literal denotes. -/
def numberOfLiteral (literal : String) : Except ParseError Binary64 :=
  match Decimal.read? literal.toList with
  | some decimal => .ok decimal.toBinary64
  | none => .error (.invalidNumber literal)

namespace Grammar

mutual

/-- A chain of terms. -/
def expression (s : TokenStream) : Parsed Expr s.size :=
  (term s).andThen fun left t _ => moreTerms left t
termination_by 6 * s.size + 4

/-- The rest of a chain of terms, to the right of `left`. -/
def moreTerms (left : Expr) (s : TokenStream) : Parsed Expr s.size :=
  match s.operator? BinaryOp.isAdditive with
  | some op =>
    s.shift fun t _ => (term t).andThen fun right u _ => moreTerms (.binary op left right) u
  | none => .value left s
termination_by 6 * s.size

/-- A chain of factors. -/
def term (s : TokenStream) : Parsed Expr s.size :=
  (unary s).andThen fun left t _ => moreFactors left t
termination_by 6 * s.size + 3

/-- The rest of a chain of factors, to the right of `left`. -/
def moreFactors (left : Expr) (s : TokenStream) : Parsed Expr s.size :=
  match s.operator? BinaryOp.isMultiplicative with
  | some op =>
    s.shift fun t _ => (unary t).andThen fun right u _ => moreFactors (.binary op left right) u
  | none => .value left s
termination_by 6 * s.size

/-- A negation or a power. -/
def unary (s : TokenStream) : Parsed Expr s.size :=
  match s.current with
  | some (.symbol .minus) => s.shift fun t _ => (unary t).map .neg
  | _ => power s
termination_by 6 * s.size + 2

/-- A primary expression, maybe raised to a power. -/
def power (s : TokenStream) : Parsed Expr s.size :=
  (primary s).andThen fun base t _ =>
    match t.current with
    | some (.symbol .caret) => t.shift fun u _ => (unary u).map (.binary .pow base)
    | _ => .value base t
termination_by 6 * s.size + 1

/-- A number, a call, an assignment, a variable or a parenthesised expression. A literal is moved past before it
    is judged, so a stray character right behind it is met first. -/
def primary (s : TokenStream) : Parsed Expr s.size :=
  match s.current with
  | some (.number literal) =>
    s.shift fun t _ =>
      match numberOfLiteral literal with
      | .ok value => .value (.number value) t
      | .error error => .failed error t
  | some (.identifier name) =>
    s.shift fun t _ =>
      match t.current with
      | some (.symbol .leftParen) =>
        t.shift fun u _ =>
          match u.current with
          | some (.symbol .rightParen) => u.shift fun v _ => .value (.call name []) v
          | _ => (arguments u).map (.call name)
      | some (.symbol .equals) => t.shift fun u _ => (expression u).map (.assign name)
      | _ => .value (.var name) t
  | some (.symbol .leftParen) =>
    s.shift fun t _ =>
      (expression t).andThen fun e u _ =>
        match u.current with
        | some (.symbol .rightParen) => u.shift fun v _ => .value e v
        | _ => .failed u.unexpected u
  | _ => .failed s.unexpected s
termination_by 6 * s.size

/-- One or more arguments and the closing parenthesis. -/
def arguments (s : TokenStream) : Parsed (List Expr) s.size :=
  (expression s).andThen fun first t _ =>
    match t.current with
    | some (.symbol .comma) => t.shift fun u _ => (arguments u).map (first :: ·)
    | some (.symbol .rightParen) => t.shift fun u _ => .value [first] u
    | _ => .failed t.unexpected t
termination_by 6 * s.size + 5

end

end Grammar

namespace TokenStream

/-- Read an expression from the current position. -/
def expression : EStateM ParseError TokenStream Expr := fun s => (Grammar.expression s).result

/-- Read one term from the current position. -/
def term : EStateM ParseError TokenStream Expr := fun s => (Grammar.term s).result

end TokenStream

namespace Expr

/-- Read the expression at the start of a text, with the text behind the last token looked at. -/
def read (text : List Char) : EStateM.Result ParseError (List Char) Expr :=
  match TokenStream.read text with
  | .error error rest => .error error rest
  | .ok token rest =>
    match TokenStream.expression ⟨token, rest⟩ with
    | .ok e after => .ok e after.rest
    | .error error after => .error error after.rest

/-- The expression at the start of a text; what follows it does not matter. -/
def parse (text : String) : Except ParseError Expr :=
  match read text.toList with
  | .ok e _ => .ok e
  | .error error _ => .error error

end Expr

end Calculator
