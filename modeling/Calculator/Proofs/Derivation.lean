import Calculator.Expr.Grammar

/-! # Derivations

The grammar of expressions without a way to read it: trees of rule applications, the words they spell and the
expressions they build. The grammar is ambiguous, since an assignment is a primary expression that ends in a whole
expression: `2 * x = 3 + 4` can be cut before or behind `+ 4`. A greedy derivation never cuts an assignment short,
and a word has at most one.
-/

namespace Calculator

/-- The rules of the grammar. A repetition is a rule of its own. -/
inductive Rule where
  | expression
  | moreTerms
  | term
  | moreFactors
  | unary
  | power
  | primary
  | arguments
  deriving DecidableEq, Repr

/-- The derivations from a rule. -/
inductive Derivation : Rule → Type where
  /-- `expression := term (("+" | "-") term)*` -/
  | expression (first : Derivation .term) (rest : Derivation .moreTerms) : Derivation .expression
  /-- No further term. -/
  | noTerms : Derivation .moreTerms
  /-- One further term, and more. -/
  | moreTerms (op : BinaryOp) (additive : op.isAdditive) (next : Derivation .term)
      (rest : Derivation .moreTerms) : Derivation .moreTerms
  /-- `term := unary (("*" | "/") unary)*` -/
  | term (first : Derivation .unary) (rest : Derivation .moreFactors) : Derivation .term
  /-- No further factor. -/
  | noFactors : Derivation .moreFactors
  /-- One further factor, and more. -/
  | moreFactors (op : BinaryOp) (multiplicative : op.isMultiplicative) (next : Derivation .unary)
      (rest : Derivation .moreFactors) : Derivation .moreFactors
  /-- `unary := "-" unary` -/
  | neg (operand : Derivation .unary) : Derivation .unary
  /-- `unary := power` -/
  | plain (operand : Derivation .power) : Derivation .unary
  /-- `power := primary` -/
  | base (base : Derivation .primary) : Derivation .power
  /-- `power := primary "^" unary` -/
  | raised (base : Derivation .primary) (exponent : Derivation .unary) : Derivation .power
  /-- `primary := NUMBER` -/
  | number (literal : String) : Derivation .primary
  /-- `primary := NAME "(" ")"` -/
  | emptyCall (name : String) : Derivation .primary
  /-- `primary := NAME "(" arguments ")"` -/
  | call (name : String) (arguments : Derivation .arguments) : Derivation .primary
  /-- `primary := NAME "=" expression` -/
  | assign (name : String) (value : Derivation .expression) : Derivation .primary
  /-- `primary := NAME` -/
  | var (name : String) : Derivation .primary
  /-- `primary := "(" expression ")"` -/
  | group (inner : Derivation .expression) : Derivation .primary
  /-- `arguments := expression` -/
  | lastArgument (argument : Derivation .expression) : Derivation .arguments
  /-- `arguments := expression "," arguments` -/
  | argument (argument : Derivation .expression) (rest : Derivation .arguments) : Derivation .arguments

/-- What a derivation builds: a chain is built around the operand on its left. -/
abbrev Rule.Tree : Rule → Type
  | .moreTerms | .moreFactors => Expr → Expr
  | .arguments => List Expr
  | _ => Expr

/-- Whether a token is one of the operators between two operands. -/
def Token.isOperator : Token → Bool
  | .symbol s => s.operator?.isSome
  | _ => false

namespace Derivation

/-- The tokens that a derivation spells. -/
def word : {r : Rule} → Derivation r → List Token
  | _, expression first rest => first.word ++ rest.word
  | _, noTerms => []
  | _, moreTerms op _ next rest => .symbol op.symbol :: (next.word ++ rest.word)
  | _, term first rest => first.word ++ rest.word
  | _, noFactors => []
  | _, moreFactors op _ next rest => .symbol op.symbol :: (next.word ++ rest.word)
  | _, neg operand => .symbol .minus :: operand.word
  | _, plain operand => operand.word
  | _, base b => b.word
  | _, raised b exponent => b.word ++ .symbol .caret :: exponent.word
  | _, number literal => [.number literal]
  | _, emptyCall name => [.identifier name, .symbol .leftParen, .symbol .rightParen]
  | _, call name arguments =>
    .identifier name :: .symbol .leftParen :: (arguments.word ++ [.symbol .rightParen])
  | _, assign name value => .identifier name :: .symbol .equals :: value.word
  | _, var name => [.identifier name]
  | _, group inner => .symbol .leftParen :: (inner.word ++ [.symbol .rightParen])
  | _, lastArgument e => e.word
  | _, argument e rest => e.word ++ .symbol .comma :: rest.word

/-- The tree that a derivation builds, if all its literals denote numbers. Chains nest to the left. -/
def tree? : {r : Rule} → Derivation r → Option r.Tree
  | _, expression first rest => do
    let left ← first.tree?
    let chain ← rest.tree?
    pure (chain left)
  | _, noTerms => some id
  | _, moreTerms op _ next rest => do
    let right ← next.tree?
    let chain ← rest.tree?
    pure fun left => chain (.binary op left right)
  | _, term first rest => do
    let left ← first.tree?
    let chain ← rest.tree?
    pure (chain left)
  | _, noFactors => some id
  | _, moreFactors op _ next rest => do
    let right ← next.tree?
    let chain ← rest.tree?
    pure fun left => chain (.binary op left right)
  | _, neg operand => operand.tree?.map .neg
  | _, plain operand => operand.tree?
  | _, base b => b.tree?
  | _, raised b exponent => do
    let left ← b.tree?
    let right ← exponent.tree?
    pure (.binary .pow left right)
  | _, number literal => (Decimal.read? literal.toList).map fun decimal => .number decimal.toBinary64
  | _, emptyCall name => some (.call name [])
  | _, call name arguments => arguments.tree?.map (.call name)
  | _, assign name value => value.tree?.map (.assign name)
  | _, var name => some (.var name)
  | _, group inner => inner.tree?
  | _, lastArgument e => e.tree?.map ([·])
  | _, argument e rest => do
    let first ← e.tree?
    let others ← rest.tree?
    pure (first :: others)

/-- Where `next` stands behind the word, no assignment in it is directly followed by an operator. -/
def Greedy : {r : Rule} → Derivation r → Option Token → Prop
  | _, expression first rest, next => first.Greedy (rest.word.head?.or next) ∧ rest.Greedy next
  | _, noTerms, _ => True
  | _, moreTerms _ _ right rest, next => right.Greedy (rest.word.head?.or next) ∧ rest.Greedy next
  | _, term first rest, next => first.Greedy (rest.word.head?.or next) ∧ rest.Greedy next
  | _, noFactors, _ => True
  | _, moreFactors _ _ right rest, next => right.Greedy (rest.word.head?.or next) ∧ rest.Greedy next
  | _, neg operand, next => operand.Greedy next
  | _, plain operand, next => operand.Greedy next
  | _, base b, next => b.Greedy next
  | _, raised b exponent, next => b.Greedy (some (.symbol .caret)) ∧ exponent.Greedy next
  | _, number _, _ => True
  | _, emptyCall _, _ => True
  | _, call _ arguments, _ => arguments.Greedy (some (.symbol .rightParen))
  | _, assign _ value, next => value.Greedy next ∧ next.any Token.isOperator = false
  | _, var _, _ => True
  | _, group inner, _ => inner.Greedy (some (.symbol .rightParen))
  | _, lastArgument e, next => e.Greedy next
  | _, argument e rest, next => e.Greedy (some (.symbol .comma)) ∧ rest.Greedy next

/-- A primary expression as a unary one. -/
def bare (d : Derivation .primary) : Derivation .unary := .plain (.base d)

/-- A unary expression as an expression. -/
def alone (d : Derivation .unary) : Derivation .expression := .expression (.term d .noFactors) .noTerms

@[simp]
theorem word_bare (d : Derivation .primary) : d.bare.word = d.word := rfl

@[simp]
theorem word_alone (d : Derivation .unary) : d.alone.word = d.word := by
  simp only [alone, word, List.append_nil]

@[simp]
theorem tree?_bare (d : Derivation .primary) : d.bare.tree? = d.tree? := rfl

@[simp]
theorem tree?_alone (d : Derivation .unary) : d.alone.tree? = d.tree? := by
  simp only [alone, tree?]
  cases d.tree? <;> rfl

@[simp]
theorem greedy_bare (d : Derivation .primary) (next : Option Token) : d.bare.Greedy next ↔ d.Greedy next := .rfl

@[simp]
theorem greedy_alone (d : Derivation .unary) (next : Option Token) : d.alone.Greedy next ↔ d.Greedy next := by
  simp [alone, Greedy, word]

end Derivation

namespace Rule

def startsPrimary : Option Token → Bool
  | some (.number _) | some (.identifier _) | some (.symbol .leftParen) => true
  | _ => false

/-- Tokens that the words of a rule start with. The rest of a chain may also be empty. -/
def startedBy : Rule → Option Token → Bool
  | .moreTerms, _ | .moreFactors, _ => true
  | .power, first | .primary, first => startsPrimary first
  | _, first => startsPrimary first || first = some (.symbol .minus)

theorem startedBy_or {r : Rule} {first next : Option Token} (started : r.startedBy first = true)
    (nonempty : r.startedBy none = false) : r.startedBy (first.or next) = true := by
  cases first with
  | none => rw [nonempty] at started; cases started
  | some tok => exact started

end Rule

namespace Derivation

variable {r : Rule}

theorem startedBy_head (d : Derivation r) : r.startedBy d.word.head? = true := by
  induction d with
  | noTerms | moreTerms | noFactors | moreFactors => rfl
  | number | emptyCall | call | assign | var | group | neg => rfl
  | expression first rest ih _ =>
    rw [word, List.head?_append]
    exact Rule.startedBy_or ih rfl
  | term first rest ih _ =>
    rw [word, List.head?_append]
    exact Rule.startedBy_or ih rfl
  | plain operand ih => exact Bool.or_eq_true_iff.mpr (.inl ih)
  | base b ih => exact ih
  | raised b exponent ih _ =>
    rw [word, List.head?_append]
    exact Rule.startedBy_or ih rfl
  | lastArgument e ih => exact ih
  | argument e rest ih _ =>
    rw [word, List.head?_append]
    exact Rule.startedBy_or ih rfl

theorem word_ne_nil (d : Derivation r) (nonempty : r.startedBy none = false) : d.word ≠ [] := by
  intro empty
  have started := d.startedBy_head
  rw [empty, List.head?_nil, nonempty] at started
  cases started

/-- What starts a word that cannot be empty also starts every text that the word starts. -/
theorem startedBy_append (d : Derivation r) (nonempty : r.startedBy none = false) (l : List Token) :
    r.startedBy (d.word ++ l).head? = true := by
  rw [List.head?_append]
  exact Rule.startedBy_or d.startedBy_head nonempty

end Derivation

end Calculator
