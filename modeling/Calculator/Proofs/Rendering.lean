import Calculator.Proofs.ReadBack
import Calculator.Proofs.Recognition
import Calculator.Proofs.Subexpression

/-! # Rendered expressions

The text of an expression is the word of a greedy derivation: each part is a primary expression in parentheses of its
own, and only the sign of a number stands outside. So the text reads back as the expression, with a negation for each
sign, unless a sign gets in front of a power.
-/

namespace Calculator

namespace Binary64

def isFinite : Binary64 → Bool
  | .finite _ _ => true
  | _ => false

/-- Whether the sign of a number is negative. -/
def isNegative : Binary64 → Bool
  | .nan _ => false
  | .infinity negative => negative
  | .finite negative _ => negative

end Binary64

namespace Derivation

/-- A unary expression behind a sign, if there is one. -/
def sign (negative : Bool) (d : Derivation .unary) : Derivation .unary := if negative then .neg d else d

/-- An operator between a primary expression, behind a sign if there is one, and a unary expression. The sign belongs
    to the whole of a power. -/
def between (op : BinaryOp) (negative : Bool) (left : Derivation .primary) (right : Derivation .unary) :
    Derivation .expression :=
  match op with
  | .add =>
    .expression (.term (sign negative left.bare) .noFactors) (.moreTerms .add rfl (.term right .noFactors) .noTerms)
  | .sub =>
    .expression (.term (sign negative left.bare) .noFactors) (.moreTerms .sub rfl (.term right .noFactors) .noTerms)
  | .mul => .expression (.term (sign negative left.bare) (.moreFactors .mul rfl right .noFactors)) .noTerms
  | .div => .expression (.term (sign negative left.bare) (.moreFactors .div rfl right .noFactors)) .noTerms
  | .pow => (sign negative (.plain (.raised left right))).alone

@[simp]
theorem word_sign (negative : Bool) (d : Derivation .unary) :
    (sign negative d).word = (if negative then [.symbol .minus] else []) ++ d.word := by
  cases negative <;> rfl

theorem word_between (op : BinaryOp) (negative : Bool) (left : Derivation .primary) (right : Derivation .unary) :
    (between op negative left right).word = (sign negative left.bare).word ++ .symbol op.symbol :: right.word := by
  cases op <;> simp [between, word, BinaryOp.symbol]

@[simp]
theorem greedy_sign (negative : Bool) (d : Derivation .unary) (next : Option Token) :
    (sign negative d).Greedy next ↔ d.Greedy next := by
  cases negative <;> rfl

theorem greedy_between (op : BinaryOp) (negative : Bool) {left : Derivation .primary} {right : Derivation .unary}
    (greedyLeft : ∀ next, left.Greedy next) (greedyRight : ∀ next, right.Greedy next) (next : Option Token) :
    (between op negative left right).Greedy next := by
  cases op <;> simp [between, Greedy, greedyLeft, greedyRight]

@[simp]
theorem tree?_sign (negative : Bool) (d : Derivation .unary) :
    (sign negative d).tree? = if negative then d.tree?.map .neg else d.tree? := by
  cases negative <;> rfl

theorem tree?_between (op : BinaryOp) (negative : Bool) {left : Derivation .primary} {right : Derivation .unary}
    {l r : Expr} (builtLeft : (sign negative left.bare).tree? = some l) (builtRight : right.tree? = some r)
    (base : op = .pow → negative = false) : (between op negative left right).tree? = some (.binary op l r) := by
  cases op with
  | add | sub | mul | div => simp_all [between, tree?]
  | pow =>
    obtain rfl := base rfl
    have built : left.tree? = some l := builtLeft
    simp [between, sign, tree?, built, builtRight]

end Derivation

theorem Lexeme.all_signed (negative : Bool) (d : Decimal) {rest : List Char} (separates : Separates rest) :
    all ((signed negative d.digits).toList ++ rest) =
      (Derivation.sign negative (.bare (.number (String.ofList d.digits)))).word.map .token ++ all rest := by
  have digits := all_number d.isSpelled_digits separates
  rw [String.toList_ofList] at digits
  cases negative with
  | false =>
    rw [signed, String.toList_ofList]
    exact digits
  | true =>
    rw [signed, String.toList_ofList]
    exact (all_symbol .minus _).trans (congrArg (.token (.symbol .minus) :: ·) digits)

namespace Expr

/-- Whether an expression is shown with a sign in front. -/
def isNegative : Expr → Bool
  | number value => value.isNegative
  | _ => false

mutual

/-- How the text of an expression is derived, its sign apart. -/
def primary : Expr → Derivation .primary
  | number value => .number value.literal
  | var name => .var name
  | assign name value =>
    .group (Derivation.assign name (.alone (.sign value.isNegative value.primary.bare))).bare.alone
  | call name arguments =>
    match arguments? arguments with
    | none => .emptyCall name
    | some list => .call name list
  | neg operand => .group (Derivation.neg (.sign operand.isNegative operand.primary.bare)).alone
  | binary op left right =>
    .group (.between op left.isNegative left.primary (.sign right.isNegative right.primary.bare))

def arguments? : List Expr → Option (Derivation .arguments)
  | [] => none
  | e :: rest =>
    match arguments? rest with
    | none => some (.lastArgument (.alone (.sign e.isNegative e.primary.bare)))
    | some others => some (.argument (.alone (.sign e.isNegative e.primary.bare)) others)

end

/-- How the text of an expression is derived. -/
def operand (e : Expr) : Derivation .unary := .sign e.isNegative e.primary.bare

theorem greedy_arguments? {arguments : List Expr} (greedy : ∀ e ∈ arguments, ∀ next, e.primary.Greedy next)
    {list : Derivation .arguments} (found : arguments? arguments = some list) (next : Option Token) :
    list.Greedy next := by
  induction arguments generalizing list with
  | nil => cases found
  | cons e rest ih =>
    have first : ∀ next, e.primary.Greedy next := greedy e List.mem_cons_self
    rw [arguments?] at found
    split at found <;> cases found
    · simp [Derivation.Greedy, first]
    · rename_i others found
      have rest := ih (fun e member => greedy e (List.mem_cons_of_mem _ member)) found
      simp [Derivation.Greedy, first, rest]

/-- An assignment is shown in parentheses, so nothing can be taken for the end of its value. -/
theorem greedy_primary (e : Expr) (next : Option Token) : e.primary.Greedy next := by
  induction e generalizing next with
  | number | var => exact trivial
  | assign name value ih => simp [primary, Derivation.Greedy, ih, Token.isOperator, Symbol.operator?]
  | call name arguments ih =>
    rw [primary]
    split
    · exact trivial
    · rename_i list found
      exact greedy_arguments? ih found _
  | neg operand ih => simp [primary, Derivation.Greedy, ih]
  | binary op left right ihLeft ihRight =>
    rw [primary, Derivation.Greedy]
    exact Derivation.greedy_between op _ ihLeft (by simpa using ihRight) _

mutual

/-- The expression with a negation in place of each sign. -/
def norm : Expr → Expr
  | number value => if value.isNegative then .neg (.number value.neg) else .number value
  | var name => .var name
  | assign name value => .assign name value.norm
  | call name arguments => .call name (norms arguments)
  | neg operand => .neg operand.norm
  | binary op left right => .binary op left.norm right.norm

def norms : List Expr → List Expr
  | [] => []
  | e :: rest => e.norm :: norms rest

end

/-- Whether the root of an expression is shown so that it can be read back: names are names, numbers are finite, and
    no sign stands in front of a power. -/
def isShown : Expr → Bool
  | number value => value.isFinite
  | var name | assign name _ | call name _ => isName name
  | neg _ => true
  | binary op left _ => op ≠ .pow || !left.isNegative

theorem tree?_operand_of {e : Expr} (shown : e.isShown = true)
    (built : e.isNegative = false → e.primary.tree? = some e.norm) : e.operand.tree? = some e.norm := by
  cases negative : e.isNegative with
  | false => simpa [operand, negative] using built negative
  | true =>
    match e, shown, negative with
    | number (.finite true m), _, _ =>
      obtain ⟨d, read, value⟩ := Option.map_eq_some_iff.mp (Binary64.read?_literal true m)
      simp [operand, isNegative, primary, norm, Derivation.tree?, Binary64.isNegative, read, value, Binary64.neg]

theorem tree?_arguments? {arguments : List Expr} (built : ∀ e ∈ arguments, e.operand.tree? = some e.norm) :
    match arguments? arguments with
    | none => norms arguments = []
    | some list => list.tree? = some (norms arguments) := by
  induction arguments with
  | nil => rfl
  | cons e rest ih =>
    have first : e.operand.alone.tree? = some e.norm := by simpa using built e List.mem_cons_self
    have others := ih fun e member => built e (List.mem_cons_of_mem _ member)
    rw [arguments?, ← operand]
    cases found : arguments? rest with
    | none =>
      rw [found] at others
      simp only [Derivation.tree?, first, norms, others, Option.map_some]
    | some list =>
      rw [found] at others
      simp only [Derivation.tree?, first, norms, others]
      rfl

theorem tree?_primary {e : Expr} (shown : e.everywhere isShown = true) (plain : e.isNegative = false) :
    e.primary.tree? = some e.norm := by
  induction e with
  | number value =>
    match value, shown, plain with
    | .finite false m, _, _ =>
      obtain ⟨d, read, value⟩ := Option.map_eq_some_iff.mp (Binary64.read?_literal false m)
      simp [primary, norm, Derivation.tree?, Binary64.isNegative, read, value]
  | var name => rfl
  | assign name value ih =>
    simp only [everywhere_assign, Bool.and_eq_true] at shown
    have built := tree?_operand_of (of_everywhere shown.2) (ih shown.2)
    rw [primary, ← operand, Derivation.tree?, Derivation.tree?_alone, Derivation.tree?_bare, Derivation.tree?,
      Derivation.tree?_alone, built]
    rfl
  | call name arguments ih =>
    simp only [everywhere_call, Bool.and_eq_true, List.all_eq_true] at shown
    have built := tree?_arguments? fun e member =>
      tree?_operand_of (of_everywhere (shown.2 e member)) (ih e member (shown.2 e member))
    rw [primary]
    cases found : arguments? arguments with
    | none =>
      rw [found] at built
      simp only [Derivation.tree?, norm, built]
    | some list =>
      rw [found] at built
      simp only [Derivation.tree?, norm, built, Option.map_some]
  | neg operand ih =>
    simp only [everywhere_neg, Bool.and_eq_true] at shown
    have built := tree?_operand_of (of_everywhere shown.2) (ih shown.2)
    rw [primary, ← Expr.operand, Derivation.tree?, Derivation.tree?_alone, Derivation.tree?, built]
    rfl
  | binary op left right ihLeft ihRight =>
    simp only [everywhere_binary, Bool.and_eq_true] at shown
    obtain ⟨⟨shown, shownLeft⟩, shownRight⟩ := shown
    have builtLeft := tree?_operand_of (of_everywhere shownLeft) (ihLeft shownLeft)
    have builtRight := tree?_operand_of (of_everywhere shownRight) (ihRight shownRight)
    have base : op = .pow → left.isNegative = false := by simpa [isShown, Decidable.or_iff_not_imp_left] using shown
    rw [primary, Derivation.tree?, norm]
    exact Derivation.tree?_between op _ builtLeft builtRight base

theorem tree?_operand {e : Expr} (shown : e.everywhere isShown = true) : e.operand.tree? = some e.norm :=
  tree?_operand_of (of_everywhere shown) (tree?_primary shown)

end Expr

end Calculator
