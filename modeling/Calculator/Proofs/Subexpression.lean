import Calculator.Expr.Basic

/-! # Subexpressions

Induction over expressions, and conditions that hold of an expression and everything below it.
-/

namespace Calculator

namespace Expr

/-- Induction over expressions, with the arguments of a call at hand one by one. -/
@[induction_eliminator]
theorem induct {motive : Expr → Prop} (number : ∀ value, motive (.number value)) (var : ∀ name, motive (.var name))
    (assign : ∀ name value, motive value → motive (.assign name value))
    (call : ∀ name arguments, (∀ e ∈ arguments, motive e) → motive (.call name arguments))
    (neg : ∀ operand, motive operand → motive (.neg operand))
    (binary : ∀ op left right, motive left → motive right → motive (.binary op left right)) : ∀ e, motive e
  | .number value => number value
  | .var name => var name
  | .assign name value => assign name value (induct number var assign call neg binary value)
  | .call name arguments => call name arguments fun e _ => induct number var assign call neg binary e
  | .neg operand => neg operand (induct number var assign call neg binary operand)
  | .binary op left right =>
    binary op left right (induct number var assign call neg binary left)
      (induct number var assign call neg binary right)

/-- Whether an expression and all its subexpressions are of a kind. -/
def everywhere (p : Expr → Bool) (e : Expr) : Bool := e.preorder.all p

variable {p : Expr → Bool}

@[simp]
theorem everywhere_number {value : Binary64} : (number value).everywhere p = p (number value) := by
  simp [everywhere, preorder]

@[simp]
theorem everywhere_var {name : String} : (var name).everywhere p = p (var name) := by
  simp [everywhere, preorder]

@[simp]
theorem everywhere_assign {name : String} {value : Expr} :
    (assign name value).everywhere p = (p (assign name value) && value.everywhere p) := by
  simp [everywhere, preorder]

theorem all_preorders (arguments : List Expr) : (preorders arguments).all p = arguments.all (everywhere p) := by
  induction arguments with
  | nil => rfl
  | cons e rest ih => simp [preorders, everywhere, ih]

@[simp]
theorem everywhere_call {name : String} {arguments : List Expr} :
    (call name arguments).everywhere p = (p (call name arguments) && arguments.all (everywhere p)) := by
  simp [everywhere, preorder, ← all_preorders]

@[simp]
theorem everywhere_neg {operand : Expr} : (neg operand).everywhere p = (p (neg operand) && operand.everywhere p) := by
  simp [everywhere, preorder]

@[simp]
theorem everywhere_binary {op : BinaryOp} {left right : Expr} :
    (binary op left right).everywhere p = (p (binary op left right) && left.everywhere p && right.everywhere p) := by
  simp [everywhere, preorder, Bool.and_assoc]

theorem of_everywhere {e : Expr} (h : e.everywhere p = true) : p e = true := by
  cases e <;> simp_all

theorem everywhere_mono {q : Expr → Bool} (imp : ∀ e, p e = true → q e = true) {e : Expr}
    (h : e.everywhere p = true) : e.everywhere q = true :=
  List.all_eq_true.mpr fun part member => imp part (List.all_eq_true.mp h part member)

end Expr

end Calculator
