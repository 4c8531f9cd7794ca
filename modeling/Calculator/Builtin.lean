import Calculator.Number.Elementary

/-! # Builtin functions

The table of functions that an expression can call. A function is found by its name and its number of
arguments.
-/

namespace Calculator

/-- A named function, with the number of arguments it is declared for. It takes the values it is handed by their index
    and has no result if it looks for one that is not there. -/
structure Builtin where
  name : String
  arity : Nat
  valueAt? : List Binary64 → Option Binary64

namespace Builtin

/-- A function of the first value. -/
def unary (f : Binary64 → Binary64) (values : List Binary64) : Option Binary64 := values[0]?.map f

/-- A function of the first two values. -/
def binary (f : Binary64 → Binary64 → Binary64) (values : List Binary64) : Option Binary64 :=
  values[0]?.bind fun x => values[1]?.map (f x)

/-- A function of one argument from the mathematical library. -/
def library (name : String) (f : Float → Float) : Builtin := ⟨name, 1, unary (Binary64.lift f)⟩

/-- All functions, in the order in which they are listed for the user. -/
def table : List Builtin :=
  [ library "sin" Float.sin,
    library "cos" Float.cos,
    library "tan" Float.tan,
    library "asin" Float.asin,
    library "acos" Float.acos,
    library "atan" Float.atan,
    library "sinh" Float.sinh,
    library "cosh" Float.cosh,
    library "tanh" Float.tanh,
    library "asinh" Float.asinh,
    library "acosh" Float.acosh,
    ⟨"atanh", 1, unary Binary64.artanh⟩,
    ⟨"sqrt", 1, unary Binary64.sqrt⟩,
    library "cbrt" Float.cbrt,
    library "exp" Float.exp,
    ⟨"ln", 1, unary Binary64.ln⟩,
    library "log10" Float.log10,
    library "log2" Float.log2,
    ⟨"abs", 1, unary Binary64.abs⟩,
    ⟨"log", 2, binary Binary64.logBase⟩,
    ⟨"pow", 2, binary Binary64.pow⟩,
    ⟨"mod", 2, binary Binary64.remainder⟩ ]

/-- The function with a name and a number of arguments. -/
def find? (name : String) (arity : Nat) : Option Builtin :=
  table.find? fun b => b.name = name ∧ b.arity = arity

/-- Among as many values as a function is declared for, it finds those it looks for. -/
def Consistent (b : Builtin) : Prop :=
  ∀ values : List Binary64, values.length = b.arity → (b.valueAt? values).isSome

theorem consistent_unary (name : String) (f : Binary64 → Binary64) : Consistent ⟨name, 1, unary f⟩ := by
  intro values count
  simp [unary, show values.length = 1 from count]

theorem consistent_binary (name : String) (f : Binary64 → Binary64 → Binary64) : Consistent ⟨name, 2, binary f⟩ := by
  intro values count
  simp [binary, show values.length = 2 from count]

theorem consistent_of_mem_table : ∀ b ∈ table, b.Consistent := by
  simp [table, library, consistent_unary, consistent_binary]

end Builtin

end Calculator
