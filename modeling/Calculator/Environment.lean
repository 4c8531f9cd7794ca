import Calculator.Number.Binary64

/-! # Environments

The variables of a session. A name is bound at most once; the order is that of first assignment.
-/

namespace Calculator

/-- The variable that holds the last result. -/
def answerName : String := "Ans"

/-- Bound names with their values. -/
structure Environment where
  bindings : List (String × Binary64)
  deriving DecidableEq, Repr

namespace Environment

/-- The environment of a fresh session: the last result is zero. -/
def initial : Environment := ⟨[(answerName, .zero false)]⟩

/-- The value of a name in a list of bindings. -/
def find? (name : String) : List (String × Binary64) → Option Binary64
  | [] => none
  | entry :: rest => if entry.1 = name then some entry.2 else find? name rest

/-- The value of a name. -/
def get? (env : Environment) (name : String) : Option Binary64 := find? name env.bindings

/-- Give a name a value in a list of bindings: in place if it is bound, at the end otherwise. -/
def update (name : String) (value : Binary64) : List (String × Binary64) → List (String × Binary64)
  | [] => [(name, value)]
  | entry :: rest => if entry.1 = name then (name, value) :: rest else entry :: update name value rest

/-- Bind a name to a value. -/
def set (env : Environment) (name : String) (value : Binary64) : Environment :=
  ⟨update name value env.bindings⟩

theorem find?_update (name other : String) (value : Binary64) (bindings : List (String × Binary64)) :
    find? other (update name value bindings) = if other = name then some value else find? other bindings := by
  induction bindings with
  | nil => simp [update, find?, eq_comm]
  | cons entry rest ih =>
    by_cases taken : entry.1 = name
    · by_cases same : name = other <;> simp [update, find?, taken, same, Ne.symm]
    · by_cases met : entry.1 = other
      · have distinct : other ≠ name := fun h => taken (met.trans h)
        simp [update, find?, met, distinct]
      · simp [update, find?, taken, met, ih]

/-- A name has the value last given to it; other names keep theirs. -/
@[simp]
theorem get?_set (env : Environment) (name other : String) (value : Binary64) :
    (env.set name value).get? other = if other = name then some value else env.get? other :=
  find?_update name other value env.bindings

end Environment

end Calculator
