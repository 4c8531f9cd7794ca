import Mathlib
import Calculator.Proofs.Literal
import Calculator.Proofs.Nearest

/-! # The values of literals

A literal stands for the exact value of its digits up to the second point, however many they are. The number read is
the nearest one to that value.
-/

namespace Calculator

def digitValue (c : Char) : ℕ := c.toNat - '0'.toNat

/-- The value of digits behind a point. -/
def fractionValue : List Char → ℚ
  | [] => 0
  | c :: rest => (digitValue c + fractionValue rest) / 10

/-- The value of digits, and maybe a point among them, behind digits of value `n`. -/
def valueBehind (n : ℚ) : List Char → ℚ
  | [] => n
  | c :: rest => if c = '.' then n + fractionValue rest else valueBehind (10 * n + digitValue c) rest

/-- The exact value of a literal with one point at most. -/
def literalValue (text : List Char) : ℚ := valueBehind 0 text

theorem fractionValue_eq (fraction : List Char) :
    fractionValue fraction = Nat.ofDigitChars 10 fraction 0 / 10 ^ fraction.length := by
  induction fraction with
  | nil => simp [fractionValue, Nat.ofDigitChars]
  | cons c rest ih =>
    have split : Nat.ofDigitChars 10 (c :: rest) 0 = 10 ^ rest.length * digitValue c + Nat.ofDigitChars 10 rest 0 := by
      rw [Nat.ofDigitChars_cons, Nat.mul_zero, Nat.zero_add]
      exact Nat.ofDigitChars_eq_ofDigitChars_zero
    rw [fractionValue, ih, split, List.length_cons, pow_succ]
    push_cast
    field_simp

theorem valueBehind_whole {whole : List Char} (pointless : '.' ∉ whole) (n : ℕ) (rest : List Char) :
    valueBehind n (whole ++ rest) = valueBehind (Nat.ofDigitChars 10 whole n) rest := by
  induction whole generalizing n with
  | nil => rfl
  | cons c whole ih =>
    rw [List.mem_cons, not_or] at pointless
    have step : 10 * (n : ℚ) + digitValue c = (10 * n + digitValue c : ℕ) := by push_cast; rfl
    rw [List.cons_append, valueBehind, if_neg (Ne.symm pointless.1), step, ih pointless.2, Nat.ofDigitChars_cons]
    rfl

theorem literalValue_whole {whole : List Char} (pointless : '.' ∉ whole) :
    literalValue whole = Nat.ofDigitChars 10 whole 0 := by
  simpa [literalValue, valueBehind] using valueBehind_whole pointless 0 []

theorem literalValue_point {whole : List Char} (pointless : '.' ∉ whole) (fraction : List Char) :
    literalValue (whole ++ '.' :: fraction) = Nat.ofDigitChars 10 whole 0 + fractionValue fraction := by
  simpa [literalValue, valueBehind] using valueBehind_whole pointless 0 ('.' :: fraction)

namespace Decimal

theorem value_ofText (text : List Char) :
    ((ofText text).coefficient : ℚ) / 10 ^ (ofText text).places = literalValue text := by
  by_cases point : '.' ∈ text
  · obtain ⟨whole, fraction, rfl, pointless⟩ := List.eq_append_cons_of_mem point
    rw [ofText_point pointless, literalValue_point pointless, fractionValue_eq, Nat.ofDigitChars_append,
      Nat.ofDigitChars_eq_ofDigitChars_zero]
    push_cast
    field_simp
  · rw [ofText_whole point, literalValue_whole point]
    simp

theorem toBinary64_ratio (d : Decimal) : ((d.coefficient * unitsPerOne : ℕ) : ℚ) / (10 ^ d.places : ℕ) =
    (d.coefficient : ℚ) / 10 ^ d.places * unitsPerOne := by
  push_cast
  ring

theorem isNearest_toBinary64 (d : Decimal) : d.toBinary64.IsNearest (d.coefficient / 10 ^ d.places) :=
  Binary64.isNearest_ofRatio (Nat.pow_pos (by decide)) d.toBinary64_ratio

end Decimal

/-- No digit stands in front of the second point only if both points come first, or if there is nothing but one. -/
theorem hasDigit_eq_false_iff {text : String} (nonempty : text ≠ "") (numeric : ∀ c ∈ text.toList, isNumeric c = true) :
    hasDigit text = false ↔ text = "." ∨ ['.', '.'] <+: text.toList := by
  have only : text = "." ↔ text.toList = ['.'] := by
    rw [← String.toList_inj]
    rfl
  have kind : ∀ c ∈ text.toList, c.isDigit = true ∧ c ≠ '.' ∨ c = '.' := by
    intro c member
    by_cases point : c = '.'
    · exact .inr point
    · exact .inl ⟨by simpa [isNumeric, point] using numeric c member, point⟩
  have filled : text.toList ≠ [] := mt String.toList_eq_nil_iff.mp nonempty
  have notDigit : '.'.isDigit = false := by decide
  rw [only, hasDigit]
  cases characters : text.toList with
  | nil => exact absurd characters filled
  | cons c rest =>
    rw [characters] at kind
    rcases kind c List.mem_cons_self with ⟨digit, notPoint⟩ | rfl
    · simp [beforePoint, digit, notPoint, Ne.symm notPoint]
    · cases rest with
      | nil => simp [beforePoint, notDigit]
      | cons d rest =>
        rcases kind d (by simp) with ⟨digit, notPoint⟩ | rfl
        · simp [beforePoint, digit, notPoint, Ne.symm notPoint]
        · simp [beforePoint, notDigit]

/-- A run of digits and points denotes no number exactly if no digit stands in front of its second point; this is so
    for a single point and for two points in front. Otherwise it denotes the number nearest to the exact value of what
    stands there, whatever follows. -/
theorem numberOfLiteral_nearest {text : String} (nonempty : text ≠ "")
    (numeric : ∀ c ∈ text.toList, isNumeric c = true) :
    (numberOfLiteral text = .error (.invalidNumber text) ↔ hasDigit text = false) ∧
    (hasDigit text = false ↔ text = "." ∨ ['.', '.'] <+: text.toList) ∧
    (hasDigit text = true → ∃ x : Binary64, numberOfLiteral text = .ok x ∧
      (∀ y : Binary64, y.IsNearest (literalValue (beforePoint 1 text.toList)) ↔ y = x) ∧
      (x = .zero false ↔ literalValue (beforePoint 1 text.toList) ≤ underflowBound) ∧
      (x = .infinity false ↔ overflowBound ≤ literalValue (beforePoint 1 text.toList)) ∧
      (x = .infinity false ∨ ∃ m, x = .finite false m) ∧
      ∀ other : String, beforePoint 1 other.toList = beforePoint 1 text.toList → numberOfLiteral other = .ok x) := by
  have digitless : numberOfLiteral text = .error (.invalidNumber text) ↔ hasDigit text = false := by
    constructor
    · intro failed
      by_contra digit
      rw [numberOfLiteral_of_hasDigit (Bool.eq_true_of_not_eq_false digit)] at failed
      cases failed
    · exact numberOfLiteral_of_not_hasDigit
  refine ⟨digitless, hasDigit_eq_false_iff nonempty numeric, fun digit => ?_⟩
  have counted := Decimal.value_ofText (beforePoint 1 text.toList)
  generalize decimal : Decimal.ofText (beforePoint 1 text.toList) = d at counted
  have positive : 0 < 10 ^ d.places := Nat.pow_pos (by decide)
  have nearest := d.isNearest_toBinary64
  have zero := Binary64.ofRatio_eq_zero_iff positive d.toBinary64_ratio
  have infinite := Binary64.ofRatio_eq_infinity_iff positive d.toBinary64_ratio
  rw [counted] at nearest zero infinite
  have only : ∀ y : Binary64, y.IsNearest (literalValue (beforePoint 1 text.toList)) ↔ y = d.toBinary64 :=
    fun y => ⟨fun other => other.unique nearest, fun same => same ▸ nearest⟩
  refine ⟨d.toBinary64, ?_, only, zero, infinite, ?_, ?_⟩
  · rw [numberOfLiteral_of_hasDigit digit, decimal]
  · match d.toBinary64, nearest with
    | .finite false m, _ => exact .inr ⟨m, rfl⟩
    | .infinity false, _ => exact .inl rfl
  · intro other same
    have digit' : hasDigit other = true := by rwa [hasDigit, same]
    rw [numberOfLiteral_of_hasDigit digit', same, decimal]

theorem numberOfLiteral_nearest_two_points :
    ("1.5.7" ≠ "" ∧ "1.5.7".toList.all isNumeric = true ∧ hasDigit "1.5.7" = true ∧
      ∀ y : Binary64, y.IsNearest (3 / 2) ↔ numberOfLiteral "1.5.7" = .ok y) ∧
    "..5" ≠ "" ∧ "..5".toList.all isNumeric = true ∧ numberOfLiteral "..5" = .error (.invalidNumber "..5") := by
  have numeric : "1.5.7".toList.all isNumeric = true := by decide
  have numeric' : "..5".toList.all isNumeric = true := by decide
  have digit : hasDigit "1.5.7" = true := by decide
  obtain ⟨_, _, value⟩ := numberOfLiteral_nearest (by decide) (List.all_eq_true.mp numeric)
  obtain ⟨invalid, _, _⟩ := numberOfLiteral_nearest (by decide) (List.all_eq_true.mp numeric')
  obtain ⟨x, read, nearest, _⟩ := value digit
  have counted : beforePoint 1 "1.5.7".toList = ['1', '.', '5'] := by decide
  have half : literalValue ['1', '.', '5'] = 3 / 2 := by
    have one : digitValue '1' = 1 := rfl
    have five : digitValue '5' = 5 := rfl
    have notPoint : '1' ≠ '.' := by decide
    norm_num [literalValue, valueBehind, fractionValue, one, five, notPoint]
  rw [counted, half] at nearest
  refine ⟨⟨by decide, numeric, digit, fun y => ?_⟩, by decide, numeric', invalid.mpr (by decide)⟩
  rw [nearest, read, Except.ok.injEq, eq_comm]

end Calculator
