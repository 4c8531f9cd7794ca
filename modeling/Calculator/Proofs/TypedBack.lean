import Mathlib
import Calculator.Calculate
import Calculator.Proofs.GeneralNotation
import Calculator.Proofs.Rendering

/-! # Results typed back

The plain text of a result is a literal behind a sign. The number read from it is so near to the six digits that it is
rounded to the same ones, so it is shown alike.
-/

namespace Calculator

theorem parse_signed (negative : Bool) (d : Decimal) : Expr.parse (signed negative d.digits) =
    .ok (if negative then .neg (.number d.toBinary64) else .number d.toBinary64) := by
  obtain ⟨d', read, value⟩ := d.read?_digits
  refine @Derivation.parse_eq (.alone (.sign negative (.bare (.number (String.ofList d.digits))))) _ ?_ ?_ _ ?_
  · simp [Derivation.Greedy]
  · cases negative <;> simp [Derivation.tree?, read, value]
  · have pieces := Lexeme.all_signed negative d separates_nil
    have nothing : Lexeme.all [] = [] := Lexeme.all_of_next?_eq_none rfl
    rw [nothing, List.append_nil, List.append_nil] at pieces
    rw [pieces, Derivation.word_alone]

theorem calculate_signed (negative : Bool) {d : Decimal} {n : Magnitude} (read : d.toBinary64 = .finite false n)
    (env : Environment) : calculate (signed negative d.digits) env = .ok (.finite negative n) env := by
  unfold calculate
  rw [parse_signed, read]
  cases negative <;> rfl

/-- In the range of the normal numbers the number read has a small relative error. -/
theorem Decimal.exists_toBinary64_eq {d : Decimal} {x : ℚ} (value : d.coefficient / 10 ^ d.places = x)
    (normal : 2 ^ fractionBits ≤ x * unitsPerOne) (finite : x < overflowBound) :
    ∃ n : Magnitude, d.toBinary64 = .finite false n ∧ 2 * 2 ^ fractionBits * |x - n.value| ≤ x := by
  have positive : 0 < 10 ^ d.places := Nat.pow_pos (by decide)
  have ratio := d.toBinary64_ratio
  rw [value] at ratio
  have small := (Binary64.nearestIndex_lt_magnitudeCount positive ratio).mpr finite
  obtain ⟨shift, significand, index, found⟩ := Magnitude.exists_isSignificand (d.coefficient * unitsPerOne) positive
  rw [ratio] at found
  have error := found.abs_sub_le normal
  rw [← index] at error
  refine ⟨⟨_, small⟩, dif_pos small, ?_⟩
  rwa [Magnitude.abs_sub_value, ← mul_div_assoc, div_le_iff₀ Magnitude.unitsPerOne_pos]

theorem normal_of_le {x : ℚ} (low : 1 / 10 ^ 4 ≤ x) : 2 ^ fractionBits ≤ x * unitsPerOne := by
  have power : (2 : ℚ) ^ 1074 = 2 ^ 52 * (2 ^ 14 * 2 ^ 1008) := by rw [← pow_add, ← pow_add]
  have large : (1 : ℚ) ≤ 2 ^ 1008 := one_le_pow₀ (by norm_num)
  have product : 1 / 10 ^ 4 * 1 ≤ x * 2 ^ 1008 := mul_le_mul low large zero_le_one (le_trans (by norm_num) low)
  rw [cast_unitsPerOne, fractionBits, power]
  generalize (2 : ℚ) ^ 1008 = u at product
  linarith only [product]

theorem lt_overflowBound_of_lt {x : ℚ} (high : x < 10 ^ 6) : x < overflowBound := by
  have power : (2 : ℚ) ^ 1024 = 2 ^ 54 * 2 ^ 970 := by rw [← pow_add]
  have large : (1 : ℚ) ≤ 2 ^ 970 := one_le_pow₀ (by norm_num)
  rw [overflowBound, power]
  generalize (2 : ℚ) ^ 970 = u at large
  linarith only [large, high]

/-- The number read from six digits with a moderate exponent is shown by the same digits. -/
theorem SixDigits.exists_toBinary64_plainDecimal {s : SixDigits} (low : 10 ^ 5 ≤ s.significand)
    (high : s.significand < 10 ^ 6) (moderate : -4 ≤ s.exponent ∧ s.exponent ≤ 5) :
    ∃ n : Magnitude, s.plainDecimal.toBinary64 = .finite false n ∧ n.units ≠ 0 ∧ n.sixDigits = s := by
  have value : (s.plainDecimal.coefficient : ℚ) / 10 ^ s.plainDecimal.places =
      s.significand * 10 ^ (s.exponent - 5) := by
    rw [ten_pow_places moderate.2, ← div_eq_mul_inv]
    rfl
  have low' : (10 ^ 5 : ℚ) ≤ s.significand := by exact_mod_cast low
  have high' : (s.significand : ℚ) < 10 ^ 6 := by exact_mod_cast high
  have unit := ten_zpow_pos (s.exponent - 5)
  have lower : 10 ^ 5 * 10 ^ (-9 : ℤ) ≤ s.significand * (10 : ℚ) ^ (s.exponent - 5) :=
    mul_le_mul low' (zpow_le_zpow_right₀ (by norm_num) (by omega)) (ten_zpow_pos _).le (by positivity)
  have upper : s.significand * (10 : ℚ) ^ (s.exponent - 5) < 10 ^ 6 * 1 :=
    mul_lt_mul high' (zpow_le_one_of_nonpos₀ (by norm_num) (by omega)) unit (by norm_num)
  have below : s.significand * (10 : ℚ) ^ (s.exponent - 5) < 10 ^ 6 * 10 ^ (s.exponent - 5) :=
    mul_lt_mul_of_pos_right high' unit
  have positive : 0 < s.significand * (10 : ℚ) ^ (s.exponent - 5) := mul_pos (by linarith) unit
  obtain ⟨n, read, error⟩ := Decimal.exists_toBinary64_eq value (normal_of_le (le_trans (by norm_num) lower))
    (lt_overflowBound_of_lt (by simpa using upper))
  have nonzero : n.units ≠ 0 := by
    refine Magnitude.units_ne_zero fun zero => ?_
    rw [zero, sub_zero, abs_of_pos positive, fractionBits] at error
    linarith
  have close : s.Rounds n.value := by
    refine .of_close low high ?_
    rw [abs_sub_comm]
    rw [fractionBits] at error
    linarith
  exact ⟨n, read, nonzero, (Magnitude.rounds_sixDigits nonzero).unique close⟩

theorem Magnitude.generalDigits_plain {m : Magnitude} (nonzero : m.units ≠ 0) (plain : 'e' ∉ m.generalDigits) :
    (-4 ≤ m.sixDigits.exponent ∧ m.sixDigits.exponent ≤ 5) ∧ m.generalDigits = m.sixDigits.plainDecimal.digits := by
  rw [generalDigits_eq nonzero, SixDigits.text] at *
  split at plain
  · rename_i moderate
    rw [if_pos moderate]
    exact ⟨moderate, rfl⟩
  · simp at plain

/-- What is shown without an exponent can be typed back: in any environment, which stays as it is, it has a value of
    the same sign that is shown alike. -/
theorem calculate_generalText (negative : Bool) (m : Magnitude)
    (plain : 'e' ∉ (Binary64.finite negative m).generalText.toList) (env : Environment) :
    ∃ n : Magnitude, calculate (Binary64.finite negative m).generalText env = .ok (.finite negative n) env ∧
      (Binary64.finite negative n).generalText = (Binary64.finite negative m).generalText := by
  by_cases zero : m.units = 0
  · have shown : (Binary64.finite negative m).generalText = signed negative m.shortest.digits := by
      rw [Binary64.generalText, if_pos zero, Magnitude.shortest, if_pos zero]
      rfl
    refine ⟨m, ?_, rfl⟩
    rw [shown]
    exact calculate_signed negative m.toBinary64_shortest env
  · have shown : (Binary64.finite negative m).generalText = signed negative m.generalDigits := by
      rw [Binary64.generalText, if_neg zero]
    have plain' : 'e' ∉ m.generalDigits := by
      intro letter
      rw [shown, signed, String.toList_ofList] at plain
      cases negative <;> simp [letter] at plain
    obtain ⟨moderate, digits⟩ := Magnitude.generalDigits_plain zero plain'
    obtain ⟨low, high⟩ := (Magnitude.rounds_sixDigits zero).significand_bounds
    obtain ⟨n, read, nonzero, same⟩ := SixDigits.exists_toBinary64_plainDecimal low high moderate
    refine ⟨n, ?_, ?_⟩
    · rw [shown, digits]
      exact calculate_signed negative read env
    · rw [shown, Binary64.generalText, if_neg nonzero, Magnitude.generalDigits_eq nonzero, same,
        Magnitude.generalDigits_eq zero]

/-- The number nearest to 0.1. -/
def nearTenth : Magnitude := ⟨1018 * 2 ^ fractionBits + 7205759403792794, by decide⟩

theorem value_nearTenth : nearTenth.value = 7205759403792794 / 2 ^ 56 := by
  have leading : 2 ^ fractionBits ≤ 7205759403792794 := by decide
  have index : nearTenth.val = 1018 * 2 ^ fractionBits + 7205759403792794 := rfl
  have power : (2 : ℚ) ^ 1074 = 2 ^ 1018 * 2 ^ 56 := pow_add 2 1018 56
  rw [Magnitude.value_of_index index (.inr leading) (by decide), cast_unitsPerOne, power, mul_div_mul_comm]
  norm_num

theorem generalText_nearTenth : (Binary64.finite true nearTenth).generalText = "-0.1" := by
  have nonzero : nearTenth.units ≠ 0 := Magnitude.units_ne_zero (by rw [value_nearTenth]; norm_num)
  have close : SixDigits.Rounds nearTenth.value ⟨10 ^ 5, -1⟩ := by
    refine .of_close le_rfl (by norm_num) ?_
    rw [value_nearTenth]
    norm_num [abs_lt]
  have digits := (Magnitude.rounds_sixDigits nonzero).unique close
  rw [Binary64.generalText, if_neg nonzero, Magnitude.generalDigits_eq nonzero, digits]
  decide

theorem calculate_generalText_tenth :
    'e' ∉ (Binary64.finite true nearTenth).generalText.toList ∧
    ∃ n : Magnitude, calculate "-0.1" .initial = .ok (.finite true n) .initial ∧
      (Binary64.finite true n).generalText = "-0.1" := by
  have plain : 'e' ∉ (Binary64.finite true nearTenth).generalText.toList := by
    rw [generalText_nearTenth]
    decide
  obtain ⟨n, value, shown⟩ := calculate_generalText true nearTenth plain .initial
  rw [generalText_nearTenth] at value shown
  exact ⟨plain, n, value, shown⟩

end Calculator
