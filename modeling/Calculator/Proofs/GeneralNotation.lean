import Mathlib
import Calculator.Proofs.Expansion
import Calculator.Proofs.Nearest
import Calculator.Proofs.Significant

/-! # General notation

The exponent is always found again in the scientific text, and rounding once more for the plain text leaves the six
digits as they are. So the notation shown is told by the six digits alone.
-/

namespace Calculator

theorem splitOnce?_append {c : Char} {front : List Char} (absent : c ∉ front) (behind : List Char) :
    splitOnce? c (front ++ c :: behind) = some (front, behind) := by
  have span := @Lexeme.span_append (· ≠ c) front (c :: behind) (by grind) (by simp)
  simp only [splitOnce?, span]

theorem head?_decimalDigits_ne {c : Char} (other : c.isDigit = false) (n : ℕ) : (decimalDigits n).head? ≠ some c := by
  intro first
  rw [isDigit_of_mem_decimalDigits (List.mem_of_mem_head? first)] at other
  cases other

theorem readInteger?_integerDigits {n : ℤ} (low : -integerLimit ≤ n) (high : n < integerLimit) :
    readInteger? (integerDigits n) = some n := by
  have digits : (decimalDigits n.natAbs).all Char.isDigit = true :=
    List.all_eq_true.mpr fun _ => isDigit_of_mem_decimalDigits
  have nonempty : decimalDigits n.natAbs ≠ [] := Nat.toDigits_ne_nil
  have size : Nat.ofDigitChars 10 (decimalDigits n.natAbs) 0 = n.natAbs := Nat.ofDigitChars_ten_toDigits
  by_cases negative : n < 0
  · simp [readInteger?, integerDigits, negative, size, nonempty, digits, abs_of_neg negative, low, high]
  · have minus := head?_decimalDigits_ne (c := '-') (by decide) n.natAbs
    have plus := head?_decimalDigits_ne (c := '+') (by decide) n.natAbs
    simp [readInteger?, integerDigits, negative, minus, plus, size, nonempty, digits,
      abs_of_nonneg (not_lt.mp negative), low, high]

theorem exponentDigits_eq (e : ℤ) : exponentDigits e = (if e < 0 then '-' else '+') ::
    if e.natAbs < 10 then '0' :: decimalDigits e.natAbs else decimalDigits e.natAbs := by
  have short : (decimalDigits e.natAbs).length ≤ 1 ↔ e.natAbs < 10 :=
    Nat.length_toDigits_le_iff (by decide) one_pos
  have positive : 0 < (decimalDigits e.natAbs).length := digitCount_pos _
  simp only [exponentDigits]
  by_cases small : e.natAbs < 10
  · have single : 2 - (decimalDigits e.natAbs).length = 1 := by
      have := short.mpr small
      omega
    rw [if_pos small, single]
    rfl
  · have enough : 2 - (decimalDigits e.natAbs).length = 0 := by
      have := mt short.mp small
      omega
    rw [if_neg small, enough]
    rfl

theorem Decimal.letter_not_mem_allDigits (d : Decimal) : 'e' ∉ d.allDigits := by
  intro letter
  have whole : 'e' ∉ decimalDigits (d.coefficient / 10 ^ d.places) :=
    fun member => absurd (isDigit_of_mem_decimalDigits member) (by decide)
  have digits : 'e' ∉ decimalDigits (d.coefficient % 10 ^ d.places) :=
    fun member => absurd (isDigit_of_mem_decimalDigits member) (by decide)
  unfold allDigits at letter
  split at letter
  · exact whole letter
  · simp [whole, digits] at letter

namespace SixDigits

/-- Six digits in general notation: plain with a moderate exponent, and otherwise as a number below ten with the
    exponent behind it, its sign and two digits at least. -/
inductive Shown (s : SixDigits) : List Char → Prop
  | plain {text : List Char} (moderate : -4 ≤ s.exponent ∧ s.exponent ≤ 5)
      (expansion : IsExpansion (s.significand * 10 ^ (s.exponent - 5)) text) : Shown s text
  | scientific {text : List Char} (extreme : ¬ (-4 ≤ s.exponent ∧ s.exponent ≤ 5))
      (expansion : IsExpansion (s.significand / 10 ^ 5) text) :
      Shown s (text ++ 'e' :: (if s.exponent < 0 then '-' else '+') ::
        if s.exponent.natAbs < 10 then '0' :: decimalDigits s.exponent.natAbs else decimalDigits s.exponent.natAbs)

theorem Shown.unique {s : SixDigits} {text other : List Char} (first : s.Shown text) (second : s.Shown other) :
    text = other := by
  cases first with
  | plain moderate expansion =>
    cases second with
    | plain _ expansion' => exact expansion.unique expansion'
    | scientific extreme _ => exact absurd moderate extreme
  | scientific extreme expansion =>
    cases second with
    | plain moderate _ => exact absurd moderate extreme
    | scientific _ expansion' => rw [expansion.unique expansion']

/-- The digits in plain notation, for an exponent up to 5. -/
def plainDecimal (s : SixDigits) : Decimal := ⟨s.significand, (5 - s.exponent).toNat⟩

/-- The digits in general notation. -/
def text (s : SixDigits) : List Char :=
  if -4 ≤ s.exponent ∧ s.exponent ≤ 5 then s.plainDecimal.digits
  else (Decimal.mk s.significand 5).digits ++ 'e' :: exponentDigits s.exponent

theorem ten_pow_places {s : SixDigits} (small : s.exponent ≤ 5) :
    (10 : ℚ) ^ (s.exponent - 5) = (10 ^ (5 - s.exponent).toNat)⁻¹ := by
  have exponent : s.exponent - 5 = -((5 - s.exponent).toNat : ℤ) := by omega
  rw [exponent, zpow_neg, zpow_natCast]

theorem shown_text (s : SixDigits) : s.Shown s.text := by
  unfold text
  split
  · rename_i moderate
    refine .plain moderate ?_
    rw [ten_pow_places moderate.2, ← div_eq_mul_inv]
    exact s.plainDecimal.isExpansion_digits
  · rename_i extreme
    rw [exponentDigits_eq]
    exact .scientific extreme (Decimal.isExpansion_digits ⟨s.significand, 5⟩)

theorem Rounds.exponent_bounds {x : ℚ} {s : SixDigits} (found : s.Rounds x) {k : ℕ} (low : (10 ^ k)⁻¹ ≤ x)
    (high : x < 10 ^ k) : -k ≤ s.exponent ∧ s.exponent ≤ k := by
  have decade_bounds : ∀ {decade : ℤ}, InDecade x decade → -(k : ℤ) < decade + 1 ∧ decade < k := by
    intro decade own
    rw [← ten_zpow_lt_iff, ← ten_zpow_lt_iff, zpow_neg, zpow_natCast]
    exact ⟨low.trans_lt own.high, own.low.trans_lt high⟩
  cases found with
  | within own =>
    have := decade_bounds own
    simp only
    omega
  | carried own =>
    have := decade_bounds own
    simp only
    omega

end SixDigits

namespace Magnitude

variable {m : Magnitude}

theorem gridUnits_binade (shift : ℕ) : gridUnits ((shift + 1) * 2 ^ fractionBits) = 2 ^ (fractionBits + shift) := by
  have first := gridUnits_mul_add (shift + 1) (Nat.two_pow_pos fractionBits)
  simpa only [if_neg (Nat.succ_ne_zero shift), Nat.add_zero, Nat.add_sub_cancel, ← pow_add] using first

theorem value_of_index {shift significand : ℕ} (index : m.val = shift * 2 ^ fractionBits + significand)
    (leading : shift = 0 ∨ 2 ^ fractionBits ≤ significand) (fits : significand ≤ 2 * 2 ^ fractionBits) :
    m.value = 2 ^ shift * significand / unitsPerOne := by
  rw [value, units_eq_gridUnits, index, gridUnits_significand leading fits, Nat.mul_comm]
  push_cast
  rfl

theorem value_lt (m : Magnitude) : m.value < 10 ^ unitPlaces := by
  have below : (m.units : ℚ) < gridUnits ((2046 + 1) * 2 ^ fractionBits) := cast_gridUnits_lt m.isLt
  have total : fractionBits + 2046 = 1024 + unitPlaces := rfl
  rw [gridUnits_binade, total, pow_add, Nat.cast_mul, Nat.cast_pow, Nat.cast_ofNat] at below
  calc m.value < 2 ^ 1024 := (div_lt_iff₀ unitsPerOne_pos).mpr below
    _ ≤ 10 ^ 1024 := pow_le_pow_left₀ two_pos.le (by norm_num) 1024
    _ ≤ 10 ^ unitPlaces := pow_le_pow_right₀ (by norm_num) (by decide)

theorem inv_le_value (nonzero : m.units ≠ 0) : (10 ^ unitPlaces)⁻¹ ≤ m.value := by
  have least : (1 : ℚ) ≤ m.units := by exact_mod_cast Nat.one_le_iff_ne_zero.mpr nonzero
  have power : (unitsPerOne : ℚ) ≤ 10 ^ unitPlaces := by
    rw [unitsPerOne, Nat.cast_pow, Nat.cast_ofNat]
    exact pow_le_pow_left₀ two_pos.le (by norm_num) unitPlaces
  rw [← one_div]
  exact div_le_div₀ (zero_le_one.trans least) least unitsPerOne_pos power

/-- The six digits that are shown of a magnitude. -/
def sixDigits (m : Magnitude) : SixDigits := .ofRatio m.units unitsPerOne

theorem rounds_sixDigits (nonzero : m.units ≠ 0) : m.sixDigits.Rounds m.value :=
  SixDigits.rounds_ofRatio (Nat.pos_of_ne_zero nonzero) (Nat.two_pow_pos _)

theorem readInteger?_exponent (nonzero : m.units ≠ 0) :
    readInteger? (integerDigits m.sixDigits.exponent) = some m.sixDigits.exponent := by
  obtain ⟨low, high⟩ := (rounds_sixDigits nonzero).exponent_bounds (inv_le_value nonzero) m.value_lt
  unfold unitPlaces at low high
  exact readInteger?_integerDigits (by unfold integerLimit; omega) (by unfold integerLimit; omega)

theorem splitOnce?_scientificDigits (m : Magnitude) : splitOnce? 'e' m.scientificDigits =
    some ((Decimal.mk m.sixDigits.significand 5).allDigits, integerDigits m.sixDigits.exponent) :=
  splitOnce?_append (Decimal.letter_not_mem_allDigits _) _

/-- The second rounding finds the digits of the first. -/
theorem fixedDigits_eq (nonzero : m.units ≠ 0) (small : m.sixDigits.exponent ≤ 5) :
    m.fixedDigits (5 - m.sixDigits.exponent).toNat = m.sixDigits.plainDecimal.allDigits := by
  have first := (rounds_sixDigits nonzero).rounded
  have second := isRounded_roundHalfEven (m.units * 10 ^ (5 - m.sixDigits.exponent).toNat)
    (Nat.two_pow_pos unitPlaces)
  rw [SixDigits.ten_pow_places small, div_inv_eq_mul, value, div_mul_eq_mul_div] at first
  rw [Nat.cast_mul, Nat.cast_pow, Nat.cast_ofNat] at second
  have digits := second.unique first
  unfold fixedDigits SixDigits.plainDecimal
  rw [← digits]
  rfl

theorem generalDigits_eq (nonzero : m.units ≠ 0) : m.generalDigits = m.sixDigits.text := by
  unfold generalDigits
  simp only [splitOnce?_scientificDigits, readInteger?_exponent nonzero, Option.getD_some,
    Decimal.trimFraction_allDigits]
  have precision : (displayPrecision : ℤ) - 1 = 5 := rfl
  have moderate : m.sixDigits.exponent < displayPrecision ↔ m.sixDigits.exponent ≤ 5 := by omega
  simp only [moderate, precision, SixDigits.text]
  split
  · rename_i moderate
    rw [fixedDigits_eq nonzero moderate.2, Decimal.trimFraction_allDigits]
  · rfl

end Magnitude

/-- Every nonzero number is shown by the six digits that it is rounded to, in the one notation they have. The digits of
    the second rounding are those of the first, and the exponent is always found in the scientific text. -/
theorem Binary64.generalText_shown (negative : Bool) {m : Magnitude} (nonzero : m.units ≠ 0) :
    ∃ s : SixDigits, (∀ t : SixDigits, t.Rounds m.value ↔ t = s) ∧
      10 ^ 5 ≤ s.significand ∧ s.significand < 10 ^ 6 ∧
      (∃ text, (finite negative m).generalText = signed negative text ∧ ∀ other, s.Shown other ↔ other = text) ∧
      (s.exponent ≤ 5 → m.fixedDigits (5 - s.exponent).toNat =
        (Decimal.mk s.significand (5 - s.exponent).toNat).allDigits) ∧
      ∃ exponentText, splitOnce? 'e' m.scientificDigits =
        some ((Decimal.mk s.significand 5).allDigits, exponentText) ∧ readInteger? exponentText = some s.exponent := by
  have rounds := Magnitude.rounds_sixDigits nonzero
  obtain ⟨low, high⟩ := rounds.significand_bounds
  have only : ∀ t : SixDigits, t.Rounds m.value ↔ t = m.sixDigits :=
    fun t => ⟨fun other => other.unique rounds, fun same => same ▸ rounds⟩
  refine ⟨m.sixDigits, only, low, high, ⟨m.sixDigits.text, ?_, fun other => ?_⟩, Magnitude.fixedDigits_eq nonzero,
    _, m.splitOnce?_scientificDigits, Magnitude.readInteger?_exponent nonzero⟩
  · rw [generalText, if_neg nonzero, Magnitude.generalDigits_eq nonzero]
  · exact ⟨fun shown => shown.unique (SixDigits.shown_text _), fun same => same ▸ SixDigits.shown_text _⟩

/-- The number 999999.5, halfway between two numbers of six digits. -/
def halfBelowMillion : Magnitude := ⟨1041 * 2 ^ fractionBits + 1999999 * 2 ^ 32, by decide⟩

theorem value_halfBelowMillion : halfBelowMillion.value = 1999999 / 2 := by
  have leading : 2 ^ fractionBits ≤ 1999999 * 2 ^ 32 := by decide
  have index : halfBelowMillion.val = 1041 * 2 ^ fractionBits + 1999999 * 2 ^ 32 := rfl
  have power : (2 : ℚ) ^ 1074 = 2 ^ 1041 * 2 ^ 33 := pow_add 2 1041 33
  rw [Magnitude.value_of_index index (.inr leading) (by decide), cast_unitsPerOne, power, mul_div_mul_comm]
  norm_num

theorem Binary64.generalText_shown_carried :
    halfBelowMillion.units ≠ 0 ∧ (finite true halfBelowMillion).generalText = "-1e+06" := by
  have nonzero : halfBelowMillion.units ≠ 0 := Magnitude.units_ne_zero (by rw [value_halfBelowMillion]; norm_num)
  obtain ⟨s, only, _, _, ⟨text, shown, single⟩, _⟩ := generalText_shown true nonzero
  have own : InDecade halfBelowMillion.value 5 := by
    rw [value_halfBelowMillion]
    constructor <;> norm_num
  have digits : s = ⟨10 ^ 5, 6⟩ := by
    refine ((only _).mp (.carried own ⟨?_, fun _ => by decide⟩)).symm
    rw [value_halfBelowMillion]
    norm_num [abs_le]
  have written : text = ['1', 'e', '+', '0', '6'] := by
    refine ((single _).mp ?_).symm
    rw [digits]
    exact .scientific (by decide) (.whole (n := 1) (by norm_num))
  refine ⟨nonzero, ?_⟩
  rw [shown, written]
  rfl

end Calculator
