import Mathlib
import Calculator.Number.GeneralText
import Calculator.Proofs.Rounding

/-! # Six significant digits

A positive number is rounded in its own decade. Rounding up to the end of the decade moves on to the next one. The
digits found are also those of a rounding with the exponent that they end up with, and they are found for every number
close enough to them.
-/

namespace Calculator

theorem ten_zpow_pos (e : ℤ) : (0 : ℚ) < 10 ^ e := zpow_pos (by norm_num) e

theorem ten_zpow_lt_iff {d e : ℤ} : (10 : ℚ) ^ d < 10 ^ e ↔ d < e := zpow_lt_zpow_iff_right₀ (by norm_num)

theorem ten_zpow_eq_mul (k : ℕ) {d e : ℤ} (exponent : e = k + d) : (10 : ℚ) ^ e = 10 ^ k * 10 ^ d := by
  rw [exponent, zpow_add₀ (by norm_num), zpow_natCast]

theorem div_ten_zpow_succ (x : ℚ) (e : ℤ) : x / 10 ^ (e + 1 - 5) = x / 10 ^ (e - 5) / 10 := by
  rw [div_div, add_sub_right_comm, zpow_add_one₀ (by norm_num)]

/-- The decade of a number: its decimal exponent is `e`. -/
structure InDecade (x : ℚ) (e : ℤ) : Prop where
  low : 10 ^ e ≤ x
  high : x < 10 ^ (e + 1)

theorem InDecade.unique {x : ℚ} {d e : ℤ} (first : InDecade x d) (second : InDecade x e) : d = e := by
  have below := ten_zpow_lt_iff.mp (first.low.trans_lt second.high)
  have above := ten_zpow_lt_iff.mp (second.low.trans_lt first.high)
  omega

theorem InDecade.scaled {x : ℚ} {e : ℤ} (own : InDecade x e) :
    10 ^ 5 ≤ x / 10 ^ (e - 5) ∧ x / 10 ^ (e - 5) < 10 ^ 6 := by
  have first : (10 : ℚ) ^ e = 10 ^ 5 * 10 ^ (e - 5) := ten_zpow_eq_mul 5 (by omega)
  have last : (10 : ℚ) ^ (e + 1) = 10 ^ 6 * 10 ^ (e - 5) := ten_zpow_eq_mul 6 (by omega)
  rw [le_div_iff₀ (ten_zpow_pos _), div_lt_iff₀ (ten_zpow_pos _), ← first, ← last]
  exact ⟨own.low, own.high⟩

theorem digitCount_pos (n : ℕ) : 0 < digitCount n := List.length_pos_iff.mpr Nat.toDigits_ne_nil

theorem lt_pow_digitCount (n : ℕ) : n < 10 ^ digitCount n :=
  (Nat.length_toDigits_le_iff (by decide) (digitCount_pos n)).mp (Nat.le_refl _)

theorem pow_digitCount_le {n : ℕ} (positive : 0 < n) : 10 ^ (digitCount n - 1) ≤ n := by
  by_cases single : digitCount n = 1
  · rw [single]
    exact positive
  · have several : 0 < digitCount n - 1 := by have := digitCount_pos n; omega
    refine Nat.not_lt.mp fun less => ?_
    have shorter := (Nat.length_toDigits_le_iff (by decide) several).mpr less
    exact absurd shorter (by unfold digitCount decimalDigits at *; omega)

theorem inDecade_decimalExponent {num den : ℕ} (positive : 0 < num) (scale : 0 < den) :
    InDecade (num / den) (decimalExponent num den) := by
  have scale' : (0 : ℚ) < den := by exact_mod_cast scale
  unfold decimalExponent
  split
  · rename_i less
    have inverse : 0 < (den - 1) / num := Nat.div_pos (Nat.le_sub_one_of_lt less) positive
    have low := (Nat.le_div_iff_mul_le positive).mp (pow_digitCount_le inverse)
    have high := (Nat.div_lt_iff_lt_mul positive).mp (lt_pow_digitCount ((den - 1) / num))
    have count := digitCount_pos ((den - 1) / num)
    generalize digitCount ((den - 1) / num) = k at *
    constructor
    · rw [zpow_neg, zpow_natCast, inv_le_comm₀ (by positivity) (by positivity), inv_div, div_le_iff₀ (by positivity)]
      have bound : den ≤ 10 ^ k * num := by omega
      exact_mod_cast bound
    · have exponent : -(k : ℤ) + 1 = -((k - 1 : ℕ) : ℤ) := by omega
      rw [exponent, zpow_neg, zpow_natCast, lt_inv_comm₀ (by positivity) (by positivity), inv_div,
        lt_div_iff₀ (by positivity)]
      have bound : 10 ^ (k - 1) * num < den := by omega
      exact_mod_cast bound
  · rename_i more
    have whole : 0 < num / den := Nat.div_pos (Nat.not_lt.mp more) scale
    have low := (Nat.le_div_iff_mul_le scale).mp (pow_digitCount_le whole)
    have high := (Nat.div_lt_iff_lt_mul scale).mp (lt_pow_digitCount (num / den))
    have count := digitCount_pos (num / den)
    generalize digitCount (num / den) = k at *
    constructor
    · have exponent : (k : ℤ) - 1 = ((k - 1 : ℕ) : ℤ) := by omega
      rw [exponent, zpow_natCast, le_div_iff₀ scale']
      exact_mod_cast low
    · rw [sub_add_cancel, zpow_natCast, div_lt_iff₀ scale']
      exact_mod_cast high

namespace SixDigits

theorem isRounded_scaled (num : ℕ) {den : ℕ} (positive : 0 < den) (e : ℤ) :
    IsRounded (num / den / 10 ^ e) (scaled num den e) := by
  unfold scaled
  split
  · rename_i k
    have rounded := isRounded_roundHalfEven num (Nat.mul_pos positive (Nat.pow_pos (n := k) (by decide : 0 < 10)))
    push_cast at rounded
    rwa [Int.ofNat_eq_natCast, zpow_natCast, div_div]
  · rename_i k
    have rounded := isRounded_roundHalfEven (num * 10 ^ (k + 1)) positive
    push_cast at rounded
    rwa [zpow_negSucc, div_inv_eq_mul, div_mul_eq_mul_div]

/-- The six digits that a positive number is rounded to. -/
inductive Rounds (x : ℚ) : SixDigits → Prop
  /-- The number is rounded within its decade. -/
  | within {decade : ℤ} {n : ℕ} (own : InDecade x decade) (rounded : IsRounded (x / 10 ^ (decade - 5)) n)
      (fits : n < 10 ^ 6) : Rounds x ⟨n, decade⟩
  /-- The number is rounded up to the end of its decade, which is the start of the next. -/
  | carried {decade : ℤ} (own : InDecade x decade) (rounded : IsRounded (x / 10 ^ (decade - 5)) (10 ^ 6)) :
      Rounds x ⟨10 ^ 5, decade + 1⟩

theorem rounds_ofRatio {num den : ℕ} (positive : 0 < num) (scale : 0 < den) :
    (ofRatio num den).Rounds (num / den) := by
  have own := inDecade_decimalExponent positive scale
  have rounded := isRounded_scaled num scale (decimalExponent num den - 5)
  unfold ofRatio
  simp only
  split
  · rename_i carried
    rw [carried] at rounded
    exact .carried own rounded
  · rename_i other
    refine .within own rounded (lt_of_le_of_ne (rounded.ge_of_ge ?_) other)
    exact_mod_cast own.scaled.2.le

namespace Rounds

variable {x : ℚ} {s t : SixDigits}

theorem unique (first : s.Rounds x) (second : t.Rounds x) : s = t := by
  cases first with
  | within own rounded fits =>
    cases second with
    | within own' rounded' fits' =>
      obtain rfl := own.unique own'
      rw [rounded.unique rounded']
    | carried own' rounded' =>
      obtain rfl := own.unique own'
      exact absurd (rounded.unique rounded') fits.ne
  | carried own rounded =>
    cases second with
    | within own' rounded' fits' =>
      obtain rfl := own.unique own'
      exact absurd (rounded'.unique rounded) fits'.ne
    | carried own' rounded' => rw [own.unique own']

theorem significand_bounds (found : s.Rounds x) : 10 ^ 5 ≤ s.significand ∧ s.significand < 10 ^ 6 := by
  cases found with
  | within own rounded fits =>
    refine ⟨rounded.le_of_le ?_, fits⟩
    exact_mod_cast own.scaled.1
  | carried own rounded => exact ⟨Nat.le_refl _, by norm_num⟩

/-- Rounding once more, with the exponent found, gives the same digits. -/
theorem rounded (found : s.Rounds x) : IsRounded (x / 10 ^ (s.exponent - 5)) s.significand := by
  cases found with
  | within own rounded fits => exact rounded
  | @carried decade own rounded =>
    have coarser := div_ten_zpow_succ x decade
    obtain ⟨low, high⟩ := abs_le.mp rounded.near
    push_cast at low high
    refine .of_close (abs_lt.mpr ?_)
    rw [coarser]
    push_cast
    constructor <;> linarith

/-- A number that is off by less than a twentieth of the last digit is rounded to the digits, also if it lies in the
    decade below, where the digits are finer. -/
theorem of_close (low : 10 ^ 5 ≤ s.significand) (high : s.significand < 10 ^ 6)
    (close : 20 * |x - s.significand * 10 ^ (s.exponent - 5)| < 10 ^ (s.exponent - 5)) : s.Rounds x := by
  obtain ⟨d, e⟩ := s
  simp only at *
  have unit := ten_zpow_pos (e - 5)
  have first : (10 : ℚ) ^ e = 10 ^ 5 * 10 ^ (e - 5) := ten_zpow_eq_mul 5 (by omega)
  have last : (10 : ℚ) ^ (e + 1) = 10 ^ 6 * 10 ^ (e - 5) := ten_zpow_eq_mul 6 (by omega)
  have low' : (10 ^ 5 : ℚ) ≤ d := by exact_mod_cast low
  have high' : (d : ℚ) + 1 ≤ 10 ^ 6 := by exact_mod_cast high
  have offset : |x / 10 ^ (e - 5) - d| < 1 / 20 := by
    have scaled : x / 10 ^ (e - 5) - d = (x - d * 10 ^ (e - 5)) / 10 ^ (e - 5) := by field_simp
    rw [scaled, abs_div, abs_of_pos unit, div_lt_iff₀ unit]
    linarith
  obtain ⟨below, above⟩ := abs_lt.mp offset
  by_cases own : 10 ^ e ≤ x
  · refine .within ⟨own, ?_⟩ (.of_close (offset.trans (by norm_num))) high
    rw [last, ← div_lt_iff₀ unit]
    linarith
  · have less := not_le.mp own
    rw [first, ← div_lt_iff₀ unit] at less
    have start : d = 10 ^ 5 := by
      refine le_antisymm (Nat.le_of_lt_succ ?_) low
      have bound : (d : ℚ) < 10 ^ 5 + 1 := by linarith
      exact_mod_cast bound
    obtain ⟨decade, rfl⟩ : ∃ decade, e = decade + 1 := ⟨e - 1, by omega⟩
    have finer := div_ten_zpow_succ x decade
    rw [eq_div_iff (by norm_num)] at finer
    have own' : InDecade x decade := by
      refine ⟨?_, not_le.mp own⟩
      rw [ten_zpow_eq_mul 5 (add_sub_cancel 5 decade).symm, ← le_div_iff₀ (ten_zpow_pos _), ← finer]
      linarith
    subst start
    refine .carried own' (.of_close (abs_lt.mpr ?_))
    rw [← finer]
    push_cast at *
    constructor <;> linarith

end Rounds

end SixDigits

end Calculator
