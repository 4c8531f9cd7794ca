import Mathlib
import Calculator.Number.Binary64

/-! # Rounding to an integer

A number is rounded to the nearest natural number, and to the even one of two that are equally near. This settles the
result, so a rounding done twice in different ways gives the same digits.
-/

namespace Calculator

/-- The natural number nearest to `x`, the even one of two equally near. -/
structure IsRounded (x : ℚ) (n : ℕ) : Prop where
  near : |x - n| ≤ 1 / 2
  even : |x - n| = 1 / 2 → Even n

namespace IsRounded

variable {x : ℚ} {n k : ℕ}

theorem le_of_le (rounded : IsRounded x n) (low : k ≤ x) : k ≤ n := by
  by_contra less
  have step : (n : ℚ) + 1 ≤ k := by exact_mod_cast not_le.mp less
  have near := (abs_le.mp rounded.near).2
  linarith

theorem ge_of_ge (rounded : IsRounded x n) (high : x ≤ k) : n ≤ k := by
  by_contra more
  have step : (k : ℚ) + 1 ≤ n := by exact_mod_cast not_le.mp more
  have near := (abs_le.mp rounded.near).1
  linarith

theorem unique (first : IsRounded x n) (second : IsRounded x k) : n = k := by
  wlog smaller : n ≤ k generalizing n k
  · exact (this second first (le_of_not_ge smaller)).symm
  by_contra distinct
  have step : (n : ℚ) + 1 ≤ k := by exact_mod_cast lt_of_le_of_ne smaller distinct
  have below := (abs_le.mp first.near).2
  have above := (abs_le.mp second.near).1
  have halfway : x = n + 1 / 2 := by linarith
  have next : (k : ℚ) = (n + 1 : ℕ) := by
    push_cast
    linarith
  have even : Even n := first.even (by rw [halfway]; norm_num)
  have even' : Even (n + 1) := by
    rw [← Nat.cast_injective next]
    exact second.even (by rw [next, halfway]; push_cast; norm_num)
  exact Nat.even_add_one.mp even' even

theorem of_close (close : |x - n| < 1 / 2) : IsRounded x n :=
  ⟨close.le, fun half => absurd half close.ne⟩

/-- Rounding with a spacing: the number is off by half a spacing at most. -/
theorem scaled {w : ℚ} (positive : 0 < w) (rounded : IsRounded (x / w) n) :
    (2 * n - 1) * w ≤ 2 * x ∧ 2 * x ≤ (2 * n + 1) * w := by
  obtain ⟨low, high⟩ := abs_le.mp rounded.near
  have low' : (n : ℚ) - 1 / 2 ≤ x / w := by linarith
  have high' : x / w ≤ n + 1 / 2 := by linarith
  rw [le_div_iff₀ positive] at low'
  rw [div_le_iff₀ positive] at high'
  constructor <;> linarith

theorem even_of_halfway {w : ℚ} (positive : 0 < w) (rounded : IsRounded (x / w) n)
    (halfway : 2 * x = (2 * n - 1) * w ∨ 2 * x = (2 * n + 1) * w) : Even n := by
  refine rounded.even ?_
  rcases halfway with below | above
  · have quotient : x / w = n - 1 / 2 := by
      rw [div_eq_iff positive.ne']
      linarith
    rw [quotient, sub_sub_cancel_left, abs_neg]
    norm_num
  · have quotient : x / w = n + 1 / 2 := by
      rw [div_eq_iff positive.ne']
      linarith
    rw [quotient, add_sub_cancel_left]
    norm_num

end IsRounded

theorem isRounded_roundHalfEven (num : ℕ) {den : ℕ} (positive : 0 < den) :
    IsRounded (num / den) (roundHalfEven num den) := by
  have scale : (0 : ℚ) < den := by exact_mod_cast positive
  have split : (num : ℚ) / den = (num / den : ℕ) + (num % den : ℕ) / den := by
    rw [eq_comm, ← eq_sub_iff_add_eq', div_eq_iff scale.ne', sub_mul, div_mul_cancel₀ _ scale.ne', eq_sub_iff_add_eq]
    exact_mod_cast Nat.mod_add_div' num den
  have proper : ((num % den : ℕ) : ℚ) / den < 1 := by
    rw [div_lt_one scale]
    exact_mod_cast Nat.mod_lt num positive
  have nonneg : (0 : ℚ) ≤ (num % den : ℕ) / den := by positivity
  have low : 2 * (num % den) < den ↔ ((num % den : ℕ) : ℚ) / den < 1 / 2 := by
    rw [div_lt_div_iff₀ scale two_pos, one_mul, mul_comm]
    exact_mod_cast Iff.rfl
  have high : den < 2 * (num % den) ↔ 1 / 2 < ((num % den : ℕ) : ℚ) / den := by
    rw [div_lt_div_iff₀ two_pos scale, one_mul, mul_comm _ (2 : ℚ)]
    exact_mod_cast Iff.rfl
  rw [split]
  unfold roundHalfEven
  simp only
  generalize num / den = quotient at *
  generalize ((num % den : ℕ) : ℚ) / den = rest at *
  split_ifs with below above even
  · refine .of_close ?_
    rw [add_sub_cancel_left, abs_of_nonneg nonneg]
    exact low.mp below
  · refine .of_close ?_
    have above := high.mp above
    rw [abs_lt]
    constructor <;> push_cast <;> linarith
  · have half : rest = 1 / 2 := by linarith [mt low.mpr below, mt high.mpr above]
    refine ⟨?_, fun _ => Nat.even_iff.mpr even⟩
    rw [add_sub_cancel_left, half]
    norm_num
  · have half : rest = 1 / 2 := by linarith [mt low.mpr below, mt high.mpr above]
    refine ⟨?_, fun _ => ?_⟩
    · rw [half]
      push_cast
      norm_num
    · grind

end Calculator
