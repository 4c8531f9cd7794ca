import Mathlib
import Calculator.Proofs.Events
import Calculator.Proofs.Nearest
import Calculator.Proofs.ReadBack

/-! # Exact remainders

The remainder of two finite numbers is computed without rounding, however far apart they are. It is a multiple of the
finer of their spacings. If that is the divisor's, the remainder has no more significant bits than the divisor; if it is
the dividend's, the dividend is smaller than the divisor and stays as it is.
-/

namespace Calculator

/-- The integer part of a number, without what stands behind the point. -/
def truncate (q : ℚ) : ℤ := if q < 0 then ⌈q⌉ else ⌊q⌋

theorem truncate_neg (q : ℚ) : truncate (-q) = -truncate q := by
  unfold truncate
  rcases lt_trichotomy q 0 with negative | rfl | positive
  · rw [if_neg (by linarith), if_pos negative, Int.floor_neg]
  · simp
  · rw [if_pos (by linarith), if_neg (by linarith), Int.ceil_neg]

theorem truncate_div (m n : ℕ) : truncate ((m : ℚ) / n) = (m / n : ℕ) := by
  have nonneg : (0 : ℚ) ≤ m / n := by positivity
  rw [truncate, if_neg (not_lt.mpr nonneg), Rat.floor_natCast_div_natCast]
  rfl

/-- A number with a sign. -/
def withSign (negative : Bool) (q : ℚ) : ℚ := if negative then -q else q

theorem abs_withSign (negative : Bool) (q : ℚ) : |withSign negative q| = |q| := by
  cases negative <;> simp [withSign]

theorem truncate_withSign_div (a b : Bool) (p q : ℚ) :
    (truncate (withSign a p / withSign b q) : ℚ) = withSign (a != b) (truncate (p / q)) := by
  cases a <;> cases b <;> simp [withSign, truncate_neg, neg_div, div_neg]

namespace Magnitude

variable {significand shift : ℕ} {m n k : Magnitude}

/-- A significand with any spacing is a point of the grid, on the grid continued beyond the largest finite value. -/
theorem exists_gridUnits_eq (fits : significand ≤ 2 * 2 ^ fractionBits) (shift : ℕ) :
    ∃ i, gridUnits i = significand * 2 ^ shift := by
  induction shift generalizing significand with
  | zero => exact ⟨_, gridUnits_significand (.inl rfl) fits⟩
  | succ shift ih =>
    by_cases leading : 2 ^ fractionBits ≤ significand
    · exact ⟨_, gridUnits_significand (.inr leading) fits⟩
    · have fits' : 2 * significand ≤ 2 * 2 ^ fractionBits := by omega
      obtain ⟨i, units⟩ := ih fits'
      exact ⟨i, by rw [units]; ring⟩

theorem exists_units_eq_of_le (fits : significand ≤ 2 * 2 ^ fractionBits) (le : significand * 2 ^ shift ≤ n.units) :
    ∃ k : Magnitude, k.units = significand * 2 ^ shift := by
  obtain ⟨i, units⟩ := exists_gridUnits_eq fits shift
  rw [← units, units_eq_gridUnits, strictMono_gridUnits.le_iff_le] at le
  exact ⟨⟨i, le.trans_lt n.isLt⟩, units⟩

/-- A magnitude is a significand with a spacing, and only in the first binade the leading bit may be missing. -/
theorem exists_significand (m : Magnitude) : ∃ shift significand, m.units = significand * 2 ^ shift ∧
    significand < 2 * 2 ^ fractionBits ∧ (shift = 0 ∨ 2 ^ fractionBits ≤ significand) := by
  have small : m.val % 2 ^ fractionBits < 2 ^ fractionBits := Nat.mod_lt _ (Nat.two_pow_pos _)
  unfold units
  cases m.val / 2 ^ fractionBits with
  | zero => exact ⟨0, m.val % 2 ^ fractionBits, by simp, by omega, .inl rfl⟩
  | succ shift =>
    exact ⟨shift, 2 ^ fractionBits + m.val % 2 ^ fractionBits, by simp, by omega, .inr (Nat.le_add_right ..)⟩

/-- Remainders of magnitudes are magnitudes. -/
theorem exists_units_eq_mod (m : Magnitude) {n : Magnitude} (nonzero : n.units ≠ 0) :
    ∃ k : Magnitude, k.units = m.units % n.units := by
  obtain ⟨shift, significand, units, fits, _⟩ := m.exists_significand
  obtain ⟨shift', significand', units', fits', leading⟩ := n.exists_significand
  rcases le_or_gt shift' shift with finer | coarser
  · have spaced : m.units % n.units = significand * 2 ^ (shift - shift') % significand' * 2 ^ shift' := by
      rw [units, units', ← Nat.mul_mod_mul_right, Nat.mul_assoc, ← Nat.pow_add, Nat.sub_add_cancel finer]
    have positive : 0 < significand' := by
      apply Nat.pos_of_ne_zero
      rintro rfl
      rw [units', Nat.zero_mul] at nonzero
      exact nonzero rfl
    have less := Nat.mod_lt (significand * 2 ^ (shift - shift')) positive
    have le : significand * 2 ^ (shift - shift') % significand' * 2 ^ shift' ≤ n.units := by
      rw [units']
      exact Nat.mul_le_mul_right _ less.le
    rw [spaced]
    exact exists_units_eq_of_le (by omega) le
  · have leading : 2 ^ fractionBits ≤ significand' := leading.resolve_left (by omega)
    have smaller : m.units < n.units := by
      rw [units, units']
      calc significand * 2 ^ shift < 2 * 2 ^ fractionBits * 2 ^ shift :=
            Nat.mul_lt_mul_of_pos_right fits (Nat.two_pow_pos _)
        _ = 2 ^ fractionBits * 2 ^ (shift + 1) := by ring
        _ ≤ significand' * 2 ^ shift' := Nat.mul_le_mul leading (Nat.pow_le_pow_right two_pos coarser)
    exact ⟨m, (Nat.mod_eq_of_lt smaller).symm⟩

theorem units_eq_zero_iff : m.units = 0 ↔ m = zero := by
  have first : gridUnits 0 = 0 := by decide
  rw [units_eq_gridUnits, ← first, strictMono_gridUnits.injective.eq_iff, Fin.ext_iff]
  rfl

theorem value_nonneg (m : Magnitude) : 0 ≤ m.value := div_nonneg (Nat.cast_nonneg _) unitsPerOne_pos.le

theorem value_div_value (m n : Magnitude) : m.value / n.value = m.units / n.units :=
  div_div_div_cancel_right₀ unitsPerOne_pos.ne' _ _

theorem value_of_mod (remainder : k.units = m.units % n.units) :
    k.value = m.value - n.value * (m.units / n.units : ℕ) := by
  have split : (k.units : ℚ) = m.units - n.units * (m.units / n.units : ℕ) := by
    rw [remainder, eq_sub_iff_add_eq]
    exact_mod_cast Nat.mod_add_div m.units n.units
  rw [value, value, value, split]
  ring

theorem value_lt_of_mod (nonzero : n.units ≠ 0) (remainder : k.units = m.units % n.units) : k.value < n.value := by
  have less : k.units < n.units := by
    rw [remainder]
    exact Nat.mod_lt _ (Nat.pos_of_ne_zero nonzero)
  exact div_lt_div_of_pos_right (by exact_mod_cast less) unitsPerOne_pos

end Magnitude

namespace Binary64

/-- The exact value of a finite number. -/
def value? : Binary64 → Option ℚ
  | .finite negative m => some (withSign negative m.value)
  | .infinity _ | .nan _ => none

variable {x y : Binary64} {m n : Magnitude}

theorem exists_eq_finite {q : ℚ} (finite : x.value? = some q) :
    ∃ negative m, x = .finite negative m ∧ q = withSign negative m.value := by
  match x, finite with
  | .finite negative m, rfl => exact ⟨negative, m, rfl, rfl⟩

theorem exists_remainder_eq (a b : Bool) (m : Magnitude) (nonzero : n.units ≠ 0) :
    ∃ k : Magnitude, k.units = m.units % n.units ∧ remainder (.finite a m) (.finite b n) = .finite a k := by
  obtain ⟨k, units⟩ := Magnitude.exists_units_eq_mod m nonzero
  have exact := ofRatio_units_mul a k one_pos
  rw [Nat.mul_one, units] at exact
  exact ⟨k, units, by rw [remainder, if_neg nonzero, exact]⟩

theorem remainder_eq_nan_iff :
    (∃ signaling, remainder x y = .nan signaling) ↔
      (∃ signaling, x = .nan signaling) ∨ (∃ signaling, y = .nan signaling) ∨ (∃ negative, x = .infinity negative) ∨
        ∃ negative, y = .zero negative := by
  match x, y with
  | .nan _, _ => simp [remainder, quietNan]
  | .infinity _, .nan _ | .infinity _, .infinity _ | .infinity _, .finite _ _ => simp [remainder, quietNan]
  | .finite _ _, .nan _ => simp [remainder, quietNan]
  | .finite _ _, .infinity _ => simp [remainder, zero]
  | .finite a m, .finite b n =>
    by_cases nonzero : n.units = 0
    · have undefined : remainder (.finite a m) (.finite b n) = quietNan := by rw [remainder, if_pos nonzero]
      have divisor : Binary64.finite b n = .zero b := by rw [zero, Magnitude.units_eq_zero_iff.mp nonzero]
      exact ⟨fun _ => .inr (.inr (.inr ⟨b, divisor⟩)), fun _ => ⟨false, undefined⟩⟩
    · obtain ⟨k, _, finite⟩ := exists_remainder_eq a b m nonzero
      have other : n ≠ .zero := mt Magnitude.units_eq_zero_iff.mpr nonzero
      simp [finite, zero, other]

end Binary64

theorem Builtin.find?_mod : find? "mod" 2 = some ⟨"mod", 2, binary Binary64.remainder⟩ := rfl

namespace Expr

open EvalM

variable {e f : Expr} {env mid after : Environment} {x y : Binary64}

theorem evalAll_pair (first : e.eval env = .ok x mid) (second : f.eval mid = .ok y after) :
    evalAll [e, f] env = .ok [x, y] after := by
  have last : evalAll [f] mid = .ok [y] after := by
    rw [evalAll, bind_of_ok second]
    rfl
  rw [evalAll, bind_of_ok first, bind_of_ok last]
  rfl

theorem eval_mod (first : e.eval env = .ok x mid) (second : f.eval mid = .ok y after) :
    (call "mod" [e, f]).eval env = .ok (x.remainder y) after := by
  have found : Builtin.find? "mod" [e, f].length = _ := Builtin.find?_mod
  rw [eval, found]
  exact bind_of_ok (evalAll_pair first second) _

end Expr

/-- The function `mod` is the truncated remainder of the exact values, for finite numbers of any size: it is not
    rounded, it is smaller than the divisor, and it has the sign of the dividend, also as a zero. An infinite divisor
    leaves the dividend as it is. All other arguments, and no others, give a NaN. -/
theorem mod_exact (x y : Binary64) :
    ∃ r : Binary64,
      (∃ b, Builtin.find? "mod" 2 = some b ∧ b.valueAt? [x, y] = some r) ∧
      (∀ (e f : Expr) (env mid after : Environment), e.eval env = .ok x mid → f.eval mid = .ok y after →
        (Expr.call "mod" [e, f]).eval env = .ok r after) ∧
      (∀ a b : ℚ, x.value? = some a → y.value? = some b → b ≠ 0 →
        ∃ c, r.value? = some c ∧ c = a - b * truncate (a / b) ∧ |c| < |b| ∧
          ∃ negative m k, x = .finite negative m ∧ r = .finite negative k) ∧
      (∀ a negative, x.value? = some a → y = .infinity negative → r = x) ∧
      ((∃ signaling, r = .nan signaling) ↔
        (∃ signaling, x = .nan signaling) ∨ (∃ signaling, y = .nan signaling) ∨
          (∃ negative, x = .infinity negative) ∨ ∃ negative, y = .zero negative) := by
  refine ⟨x.remainder y, ⟨_, Builtin.find?_mod, rfl⟩, fun _ _ _ _ _ => Expr.eval_mod, ?_, ?_,
    Binary64.remainder_eq_nan_iff⟩
  · intro a b dividend divisor nonzero
    obtain ⟨negative, m, rfl, rfl⟩ := Binary64.exists_eq_finite dividend
    obtain ⟨negative', n, rfl, rfl⟩ := Binary64.exists_eq_finite divisor
    have units : n.units ≠ 0 := by
      apply Magnitude.units_ne_zero
      intro zero
      rw [zero] at nonzero
      cases negative' <;> simp [withSign] at nonzero
    obtain ⟨k, remainder, finite⟩ := Binary64.exists_remainder_eq negative negative' m units
    refine ⟨withSign negative k.value, by rw [finite]; rfl, ?_, ?_, negative, m, k, rfl, finite⟩
    · rw [truncate_withSign_div, Magnitude.value_div_value, truncate_div, Magnitude.value_of_mod remainder,
        Int.cast_natCast]
      generalize ((m.units / n.units : ℕ) : ℚ) = quotient
      cases negative <;> cases negative' <;> simp only [withSign] <;> grind
    · rw [abs_withSign, abs_withSign, abs_of_nonneg k.value_nonneg, abs_of_nonneg n.value_nonneg]
      exact Magnitude.value_lt_of_mod units remainder
  · intro a negative dividend infinite
    obtain ⟨negative', m, rfl, rfl⟩ := Binary64.exists_eq_finite dividend
    rw [infinite]
    rfl

/-- The largest finite magnitude. -/
def Magnitude.largest : Magnitude := ⟨magnitudeCount - 1, by decide⟩

/-- Three units, among the least positive values. -/
def Magnitude.threeUnits : Magnitude := ⟨3, by decide⟩

theorem mod_exact_far_apart :
    Magnitude.threeUnits.value ≠ 0 ∧
    ∃ (c : ℚ) (k : Magnitude),
      Binary64.value? (.finite true k) = some c ∧
      c = -Magnitude.largest.value -
        Magnitude.threeUnits.value * truncate (-Magnitude.largest.value / Magnitude.threeUnits.value) ∧
      |c| < |Magnitude.threeUnits.value| ∧
      ∃ b, Builtin.find? "mod" 2 = some b ∧
        b.valueAt? [.finite true Magnitude.largest, .finite false Magnitude.threeUnits] =
          some (.finite true k) := by
  have nonzero : Magnitude.threeUnits.value ≠ 0 := by
    have units : Magnitude.threeUnits.units = 3 := rfl
    rw [Magnitude.value, units]
    exact div_ne_zero (by norm_num) Magnitude.unitsPerOne_pos.ne'
  obtain ⟨r, called, _, finite, _⟩ := mod_exact (.finite true Magnitude.largest) (.finite false Magnitude.threeUnits)
  obtain ⟨c, value, exact, less, negative, m, k, dividend, rfl⟩ := finite _ _ rfl rfl nonzero
  obtain ⟨rfl, rfl⟩ := Binary64.finite.inj dividend
  exact ⟨nonzero, c, k, value, exact, less, called⟩

end Calculator
