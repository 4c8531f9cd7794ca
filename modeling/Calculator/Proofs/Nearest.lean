import Mathlib
import Calculator.Proofs.Rounding

/-! # The nearest binary64 value

The magnitudes lie on a grid whose spacing doubles from binade to binade. Rounding a significand with the spacing of
the number's own binade finds the nearest point of the grid, also where the significand is carried into the next
binade. Halfway between two neighbours the even index is taken, so the number of indices up to a point is told by one
threshold. The thresholds at the two ends of the grid are those of underflow and overflow.
-/

namespace Calculator

namespace Magnitude

/-- Units of the magnitude with an index, on the grid continued beyond the largest finite value. -/
def gridUnits (i : ℕ) : ℕ :=
  if i / 2 ^ fractionBits = 0 then i % 2 ^ fractionBits
  else (2 ^ fractionBits + i % 2 ^ fractionBits) * 2 ^ (i / 2 ^ fractionBits - 1)

theorem units_eq_gridUnits (m : Magnitude) : m.units = gridUnits m.val := rfl

theorem gridUnits_mul_add (binade : ℕ) {fraction : ℕ} (small : fraction < 2 ^ fractionBits) :
    gridUnits (binade * 2 ^ fractionBits + fraction) =
      if binade = 0 then fraction else (2 ^ fractionBits + fraction) * 2 ^ (binade - 1) := by
  have quotient : (binade * 2 ^ fractionBits + fraction) / 2 ^ fractionBits = binade := by
    rw [Nat.mul_comm, Nat.mul_add_div (Nat.two_pow_pos _), Nat.div_eq_of_lt small, Nat.add_zero]
  have remainder : (binade * 2 ^ fractionBits + fraction) % 2 ^ fractionBits = fraction := by
    rw [Nat.mul_comm, Nat.mul_add_mod, Nat.mod_eq_of_lt small]
  rw [gridUnits, quotient, remainder]

/-- A significand with a spacing is a point of the grid: in the first binade any significand, in later ones those with
    a leading bit. The end of a binade is the start of the next. -/
theorem gridUnits_significand {shift significand : ℕ} (leading : shift = 0 ∨ 2 ^ fractionBits ≤ significand)
    (fits : significand ≤ 2 * 2 ^ fractionBits) :
    gridUnits (shift * 2 ^ fractionBits + significand) = significand * 2 ^ shift := by
  rcases Nat.lt_or_ge significand (2 ^ fractionBits) with small | large
  · obtain rfl : shift = 0 := leading.resolve_right (Nat.not_le.mpr small)
    rw [gridUnits_mul_add 0 small, if_pos rfl, Nat.pow_zero, Nat.mul_one]
  · rcases Nat.lt_or_eq_of_le fits with inside | carried
    · have index : shift * 2 ^ fractionBits + significand =
          (shift + 1) * 2 ^ fractionBits + (significand - 2 ^ fractionBits) := by
        rw [Nat.succ_mul, Nat.add_assoc, Nat.add_sub_cancel' large]
      rw [index, gridUnits_mul_add _ (by omega), if_neg (Nat.succ_ne_zero shift), Nat.add_sub_cancel' large,
        Nat.add_sub_cancel]
    · have index : shift * 2 ^ fractionBits + significand = (shift + 2) * 2 ^ fractionBits + 0 := by
        rw [carried]
        ring
      rw [index, gridUnits_mul_add _ (Nat.two_pow_pos _), if_neg (Nat.succ_ne_zero (shift + 1)), carried]
      simp only [Nat.add_zero, Nat.add_succ_sub_one]
      ring

theorem gridUnits_succ (i : ℕ) : gridUnits (i + 1) = gridUnits i + 2 ^ (i / 2 ^ fractionBits - 1) := by
  have small : i % 2 ^ fractionBits < 2 ^ fractionBits := Nat.mod_lt _ (Nat.two_pow_pos _)
  have index : i / 2 ^ fractionBits * 2 ^ fractionBits + i % 2 ^ fractionBits = i := Nat.div_add_mod' ..
  generalize i / 2 ^ fractionBits = binade at *
  generalize i % 2 ^ fractionBits = fraction at *
  obtain ⟨shift, significand, leading, fits, spacing, same⟩ : ∃ shift significand,
      (shift = 0 ∨ 2 ^ fractionBits ≤ significand) ∧ significand < 2 * 2 ^ fractionBits ∧ binade - 1 = shift ∧
        shift * 2 ^ fractionBits + significand = i := by
    cases binade with
    | zero => exact ⟨0, fraction, .inl rfl, by omega, rfl, index⟩
    | succ shift =>
      refine ⟨shift, 2 ^ fractionBits + fraction, .inr (Nat.le_add_right ..), by omega, rfl, ?_⟩
      rw [← index]
      ring
  rw [spacing, ← same, Nat.add_assoc, gridUnits_significand (by omega) (by omega),
    gridUnits_significand leading fits.le]
  ring

theorem strictMono_gridUnits : StrictMono gridUnits :=
  strictMono_nat_of_lt_succ fun i => by
    rw [gridUnits_succ]
    exact Nat.lt_add_of_pos_right (Nat.two_pow_pos _)

end Magnitude

theorem abs_sub_le_abs_sub_iff {x a b : ℚ} (less : a < b) : |x - a| ≤ |x - b| ↔ 2 * x ≤ a + b := by
  rw [← sq_le_sq]
  constructor <;> intro h <;> nlinarith

theorem abs_sub_ge_abs_sub_iff {x a b : ℚ} (less : a < b) : |x - b| ≤ |x - a| ↔ a + b ≤ 2 * x := by
  rw [← sq_le_sq]
  constructor <;> intro h <;> nlinarith

theorem abs_sub_eq_abs_sub_iff {x a b : ℚ} (less : a < b) : |x - a| = |x - b| ↔ 2 * x = a + b := by
  rw [← sq_eq_sq_iff_abs_eq_abs]
  constructor
  · intro h
    have product : (b - a) * (2 * x - (a + b)) = 0 := by linarith
    have factor := (mul_eq_zero.mp product).resolve_left (by linarith)
    linarith
  · intro h
    linear_combination (b - a) * h

namespace Magnitude

/-- The index of the point of the grid nearest to `x` units, the even one of two equally near. -/
structure IsNearestIndex (x : ℚ) (i : ℕ) : Prop where
  near : ∀ j, |x - gridUnits i| ≤ |x - gridUnits j|
  even : ∀ j, j ≠ i → |x - gridUnits j| = |x - gridUnits i| → Even i

theorem cast_gridUnits_lt {i j : ℕ} (less : i < j) : (gridUnits i : ℚ) < gridUnits j := by
  exact_mod_cast strictMono_gridUnits less

/-- A point is nearest if the middle to every other point lies beyond `x`. -/
theorem isNearestIndex_iff {x : ℚ} {i : ℕ} :
    IsNearestIndex x i ↔
      (∀ j, i < j → 2 * x ≤ gridUnits i + gridUnits j ∧ (2 * x = gridUnits i + gridUnits j → Even i)) ∧
      ∀ j, j < i → gridUnits j + gridUnits i ≤ 2 * x ∧ (2 * x = gridUnits j + gridUnits i → Even i) := by
  constructor
  · intro nearest
    refine ⟨fun j above => ?_, fun j below => ?_⟩
    · have less := cast_gridUnits_lt above
      refine ⟨(abs_sub_le_abs_sub_iff less).mp (nearest.near j), fun middle => ?_⟩
      exact nearest.even j above.ne' ((abs_sub_eq_abs_sub_iff less).mpr middle).symm
    · have less := cast_gridUnits_lt below
      refine ⟨(abs_sub_ge_abs_sub_iff less).mp (nearest.near j), fun middle => ?_⟩
      exact nearest.even j below.ne ((abs_sub_eq_abs_sub_iff less).mpr middle)
  · rintro ⟨above, below⟩
    refine ⟨fun j => ?_, fun j distinct same => ?_⟩
    · rcases lt_trichotomy i j with less | rfl | less
      · exact (abs_sub_le_abs_sub_iff (cast_gridUnits_lt less)).mpr (above j less).1
      · exact le_rfl
      · exact (abs_sub_ge_abs_sub_iff (cast_gridUnits_lt less)).mpr (below j less).1
    · rcases lt_or_gt_of_ne distinct with less | less
      · exact (below j less).2 ((abs_sub_eq_abs_sub_iff (cast_gridUnits_lt less)).mp same)
      · exact (above j less).2 ((abs_sub_eq_abs_sub_iff (cast_gridUnits_lt less)).mp same.symm)

/-- How many points lie up to the nearest one: the middle to the next point decides, and the middle itself belongs to
    the even side. -/
theorem IsNearestIndex.le_iff {x : ℚ} {i : ℕ} (nearest : IsNearestIndex x i) (k : ℕ) :
    i ≤ k ↔ 2 * x < gridUnits k + gridUnits (k + 1) ∨ 2 * x = gridUnits k + gridUnits (k + 1) ∧ Even k := by
  obtain ⟨above, below⟩ := isNearestIndex_iff.mp nearest
  constructor
  · intro le
    obtain ⟨bound, even⟩ := above (k + 1) (Nat.lt_succ_of_le le)
    rcases le.lt_or_eq with less | rfl
    · left
      linarith [cast_gridUnits_lt less]
    · exact bound.lt_or_eq.imp_right fun middle => ⟨middle, even middle⟩
  · intro side
    by_contra more
    have less : k < i := not_le.mp more
    obtain ⟨bound, even⟩ := below k less
    rcases (Nat.succ_le_of_lt less).lt_or_eq with far | rfl
    · have farther := cast_gridUnits_lt far
      rcases side with before | ⟨middle, _⟩ <;> linarith
    · rcases side with before | ⟨middle, evenBelow⟩
      · linarith
      · exact Nat.even_add_one.mp (even middle) evenBelow

/-- A significand rounded with the spacing of the binade that `x` lies in. -/
structure IsSignificand (x : ℚ) (shift significand : ℕ) : Prop where
  rounded : IsRounded (x / 2 ^ shift) significand
  leading : shift = 0 ∨ 2 ^ fractionBits * 2 ^ shift ≤ x
  fits : significand ≤ 2 * 2 ^ fractionBits

namespace IsSignificand

variable {x : ℚ} {shift significand : ℕ}

theorem leading_bit (found : IsSignificand x shift significand) : shift = 0 ∨ 2 ^ fractionBits ≤ significand := by
  refine found.leading.imp_right fun low => found.rounded.le_of_le ?_
  rw [le_div_iff₀ (by positivity)]
  exact_mod_cast low

theorem gridUnits_eq (found : IsSignificand x shift significand) :
    (gridUnits (shift * 2 ^ fractionBits + significand) : ℚ) = significand * 2 ^ shift := by
  rw [gridUnits_significand found.leading_bit found.fits]
  push_cast
  rfl

theorem gridUnits_above (found : IsSignificand x shift significand) {j : ℕ}
    (above : shift * 2 ^ fractionBits + significand < j) : (significand + 1) * 2 ^ shift ≤ (gridUnits j : ℚ) := by
  have next := strictMono_gridUnits.monotone (Nat.succ_le_of_lt above)
  have spacing : 2 ^ shift ≤ 2 ^ ((shift * 2 ^ fractionBits + significand) / 2 ^ fractionBits - 1) := by
    apply Nat.pow_le_pow_right two_pos
    rcases found.leading_bit with rfl | leading
    · exact Nat.zero_le _
    · refine Nat.le_sub_one_of_lt ((Nat.le_div_iff_mul_le (Nat.two_pow_pos _)).mpr ?_)
      rw [Nat.succ_mul]
      exact Nat.add_le_add_left leading _
  rw [Nat.succ_eq_add_one, gridUnits_succ, gridUnits_significand found.leading_bit found.fits] at next
  have bound : (significand + 1) * 2 ^ shift ≤ gridUnits j := by
    rw [Nat.succ_mul]
    exact (Nat.add_le_add_left spacing _).trans next
  exact_mod_cast bound

theorem gridUnits_below (found : IsSignificand x shift significand) (less : x < significand * 2 ^ shift) {j : ℕ}
    (below : j < shift * 2 ^ fractionBits + significand) : (gridUnits j : ℚ) ≤ (significand - 1) * 2 ^ shift := by
  have power : (0 : ℚ) < 2 ^ shift := by positivity
  have leading : shift = 0 ∨ 2 ^ fractionBits ≤ significand - 1 := by
    refine found.leading.imp_right fun low => Nat.le_sub_one_of_lt ?_
    have strict := lt_of_mul_lt_mul_right (low.trans_lt less) power.le
    exact_mod_cast strict
  have nonzero : 0 < significand := by
    rcases found.leading_bit with rfl | leading
    · omega
    · exact (Nat.two_pow_pos _).trans_le leading
  have previous : j ≤ shift * 2 ^ fractionBits + (significand - 1) := by omega
  have bound := strictMono_gridUnits.monotone previous
  rw [gridUnits_significand leading ((Nat.sub_le ..).trans found.fits)] at bound
  have cast : ((significand - 1 : ℕ) : ℚ) = significand - 1 := by
    rw [Nat.cast_sub nonzero, Nat.cast_one]
  rw [← cast]
  exact_mod_cast bound

theorem isNearestIndex (found : IsSignificand x shift significand) :
    IsNearestIndex x (shift * 2 ^ fractionBits + significand) := by
  have power : (0 : ℚ) < 2 ^ shift := by positivity
  obtain ⟨low, high⟩ := found.rounded.scaled power
  have halfway := found.rounded.even_of_halfway power
  have evenIndex : Even significand → Even (shift * 2 ^ fractionBits + significand) :=
    fun even => (Even.mul_left (by decide) shift).add even
  rw [isNearestIndex_iff, found.gridUnits_eq]
  refine ⟨fun j above => ?_, fun j below => ?_⟩
  · have next := found.gridUnits_above above
    refine ⟨by linarith, fun middle => evenIndex (halfway (.inr ?_))⟩
    linarith
  · by_cases less : x < significand * 2 ^ shift
    · have previous := found.gridUnits_below less below
      refine ⟨by linarith, fun middle => evenIndex (halfway (.inl ?_))⟩
      linarith
    · have ordered := cast_gridUnits_lt below
      rw [found.gridUnits_eq] at ordered
      exact ⟨by linarith, fun middle => by linarith⟩

/-- Off the first binade the error is small beside the number. -/
theorem abs_sub_le (found : IsSignificand x shift significand) (normal : 2 ^ fractionBits ≤ x) :
    2 * 2 ^ fractionBits * |x - gridUnits (shift * 2 ^ fractionBits + significand)| ≤ x := by
  have power : (0 : ℚ) < 2 ^ shift := by positivity
  obtain ⟨low, high⟩ := found.rounded.scaled power
  have spacing : 2 ^ fractionBits * 2 ^ shift ≤ x := by
    rcases found.leading with rfl | leading
    · simpa using normal
    · exact leading
  have close : 2 * |x - gridUnits (shift * 2 ^ fractionBits + significand)| ≤ 2 ^ shift := by
    have bound : |x - gridUnits (shift * 2 ^ fractionBits + significand)| ≤ 2 ^ shift / 2 := by
      rw [found.gridUnits_eq, abs_le]
      constructor <;> linarith
    linarith
  calc 2 * 2 ^ fractionBits * |x - gridUnits (shift * 2 ^ fractionBits + significand)|
      = 2 ^ fractionBits * (2 * |x - gridUnits (shift * 2 ^ fractionBits + significand)|) := by ring
    _ ≤ 2 ^ fractionBits * 2 ^ shift := mul_le_mul_of_nonneg_left close (by positivity)
    _ ≤ x := spacing

end IsSignificand

/-- The index found for a ratio is made of a significand and the spacing of its binade. -/
theorem exists_isSignificand (num : ℕ) {den : ℕ} (positive : 0 < den) : ∃ shift significand,
    nearestIndex num den = shift * 2 ^ fractionBits + significand ∧ IsSignificand (num / den) shift significand := by
  have scale : (0 : ℚ) < den := by exact_mod_cast positive
  refine ⟨Nat.log2 (num / den) - fractionBits, _, rfl, ?_⟩
  generalize shifted : Nat.log2 (num / den) - fractionBits = shift
  have rounded : IsRounded ((num : ℚ) / den / 2 ^ shift) (roundHalfEven num (den * 2 ^ shift)) := by
    have exact := isRounded_roundHalfEven num (Nat.mul_pos positive (Nat.two_pow_pos shift))
    push_cast at exact
    rwa [div_div]
  refine ⟨rounded, ?_, rounded.ge_of_ge ?_⟩
  · rw [or_iff_not_imp_left]
    intro nonzero
    have leading : num / den ≠ 0 := by
      rintro zero
      rw [zero] at shifted
      exact nonzero (by rw [← shifted]; rfl)
    have bits : 2 ^ (fractionBits + shift) ≤ num / den := by
      have log : fractionBits + shift = Nat.log2 (num / den) := by omega
      rw [log]
      exact Nat.log2_self_le leading
    rw [← pow_add, le_div_iff₀ scale]
    exact_mod_cast (Nat.le_div_iff_mul_le positive).mp bits
  · have bits : num / den < 2 ^ (fractionBits + 1 + shift) := by
      have log := Nat.lt_log2_self (n := num / den)
      exact log.trans_le (Nat.pow_le_pow_right two_pos (by omega))
    rw [div_le_iff₀ (by positivity), div_le_iff₀ scale]
    have bound := ((Nat.div_lt_iff_lt_mul positive).mp bits).le
    have power : 2 ^ (fractionBits + 1 + shift) = 2 * 2 ^ fractionBits * 2 ^ shift := by ring
    rw [power] at bound
    exact_mod_cast bound

theorem isNearestIndex_nearestIndex (num : ℕ) {den : ℕ} (positive : 0 < den) :
    IsNearestIndex (num / den) (nearestIndex num den) := by
  obtain ⟨shift, significand, index, found⟩ := exists_isSignificand num positive
  rw [index]
  exact found.isNearestIndex

/-- The exact value. -/
def value (m : Magnitude) : ℚ := m.units / unitsPerOne

/-- The magnitude nearest to `x`; of two equally near, the one whose last bit is zero. -/
structure IsNearest (x : ℚ) (m : Magnitude) : Prop where
  near : ∀ n : Magnitude, |x - m.value| ≤ |x - n.value|
  even : ∀ n : Magnitude, n ≠ m → |x - n.value| = |x - m.value| → Even m.val

theorem unitsPerOne_pos : (0 : ℚ) < unitsPerOne := by
  exact_mod_cast Nat.two_pow_pos unitPlaces

theorem units_ne_zero {m : Magnitude} (nonzero : m.value ≠ 0) : m.units ≠ 0 := by
  intro zero
  exact nonzero (by rw [value, zero, Nat.cast_zero, zero_div])

theorem value_lt_value {m n : Magnitude} (less : m < n) : m.value < n.value :=
  div_lt_div_of_pos_right (cast_gridUnits_lt less) unitsPerOne_pos

/-- Two nearest magnitudes would be neighbours, and of two neighbours only one is even. -/
theorem IsNearest.unique {x : ℚ} {m n : Magnitude} (first : IsNearest x m) (second : IsNearest x n) : m = n := by
  wlog smaller : m ≤ n generalizing m n
  · exact (this second first (le_of_not_ge smaller)).symm
  by_contra distinct
  have less : m < n := lt_of_le_of_ne smaller distinct
  have same : |x - m.value| = |x - n.value| := le_antisymm (first.near n) (second.near m)
  have middle := (abs_sub_eq_abs_sub_iff (value_lt_value less)).mp same
  have even := first.even n (Ne.symm distinct) same.symm
  have even' := second.even m distinct same
  have apart : m.val + 1 ≠ n.val := fun next => Nat.even_add_one.mp (next ▸ even') even
  have between : m.val + 1 < n.val := lt_of_le_of_ne (Nat.succ_le_of_lt less) apart
  -- a magnitude between the two would be nearer than both
  let inner : Magnitude := ⟨m.val + 1, between.trans n.isLt⟩
  have above : m < inner := Nat.lt_succ_self m.val
  have below : inner.value < n.value := value_lt_value between
  have nearer := (abs_sub_le_abs_sub_iff (value_lt_value above)).mp (first.near inner)
  linarith

theorem abs_sub_value (x : ℚ) (m : Magnitude) :
    |x - m.value| = |x * unitsPerOne - gridUnits m.val| / unitsPerOne := by
  rw [value, units_eq_gridUnits, sub_div' unitsPerOne_pos.ne', abs_div, abs_of_pos unitsPerOne_pos]

theorem IsNearestIndex.isNearest {x : ℚ} {m : Magnitude} (nearest : IsNearestIndex (x * unitsPerOne) m.val) :
    IsNearest x m where
  near n := by
    rw [abs_sub_value, abs_sub_value]
    exact div_le_div_of_nonneg_right (nearest.near n.val) unitsPerOne_pos.le
  even n distinct same := by
    rw [abs_sub_value, abs_sub_value, div_left_inj' unitsPerOne_pos.ne'] at same
    exact nearest.even n.val (Fin.val_ne_of_ne distinct) same

end Magnitude

/-- Halfway between the largest finite value and the next power of two. -/
def overflowBound : ℚ := 2 ^ 1024 - 2 ^ 970

/-- Halfway between zero and the least positive value. -/
def underflowBound : ℚ := 1 / 2 ^ 1075

theorem cast_unitsPerOne : (unitsPerOne : ℚ) = 2 ^ 1074 := by
  rw [unitsPerOne, Nat.cast_pow, Nat.cast_ofNat, unitPlaces]

theorem Magnitude.gridUnits_last_add_next (shift : ℕ) :
    (gridUnits ((shift + 1) * 2 ^ fractionBits + (2 ^ fractionBits - 1)) : ℚ) +
      gridUnits ((shift + 2) * 2 ^ fractionBits + 0) = (4 * 2 ^ fractionBits - 1) * 2 ^ shift := by
  have whole : (1 : ℕ) ≤ 2 ^ fractionBits := Nat.one_le_two_pow
  rw [gridUnits_mul_add _ (Nat.sub_lt (Nat.two_pow_pos _) one_pos), gridUnits_mul_add _ (Nat.two_pow_pos _),
    if_neg (Nat.succ_ne_zero _), if_neg (Nat.succ_ne_zero _), Nat.add_sub_cancel, Nat.add_succ_sub_one]
  push_cast [whole]
  ring

theorem gridUnits_overflow : (Magnitude.gridUnits (magnitudeCount - 1) : ℚ) +
    Magnitude.gridUnits (magnitudeCount - 1 + 1) = 2 * (overflowBound * unitsPerOne) := by
  have middle := Magnitude.gridUnits_last_add_next 2045
  have last : magnitudeCount - 1 = (2045 + 1) * 2 ^ fractionBits + (2 ^ fractionBits - 1) := by decide
  have next : magnitudeCount - 1 + 1 = (2045 + 2) * 2 ^ fractionBits + 0 := by decide
  have bound : (2 : ℚ) ^ 1024 = 2 ^ 970 * 2 ^ 54 := pow_add 2 970 54
  have spacing : (2 : ℚ) ^ 2045 = 2 ^ 970 * 2 ^ 1074 * 2 := by rw [← pow_add, ← pow_succ]
  rw [next, last, middle, overflowBound, cast_unitsPerOne, bound, spacing, fractionBits]
  generalize (2 : ℚ) ^ 970 = a
  generalize (2 : ℚ) ^ 1074 = u
  ring

theorem gridUnits_underflow : (Magnitude.gridUnits 0 : ℚ) + Magnitude.gridUnits (0 + 1) =
    2 * (underflowBound * unitsPerOne) := by
  have zero : Magnitude.gridUnits 0 = 0 := by decide
  have one : Magnitude.gridUnits (0 + 1) = 1 := by decide
  have power : (2 : ℚ) ^ 1075 = 2 ^ 1074 * 2 := pow_succ 2 1074
  have positive : (0 : ℚ) < 2 ^ 1074 := pow_pos two_pos _
  rw [zero, one, underflowBound, cast_unitsPerOne, power]
  generalize (2 : ℚ) ^ 1074 = u at *
  field_simp
  norm_num

namespace Binary64

/-- The value nearest to a nonnegative number: a finite one up to the bound of overflow, and infinity from there on.
    It has no sign. -/
def IsNearest (x : ℚ) : Binary64 → Prop
  | .finite false m => x < overflowBound ∧ m.IsNearest x
  | .infinity false => overflowBound ≤ x
  | _ => False

variable {x : ℚ} {num den : ℕ}

theorem IsNearest.unique {y z : Binary64} (first : y.IsNearest x) (second : z.IsNearest x) : y = z := by
  match y, z, first, second with
  | .finite false m, .finite false n, ⟨_, first⟩, ⟨_, second⟩ => rw [first.unique second]
  | .finite false m, .infinity false, ⟨small, _⟩, large => exact absurd small (not_lt.mpr large)
  | .infinity false, .finite false m, large, ⟨small, _⟩ => exact absurd small (not_lt.mpr large)
  | .infinity false, .infinity false, _, _ => rfl

theorem nearestIndex_lt_magnitudeCount (positive : 0 < den) (same : (num : ℚ) / den = x * unitsPerOne) :
    Magnitude.nearestIndex num den < magnitudeCount ↔ x < overflowBound := by
  have nearest := Magnitude.isNearestIndex_nearestIndex num positive
  have odd : ¬ Even (magnitudeCount - 1) := by decide
  rw [← Nat.le_sub_one_iff_lt (by decide), nearest.le_iff, gridUnits_overflow, same,
    mul_lt_mul_iff_right₀ two_pos, mul_lt_mul_iff_left₀ Magnitude.unitsPerOne_pos]
  exact or_iff_left fun middle => odd middle.2

theorem isNearest_ofRatio (positive : 0 < den) (same : (num : ℚ) / den = x * unitsPerOne) :
    (ofRatio false num den).IsNearest x := by
  have finite := nearestIndex_lt_magnitudeCount positive same
  have nearest := Magnitude.isNearestIndex_nearestIndex num positive
  rw [same] at nearest
  unfold ofRatio
  simp only
  split
  · rename_i small
    exact ⟨finite.mp small, Magnitude.IsNearestIndex.isNearest nearest⟩
  · rename_i large
    exact not_lt.mp (mt finite.mpr large)

/-- Zero is the nearest value up to half the least positive one. -/
theorem ofRatio_eq_zero_iff (positive : 0 < den) (same : (num : ℚ) / den = x * unitsPerOne) :
    ofRatio false num den = zero false ↔ x ≤ underflowBound := by
  have nearest := Magnitude.isNearestIndex_nearestIndex num positive
  have first : Magnitude.nearestIndex num den = 0 ↔ x ≤ underflowBound := by
    rw [← Nat.le_zero, nearest.le_iff, gridUnits_underflow, same, mul_lt_mul_iff_right₀ two_pos,
      mul_lt_mul_iff_left₀ Magnitude.unitsPerOne_pos, mul_right_inj' two_ne_zero,
      mul_left_inj' Magnitude.unitsPerOne_pos.ne', le_iff_lt_or_eq, and_iff_left Even.zero]
  rw [← first]
  unfold ofRatio zero
  simp only
  split
  · simp [Magnitude.zero]
  · rename_i large
    refine ⟨nofun, fun index => absurd ?_ large⟩
    rw [index]
    decide

theorem ofRatio_eq_infinity_iff (positive : 0 < den) (same : (num : ℚ) / den = x * unitsPerOne) :
    ofRatio false num den = .infinity false ↔ overflowBound ≤ x := by
  rw [← not_lt, ← nearestIndex_lt_magnitudeCount positive same]
  unfold ofRatio
  simp only
  split
  · rename_i small
    exact ⟨nofun, fun large => absurd small large⟩
  · rename_i large
    exact ⟨fun _ => large, fun _ => rfl⟩

end Binary64

end Calculator
