import Mathlib
import Calculator.Number.GeneralText
import Calculator.Proofs.LiteralValue
import Calculator.Proofs.ReadBack

/-! # Decimal expansions

A number has at most one expansion, and that of a decimal is found by trimming all of its digits.
-/

namespace Calculator

/-- The plain decimal expansion of a number: the digits of its integer part, then a point and a fraction if there is
    one, which does not end in a zero. -/
inductive IsExpansion (x : ℚ) : List Char → Prop
  | whole {n : ℕ} (value : x = n) : IsExpansion x (decimalDigits n)
  | point {n : ℕ} {fraction : List Char} (nonempty : fraction ≠ []) (digits : ∀ c ∈ fraction, c.isDigit = true)
      (trimmed : fraction.getLast? ≠ some '0') (value : x = n + fractionValue fraction) :
      IsExpansion x (decimalDigits n ++ '.' :: fraction)

theorem digitValue_le {c : Char} (digit : c.isDigit = true) : digitValue c ≤ 9 := by
  have := Char.isDigit_iff_toNat.mp digit
  simp only [digitValue, Char.reduceToNat] at *
  omega

theorem digitValue_inj {c d : Char} (digit : c.isDigit = true) (digit' : d.isDigit = true)
    (same : digitValue c = digitValue d) : c = d := by
  have := Char.isDigit_iff_toNat.mp digit
  have := Char.isDigit_iff_toNat.mp digit'
  refine Char.toNat_inj.mp ?_
  simp only [digitValue, Char.reduceToNat] at *
  omega

section Fraction

variable {fraction other : List Char}

theorem fractionValue_nonneg (fraction : List Char) : 0 ≤ fractionValue fraction := by
  induction fraction with
  | nil => exact le_rfl
  | cons c rest ih => exact div_nonneg (add_nonneg (Nat.cast_nonneg _) ih) (by norm_num)

theorem fractionValue_lt_one (digits : ∀ c ∈ fraction, c.isDigit = true) : fractionValue fraction < 1 := by
  induction fraction with
  | nil => exact one_pos
  | cons c rest ih =>
    rw [List.forall_mem_cons] at digits
    have first : (digitValue c : ℚ) ≤ 9 := by exact_mod_cast digitValue_le digits.1
    rw [fractionValue, div_lt_one (by norm_num)]
    linarith [ih digits.2]

theorem trimmed_of_cons {c : Char} (trimmed : (c :: fraction).getLast? ≠ some '0') :
    fraction.getLast? ≠ some '0' := by
  intro last
  rw [List.getLast?_cons, last] at trimmed
  exact trimmed rfl

theorem fractionValue_pos (nonempty : fraction ≠ []) (digits : ∀ c ∈ fraction, c.isDigit = true)
    (trimmed : fraction.getLast? ≠ some '0') : 0 < fractionValue fraction := by
  induction fraction with
  | nil => exact absurd rfl nonempty
  | cons c rest ih =>
    rw [List.forall_mem_cons] at digits
    rw [fractionValue]
    by_cases single : rest = []
    · subst single
      have nonzero : digitValue c ≠ 0 := by
        intro zero
        have : c = '0' := digitValue_inj digits.1 (by decide) zero
        exact trimmed (by rw [this]; rfl)
      have positive : (0 : ℚ) < digitValue c := by exact_mod_cast Nat.pos_of_ne_zero nonzero
      simpa [fractionValue] using positive
    · exact div_pos (add_pos_of_nonneg_of_pos (Nat.cast_nonneg _) (ih single digits.2 (trimmed_of_cons trimmed)))
        (by norm_num)

theorem eq_of_add_eq {m n : ℕ} {f g : ℚ} (low : 0 ≤ f) (high : f < 1) (low' : 0 ≤ g) (high' : g < 1)
    (same : m + f = n + g) : m = n ∧ f = g := by
  have below : (m : ℚ) < n + 1 := by linarith
  have above : (n : ℚ) < m + 1 := by linarith
  have equal : m = n := le_antisymm (Nat.lt_succ_iff.mp (by exact_mod_cast below))
    (Nat.lt_succ_iff.mp (by exact_mod_cast above))
  subst equal
  exact ⟨rfl, add_left_cancel same⟩

theorem fractionValue_inj (digits : ∀ c ∈ fraction, c.isDigit = true) (trimmed : fraction.getLast? ≠ some '0')
    (digits' : ∀ c ∈ other, c.isDigit = true) (trimmed' : other.getLast? ≠ some '0')
    (same : fractionValue fraction = fractionValue other) : fraction = other := by
  induction fraction generalizing other with
  | nil =>
    by_contra nonempty
    exact (fractionValue_pos (Ne.symm nonempty) digits' trimmed').ne same
  | cons c rest ih =>
    cases other with
    | nil => exact absurd same (fractionValue_pos (List.cons_ne_nil _ _) digits trimmed).ne'
    | cons d rest' =>
      rw [List.forall_mem_cons] at digits digits'
      rw [fractionValue, fractionValue, div_left_inj' (by norm_num)] at same
      obtain ⟨first, behind⟩ := eq_of_add_eq (fractionValue_nonneg rest) (fractionValue_lt_one digits.2)
        (fractionValue_nonneg rest') (fractionValue_lt_one digits'.2) same
      rw [digitValue_inj digits.1 digits'.1 first,
        ih digits.2 (trimmed_of_cons trimmed) digits'.2 (trimmed_of_cons trimmed') behind]

end Fraction

namespace IsExpansion

variable {x : ℚ} {text other : List Char}

theorem exists_parts (expansion : IsExpansion x text) : ∃ (n : ℕ) (fraction : List Char),
    x = n + fractionValue fraction ∧ (∀ c ∈ fraction, c.isDigit = true) ∧ fraction.getLast? ≠ some '0' ∧
      text = decimalDigits n ++ if fraction = [] then [] else '.' :: fraction := by
  cases expansion with
  | @whole n value => exact ⟨n, [], by simp [value, fractionValue], by simp, by simp, by simp⟩
  | @point n fraction nonempty digits trimmed value => exact ⟨n, fraction, value, digits, trimmed, by simp [nonempty]⟩

theorem unique (first : IsExpansion x text) (second : IsExpansion x other) : text = other := by
  obtain ⟨n, fraction, value, digits, trimmed, rfl⟩ := first.exists_parts
  obtain ⟨n', fraction', value', digits', trimmed', rfl⟩ := second.exists_parts
  obtain ⟨rfl, behind⟩ := eq_of_add_eq (fractionValue_nonneg _) (fractionValue_lt_one digits)
    (fractionValue_nonneg _) (fractionValue_lt_one digits') (value.symm.trans value')
  rw [fractionValue_inj digits trimmed digits' trimmed' behind]

end IsExpansion

theorem trimEnd_append (c : Char) (front tail : List Char) :
    trimEnd c (front ++ tail) = if trimEnd c tail = [] then trimEnd c front else front ++ trimEnd c tail := by
  simp only [trimEnd, List.reverse_append, List.dropWhile_append, List.reverse_eq_nil_iff, List.isEmpty_iff]
  split <;> simp

theorem trimEnd_of_not_mem {c : Char} {text : List Char} (absent : c ∉ text) : trimEnd c text = text := by
  rw [trimEnd, List.reverse_eq_iff]
  cases reversed : text.reverse with
  | nil => rfl
  | cons d rest =>
    have member : d ∈ text := List.mem_reverse.mp (reversed ▸ List.mem_cons_self)
    have other : d ≠ c := fun same => absent (same ▸ member)
    simp [other]

theorem getLast?_trimEnd (c : Char) (text : List Char) : (trimEnd c text).getLast? ≠ some c := by
  have first := List.head?_dropWhile_not (· = c) text.reverse
  rw [trimEnd, List.getLast?_reverse]
  intro last
  simp [last] at first

theorem trimEnd_append_cons {c d : Char} (other : d ≠ c) (front tail : List Char) :
    trimEnd c (front ++ d :: tail) = front ++ d :: trimEnd c tail := by
  have single : trimEnd c [d] = [d] := by simp [trimEnd, other]
  have cons : trimEnd c (d :: tail) = d :: trimEnd c tail := by
    have split := trimEnd_append c [d] tail
    by_cases empty : trimEnd c tail = [] <;> simpa [empty, single] using split
  rw [trimEnd_append, cons, if_neg (List.cons_ne_nil _ _)]

namespace Decimal

theorem fractionDigits_eq_trimEnd (d : Decimal) :
    d.fractionDigits = trimEnd '0' (List.replicate
      (d.places - (decimalDigits (d.coefficient % 10 ^ d.places)).length) '0' ++
        decimalDigits (d.coefficient % 10 ^ d.places)) := rfl

/-- Trimming leaves the digits without zeros at the end of the fraction; an integer part is not trimmed. -/
theorem trimFraction_allDigits (d : Decimal) : trimFraction d.allDigits = d.digits := by
  have pointless : '.' ∉ decimalDigits (d.coefficient / 10 ^ d.places) :=
    point_not_mem fun _ => isDigit_of_mem_decimalDigits
  have pointless' : '.' ∉ d.fractionDigits := point_not_mem fun _ => isDigit_of_mem_fractionDigits
  unfold allDigits digits
  by_cases places : d.places = 0
  · obtain ⟨zeros, length, _⟩ := d.fractionDigits_spec
    have empty : d.fractionDigits = [] := List.length_eq_zero_iff.mp (by omega)
    rw [places, pow_zero, Nat.div_one] at pointless
    simp [trimFraction, places, empty, pointless]
  · rw [if_neg places, trimFraction, if_pos (by simp), trimEnd_append_cons (by decide), ← fractionDigits_eq_trimEnd,
      trimEnd_append]
    cases fraction : d.fractionDigits with
    | nil =>
      have point : trimEnd '.' ['.'] = [] := by decide
      rw [point, if_pos rfl, trimEnd_of_not_mem pointless]
    | cons c rest =>
      rw [fraction] at pointless'
      have kept : trimEnd '.' ('.' :: c :: rest) = '.' :: c :: rest := by
        rw [List.mem_cons, not_or] at pointless'
        have behind := trimEnd_append_cons (Ne.symm pointless'.1) ['.'] rest
        rwa [trimEnd_of_not_mem pointless'.2] at behind
      rw [kept, if_neg (List.cons_ne_nil _ _)]

theorem isExpansion_digits (d : Decimal) : IsExpansion (d.coefficient / 10 ^ d.places) d.digits := by
  obtain ⟨zeros, places, fraction⟩ := d.fractionDigits_spec
  have value : (d.coefficient : ℚ) / 10 ^ d.places =
      (d.coefficient / 10 ^ d.places : ℕ) + fractionValue d.fractionDigits := by
    have parts : (d.coefficient : ℚ) = 10 ^ d.places * (d.coefficient / 10 ^ d.places : ℕ) +
        (d.coefficient % 10 ^ d.places : ℕ) := by
      exact_mod_cast (Nat.div_add_mod d.coefficient (10 ^ d.places)).symm
    rw [← fraction] at parts
    rw [fractionValue_eq, div_eq_iff (by positivity), parts, ← places, pow_add]
    push_cast
    field_simp
  unfold digits
  split
  · rename_i empty
    rw [empty, fractionValue, add_zero] at value
    exact .whole value
  · rename_i nonempty
    exact .point nonempty (fun _ => isDigit_of_mem_fractionDigits) (getLast?_trimEnd '0' _) value

end Decimal

end Calculator
