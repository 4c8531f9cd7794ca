import Calculator.Number.Arithmetic
import Calculator.Number.PlainText
import Calculator.Proofs.Literal

/-! # Numbers read back

Rounding depends on a ratio only, and a finite number rounds to itself. So the text of a finite number, whatever
digits it is cut to, reads back to the number.
-/

namespace Calculator

theorem roundHalfEven_mul_right (num den : Nat) {k : Nat} (positive : 0 < k) :
    roundHalfEven (num * k) (den * k) = roundHalfEven num den := by
  simp only [roundHalfEven, Nat.mul_div_mul_right _ _ positive, Nat.mul_mod_mul_right, ← Nat.mul_assoc,
    Nat.mul_lt_mul_right positive]

theorem roundHalfEven_one (n : Nat) : roundHalfEven n 1 = n := by
  simp [roundHalfEven, Nat.mod_one]

namespace Magnitude

theorem nearestIndex_mul_right (num den : Nat) {k : Nat} (positive : 0 < k) :
    nearestIndex (num * k) (den * k) = nearestIndex num den := by
  simp only [nearestIndex, Nat.mul_div_mul_right _ _ positive]
  rw [Nat.mul_right_comm den k, roundHalfEven_mul_right _ _ positive]

/-- A significand without rounding: the leading bit says the spacing, and both add up to the index. -/
theorem nearestIndex_normal {significand shift : Nat} (low : 2 ^ fractionBits ≤ significand)
    (high : significand < 2 ^ (fractionBits + 1)) :
    nearestIndex (significand * 2 ^ shift) 1 = shift * 2 ^ fractionBits + significand := by
  have leading : Nat.log2 (significand * 2 ^ shift) = fractionBits + shift := by
    rw [Nat.log2_eq_iff (Nat.ne_of_gt (Nat.mul_pos (Nat.lt_of_lt_of_le (Nat.two_pow_pos _) low) (Nat.two_pow_pos _)))]
    rw [Nat.pow_add, Nat.add_right_comm, Nat.pow_add 2 (fractionBits + 1)]
    exact ⟨Nat.mul_le_mul_right _ low, (Nat.mul_lt_mul_right (Nat.two_pow_pos _)).mpr high⟩
  rw [nearestIndex, Nat.div_one, leading, Nat.add_sub_cancel_left, roundHalfEven_mul_right _ _ (Nat.two_pow_pos _),
    roundHalfEven_one]

theorem nearestIndex_subnormal {units : Nat} (small : units < 2 ^ fractionBits) : nearestIndex units 1 = units := by
  have leading : Nat.log2 units - fractionBits = 0 := by
    by_cases zero : units = 0
    · rw [zero]
      rfl
    · exact Nat.sub_eq_zero_of_le (Nat.le_of_lt ((Nat.log2_lt zero).mpr small))
  rw [nearestIndex, Nat.div_one, leading, Nat.zero_mul, Nat.zero_add, Nat.pow_zero, roundHalfEven_one]

theorem nearestIndex_units (m : Magnitude) : nearestIndex m.units 1 = m.val := by
  have fraction : m.val % 2 ^ fractionBits < 2 ^ fractionBits := Nat.mod_lt _ (Nat.two_pow_pos _)
  have index : 2 ^ fractionBits * (m.val / 2 ^ fractionBits) + m.val % 2 ^ fractionBits = m.val := Nat.div_add_mod _ _
  unfold units
  cases binade : m.val / 2 ^ fractionBits with
  | zero =>
    rw [binade, Nat.mul_zero, Nat.zero_add] at index
    rw [if_pos rfl, nearestIndex_subnormal fraction, index]
  | succ shift =>
    rw [binade, Nat.mul_succ, Nat.mul_comm] at index
    rw [if_neg (Nat.succ_ne_zero shift), Nat.add_sub_cancel, nearestIndex_normal (by omega) (by omega)]
    omega

end Magnitude

theorem Binary64.ofRatio_mul_right (negative : Bool) (num den : Nat) {k : Nat} (positive : 0 < k) :
    ofRatio negative (num * k) (den * k) = ofRatio negative num den := by
  simp only [ofRatio, Magnitude.nearestIndex_mul_right _ _ positive]

/-- The value of a magnitude, as any ratio, rounds to the magnitude. -/
theorem Binary64.ofRatio_units_mul (negative : Bool) (m : Magnitude) {k : Nat} (positive : 0 < k) :
    ofRatio negative (m.units * k) k = .finite negative m := by
  have reduced := ofRatio_mul_right negative m.units 1 positive
  rw [Nat.one_mul] at reduced
  rw [reduced]
  simp only [ofRatio, Magnitude.nearestIndex_units, m.isLt, dif_pos]

namespace Decimal

theorem toBinary64_zeros (coefficient places zeros : Nat) :
    toBinary64 ⟨coefficient * 10 ^ zeros, places + zeros⟩ = toBinary64 ⟨coefficient, places⟩ := by
  simp only [toBinary64]
  rw [Nat.mul_right_comm, Nat.pow_add, Binary64.ofRatio_mul_right _ _ _ (Nat.pow_pos (by decide))]

theorem toBinary64_exact (m : Magnitude) : m.exact.toBinary64 = .finite false m := by
  simp only [toBinary64, Magnitude.exact, unitsPerOne]
  generalize unitPlaces = n
  rw [Nat.mul_assoc, ← Nat.mul_pow]
  exact Binary64.ofRatio_units_mul false m (Nat.pow_pos (by decide))

end Decimal

namespace Magnitude

theorem readsBack_withDigits? {m : Magnitude} {count : Nat} {d : Decimal} (found : m.withDigits? count = some d) :
    m.readsBack d = true := by
  unfold withDigits? at found
  extract_lets exponent at found
  split at found
  extract_lets lower upper at found
  split at found
  split at found
  · rename_i reads
    cases found
    exact reads
  · split at found
    · rename_i reads
      cases found
      exact reads
    · cases found

/-- The digits shown read back, whether or not the shorter ones are found. -/
theorem toBinary64_shortest (m : Magnitude) : m.shortest.toBinary64 = .finite false m := by
  unfold shortest
  split
  · rename_i zero
    rw [Decimal.toBinary64, Nat.zero_mul, Nat.pow_zero, ← zero, ← Nat.mul_one m.units]
    exact Binary64.ofRatio_units_mul false m (by decide)
  · cases found : (List.range' 1 maxDigits).findSome? m.withDigits? with
    | none => exact Decimal.toBinary64_exact m
    | some d =>
      obtain ⟨count, _, found⟩ := List.exists_of_findSome?_eq_some found
      exact of_decide_eq_true (readsBack_withDigits? found)

end Magnitude

theorem append_zeros (l : List Char) :
    ∃ zeros, (l.reverse.dropWhile (· = '0')).reverse ++ List.replicate zeros '0' = l := by
  have zeros : l.reverse.takeWhile (· = '0') = List.replicate (l.reverse.takeWhile (· = '0')).length '0' := by
    rw [List.eq_replicate_iff]
    exact ⟨rfl, fun c member => of_decide_eq_true (List.all_eq_true.mp List.all_takeWhile c member)⟩
  refine ⟨(l.reverse.takeWhile (· = '0')).length, ?_⟩
  rw [← List.reverse_replicate, ← zeros, ← List.reverse_append, List.takeWhile_append_dropWhile, List.reverse_reverse]

theorem isDigit_of_mem_decimalDigits {n : Nat} {c : Char} (member : c ∈ decimalDigits n) : c.isDigit = true :=
  Nat.isDigit_of_mem_toDigits (by decide) (by decide) member

namespace Decimal

theorem fractionDigits_spec (d : Decimal) : ∃ zeros, d.fractionDigits.length + zeros = d.places ∧
    Nat.ofDigitChars 10 d.fractionDigits 0 * 10 ^ zeros = d.coefficient % 10 ^ d.places := by
  by_cases places : d.places = 0
  · refine ⟨0, ?_⟩
    simp [fractionDigits, decimalDigits, places, Nat.mod_one, Nat.toDigits_zero]
  · have fits : (decimalDigits (d.coefficient % 10 ^ d.places)).length ≤ d.places :=
      (Nat.length_toDigits_le_iff (by decide) (Nat.pos_of_ne_zero places)).mpr
        (Nat.mod_lt _ (Nat.pow_pos (by decide)))
    obtain ⟨zeros, padded⟩ := append_zeros
      (List.replicate (d.places - (decimalDigits (d.coefficient % 10 ^ d.places)).length) '0' ++
        decimalDigits (d.coefficient % 10 ^ d.places))
    refine ⟨zeros, ?_, ?_⟩
    · have lengths := congrArg List.length padded
      simp only [List.length_append, List.length_replicate] at lengths
      rw [fractionDigits, lengths, Nat.sub_add_cancel fits]
    · have values := congrArg (Nat.ofDigitChars 10 · 0) padded
      simp only [Nat.ofDigitChars_append, Nat.ofDigitChars_replicate_zero, Nat.mul_zero, decimalDigits,
        Nat.ofDigitChars_ten_toDigits] at values
      rw [Nat.mul_comm]
      exact values

theorem isDigit_of_mem_fractionDigits {d : Decimal} {c : Char} (member : c ∈ d.fractionDigits) : c.isDigit = true := by
  have padded := (List.dropWhile_sublist _).subset (List.mem_reverse.mp member)
  rcases List.mem_append.mp (List.mem_reverse.mp padded) with zero | digit
  · rw [(List.mem_replicate.mp zero).2]
    rfl
  · exact isDigit_of_mem_decimalDigits digit

theorem digits_eq (d : Decimal) :
    d.fractionDigits = [] ∧ d.digits = decimalDigits (d.coefficient / 10 ^ d.places) ∨
      d.digits = decimalDigits (d.coefficient / 10 ^ d.places) ++ '.' :: d.fractionDigits := by
  unfold digits
  split
  · rename_i empty
    exact .inl ⟨empty, rfl⟩
  · exact .inr rfl

theorem isNumeric_of_mem_digits {d : Decimal} {c : Char} (member : c ∈ d.digits) : isNumeric c = true := by
  have isDigit : c = '.' ∨ c.isDigit = true := by
    rcases d.digits_eq with ⟨_, same⟩ | same
    · rw [same] at member
      exact .inr (isDigit_of_mem_decimalDigits member)
    · rw [same, List.mem_append, List.mem_cons] at member
      rcases member with whole | point | fraction
      · exact .inr (isDigit_of_mem_decimalDigits whole)
      · exact .inl point
      · exact .inr (isDigit_of_mem_fractionDigits fraction)
  rcases isDigit with rfl | digit
  · rfl
  · rw [isNumeric, digit]
    rfl

theorem digits_ne_nil (d : Decimal) : d.digits ≠ [] := by
  rcases d.digits_eq with ⟨_, same⟩ | same
  · rw [same]
    exact Nat.toDigits_ne_nil
  · simp [same]

theorem isSpelled_digits (d : Decimal) : (Token.number (String.ofList d.digits)).isSpelled = true := by
  have nonempty : String.ofList d.digits ≠ "" := by
    intro empty
    refine d.digits_ne_nil ?_
    rw [← String.toList_ofList (l := d.digits), empty]
    rfl
  simp only [Token.isSpelled, Bool.and_eq_true, decide_eq_true_eq, List.all_eq_true, String.toList_ofList]
  exact ⟨nonempty, fun c => isNumeric_of_mem_digits⟩

theorem read?_of_digits {text whole fraction : List Char} (wholeDigits : ∀ c ∈ whole, c.isDigit = true)
    (fractionDigits : ∀ c ∈ fraction, c.isDigit = true) (nonempty : whole ≠ [])
    (split : fraction = [] ∧ text = whole ∨ text = whole ++ '.' :: fraction) :
    read? text = some ⟨Nat.ofDigitChars 10 (whole ++ fraction) 0, fraction.length⟩ := by
  have pointless := point_not_mem wholeDigits
  have uncut : beforePoint 1 text = text := by
    rcases split with ⟨_, rfl⟩ | rfl
    · simpa [beforePoint] using beforePoint_append pointless 1 []
    · have rest := beforePoint_append (point_not_mem fractionDigits) 0 []
      rw [List.append_nil] at rest
      simp [beforePoint_append pointless, beforePoint, rest]
  have counted : text.any Char.isDigit = true := by
    obtain ⟨c, member⟩ := List.exists_mem_of_ne_nil whole nonempty
    refine List.any_eq_true.mpr ⟨c, ?_, wholeDigits c member⟩
    rcases split with ⟨_, rfl⟩ | rfl
    · exact member
    · exact List.mem_append_left _ member
  rw [read?_eq, uncut, if_pos counted]
  rcases split with ⟨rfl, rfl⟩ | rfl
  · rw [ofText_whole pointless, List.append_nil]
    rfl
  · rw [ofText_point pointless]

/-- The digits of a decimal denote the number nearest to it. -/
theorem read?_digits (d : Decimal) : ∃ d', read? d.digits = some d' ∧ d'.toBinary64 = d.toBinary64 := by
  obtain ⟨zeros, places, fraction⟩ := d.fractionDigits_spec
  refine ⟨_, read?_of_digits (fun _ => isDigit_of_mem_decimalDigits) (fun _ => isDigit_of_mem_fractionDigits)
    Nat.toDigits_ne_nil d.digits_eq, ?_⟩
  rw [← toBinary64_zeros _ _ zeros, places]
  congr 2
  rw [Nat.ofDigitChars_append, Nat.ofDigitChars_eq_ofDigitChars_zero, decimalDigits, Nat.ofDigitChars_ten_toDigits,
    Nat.add_mul, fraction, Nat.mul_right_comm, ← Nat.pow_add, places, Nat.div_add_mod]

end Decimal

/-- The literal that an expression shows for a number, its sign apart. -/
def Binary64.literal (x : Binary64) : String := x.abs.plainText

namespace Binary64

theorem toList_literal (negative : Bool) (m : Magnitude) : (finite negative m).literal.toList = m.shortest.digits :=
  String.toList_ofList

/-- The literal of a finite number denotes its magnitude. -/
theorem read?_literal (negative : Bool) (m : Magnitude) :
    (Decimal.read? (finite negative m).literal.toList).map Decimal.toBinary64 = some (.finite false m) := by
  obtain ⟨d, read, value⟩ := m.shortest.read?_digits
  rw [toList_literal, read, Option.map_some, value, m.toBinary64_shortest]

end Binary64

end Calculator
