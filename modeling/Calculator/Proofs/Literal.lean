import Calculator.Expr.Grammar
import Calculator.Proofs.Spelling

/-! # Literals with a digit that counts

A literal denotes a number exactly if a digit stands in front of its second point.
-/

namespace Calculator

/-- The part of a text in front of one point more than `n`, or all of it. -/
def beforePoint : Nat → List Char → List Char
  | _, [] => []
  | 0, c :: rest => if c = '.' then [] else c :: beforePoint 0 rest
  | n + 1, c :: rest => c :: beforePoint (if c = '.' then n else n + 1) rest

/-- Whether a digit stands in front of the second point of a literal. -/
def hasDigit (literal : String) : Bool := (beforePoint 1 literal.toList).any Char.isDigit

theorem point_not_mem {run : List Char} (digits : ∀ c ∈ run, c.isDigit = true) : '.' ∉ run := by
  intro point
  cases digits '.' point

theorem beforePoint_append {run : List Char} (pointless : '.' ∉ run) (n : Nat) (rest : List Char) :
    beforePoint n (run ++ rest) = run ++ beforePoint n rest := by
  induction run with
  | nil => rfl
  | cons c run ih =>
    rw [List.mem_cons, not_or] at pointless
    have notPoint : c ≠ '.' := Ne.symm pointless.1
    cases n <;> simp [beforePoint, notPoint, ih pointless.2]

theorem take_findIdx?_point (text : List Char) :
    text.take ((text.findIdx? (· = '.')).getD text.length) = beforePoint 0 text := by
  induction text with
  | nil => rfl
  | cons c text ih =>
    rw [List.findIdx?_cons]
    by_cases point : c = '.'
    · simp [beforePoint, point]
    · cases found : text.findIdx? (· = '.') <;> simpa [beforePoint, point, found] using ih

theorem take_literalEnd (text : List Char) : text.take (Decimal.literalEnd text) = beforePoint 1 text := by
  induction text with
  | nil => rfl
  | cons c text ih =>
    unfold Decimal.literalEnd at ih ⊢
    rw [List.findIdx?_cons]
    by_cases point : c = '.'
    · have behind := take_findIdx?_point text
      cases found : text.findIdx? (· = '.') <;> simpa [beforePoint, point, found, Nat.add_comm 1] using behind
    · cases found : text.findIdx? (· = '.') with
      | none => simpa [beforePoint, point, found] using ih
      | some dot =>
        cases next : (text.drop (dot + 1)).findIdx? (· = '.') <;>
          simpa [beforePoint, point, found, next, Nat.add_right_comm] using ih

theorem Decimal.ofText_whole {whole : List Char} (pointless : '.' ∉ whole) :
    ofText whole = ⟨Nat.ofDigitChars 10 whole 0, 0⟩ := by
  have span := @Lexeme.span_append (· ≠ '.') whole [] (by grind) nofun
  rw [List.append_nil] at span
  simp only [ofText, span, List.drop_nil, List.append_nil, List.length_nil]

theorem Decimal.ofText_point {whole : List Char} (pointless : '.' ∉ whole) (fraction : List Char) :
    ofText (whole ++ '.' :: fraction) = ⟨Nat.ofDigitChars 10 (whole ++ fraction) 0, fraction.length⟩ := by
  have span := @Lexeme.span_append (· ≠ '.') whole ('.' :: fraction) (by grind) (by simp)
  simp only [ofText, span, List.drop_succ_cons, List.drop_zero]

theorem Decimal.read?_eq (text : List Char) :
    read? text = if (beforePoint 1 text).any Char.isDigit then some (ofText (beforePoint 1 text)) else none := by
  simp only [read?, take_literalEnd]

theorem numberOfLiteral_of_hasDigit {literal : String} (digit : hasDigit literal = true) :
    numberOfLiteral literal = .ok (Decimal.ofText (beforePoint 1 literal.toList)).toBinary64 := by
  have counted : (beforePoint 1 literal.toList).any Char.isDigit = true := digit
  unfold numberOfLiteral
  rw [Decimal.read?_eq, if_pos counted]

theorem numberOfLiteral_of_not_hasDigit {literal : String} (digitless : hasDigit literal = false) :
    numberOfLiteral literal = .error (.invalidNumber literal) := by
  have missing : (beforePoint 1 literal.toList).any Char.isDigit = false := digitless
  unfold numberOfLiteral
  rw [Decimal.read?_eq, missing]
  rfl

end Calculator
