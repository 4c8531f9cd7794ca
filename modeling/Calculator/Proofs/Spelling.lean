import Calculator.Token.Lexeme

/-! # Spelling

How tokens are written. A token in the spelling of its kind is read back from its text, if what follows does not
extend it, and nothing but such tokens is ever read.
-/

namespace Calculator

/-- Whether a text is a name: a letter, then letters, digits and underscores. -/
def isName (name : String) : Bool :=
  match name.toList with
  | [] => false
  | c :: rest => c.isAlpha && rest.all isNameChar

namespace Token

/-- Whether a token has the spelling of its kind. -/
def isSpelled : Token → Bool
  | number literal => literal ≠ "" && literal.toList.all isNumeric
  | identifier name => isName name
  | symbol _ => true

/-- Whether a character behind a token is read as part of it. -/
def isExtendedBy : Token → Char → Bool
  | number _, c => isNumeric c
  | identifier _, c => isNameChar c
  | symbol _, _ => false

end Token

theorem isBlank_eq_false_of_isNumeric {c : Char} (numeric : isNumeric c = true) : isBlank c = false := by
  rw [Bool.eq_false_iff]
  intro blank
  simp only [isBlank, Bool.or_eq_true, decide_eq_true_eq] at blank
  rcases blank with ((((rfl | rfl) | rfl) | rfl) | rfl) | rfl <;> cases numeric

theorem isBlank_eq_false_of_isAlpha {c : Char} (letter : c.isAlpha = true) : isBlank c = false := by
  rw [Bool.eq_false_iff]
  intro blank
  simp only [isBlank, Bool.or_eq_true, decide_eq_true_eq] at blank
  rcases blank with ((((rfl | rfl) | rfl) | rfl) | rfl) | rfl <;> cases letter

theorem isNumeric_eq_false_of_isAlpha {c : Char} (letter : c.isAlpha = true) : isNumeric c = false := by
  have notPoint : c ≠ '.' := by
    rintro rfl
    cases letter
  have notDigit : c.isDigit = false := by
    rw [Bool.eq_false_iff]
    intro digit
    have last : c.val ≤ '9'.val := of_decide_eq_true (Bool.and_eq_true_iff.mp digit).2
    rcases Bool.or_eq_true_iff.mp letter with upper | lower
    · have first : 'A'.val ≤ c.val := (of_decide_eq_true upper).1
      exact absurd (UInt32.le_trans first last) (by decide)
    · have first : 'a'.val ≤ c.val := of_decide_eq_true (Bool.and_eq_true_iff.mp lower).1
      exact absurd (UInt32.le_trans first last) (by decide)
  simp [isNumeric, notDigit, notPoint]

/-- A text that carries no token in front of it on. -/
def Separates (rest : List Char) : Prop := ∀ c ∈ rest.head?, isNumeric c = false ∧ isNameChar c = false

theorem separates_nil : Separates [] := by
  rintro c ⟨⟩

theorem separates_symbol (s : Symbol) (rest : List Char) : Separates (s.char :: rest) := by
  rintro c ⟨⟩
  cases s <;> decide

theorem separates_blank (rest : List Char) : Separates (' ' :: rest) := by
  rintro c ⟨⟩
  decide

namespace Lexeme

theorem map_token_inj {w v : List Token} (same : w.map token = v.map token) : w = v :=
  (List.map_inj_right fun _ _ h => token.inj h).mp same

theorem all_of_next?_eq_none {text : List Char} (h : next? text = none) : all text = [] := by
  rw [all]
  split <;> simp_all

theorem all_of_next?_eq_some {text rest : List Char} {piece : Lexeme} (h : next? text = some (piece, rest)) :
    all text = piece :: all rest := by
  rw [all]
  split <;> simp_all

theorem all_blank {c : Char} (blank : isBlank c = true) (rest : List Char) : all (c :: rest) = all rest := by
  have same : next? (c :: rest) = next? rest := if_pos blank
  cases found : next? rest with
  | none => rw [all_of_next?_eq_none found, all_of_next?_eq_none (same.trans found)]
  | some piece => rw [all_of_next?_eq_some found, all_of_next?_eq_some (same.trans found)]

theorem next?_symbol (s : Symbol) (rest : List Char) : next? (s.char :: rest) = some (.token (.symbol s), rest) := by
  cases s <;> rfl

theorem span_append {kind : Char → Bool} {run rest : List Char} (inside : ∀ c ∈ run, kind c = true)
    (outside : ∀ c ∈ rest.head?, kind c = false) :
    (run ++ rest).takeWhile kind = run ∧ (run ++ rest).dropWhile kind = rest := by
  rw [List.takeWhile_append_of_pos inside, List.dropWhile_append_of_pos inside]
  cases rest with
  | nil => simp
  | cons c rest => simp [outside c rfl]

theorem next?_text_append {token : Token} (spelled : token.isSpelled = true) {rest : List Char}
    (bounded : ∀ c ∈ rest.head?, token.isExtendedBy c = false) :
    next? (token.text.toList ++ rest) = some (.token token, rest) := by
  cases token with
  | symbol s =>
    rw [Token.text, Char.toString, String.toList_singleton]
    exact next?_symbol s rest
  | number literal =>
    simp only [Token.isSpelled, Bool.and_eq_true, decide_eq_true_eq, List.all_eq_true] at spelled
    obtain ⟨nonempty, numeric⟩ := spelled
    cases text : literal.toList with
    | nil => exact absurd (String.toList_eq_nil_iff.mp text) nonempty
    | cons c run =>
      rw [text] at numeric
      have first := numeric c List.mem_cons_self
      obtain ⟨taken, dropped⟩ := span_append (fun d member => numeric d (List.mem_cons_of_mem c member)) bounded
      rw [Token.text, text, List.cons_append, next?, isBlank_eq_false_of_isNumeric first, startingWith, if_pos first,
        taken, dropped, ← text, String.ofList_toList]
      rfl
  | identifier name =>
    simp only [Token.isSpelled, isName] at spelled
    cases text : name.toList with
    | nil => simp [text] at spelled
    | cons c run =>
      simp only [text, Bool.and_eq_true, List.all_eq_true] at spelled
      obtain ⟨letter, nameChars⟩ := spelled
      obtain ⟨taken, dropped⟩ := span_append nameChars bounded
      rw [Token.text, text, List.cons_append, next?, isBlank_eq_false_of_isAlpha letter, startingWith,
        isNumeric_eq_false_of_isAlpha letter, if_pos letter, taken, dropped, ← text, String.ofList_toList]
      rfl

theorem all_text_append {token : Token} (spelled : token.isSpelled = true) {rest : List Char}
    (bounded : ∀ c ∈ rest.head?, token.isExtendedBy c = false) :
    all (token.text.toList ++ rest) = .token token :: all rest :=
  all_of_next?_eq_some (next?_text_append spelled bounded)

theorem all_symbol (s : Symbol) (rest : List Char) : all (s.char :: rest) = .token (.symbol s) :: all rest :=
  all_of_next?_eq_some (next?_symbol s rest)

theorem all_number {literal : String} (spelled : (Token.number literal).isSpelled = true) {rest : List Char}
    (separates : Separates rest) : all (literal.toList ++ rest) = .token (.number literal) :: all rest :=
  @all_text_append (.number literal) spelled rest fun c head => (separates c head).1

theorem all_name {name : String} (spelled : isName name = true) {rest : List Char} (separates : Separates rest) :
    all (name.toList ++ rest) = .token (.identifier name) :: all rest :=
  @all_text_append (.identifier name) spelled rest fun c head => (separates c head).2

theorem isSpelled_of_startingWith {c : Char} {rest after : List Char} {token : Token}
    (h : startingWith c rest = (.token token, after)) : token.isSpelled = true := by
  unfold startingWith at h
  split at h
  · rename_i numeric
    cases h
    simp [Token.isSpelled, numeric]
  · split at h
    · rename_i letter
      cases h
      simp [Token.isSpelled, isName, letter]
    · split at h <;> cases h
      rfl

theorem isSpelled_of_next? {text rest : List Char} {token : Token} (h : next? text = some (.token token, rest)) :
    token.isSpelled = true := by
  induction text with
  | nil => cases h
  | cons c text ih =>
    unfold next? at h
    split at h
    · exact ih h
    · exact isSpelled_of_startingWith (Option.some.inj h)

/-- Only tokens in the spelling of their kind are read. -/
theorem isSpelled_of_mem_all {text : List Char} {token : Token} (member : .token token ∈ all text) :
    token.isSpelled = true := by
  fun_induction all text with
  | case1 text none => cases member
  | case2 text piece rest found ih =>
    rcases List.mem_cons.mp member with rfl | member
    · exact isSpelled_of_next? found
    · exact ih member

end Lexeme

end Calculator
