import Calculator.Calculate
import Calculator.Proofs.Provenance

/-! # Messages

What an error says about a text it takes from the text: a character that starts no token, a token, a name. Line feeds
stand between the pieces of a text and belong to none of them, so every message is a single line.
-/

namespace Calculator

/-- Whether a text is a single line. -/
def IsSingleLine (text : String) : Prop := '\n' ∉ text.toList

theorem isSingleLine_append {first second : String} :
    IsSingleLine (first ++ second) ↔ IsSingleLine first ∧ IsSingleLine second := by
  simp [IsSingleLine]

theorem isSingleLine_of_forall {text : String} {kind : Char → Bool} (inside : ∀ c ∈ text.toList, kind c = true)
    (outside : kind '\n' = false) : IsSingleLine text := by
  intro member
  have accepted := inside '\n' member
  rw [outside] at accepted
  cases accepted

theorem isSingleLine_of_isName {name : String} (spelled : isName name = true) : IsSingleLine name := by
  unfold isName at spelled
  unfold IsSingleLine
  cases chars : name.toList with
  | nil => simp
  | cons c rest =>
    simp only [chars, Bool.and_eq_true, List.all_eq_true] at spelled
    intro member
    rcases List.mem_cons.mp member with rfl | member
    · cases spelled.1
    · cases spelled.2 '\n' member

theorem Token.isSingleLine_text {token : Token} (spelled : token.isSpelled = true) : IsSingleLine token.text := by
  cases token with
  | number literal =>
    simp only [isSpelled, Bool.and_eq_true, List.all_eq_true] at spelled
    exact isSingleLine_of_forall spelled.2 (by decide)
  | identifier name => exact isSingleLine_of_isName spelled
  | symbol s => cases s <;> simp [IsSingleLine, text, Symbol.char, Char.toString]

theorem isSingleLine_toString {c : Char} (other : c ≠ '\n') : IsSingleLine c.toString := by
  simp [IsSingleLine, Char.toString, Ne.symm other]

theorem isSingleLine_repr (n : Nat) : IsSingleLine n.repr := by
  intro member
  rw [Nat.repr, String.toList_ofList] at member
  have digit : '\n'.isDigit = true := Nat.isDigit_of_mem_toDigits (by decide) (by decide) member
  cases digit

namespace Lexeme

theorem isBlank_eq_false_of_next? {text rest : List Char} {c : Char} (h : next? text = some (.stray c, rest)) :
    isBlank c = false := by
  induction text with
  | nil => cases h
  | cons d text ih =>
    unfold next? at h
    split at h
    · exact ih h
    · rename_i nonblank
      unfold startingWith at h
      split at h
      · cases h
      · split at h
        · cases h
        · split at h
          · cases h
          · cases h
            simpa using nonblank

theorem isBlank_eq_false_of_mem_all {text : List Char} {c : Char} (member : .stray c ∈ all text) :
    isBlank c = false := by
  fun_induction all text with
  | case1 text none => cases member
  | case2 text piece rest found ih =>
    rcases List.mem_cons.mp member with rfl | member
    · exact isBlank_eq_false_of_next? found
    · exact ih member

end Lexeme

/-- Whether an error is about one of these pieces, or about the end. -/
def ParseError.Names (pieces : List Lexeme) : ParseError → Prop
  | strayCharacter c => .stray c ∈ pieces
  | unexpected found => ∀ token ∈ found, .token token ∈ pieces
  | invalidNumber literal => .token (.number literal) ∈ pieces

theorem Token.names_of_fault? {token : Token} {error : ParseError} (faulty : token.fault? = some error)
    {pieces : List Lexeme} (member : .token token ∈ pieces) : error.Names pieces := by
  cases token with
  | identifier | symbol => cases faulty
  | number literal =>
    unfold fault? numberOfLiteral at faulty
    cases value : Decimal.read? literal.toList with
    | some decimal => simp [value] at faulty
    | none =>
      simp only [value, Option.some.injEq] at faulty
      rw [← faulty]
      exact member

theorem Place.names_of_scan {p : Place} {fault : Option ParseError} {pieces all : List Lexeme}
    (known : ∀ piece ∈ pieces, piece ∈ all) (about : ∀ error ∈ fault, error.Names all) {error : ParseError}
    (failed : p.scan fault pieces = .error error) : error.Names all := by
  have closing : ∀ (p : Place) (found : Option Token) (left : List Lexeme),
      (∀ token ∈ found, .token token ∈ all) → p.close found left = .error error → error.Names all := by
    intro p found left inside failed
    unfold close at failed
    split at failed
    · cases failed
    · cases failed
      exact inside
  induction pieces generalizing p fault with
  | nil =>
    cases fault with
    | some error =>
      cases failed
      exact about error rfl
    | none => exact closing p none [] (by simp) failed
  | cons piece rest ih =>
    have inside : piece ∈ all := known piece List.mem_cons_self
    cases piece with
    | stray c =>
      cases failed
      exact inside
    | token token =>
      cases fault with
      | some error =>
        cases failed
        exact about error rfl
      | none =>
        cases step : p.step token with
        | none =>
          rw [scan_stop step] at failed
          exact closing p (some token) _ (by simpa using inside) failed
        | some q =>
          rw [scan_step step] at failed
          have known' : ∀ piece ∈ rest, piece ∈ all := fun piece member => known piece (List.mem_cons_of_mem _ member)
          exact ih known' (fun error faulty => token.names_of_fault? faulty inside) failed

theorem Expr.names_of_parse {text : String} {error : ParseError} (failed : Expr.parse text = .error error) :
    error.Names (Lexeme.all text.toList) := by
  have verdict := Expr.parse_verdict text
  cases scan : Place.start.scan none (Lexeme.all text.toList) with
  | error error' =>
    rw [scan, failed] at verdict
    obtain rfl := Except.error.inj verdict
    exact Place.names_of_scan (fun _ member => member) (by simp) scan
  | ok left =>
    rw [scan] at verdict
    obtain ⟨w, e, _, _, parsed⟩ := verdict
    rw [failed] at parsed
    cases parsed

theorem ParseError.isSingleLine_message {error : ParseError} {text : List Char}
    (names : error.Names (Lexeme.all text)) : IsSingleLine error.message := by
  cases error with
  | strayCharacter c =>
    have nonblank := Lexeme.isBlank_eq_false_of_mem_all names
    have other : c ≠ '\n' := by
      rintro rfl
      cases nonblank
    unfold message
    rw [isSingleLine_append, isSingleLine_append]
    exact ⟨⟨by simp [IsSingleLine], isSingleLine_toString other⟩, by simp [IsSingleLine]⟩
  | unexpected found =>
    have single : IsSingleLine (Token.describe found) := by
      cases found with
      | none => simp [IsSingleLine, Token.describe]
      | some token => exact token.isSingleLine_text (Lexeme.isSpelled_of_mem_all (names token rfl))
    exact isSingleLine_append.mpr ⟨by simp [IsSingleLine], single⟩
  | invalidNumber literal =>
    have single := (Token.number literal).isSingleLine_text (Lexeme.isSpelled_of_mem_all names)
    exact isSingleLine_append.mpr ⟨by simp [IsSingleLine], single⟩

/-- The name that an error is about. -/
def EvalError.name : EvalError → String
  | undefinedVariable name | unknownFunction name _ => name

theorem EvalError.isSingleLine_message {error : EvalError} (spelled : isName error.name = true) :
    IsSingleLine error.message := by
  have single := isSingleLine_of_isName spelled
  cases error with
  | undefinedVariable name => exact isSingleLine_append.mpr ⟨by simp [IsSingleLine], single⟩
  | unknownFunction name arity =>
    unfold message
    simp only [isSingleLine_append]
    refine ⟨⟨⟨⟨?_, single⟩, ?_⟩, isSingleLine_repr arity⟩, ?_⟩ <;> simp [IsSingleLine]

/-- Whether all errors of an evaluation are of a kind. -/
def FailsWith {α : Type} (kind : EvalError → Prop) (x : EvalM α) : Prop :=
  ∀ env error after, x env = .error error after → kind error

section FailsWith

variable {α β : Type} {kind : EvalError → Prop}

theorem failsWith_pure (a : α) : FailsWith kind (pure a : EvalM α) := by
  intro env error after failed
  cases failed

theorem failsWith_throw {error : EvalError} (own : kind error) : FailsWith kind (throw error : EvalM α) := by
  intro env error after failed
  cases failed
  exact own

theorem FailsWith.bind {x : EvalM α} {f : α → EvalM β} (first : FailsWith kind x) (second : ∀ a, FailsWith kind (f a)) :
    FailsWith kind (x >>= f) := by
  intro env error after failed
  simp only [Bind.bind, EStateM.bind] at failed
  split at failed
  · exact second _ _ _ _ failed
  · rename_i done
    cases failed
    exact first _ _ _ done

theorem failsWith_readVariable {name : String} (own : kind (.undefinedVariable name)) :
    FailsWith kind (readVariable name) := by
  have looked : FailsWith kind (get : EvalM Environment) := by
    intro env error after failed
    cases failed
  unfold readVariable
  apply looked.bind
  intro env
  cases env.get? name with
  | some value => exact failsWith_pure value
  | none => exact failsWith_throw own

end FailsWith

namespace Expr

theorem failsWith_evalAll {kind : EvalError → Prop} {list : List Expr} (each : ∀ e ∈ list, FailsWith kind e.eval) :
    FailsWith kind (evalAll list) := by
  induction list with
  | nil => exact failsWith_pure []
  | cons e rest ih =>
    rw [evalAll]
    apply (each e List.mem_cons_self).bind
    intro value
    apply (ih fun e member => each e (List.mem_cons_of_mem _ member)).bind
    intro values
    exact failsWith_pure _

/-- An expression whose names are spelled properly fails over such a name only. -/
theorem failsWith_eval {e : Expr} (spelled : e.everywhere isSpelled = true) :
    FailsWith (fun error => isName error.name = true) e.eval := by
  induction e with
  | number value => exact failsWith_pure value
  | var name =>
    rw [everywhere_var] at spelled
    exact failsWith_readVariable spelled
  | assign name value ih =>
    simp only [everywhere_assign, Bool.and_eq_true] at spelled
    rw [eval]
    apply (ih spelled.2).bind
    intro result env error after failed
    cases failed
  | call name arguments ih =>
    simp only [everywhere_call, Bool.and_eq_true, List.all_eq_true] at spelled
    rw [eval]
    split
    · exact failsWith_throw spelled.1
    · apply (failsWith_evalAll fun e member => ih e member (spelled.2 e member)).bind
      intro values
      split
      · exact failsWith_pure _
      · exact failsWith_throw spelled.1
  | neg operand ih =>
    simp only [everywhere_neg, Bool.and_eq_true] at spelled
    rw [eval]
    apply (ih spelled.2).bind
    intro value
    exact failsWith_pure _
  | binary op left right ihLeft ihRight =>
    simp only [everywhere_binary, Bool.and_eq_true] at spelled
    rw [eval]
    apply (ihLeft spelled.1.2).bind
    intro first
    apply (ihRight spelled.2).bind
    intro second
    exact failsWith_pure _

end Expr

/-- The message of a calculation that fails is a single line, whatever the text holds. -/
theorem isSingleLine_of_calculate {text : String} {env after : Environment} {error : CalculationError}
    (failed : calculate text env = .error error after) : IsSingleLine error.message := by
  unfold calculate at failed
  split at failed
  · rename_i parsed
    cases failed
    exact ParseError.isSingleLine_message (Expr.names_of_parse parsed)
  · rename_i e parsed
    split at failed
    · cases failed
    · rename_i stopped
      cases failed
      exact EvalError.isSingleLine_message (Expr.failsWith_eval (Expr.isSpelled_of_parse parsed) _ _ _ stopped)

end Calculator
