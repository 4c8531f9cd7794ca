import Calculator.Expr.Eval
import Calculator.Proofs.Provenance
import Calculator.Proofs.Rendering

/-! # Round trips

The text of an expression parses to the expression, with a negation for each sign, and evaluates alike. What is parsed
has neither signs nor names that could not be written, so its own text parses to itself.
-/

namespace Calculator

namespace Expr

/-- The pieces of a text are the word of its derivation. -/
def Rendered (e : Expr) : Prop :=
  ∀ rest, Separates rest → Lexeme.all (e.text.toList ++ rest) = e.operand.word.map .token ++ Lexeme.all rest

theorem rendered_number (negative : Bool) (m : Magnitude) : Rendered (.number (.finite negative m)) :=
  fun _ separates => Lexeme.all_signed negative m.shortest separates

theorem rendered_arguments {arguments : List Expr} (rendered : ∀ e ∈ arguments, e.Rendered) (rest : List Char) :
    Lexeme.all ((String.intercalate ", " (texts arguments)).toList ++ Symbol.rightParen.char :: rest) =
      ((arguments? arguments).elim [] Derivation.word).map .token ++
        .token (.symbol .rightParen) :: Lexeme.all rest := by
  induction arguments with
  | nil => exact Lexeme.all_symbol .rightParen rest
  | cons e others ih =>
    have first := rendered e List.mem_cons_self
    cases others with
    | nil =>
      rw [texts, texts, String.intercalate_singleton, first _ (separates_symbol _ _), Lexeme.all_symbol]
      simp [arguments?, operand, Derivation.word]
    | cons e' others =>
      have following := ih fun e member => rendered e (List.mem_cons_of_mem _ member)
      have shown : (String.intercalate ", " (texts (e :: e' :: others))).toList ++ Symbol.rightParen.char :: rest =
          e.text.toList ++ Symbol.comma.char :: ' ' ::
            ((String.intercalate ", " (texts (e' :: others))).toList ++ Symbol.rightParen.char :: rest) := by
        simp [texts, String.intercalate_cons_cons, Symbol.char]
      rw [shown, first _ (separates_symbol _ _), Lexeme.all_symbol, Lexeme.all_blank rfl, following]
      cases found : arguments? (e' :: others) with
      | none =>
        rw [arguments?] at found
        split at found <;> cases found
      | some list =>
        rw [arguments?, found]
        simp [operand, Derivation.word]

theorem rendered {e : Expr} (shown : e.everywhere isShown = true) : e.Rendered := by
  induction e with
  | number value =>
    match value, shown with
    | .finite negative m, _ => exact rendered_number negative m
  | var name =>
    rw [everywhere_var, isShown] at shown
    intro rest separates
    rw [text, Lexeme.all_name shown separates]
    rfl
  | assign name value ih =>
    rw [everywhere_assign, isShown, Bool.and_eq_true] at shown
    intro rest separates
    have pieces : (assign name value).text.toList ++ rest = Symbol.leftParen.char :: (name.toList ++ ' ' ::
        Symbol.equals.char :: ' ' :: (value.text.toList ++ Symbol.rightParen.char :: rest)) := by
      simp [text, Symbol.char]
    rw [pieces, Lexeme.all_symbol, Lexeme.all_name shown.1 (separates_blank _), Lexeme.all_blank rfl,
      Lexeme.all_symbol, Lexeme.all_blank rfl, ih shown.2 _ (separates_symbol _ _), Lexeme.all_symbol]
    simp [operand, isNegative, primary, Derivation.word]
  | call name arguments ih =>
    rw [everywhere_call, isShown, Bool.and_eq_true, List.all_eq_true] at shown
    intro rest separates
    have pieces : (call name arguments).text.toList ++ rest = name.toList ++ Symbol.leftParen.char ::
        ((String.intercalate ", " (texts arguments)).toList ++ Symbol.rightParen.char :: rest) := by
      simp [text, Symbol.char]
    rw [pieces, Lexeme.all_name shown.1 (separates_symbol _ _), Lexeme.all_symbol,
      rendered_arguments (fun e member => ih e member (shown.2 e member))]
    rw [operand, primary]
    cases arguments? arguments with
    | none => simp [isNegative, Derivation.word]
    | some list => simp [isNegative, Derivation.word]
  | neg operand ih =>
    rw [everywhere_neg, isShown, Bool.true_and] at shown
    intro rest separates
    have pieces : (neg operand).text.toList ++ rest = Symbol.leftParen.char :: Symbol.minus.char ::
        (operand.text.toList ++ Symbol.rightParen.char :: rest) := by
      simp [text, Symbol.char]
    rw [pieces, Lexeme.all_symbol, Lexeme.all_symbol, ih shown _ (separates_symbol _ _), Lexeme.all_symbol]
    simp [Expr.operand, isNegative, primary, Derivation.word]
  | binary op left right ihLeft ihRight =>
    rw [everywhere_binary, Bool.and_eq_true, Bool.and_eq_true] at shown
    intro rest separates
    have pieces : (binary op left right).text.toList ++ rest = Symbol.leftParen.char :: (left.text.toList ++ ' ' ::
        op.symbol.char :: ' ' :: (right.text.toList ++ Symbol.rightParen.char :: rest)) := by
      simp [text, Symbol.char]
    rw [pieces, Lexeme.all_symbol, ihLeft shown.1.2 _ (separates_blank _), Lexeme.all_blank rfl, Lexeme.all_symbol,
      Lexeme.all_blank rfl, ihRight shown.2 _ (separates_symbol _ _), Lexeme.all_symbol]
    simp [operand, isNegative, primary, Derivation.word, Derivation.word_between]

theorem parse_text_eq {e : Expr} (shown : e.everywhere isShown = true) : parse e.text = .ok e.norm := by
  refine @Derivation.parse_eq e.operand.alone e.norm ?_ ?_ e.text ?_
  · simpa [operand] using e.greedy_primary none
  · simpa using tree?_operand shown
  · have pieces := rendered shown [] separates_nil
    have nothing : Lexeme.all [] = [] := Lexeme.all_of_next?_eq_none rfl
    rw [nothing, List.append_nil, List.append_nil] at pieces
    rw [pieces, Derivation.word_alone]

theorem norms_eq_map (arguments : List Expr) : norms arguments = arguments.map norm := by
  induction arguments with
  | nil => rfl
  | cons e rest ih => rw [norms, ih, List.map_cons]

theorem norm_eq_self {e : Expr} (plain : e.everywhere (fun part => !part.isNegative) = true) : e.norm = e := by
  induction e with
  | number value =>
    have unsigned : value.isNegative = false := by simpa [isNegative] using plain
    simp [norm, unsigned]
  | var name => rfl
  | assign name value ih =>
    simp only [everywhere_assign, Bool.and_eq_true] at plain
    rw [norm, ih plain.2]
  | call name arguments ih =>
    simp only [everywhere_call, Bool.and_eq_true, List.all_eq_true] at plain
    rw [norm, norms_eq_map, List.map_congr_left fun e member => ih e member (plain.2 e member), List.map_id']
  | neg operand ih =>
    simp only [everywhere_neg, Bool.and_eq_true] at plain
    rw [norm, ih plain.2]
  | binary op left right ihLeft ihRight =>
    simp only [everywhere_binary, Bool.and_eq_true] at plain
    rw [norm, ihLeft plain.1.2, ihRight plain.2]

theorem evalAll_norms {arguments : List Expr} (same : ∀ e ∈ arguments, e.norm.eval = e.eval) :
    evalAll (norms arguments) = evalAll arguments := by
  induction arguments with
  | nil => rfl
  | cons e rest ih =>
    rw [norms, evalAll, evalAll, same e List.mem_cons_self, ih fun e member => same e (List.mem_cons_of_mem _ member)]

/-- A sign and a negation have the same value. -/
theorem eval_norm (e : Expr) : e.norm.eval = e.eval := by
  induction e with
  | number value =>
    rw [norm]
    split
    · cases value <;> simp [eval, Binary64.neg]
    · rfl
  | var name => rfl
  | assign name value ih => rw [norm, eval, eval, ih]
  | call name arguments ih =>
    rw [norm, eval, eval, evalAll_norms ih, norms_eq_map, List.length_map]
  | neg operand ih => rw [norm, eval, eval, ih]
  | binary op left right ihLeft ihRight => rw [norm, eval, eval, ihLeft, ihRight]

def isFinite : Expr → Bool
  | number value => value.isFinite
  | _ => true

theorem not_isNegative_of_isSpelled (e : Expr) (spelled : e.isSpelled = true) : (!e.isNegative) = true := by
  match e with
  | number (.nan _) => cases spelled
  | number (.infinity _) | number (.finite _ _) => exact spelled
  | var _ | assign _ _ | call _ _ | neg _ | binary _ _ _ => rfl

/-- What can be spelled is shown so that it can be read back, but for infinities. -/
theorem isShown_of_isSpelled {e : Expr} (spelled : e.everywhere isSpelled = true)
    (finite : e.everywhere isFinite = true) : e.everywhere isShown = true := by
  induction e with
  | number | var => simp_all [isShown, isSpelled, isFinite]
  | assign | call | neg => simp_all [isShown, isSpelled]
  | binary op left right ihLeft ihRight =>
    simp only [everywhere_binary, Bool.and_eq_true] at spelled finite ⊢
    have plain := not_isNegative_of_isSpelled left (of_everywhere spelled.1.2)
    refine ⟨⟨?_, ihLeft spelled.1.2 finite.1.2⟩, ihRight spelled.2 finite.2⟩
    rw [isShown, plain, Bool.or_true]

/-- An expression with proper names and finite numbers, and with no sign in front of a power, is parsed from its text
    with a negation for each sign, and evaluates alike. A parsed expression can be spelled, part by part, so if it is
    finite it is parsed from its text unchanged. -/
theorem parse_text :
    (∀ e : Expr, e.everywhere isShown = true →
      parse e.text = .ok e.norm ∧ (∀ env, e.norm.eval env = e.eval env) ∧
        (e.everywhere (fun part => !part.isNegative) = true → parse e.text = .ok e)) ∧
    ∀ text e, parse text = .ok e →
      e.everywhere isSpelled = true ∧ (e.everywhere isFinite = true → parse e.text = .ok e) := by
  have plain : ∀ e : Expr, e.everywhere isShown = true → e.everywhere (fun part => !part.isNegative) = true →
      parse e.text = .ok e := by
    intro e shown plain
    rw [parse_text_eq shown, norm_eq_self plain]
  refine ⟨fun e shown => ⟨parse_text_eq shown, fun env => by rw [eval_norm], plain e shown⟩, ?_⟩
  intro text e parsed
  have spelled := isSpelled_of_parse parsed
  exact ⟨spelled, fun finite =>
    plain e (isShown_of_isSpelled spelled finite) (everywhere_mono not_isNegative_of_isSpelled spelled)⟩

theorem parse_text_negative_zero :
    parse (binary .sub (number (.zero true)) (assign "x" (var "y"))).text =
      .ok (binary .sub (neg (number (.zero false))) (assign "x" (var "y"))) ∧
    (binary .sub (neg (number (.zero false))) (assign "x" (var "y"))).everywhere isSpelled = true := by
  have parsed := (parse_text.1 (binary .sub (number (.zero true)) (assign "x" (var "y"))) (by decide)).1
  exact ⟨parsed, (parse_text.2 _ _ parsed).1⟩

end Expr

end Calculator
