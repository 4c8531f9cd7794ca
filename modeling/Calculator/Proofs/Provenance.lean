import Calculator.Proofs.Recognition
import Calculator.Proofs.Subexpression

/-! # What a parsed expression is made of

Names and numbers of a parsed expression come from tokens of its text, so they are no other than a text can spell.
-/

namespace Calculator

/-- Whether a number is one that a literal denotes: not NaN, and without a sign. -/
def Binary64.isUnsigned : Binary64 → Bool
  | .nan _ => false
  | .infinity negative => !negative
  | .finite negative _ => !negative

theorem Decimal.isUnsigned_toBinary64 (d : Decimal) : d.toBinary64.isUnsigned = true := by
  unfold toBinary64 Binary64.ofRatio
  simp only
  split <;> rfl

/-- Whether the root of an expression can be spelled: names are names and numbers are unsigned. -/
def Expr.isSpelled : Expr → Bool
  | number value => value.isUnsigned
  | var name | assign name _ | call name _ => isName name
  | neg _ | binary _ _ _ => true

/-- What a derivation builds holds to a condition everywhere, a chain if its first operand does. -/
def Rule.Holds (p : Expr → Bool) : (r : Rule) → r.Tree → Prop
  | .moreTerms, chain | .moreFactors, chain => ∀ left, left.everywhere p = true → (chain left).everywhere p = true
  | .arguments, list => ∀ e ∈ list, e.everywhere p = true
  | .expression, e | .term, e | .unary, e | .power, e | .primary, e => e.everywhere p = true

namespace Derivation

variable {r : Rule}

theorem holds_isSpelled {d : Derivation r} {tree : r.Tree} (built : d.tree? = some tree)
    (spelled : ∀ token ∈ d.word, token.isSpelled = true) : r.Holds Expr.isSpelled tree := by
  induction d with
  | noTerms | noFactors =>
    cases built
    exact fun _ h => h
  | plain operand ih => exact ih built spelled
  | base b ih => exact ih built spelled
  | number literal =>
    obtain ⟨d, _, rfl⟩ := Option.map_eq_some_iff.mp built
    exact (Expr.everywhere_number).trans d.isUnsigned_toBinary64
  | var name =>
    cases built
    exact Expr.everywhere_var.trans (spelled (.identifier name) List.mem_cons_self)
  | emptyCall name =>
    cases built
    have named : isName name = true := spelled (.identifier name) List.mem_cons_self
    simp [Rule.Holds, Expr.isSpelled, named]
  | group inner ih => exact ih built fun token member => spelled token (by simp [word, member])
  | neg operand ih =>
    obtain ⟨e, builtBelow, rfl⟩ := Option.map_eq_some_iff.mp built
    have below : e.everywhere Expr.isSpelled = true :=
      ih builtBelow fun token member => spelled token (by simp [word, member])
    simp [Rule.Holds, Expr.isSpelled, below]
  | call name arguments ih =>
    obtain ⟨list, builtBelow, rfl⟩ := Option.map_eq_some_iff.mp built
    have named : isName name = true := spelled (.identifier name) List.mem_cons_self
    have below : ∀ e ∈ list, e.everywhere Expr.isSpelled = true :=
      ih builtBelow fun token member => spelled token (by simp [word, member])
    simpa [Rule.Holds, Expr.isSpelled, named] using below
  | assign name value ih =>
    obtain ⟨e, builtBelow, rfl⟩ := Option.map_eq_some_iff.mp built
    have named : isName name = true := spelled (.identifier name) List.mem_cons_self
    have below : e.everywhere Expr.isSpelled = true :=
      ih builtBelow fun token member => spelled token (by simp [word, member])
    simp [Rule.Holds, Expr.isSpelled, named, below]
  | lastArgument e ih =>
    obtain ⟨first, builtBelow, rfl⟩ := Option.map_eq_some_iff.mp built
    have below : first.everywhere Expr.isSpelled = true := ih builtBelow spelled
    simpa [Rule.Holds] using below
  | expression first rest ihFirst ihRest | term first rest ihFirst ihRest
  | moreTerms op _ first rest ihFirst ihRest | moreFactors op _ first rest ihFirst ihRest
  | raised first rest ihFirst ihRest | argument first rest ihFirst ihRest =>
    obtain ⟨left, builtFirst, built⟩ := Option.bind_eq_some_iff.mp built
    obtain ⟨right, builtRest, same⟩ := Option.bind_eq_some_iff.mp built
    obtain rfl := Option.some.inj same
    have holdsFirst := ihFirst builtFirst fun token member => spelled token (by simp [word, member])
    have holdsRest := ihRest builtRest fun token member => spelled token (by simp [word, member])
    simp_all [Rule.Holds, Expr.isSpelled]

end Derivation

/-- A parsed expression can be spelled, part by part. -/
theorem Expr.isSpelled_of_parse {text : String} {e : Expr} (parsed : Expr.parse text = .ok e) :
    e.everywhere Expr.isSpelled = true := by
  have verdict := Expr.parse_verdict text
  cases scan : Place.start.scan none (Lexeme.all text.toList) with
  | error error =>
    rw [scan, parsed] at verdict
    cases verdict
  | ok left =>
    rw [scan] at verdict
    obtain ⟨w, e', pieces, ⟨d, rfl, _, built, _⟩, parsed'⟩ := verdict
    obtain rfl := Except.ok.inj (parsed.symm.trans parsed')
    refine d.holds_isSpelled built fun token member => ?_
    have piece : .token token ∈ Lexeme.all text.toList := by
      rw [pieces]
      exact List.mem_append_left left (List.mem_map_of_mem member)
    exact Lexeme.isSpelled_of_mem_all piece

end Calculator
