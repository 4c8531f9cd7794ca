import Calculator.Proofs.Greedy
import Calculator.Proofs.Outcome

/-! # What the descent reads

Every rule that succeeds has read the word of a maximal derivation and has built its tree.
-/

namespace Calculator

namespace Derivation

variable {r : Rule}

/-- The word of the derivation leads from one stream to another, and the derivation takes all that it can. -/
structure Reads (d : Derivation r) (s t : TokenStream) : Prop where
  lexemes : s.lexemes = d.word.map .token ++ t.lexemes
  maximal : d.Maximal t.current

theorem Reads.current {d : Derivation r} {s t : TokenStream} (h : d.Reads s t) :
    s.current = d.word.head?.or t.current := by
  have heads := congrArg List.head? h.lexemes
  rw [List.head?_append, List.head?_map, TokenStream.head?_lexemes, TokenStream.head?_lexemes,
    ← Option.map_or] at heads
  exact Option.map_injective (fun _ _ h => Lexeme.token.inj h) heads

/-- The stream behind a rule that succeeds, with the derivation read. -/
def Done (s : TokenStream) (tree : r.Tree) (t : TokenStream) : Prop :=
  ∃ d : Derivation r, d.tree? = some tree ∧ d.Reads s t

end Derivation

namespace TokenStream

theorem operator?_eq_some {s : TokenStream} {taken : BinaryOp → Bool} {op : BinaryOp}
    (h : s.operator? taken = some op) : s.current = some (.symbol op.symbol) ∧ taken op = true := by
  unfold operator? at h
  split at h
  · rename_i symbol current
    obtain ⟨found, takes⟩ := Option.filter_eq_some_iff.mp h
    refine ⟨?_, takes⟩
    rw [current]
    cases symbol <;> cases found <;> rfl
  · cases h

theorem operator?_eq_none {s : TokenStream} {taken : BinaryOp → Bool} (h : s.operator? taken = none)
    {op : BinaryOp} (current : s.current = some (.symbol op.symbol)) : taken op = false := by
  simpa [operator?, current] using h

end TokenStream

namespace Grammar

open Calculator.Derivation Calculator.Parsed

/-- Of a rule that fails nothing is said here. -/
def anyFailure (_ : ParseError) (_ : TokenStream) : Prop := True

mutual

theorem expression_reads (s : TokenStream) :
    (expression s).Meets (Done (r := .expression) s) anyFailure := by
  rw [expression]
  refine meets_andThen (term_reads s) fun left u shrinks ⟨first, built, read⟩ => ?_
  refine (moreTerms_reads left u read.maximal.ends).mono (fun e t _ h => ?_) fun _ _ h => h
  obtain ⟨rest, chain, chained, same, readRest⟩ := h
  refine ⟨.expression first rest, ?_, ?_, ?_⟩
  · simp [tree?, built, chained, same]
  · simp [word, read.lexemes, readRest.lexemes]
  · rw [maximal_expression, ← readRest.current]
    exact ⟨read.maximal, readRest.maximal⟩
termination_by 6 * s.size + 4

theorem moreTerms_reads (left : Expr) (s : TokenStream) (ends : Rule.term.continuedBy s.current = false) :
    (moreTerms left s).Meets (fun e t => ∃ (d : Derivation .moreTerms) (chain : Expr → Expr),
      d.tree? = some chain ∧ chain left = e ∧ d.Reads s t) anyFailure := by
  rw [moreTerms]
  split
  · rename_i op found
    obtain ⟨current, additive⟩ := TokenStream.operator?_eq_some found
    refine meets_shift current (fun u shorter moved => ?_) fun _ _ _ => trivial
    refine meets_andThen (term_reads u) fun right v shrinks ⟨next, built, read⟩ => ?_
    refine (moreTerms_reads (.binary op left right) v read.maximal.ends).mono (fun e t _ h => ?_) fun _ _ h => h
    obtain ⟨rest, chain, chained, same, readRest⟩ := h
    refine ⟨.moreTerms op additive next rest, fun l => chain (.binary op l right), ?_, same, ?_, ?_⟩
    · simp [tree?, built, chained]
    · simp [word, TokenStream.lexemes_of_advance_eq_ok current moved, read.lexemes, readRest.lexemes]
    · rw [maximal_moreTerms, ← readRest.current]
      exact ⟨read.maximal, readRest.maximal⟩
  · rename_i none
    refine ⟨.noTerms, id, rfl, rfl, rfl, trivial, ?_⟩
    rw [Rule.continuedBy_eq_false_iff (by decide)] at ends ⊢
    intro op current
    have taken := ends op current
    rw [Rule.takes, TokenStream.operator?_eq_none none current] at taken
    exact absurd taken.symm Bool.false_ne_true
termination_by 6 * s.size

theorem term_reads (s : TokenStream) : (term s).Meets (Done (r := .term) s) anyFailure := by
  rw [term]
  refine meets_andThen (unary_reads s) fun left u shrinks ⟨first, built, read⟩ => ?_
  refine (moreFactors_reads left u read.maximal.ends).mono (fun e t _ h => ?_) fun _ _ h => h
  obtain ⟨rest, chain, chained, same, readRest⟩ := h
  refine ⟨.term first rest, ?_, ?_, ?_⟩
  · simp [tree?, built, chained, same]
  · simp [word, read.lexemes, readRest.lexemes]
  · rw [maximal_term, ← readRest.current]
    exact ⟨read.maximal, readRest.maximal⟩
termination_by 6 * s.size + 3

theorem moreFactors_reads (left : Expr) (s : TokenStream) (ends : Rule.unary.continuedBy s.current = false) :
    (moreFactors left s).Meets (fun e t => ∃ (d : Derivation .moreFactors) (chain : Expr → Expr),
      d.tree? = some chain ∧ chain left = e ∧ d.Reads s t) anyFailure := by
  rw [moreFactors]
  split
  · rename_i op found
    obtain ⟨current, multiplicative⟩ := TokenStream.operator?_eq_some found
    refine meets_shift current (fun u shorter moved => ?_) fun _ _ _ => trivial
    refine meets_andThen (unary_reads u) fun right v shrinks ⟨next, built, read⟩ => ?_
    refine (moreFactors_reads (.binary op left right) v read.maximal.ends).mono (fun e t _ h => ?_) fun _ _ h => h
    obtain ⟨rest, chain, chained, same, readRest⟩ := h
    refine ⟨.moreFactors op multiplicative next rest, fun l => chain (.binary op l right), ?_, same, ?_, ?_⟩
    · simp [tree?, built, chained]
    · simp [word, TokenStream.lexemes_of_advance_eq_ok current moved, read.lexemes, readRest.lexemes]
    · rw [maximal_moreFactors, ← readRest.current]
      exact ⟨read.maximal, readRest.maximal⟩
  · rename_i none
    refine ⟨.noFactors, id, rfl, rfl, rfl, trivial, ?_⟩
    rw [Rule.continuedBy_eq_false_iff (by decide)] at ends ⊢
    intro op current
    have taken := ends op current
    have other := TokenStream.operator?_eq_none none current
    cases op with
    | add | sub => rfl
    | mul | div => cases other
    | pow => cases taken
termination_by 6 * s.size

theorem unary_reads (s : TokenStream) : (unary s).Meets (Done (r := .unary) s) anyFailure := by
  rw [unary]
  split
  · rename_i current
    refine meets_shift current (fun u shorter moved => meets_map ?_) fun _ _ _ => trivial
    refine (unary_reads u).mono (fun e t _ ⟨operand, built, read⟩ => ?_) fun _ _ h => h
    refine ⟨.neg operand, ?_, ?_, maximal_neg.mpr read.maximal⟩
    · simp [tree?, built]
    · simp [word, TokenStream.lexemes_of_advance_eq_ok current moved, read.lexemes]
  · refine (power_reads s).mono (fun e t _ ⟨operand, built, read⟩ => ?_) fun _ _ h => h
    exact ⟨.plain operand, built, read.lexemes, maximal_plain.mpr read.maximal⟩
termination_by 6 * s.size + 2

theorem power_reads (s : TokenStream) : (power s).Meets (Done (r := .power) s) anyFailure := by
  rw [power]
  refine meets_andThen (primary_reads s) fun left u shrinks ⟨b, built, read⟩ => ?_
  split
  · rename_i current
    refine meets_shift current (fun v shorter moved => meets_map ?_) fun _ _ _ => trivial
    refine (unary_reads v).mono (fun right t _ ⟨exponent, builtExponent, readExponent⟩ => ?_) fun _ _ h => h
    refine ⟨.raised b exponent, ?_, ?_, ?_⟩
    · simp [tree?, built, builtExponent]
    · simp [word, read.lexemes, TokenStream.lexemes_of_advance_eq_ok current moved, readExponent.lexemes]
    · rw [maximal_raised, ← current]
      exact ⟨read.maximal, readExponent.maximal⟩
  · rename_i notCaret
    refine ⟨.base b, built, read.lexemes, maximal_base.mpr ⟨read.maximal, ?_⟩⟩
    rw [Rule.continuedBy_eq_false_iff (by decide)]
    intro op current
    cases op with
    | pow => exact absurd current notCaret
    | add | sub | mul | div => rfl
termination_by 6 * s.size + 1

theorem primary_reads (s : TokenStream) : (primary s).Meets (Done (r := .primary) s) anyFailure := by
  rw [primary]
  split
  · rename_i literal current
    refine meets_shift current (fun t shorter moved => ?_) fun _ _ _ => trivial
    have lexemes := TokenStream.lexemes_of_advance_eq_ok current moved
    unfold numberOfLiteral
    cases read : Decimal.read? literal.toList with
    | none => trivial
    | some decimal =>
      refine ⟨.number literal, ?_, ?_, trivial, Rule.continuedBy_primary t.current⟩
      · simp [tree?, read]
      · simp [word, lexemes]
  · rename_i name current
    refine meets_shift current (fun t shorter moved => ?_) fun _ _ _ => trivial
    have lexemes := TokenStream.lexemes_of_advance_eq_ok current moved
    split
    · rename_i opened
      refine meets_shift opened (fun u shorter' moved' => ?_) fun _ _ _ => trivial
      rw [TokenStream.lexemes_of_advance_eq_ok opened moved'] at lexemes
      split
      · rename_i closed
        refine meets_shift closed (fun v shorter'' moved'' => ?_) fun _ _ _ => trivial
        rw [TokenStream.lexemes_of_advance_eq_ok closed moved''] at lexemes
        exact ⟨.emptyCall name, rfl, lexemes, trivial, Rule.continuedBy_primary v.current⟩
      · refine meets_map ((arguments_reads u).mono (fun es v _ h => ?_) fun _ _ h => h)
        obtain ⟨arguments, built, maximal, read⟩ := h
        refine ⟨.call name arguments, ?_, ?_, maximal_call.mpr maximal⟩
        · simp [tree?, built]
        · simp [word, lexemes, read]
    · rename_i equals
      refine meets_shift equals (fun u shorter' moved' => meets_map ?_) fun _ _ _ => trivial
      rw [TokenStream.lexemes_of_advance_eq_ok equals moved'] at lexemes
      refine (expression_reads u).mono (fun e v _ ⟨value, built, read⟩ => ?_) fun _ _ h => h
      refine ⟨.assign name value, ?_, ?_, maximal_assign.mpr read.maximal⟩
      · simp [tree?, built]
      · simp [word, lexemes, read.lexemes]
    · exact ⟨.var name, rfl, lexemes, trivial, Rule.continuedBy_primary t.current⟩
  · rename_i current
    refine meets_shift current (fun t shorter moved => ?_) fun _ _ _ => trivial
    refine meets_andThen (expression_reads t) fun e u shrinks ⟨inner, built, read⟩ => ?_
    split
    · rename_i closed
      refine meets_shift closed (fun v shorter' moved' => ?_) fun _ _ _ => trivial
      refine ⟨.group inner, built, ?_, maximal_group.mpr ?_⟩
      · simp [word, TokenStream.lexemes_of_advance_eq_ok current moved, read.lexemes,
          TokenStream.lexemes_of_advance_eq_ok closed moved']
      · rw [← closed]
        exact read.maximal
    · trivial
  · trivial
termination_by 6 * s.size

theorem arguments_reads (s : TokenStream) :
    (arguments s).Meets (fun es t => ∃ d : Derivation .arguments, d.tree? = some es ∧
      d.Maximal (some (.symbol .rightParen)) ∧
      s.lexemes = d.word.map .token ++ .token (.symbol .rightParen) :: t.lexemes) anyFailure := by
  rw [arguments]
  refine meets_andThen (expression_reads s) fun first t shrinks ⟨e, built, read⟩ => ?_
  split
  · rename_i comma
    refine meets_shift comma (fun u shorter moved => meets_map ?_) fun _ _ _ => trivial
    refine (arguments_reads u).mono (fun es v _ ⟨rest, builtRest, maximal, readRest⟩ => ?_) fun _ _ h => h
    refine ⟨.argument e rest, ?_, ?_, ?_⟩
    · simp [tree?, built, builtRest]
    · rw [maximal_argument, ← comma]
      exact ⟨read.maximal, maximal⟩
    · simp [word, read.lexemes, TokenStream.lexemes_of_advance_eq_ok comma moved, readRest]
  · rename_i closed
    refine meets_shift closed (fun u shorter moved => ?_) fun _ _ _ => trivial
    refine ⟨.lastArgument e, ?_, ?_, ?_⟩
    · simp [tree?, built]
    · rw [maximal_lastArgument, ← closed]
      exact ⟨read.maximal, by rw [closed]; rfl⟩
    · simp [word, read.lexemes, TokenStream.lexemes_of_advance_eq_ok closed moved]
  · trivial
termination_by 6 * s.size + 5

end

end Grammar

end Calculator
