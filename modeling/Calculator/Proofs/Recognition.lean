import Calculator.Proofs.Literal
import Calculator.Proofs.Verdict

/-! # Recognition

The descent reads exactly the words of the grammar, ambiguous as it is: a greedy choice never loses a sentence. The
tree it builds is that of the one greedy derivation.
-/

namespace Calculator

/-- A word of the grammar. -/
def Sentence (w : List Token) : Prop := ∃ d : Derivation .expression, d.word = w

/-- A word has one greedy derivation and no other, and it builds the tree. -/
def Builds (w : List Token) (e : Expr) : Prop :=
  ∃ d : Derivation .expression, d.word = w ∧ d.Greedy none ∧ d.tree? = some e ∧
    ∀ d' : Derivation .expression, d'.word = w → d'.Greedy none → d' = d

theorem Derivation.builds {d : Derivation .expression} {e : Expr} (greedy : d.Greedy none) (tree : d.tree? = some e) :
    Builds d.word e :=
  ⟨d, rfl, greedy, tree, fun _ same greedy' => greedy'.unique same greedy⟩

theorem Builds.unique {w : List Token} {e e' : Expr} (h : Builds w e) (h' : Builds w e') : e = e' := by
  obtain ⟨d, _, _, tree, only⟩ := h
  obtain ⟨d', word', greedy', tree', _⟩ := h'
  obtain rfl := only d' word' greedy'
  exact Option.some.inj (tree.symm.trans tree')

theorem Token.fault?_eq_none {token : Token}
    (digit : ∀ literal, token = .number literal → hasDigit literal = true) : token.fault? = none := by
  cases token with
  | number literal =>
    have value := numberOfLiteral_of_hasDigit (digit literal rfl)
    rw [Token.fault?, value]
  | identifier | symbol => rfl

theorem Sentence.run {w : List Token} (sentence : Sentence w) : ∃ p, Place.start.run w = some p ∧ p.isComplete := by
  obtain ⟨d, rfl⟩ := sentence
  obtain ⟨mode, isEnd, run⟩ := d.run_word .operand [] rfl
  exact ⟨⟨mode, []⟩, run, by rw [Place.isComplete, isEnd]; rfl⟩

theorem Place.scan_nil {p : Place} (complete : p.isComplete = true) : p.scan none [] = .ok [] := by
  rw [scan, close, if_pos complete]

namespace TokenStream

theorem builds_of_expression_eq_ok {s t : TokenStream} {e : Expr} (read : s.expression = .ok e t) :
    ∃ w, s.lexemes = w.map .token ++ t.lexemes ∧ Builds w e := by
  obtain ⟨d, built, reads⟩ := (Grammar.expression_reads s).of_ok read
  exact ⟨d.word, reads.lexemes, d.builds reads.maximal.greedy.atEnd built⟩

theorem eq_of_lexemes_eq_nil {s : TokenStream} (h : s.lexemes = []) : s.current = none := by
  have head := s.head?_lexemes
  rw [h] at head
  exact Option.map_eq_none_iff.mp head.symm

theorem expression_of_sentence {s : TokenStream} {w : List Token} (tokens : s.lexemes = w.map .token)
    (digits : ∀ literal, .number literal ∈ w → hasDigit literal = true) (sentence : Sentence w) :
    ∃ e t, s.expression = .ok e t ∧ t.current = none := by
  obtain ⟨p, run, complete⟩ := sentence.run
  have faultless : ∀ token ∈ w, token.fault? = none := fun token member =>
    Token.fault?_eq_none fun literal same => digits literal (same ▸ member)
  have verdict : Place.start.scan none s.lexemes = .ok [] := by
    rw [tokens, ← List.append_nil (w.map _), Place.scan_run run faultless, Place.scan_nil complete]
  cases outcome : s.expression with
  | ok e t =>
    have same := (Grammar.expression_verdict s).of_ok outcome
    rw [verdict] at same
    exact ⟨e, t, rfl, eq_of_lexemes_eq_nil (Except.ok.inj same).symm⟩
  | error error t =>
    have same := (Grammar.expression_verdict s).of_error outcome
    rw [verdict] at same
    cases same

/-- For a stream of tokens whose literals all denote numbers, an expression is read up to the end of input exactly if
    the tokens are a sentence, and then its tree is that of the one greedy derivation. Of any stream, the tokens
    moved past have such a derivation. -/
theorem expression_reads_sentences (s : TokenStream) :
    (∀ w : List Token, s.lexemes = w.map .token → (∀ literal, .number literal ∈ w → hasDigit literal = true) →
      ((∃ e t, s.expression = .ok e t ∧ t.current = none) ↔ Sentence w) ∧
        ∀ e t, s.expression = .ok e t → t.current = none → Builds w e) ∧
      ∀ e t, s.expression = .ok e t → ∃ w, s.lexemes = w.map .token ++ t.lexemes ∧ Builds w e := by
  have all_read : ∀ (w : List Token) e t, s.lexemes = w.map .token → s.expression = .ok e t → t.current = none →
      Builds w e := by
    intro w e t tokens read ended
    obtain ⟨v, moved, builds⟩ := builds_of_expression_eq_ok read
    rw [lexemes_eq_nil ended, List.append_nil, tokens] at moved
    obtain rfl := Lexeme.map_token_inj moved
    exact builds
  refine ⟨fun w tokens digits => ⟨⟨?_, expression_of_sentence tokens digits⟩, fun e t => all_read w e t tokens⟩,
    fun e t => builds_of_expression_eq_ok⟩
  rintro ⟨e, t, read, ended⟩
  obtain ⟨d, word, -⟩ := all_read w e t tokens read ended
  exact ⟨d, word⟩

/-- The tokens of `2*x=3+4`. -/
def cutAssignment : List Token :=
  [.number "2", .symbol .star, .identifier "x", .symbol .equals, .number "3", .symbol .plus, .number "4"]

theorem expression_reads_cut_assignment :
    Sentence cutAssignment ∧ ∃ e t, expression ⟨some (.number "2"), ['*', 'x', '=', '3', '+', '4']⟩ = .ok e t ∧
      t.current = none ∧ Builds cutAssignment e := by
  have lexemes : lexemes ⟨some (.number "2"), ['*', 'x', '=', '3', '+', '4']⟩ = cutAssignment.map .token := by
    rw [lexemes_eq_cons rfl, Lexeme.all_of_next?_eq_some rfl, Lexeme.all_of_next?_eq_some rfl,
      Lexeme.all_of_next?_eq_some rfl, Lexeme.all_of_next?_eq_some rfl, Lexeme.all_of_next?_eq_some rfl,
      Lexeme.all_of_next?_eq_some rfl, Lexeme.all_of_next?_eq_none rfl]
    rfl
  have digits : ∀ literal, .number literal ∈ cutAssignment → hasDigit literal = true := by
    intro literal member
    simp [cutAssignment] at member
    rcases member with rfl | rfl | rfl <;> decide
  have sentence : Sentence cutAssignment :=
    ⟨.expression
      (.term (Derivation.number "2").bare
        (.moreFactors .mul rfl (Derivation.assign "x" (Derivation.number "3").bare.alone).bare .noFactors))
      (.moreTerms .add rfl (.term (Derivation.number "4").bare .noFactors) .noTerms), rfl⟩
  obtain ⟨accepts, builds⟩ := (expression_reads_sentences _).1 _ lexemes digits
  obtain ⟨e, t, read, ended⟩ := accepts.mpr sentence
  exact ⟨sentence, e, t, read, ended, builds e t read ended⟩

end TokenStream

/-- What a text parses to is settled by its pieces: by the outline of its tokens, and by the greedy derivation of those
    that are read. -/
theorem Expr.parse_verdict (text : String) :
    match Place.start.scan none (Lexeme.all text.toList) with
    | .ok left => ∃ w e, Lexeme.all text.toList = w.map .token ++ left ∧ Builds w e ∧ Expr.parse text = .ok e
    | .error error => Expr.parse text = .error error := by
  cases first : TokenStream.read text.toList with
  | error error rest =>
    obtain ⟨c, rfl, pieces⟩ := TokenStream.all_of_read_eq_error first
    rw [pieces, Place.scan, parse, read, first]
  | ok token rest =>
    rw [TokenStream.all_of_read_eq_ok first]
    cases outcome : TokenStream.expression ⟨token, rest⟩ with
    | ok e t =>
      rw [(Grammar.expression_verdict _).of_ok outcome]
      obtain ⟨w, moved, builds⟩ := TokenStream.builds_of_expression_eq_ok outcome
      refine ⟨w, e, moved, builds, ?_⟩
      simp only [parse, read, first, outcome]
    | error error t =>
      rw [(Grammar.expression_verdict _).of_error outcome]
      simp only [parse, read, first, outcome]

theorem Derivation.fault?_eq_none {r : Rule} {d : Derivation r} {tree : r.Tree} (built : d.tree? = some tree) :
    ∀ token ∈ d.word, token.fault? = none := by
  induction d with
  | noTerms | noFactors => nofun
  | emptyCall | var => simp [word, Token.fault?]
  | number literal =>
    obtain ⟨decimal, read, _⟩ := Option.map_eq_some_iff.mp built
    simp [word, Token.fault?, numberOfLiteral, read]
  | plain operand ih => exact ih built
  | base b ih => exact ih built
  | group inner ih =>
    simpa [word, Token.fault?, or_imp, forall_and] using ih built
  | neg operand ih | call name operand ih | assign name operand ih | lastArgument operand ih =>
    obtain ⟨part, built, _⟩ := Option.map_eq_some_iff.mp built
    simpa [word, Token.fault?, or_imp, forall_and] using ih built
  | expression first rest ihFirst ihRest | moreTerms op _ first rest ihFirst ihRest
  | term first rest ihFirst ihRest | moreFactors op _ first rest ihFirst ihRest | raised first rest ihFirst ihRest
  | argument first rest ihFirst ihRest =>
    obtain ⟨left, builtFirst, built⟩ := Option.bind_eq_some_iff.mp built
    obtain ⟨right, builtRest, _⟩ := Option.bind_eq_some_iff.mp built
    simpa [word, Token.fault?, or_imp, forall_and] using ⟨ihFirst builtFirst, ihRest builtRest⟩

/-- A text with the tokens of a greedy derivation parses to its tree. -/
theorem Derivation.parse_eq {d : Derivation .expression} {e : Expr} (greedy : d.Greedy none) (built : d.tree? = some e)
    {text : String} (tokens : Lexeme.all text.toList = d.word.map .token) : Expr.parse text = .ok e := by
  have verdict := Expr.parse_verdict text
  obtain ⟨p, run, complete⟩ := Sentence.run ⟨d, rfl⟩
  rw [tokens, ← List.append_nil (d.word.map _), Place.scan_run run (fault?_eq_none built),
    Place.scan_nil complete] at verdict
  obtain ⟨w, e', pieces, builds, parsed⟩ := verdict
  rw [List.append_nil, List.append_nil] at pieces
  obtain rfl := Lexeme.map_token_inj pieces
  rw [parsed, builds.unique (d.builds greedy built)]

end Calculator
