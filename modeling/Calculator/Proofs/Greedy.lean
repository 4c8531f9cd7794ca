import Calculator.Proofs.Derivation

/-! # Greedy derivations

A derivation is maximal before a token if it takes all that it can: its assignments are greedy, and the token does
not continue the rule. Maximality passes to the parts of a derivation, each before the token that follows it there.
So a text starts with the word of at most one maximal derivation.
-/

namespace Calculator

namespace Rule

/-- Operators that a rule takes behind an operand. -/
def takes : Rule → BinaryOp → Bool
  | .term, op | .moreFactors, op => !op.isAdditive
  | .unary, op | .power, op => op = .pow
  | .primary, _ => false
  | _, _ => true

/-- Tokens that carry a word of a rule on, so that the word does not end in front of them. -/
def continuedBy (r : Rule) : Option Token → Bool
  | some (.symbol .comma) => r = .arguments
  | some (.symbol s) => s.operator?.any r.takes
  | _ => false

/-- Tokens that may stand behind an operand. -/
def follows : Option Token → Bool
  | none | some (.symbol .rightParen) | some (.symbol .comma) => true
  | some (.symbol s) => s.operator?.isSome
  | _ => false

end Rule

@[simp]
theorem BinaryOp.operator?_symbol (op : BinaryOp) : op.symbol.operator? = some op := by
  cases op <;> rfl

theorem BinaryOp.symbol_injective {op op' : BinaryOp} (same : op.symbol = op'.symbol) : op = op' := by
  have operators := congrArg Symbol.operator? same
  simpa using operators

@[simp]
theorem Rule.follows_operator (op : BinaryOp) : Rule.follows (some (.symbol op.symbol)) = true := by
  cases op <;> rfl

@[simp]
theorem Rule.continuedBy_operator (r : Rule) (op : BinaryOp) :
    r.continuedBy (some (.symbol op.symbol)) = r.takes op := by
  cases op <;> rfl

/-- Apart from the arguments of a call, a rule is continued by the operators it takes and by nothing else. -/
theorem Rule.continuedBy_eq_false_iff {r : Rule} (inner : r ≠ .arguments) {next : Option Token} :
    r.continuedBy next = false ↔ ∀ op, next = some (.symbol op.symbol) → r.takes op = false := by
  constructor
  · rintro ends op rfl
    rwa [continuedBy_operator] at ends
  · intro none
    rcases next with _ | _ | _ | s
    · rfl
    · rfl
    · rfl
    · cases s with
      | plus => exact none .add rfl
      | minus => exact none .sub rfl
      | star => exact none .mul rfl
      | slash => exact none .div rfl
      | caret => exact none .pow rfl
      | comma => exact decide_eq_false inner
      | leftParen | rightParen | equals => rfl

theorem Rule.continuedBy_primary (next : Option Token) : Rule.primary.continuedBy next = false :=
  (continuedBy_eq_false_iff (by decide)).mpr fun _ _ => rfl

theorem Rule.continuedBy_of_takes {r r' : Rule} {next : Option Token} (inner : r ≠ .arguments)
    (fewer : ∀ op, r.takes op = true → r'.takes op = true) (ends : r'.continuedBy next = false) :
    r.continuedBy next = false := by
  rw [continuedBy_eq_false_iff inner]
  rintro op rfl
  rw [continuedBy_operator] at ends
  exact Bool.eq_false_iff.mpr fun taken => Bool.eq_false_iff.mp ends (fewer op taken)

/-- The rules that repeat an operator and an operand. -/
def Rule.IsChain (r : Rule) : Prop := r = .moreTerms ∨ r = .moreFactors

def Rule.operand : Rule → Rule
  | .moreTerms => .term
  | _ => .unary

/-- The operators of a chain. -/
def Rule.chains : Rule → BinaryOp → Bool
  | .moreTerms, op => op.isAdditive
  | .moreFactors, op => op.isMultiplicative
  | _, _ => false

namespace Rule.IsChain

variable {r : Rule} {op : BinaryOp}

theorem operand_ne (chain : r.IsChain) : r.operand ≠ .arguments := by
  rcases chain with rfl | rfl <;> decide

theorem takes_of_operand (chain : r.IsChain) (taken : r.operand.takes op = true) : r.takes op = true := by
  rcases chain with rfl | rfl
  · rfl
  · cases op <;> first | rfl | cases taken

theorem takes (chain : r.IsChain) (own : r.chains op = true) : r.takes op = true := by
  rcases chain with rfl | rfl
  · rfl
  · cases op <;> first | rfl | cases own

theorem not_takes_operand (chain : r.IsChain) (own : r.chains op = true) : r.operand.takes op = false := by
  rcases chain with rfl | rfl <;> cases op <;> first | rfl | cases own

end Rule.IsChain

namespace Derivation

variable {r : Rule}

/-- Where `next` stands behind the word, the derivation takes all that it can. -/
structure Maximal (d : Derivation r) (next : Option Token) : Prop where
  greedy : d.Greedy next
  ends : r.continuedBy next = false

/-- A chain is empty or starts with one of its operators. -/
theorem word_of_isChain (chain : r.IsChain) (rest : Derivation r) :
    rest.word = [] ∨ ∃ op tail, r.chains op = true ∧ rest.word = .symbol op.symbol :: tail := by
  rcases chain with rfl | rfl
  · cases rest with
    | noTerms => exact .inl rfl
    | moreTerms op additive => exact .inr ⟨op, _, additive, rfl⟩
  · cases rest with
    | noFactors => exact .inl rfl
    | moreFactors op multiplicative => exact .inr ⟨op, _, multiplicative, rfl⟩

theorem operand_ends (chain : r.IsChain) (rest : Derivation r) {next : Option Token}
    (ends : r.continuedBy next = false) : r.operand.continuedBy (rest.word.head?.or next) = false := by
  rcases word_of_isChain chain rest with empty | ⟨op, tail, own, word⟩
  · rw [empty]
    exact Rule.continuedBy_of_takes chain.operand_ne (fun _ => chain.takes_of_operand) ends
  · rw [word]
    exact (Rule.continuedBy_operator _ op).trans (chain.not_takes_operand own)

theorem follows_chain (chain : r.IsChain) (rest : Derivation r) {l : List Token}
    (follow : Rule.follows l.head? = true) : Rule.follows (rest.word ++ l).head? = true := by
  rcases word_of_isChain chain rest with empty | ⟨op, tail, _, word⟩
  · rwa [empty]
  · rw [word]
    exact Rule.follows_operator op

theorem chain_ends (chain : r.IsChain) {d : Derivation r} {op : BinaryOp} (own : r.chains op = true)
    {l l' : List Token} (max : d.Maximal l.head?) : l ≠ .symbol op.symbol :: l' := by
  rintro rfl
  have ends := max.ends
  rw [List.head?_cons, Rule.continuedBy_operator, chain.takes own] at ends
  cases ends

/-- An operand in front of a chain is maximal before the chain, and the chain before what follows it. -/
theorem maximal_chain (chain : r.IsChain) {q : Rule} {d : Derivation q} {first : Derivation r.operand}
    {rest : Derivation r} {next : Option Token} (same : q.continuedBy next = r.continuedBy next)
    (greedy : d.Greedy next ↔ first.Greedy (rest.word.head?.or next) ∧ rest.Greedy next) :
    d.Maximal next ↔ first.Maximal (rest.word.head?.or next) ∧ rest.Maximal next := by
  constructor
  · intro max
    have ends : r.continuedBy next = false := same ▸ max.ends
    obtain ⟨left, right⟩ := greedy.mp max.greedy
    exact ⟨⟨left, operand_ends chain rest ends⟩, right, ends⟩
  · intro ⟨left, right⟩
    exact ⟨greedy.mpr ⟨left.greedy, right.greedy⟩, same.trans right.ends⟩

theorem maximal_expression {first : Derivation .term} {rest : Derivation .moreTerms} {next : Option Token} :
    (expression first rest).Maximal next ↔ first.Maximal (rest.word.head?.or next) ∧ rest.Maximal next :=
  maximal_chain (.inl rfl) rfl .rfl

theorem maximal_moreTerms {op : BinaryOp} {additive : op.isAdditive} {right : Derivation .term}
    {rest : Derivation .moreTerms} {next : Option Token} :
    (moreTerms op additive right rest).Maximal next ↔
      right.Maximal (rest.word.head?.or next) ∧ rest.Maximal next :=
  maximal_chain (.inl rfl) rfl .rfl

theorem maximal_term {first : Derivation .unary} {rest : Derivation .moreFactors} {next : Option Token} :
    (term first rest).Maximal next ↔ first.Maximal (rest.word.head?.or next) ∧ rest.Maximal next :=
  maximal_chain (.inr rfl) rfl .rfl

theorem maximal_moreFactors {op : BinaryOp} {multiplicative : op.isMultiplicative} {right : Derivation .unary}
    {rest : Derivation .moreFactors} {next : Option Token} :
    (moreFactors op multiplicative right rest).Maximal next ↔
      right.Maximal (rest.word.head?.or next) ∧ rest.Maximal next :=
  maximal_chain (.inr rfl) rfl .rfl

theorem maximal_neg {operand : Derivation .unary} {next : Option Token} :
    (neg operand).Maximal next ↔ operand.Maximal next :=
  ⟨fun h => ⟨h.greedy, h.ends⟩, fun h => ⟨h.greedy, h.ends⟩⟩

theorem maximal_plain {operand : Derivation .power} {next : Option Token} :
    (plain operand).Maximal next ↔ operand.Maximal next :=
  ⟨fun h => ⟨h.greedy, h.ends⟩, fun h => ⟨h.greedy, h.ends⟩⟩

theorem maximal_base {b : Derivation .primary} {next : Option Token} :
    (base b).Maximal next ↔ b.Maximal next ∧ Rule.power.continuedBy next = false :=
  ⟨fun h => ⟨⟨h.greedy, Rule.continuedBy_of_takes (by decide) (fun _ h => nomatch h) h.ends⟩, h.ends⟩,
    fun h => ⟨h.1.greedy, h.2⟩⟩

theorem maximal_raised {b : Derivation .primary} {exponent : Derivation .unary} {next : Option Token} :
    (raised b exponent).Maximal next ↔ b.Maximal (some (.symbol .caret)) ∧ exponent.Maximal next :=
  ⟨fun h => ⟨⟨h.greedy.1, rfl⟩, h.greedy.2, h.ends⟩, fun h => ⟨⟨h.1.greedy, h.2.greedy⟩, h.2.ends⟩⟩

theorem maximal_call {name : String} {arguments : Derivation .arguments} {next : Option Token} :
    (call name arguments).Maximal next ↔ arguments.Maximal (some (.symbol .rightParen)) :=
  ⟨fun h => ⟨h.greedy, rfl⟩, fun h => ⟨h.greedy, Rule.continuedBy_primary next⟩⟩

theorem maximal_group {inner : Derivation .expression} {next : Option Token} :
    (group inner).Maximal next ↔ inner.Maximal (some (.symbol .rightParen)) :=
  ⟨fun h => ⟨h.greedy, rfl⟩, fun h => ⟨h.greedy, Rule.continuedBy_primary next⟩⟩

theorem maximal_assign {name : String} {value : Derivation .expression} {next : Option Token} :
    (assign name value).Maximal next ↔ value.Maximal next := by
  have ends_iff : Rule.expression.continuedBy next = false ↔ next.any Token.isOperator = false := by
    rcases next with _ | _ | _ | s
    · decide
    · simp [Rule.continuedBy, Token.isOperator]
    · simp [Rule.continuedBy, Token.isOperator]
    · cases s <;> decide
  exact ⟨fun h => ⟨h.greedy.1, ends_iff.mpr h.greedy.2⟩,
    fun h => ⟨⟨h.greedy, ends_iff.mp h.ends⟩, Rule.continuedBy_primary next⟩⟩

theorem maximal_lastArgument {e : Derivation .expression} {next : Option Token} :
    (lastArgument e).Maximal next ↔ e.Maximal next ∧ Rule.arguments.continuedBy next = false := by
  refine ⟨fun h => ⟨⟨h.greedy, ?_⟩, h.ends⟩, fun h => ⟨h.1.greedy, h.2⟩⟩
  exact Rule.continuedBy_of_takes (by decide) (fun _ _ => rfl) h.ends

theorem maximal_argument {e : Derivation .expression} {rest : Derivation .arguments} {next : Option Token} :
    (argument e rest).Maximal next ↔ e.Maximal (some (.symbol .comma)) ∧ rest.Maximal next :=
  ⟨fun h => ⟨⟨h.greedy.1, rfl⟩, h.greedy.2, h.ends⟩, fun h => ⟨⟨h.1.greedy, h.2.greedy⟩, h.2.ends⟩⟩

theorem base_ends {b : Derivation .primary} {l l' : List Token} (max : (base b).Maximal l.head?) :
    l ≠ .symbol .caret :: l' := by
  rintro rfl
  exact absurd max.ends.symm Bool.false_ne_true

theorem lastArgument_ends {e : Derivation .expression} {l l' : List Token} (max : (lastArgument e).Maximal l.head?) :
    l ≠ .symbol .comma :: l' := by
  rintro rfl
  exact absurd max.ends.symm Bool.false_ne_true

theorem neg_append_ne (operand : Derivation .unary) (power : Derivation .power) (l l' : List Token) :
    (neg operand).word ++ l ≠ (plain power).word ++ l' := by
  intro same
  have started := power.startedBy_append rfl l'
  rw [show power.word ++ l' = _ from same.symm] at started
  exact absurd started Bool.false_ne_true

theorem emptyCall_append_ne (name name' : String) (arguments : Derivation .arguments) (l l' : List Token) :
    (emptyCall name).word ++ l ≠ (call name' arguments).word ++ l' := by
  intro same
  simp only [word, List.cons_append, List.append_assoc, List.cons.injEq] at same
  have started := arguments.startedBy_append rfl (.symbol .rightParen :: l')
  rw [show arguments.word ++ .symbol .rightParen :: l' = _ from same.2.2.symm] at started
  exact absurd started Bool.false_ne_true

/-- A name in front of what may stand behind an operand is neither called nor assigned. -/
theorem var_unique {name : String} {d : Derivation .primary} {l l' : List Token}
    (same : (var name).word ++ l = d.word ++ l') (follow : Rule.follows l.head? = true) : d = var name ∧ l = l' := by
  cases d with
  | var name' =>
    simp only [word, List.cons_append, List.nil_append, List.cons.injEq, Token.identifier.injEq] at same
    obtain ⟨rfl, rfl⟩ := same
    exact ⟨rfl, rfl⟩
  | number | group => simp [word] at same
  | emptyCall | call | assign =>
    rw [show l = _ from (List.cons.inj same).2] at follow
    exact absurd follow Bool.false_ne_true

/-- At the start of a text, no other derivation from the rule takes all that it can. -/
def Determined (d : Derivation r) : Prop :=
  ∀ ⦃d' : Derivation r⦄ ⦃l l' : List Token⦄, d.word ++ l = d'.word ++ l' → d.Maximal l.head? → d'.Maximal l'.head? →
    Rule.follows l.head? = true → Rule.follows l'.head? = true → d = d' ∧ l = l'

theorem Determined.chain (chain : r.IsChain) {first first' : Derivation r.operand} {rest rest' : Derivation r}
    {l l' : List Token} (determined : first.Determined) (restDetermined : rest.Determined)
    (same : first.word ++ (rest.word ++ l) = first'.word ++ (rest'.word ++ l'))
    (max : first.Maximal (rest.word.head?.or l.head?) ∧ rest.Maximal l.head?)
    (max' : first'.Maximal (rest'.word.head?.or l'.head?) ∧ rest'.Maximal l'.head?)
    (follow : Rule.follows l.head? = true) (follow' : Rule.follows l'.head? = true) :
    first = first' ∧ rest = rest' ∧ l = l' := by
  rw [← List.head?_append] at max max'
  obtain ⟨rfl, tail⟩ := determined same max.1 max'.1 (follows_chain chain rest follow)
    (follows_chain chain rest' follow')
  obtain ⟨rfl, rfl⟩ := restDetermined tail max.2 max'.2 follow follow'
  exact ⟨rfl, rfl, rfl⟩

/-- A text starts with the word of at most one derivation that takes all that it can. -/
theorem Maximal.unique {d d' : Derivation r} {l l' : List Token} (same : d.word ++ l = d'.word ++ l')
    (max : d.Maximal l.head?) (max' : d'.Maximal l'.head?) (follow : Rule.follows l.head? = true)
    (follow' : Rule.follows l'.head? = true) : d = d' ∧ l = l' := by
  -- what follows a part differs from part to part, so the texts behind the two words vary in the induction
  induction d generalizing l l' with
  | expression first rest ihFirst ihRest =>
    cases d' with | expression first' rest' =>
    simp only [word, List.append_assoc] at same
    obtain ⟨rfl, rfl, rfl⟩ := Determined.chain (.inl rfl) @ihFirst @ihRest same (maximal_expression.mp max)
      (maximal_expression.mp max') follow follow'
    exact ⟨rfl, rfl⟩
  | noTerms =>
    cases d' with
    | noTerms => exact ⟨rfl, same⟩
    | moreTerms op additive => exact absurd same (chain_ends (.inl rfl) additive max)
  | moreTerms op additive right rest ihRight ihRest =>
    cases d' with
    | noTerms => exact absurd same.symm (chain_ends (.inl rfl) additive max')
    | moreTerms op' additive' right' rest' =>
      simp only [word, List.cons_append, List.append_assoc, List.cons.injEq, Token.symbol.injEq] at same
      obtain ⟨symbols, tail⟩ := same
      obtain rfl := BinaryOp.symbol_injective symbols
      obtain ⟨rfl, rfl, rfl⟩ := Determined.chain (.inl rfl) @ihRight @ihRest tail (maximal_moreTerms.mp max)
        (maximal_moreTerms.mp max') follow follow'
      exact ⟨rfl, rfl⟩
  | term first rest ihFirst ihRest =>
    cases d' with | term first' rest' =>
    simp only [word, List.append_assoc] at same
    obtain ⟨rfl, rfl, rfl⟩ := Determined.chain (.inr rfl) @ihFirst @ihRest same (maximal_term.mp max)
      (maximal_term.mp max') follow follow'
    exact ⟨rfl, rfl⟩
  | noFactors =>
    cases d' with
    | noFactors => exact ⟨rfl, same⟩
    | moreFactors op multiplicative => exact absurd same (chain_ends (.inr rfl) multiplicative max)
  | moreFactors op multiplicative right rest ihRight ihRest =>
    cases d' with
    | noFactors => exact absurd same.symm (chain_ends (.inr rfl) multiplicative max')
    | moreFactors op' multiplicative' right' rest' =>
      simp only [word, List.cons_append, List.append_assoc, List.cons.injEq, Token.symbol.injEq] at same
      obtain ⟨symbols, tail⟩ := same
      obtain rfl := BinaryOp.symbol_injective symbols
      obtain ⟨rfl, rfl, rfl⟩ := Determined.chain (.inr rfl) @ihRight @ihRest tail (maximal_moreFactors.mp max)
        (maximal_moreFactors.mp max') follow follow'
      exact ⟨rfl, rfl⟩
  | neg operand ih =>
    cases d' with
    | neg operand' =>
      rw [maximal_neg] at max max'
      obtain ⟨rfl, rfl⟩ := ih (List.cons.inj same).2 max max' follow follow'
      exact ⟨rfl, rfl⟩
    | plain power => exact absurd same (neg_append_ne operand power l l')
  | plain power ih =>
    cases d' with
    | neg operand => exact absurd same.symm (neg_append_ne operand power l' l)
    | plain power' =>
      rw [maximal_plain] at max max'
      obtain ⟨rfl, rfl⟩ := ih same max max' follow follow'
      exact ⟨rfl, rfl⟩
  | base b ih =>
    cases d' with
    | base b' =>
      obtain ⟨rfl, rfl⟩ := ih same (maximal_base.mp max).1 (maximal_base.mp max').1 follow follow'
      exact ⟨rfl, rfl⟩
    | raised b' exponent' =>
      simp only [word, List.append_assoc, List.cons_append] at same
      obtain ⟨-, tail⟩ := ih same (maximal_base.mp max).1 (maximal_raised.mp max').1 follow rfl
      exact absurd tail (base_ends max)
  | raised b exponent ihBase ihExponent =>
    cases d' with
    | base b' =>
      simp only [word, List.append_assoc, List.cons_append] at same
      obtain ⟨-, tail⟩ := ihBase same (maximal_raised.mp max).1 (maximal_base.mp max').1 rfl follow'
      exact absurd tail.symm (base_ends max')
    | raised b' exponent' =>
      simp only [word, List.append_assoc, List.cons_append] at same
      rw [maximal_raised] at max max'
      obtain ⟨rfl, tail⟩ := ihBase same max.1 max'.1 rfl rfl
      obtain ⟨rfl, rfl⟩ := ihExponent (List.cons.inj tail).2 max.2 max'.2 follow follow'
      exact ⟨rfl, rfl⟩
  | number literal =>
    cases d' with
    | number literal' =>
      simp only [word, List.cons_append, List.nil_append, List.cons.injEq, Token.number.injEq] at same
      obtain ⟨rfl, rfl⟩ := same
      exact ⟨rfl, rfl⟩
    | _ => simp [word] at same
  | var name =>
    obtain ⟨rfl, rfl⟩ := var_unique same follow
    exact ⟨rfl, rfl⟩
  | emptyCall name =>
    cases d' with
    | emptyCall name' =>
      simp only [word, List.cons_append, List.nil_append, List.cons.injEq, Token.identifier.injEq] at same
      obtain ⟨rfl, -, -, rfl⟩ := same
      exact ⟨rfl, rfl⟩
    | call name' arguments => exact absurd same (emptyCall_append_ne name name' arguments l l')
    | var => exact absurd (var_unique same.symm follow').1 (by simp)
    | _ => simp [word] at same
  | call name arguments ih =>
    cases d' with
    | emptyCall name' => exact absurd same.symm (emptyCall_append_ne name' name arguments l' l)
    | call name' arguments' =>
      simp only [word, List.cons_append, List.append_assoc, List.cons.injEq, Token.identifier.injEq] at same
      obtain ⟨rfl, -, tail⟩ := same
      obtain ⟨rfl, further⟩ := ih tail (maximal_call.mp max) (maximal_call.mp max') rfl rfl
      exact ⟨rfl, (List.cons.inj further).2⟩
    | var => exact absurd (var_unique same.symm follow').1 (by simp)
    | _ => simp [word] at same
  | assign name value ih =>
    cases d' with
    | assign name' value' =>
      simp only [word, List.cons_append, List.cons.injEq, Token.identifier.injEq] at same
      obtain ⟨rfl, -, tail⟩ := same
      obtain ⟨rfl, rfl⟩ := ih tail (maximal_assign.mp max) (maximal_assign.mp max') follow follow'
      exact ⟨rfl, rfl⟩
    | var => exact absurd (var_unique same.symm follow').1 (by simp)
    | _ => simp [word] at same
  | group inner ih =>
    cases d' with
    | group inner' =>
      simp only [word, List.cons_append, List.append_assoc, List.cons.injEq, true_and] at same
      obtain ⟨rfl, tail⟩ := ih same (maximal_group.mp max) (maximal_group.mp max') rfl rfl
      exact ⟨rfl, (List.cons.inj tail).2⟩
    | _ => simp [word] at same
  | lastArgument e ih =>
    cases d' with
    | lastArgument e' =>
      obtain ⟨rfl, rfl⟩ := ih same (maximal_lastArgument.mp max).1 (maximal_lastArgument.mp max').1 follow
        follow'
      exact ⟨rfl, rfl⟩
    | argument e' rest' =>
      simp only [word, List.append_assoc, List.cons_append] at same
      obtain ⟨-, tail⟩ := ih same (maximal_lastArgument.mp max).1 (maximal_argument.mp max').1 follow rfl
      exact absurd tail (lastArgument_ends max)
  | argument e rest ih ihRest =>
    cases d' with
    | lastArgument e' =>
      simp only [word, List.append_assoc, List.cons_append] at same
      obtain ⟨-, tail⟩ := ih same (maximal_argument.mp max).1 (maximal_lastArgument.mp max').1 rfl follow'
      exact absurd tail.symm (lastArgument_ends max')
    | argument e' rest' =>
      simp only [word, List.append_assoc, List.cons_append] at same
      rw [maximal_argument] at max max'
      obtain ⟨rfl, tail⟩ := ih same max.1 max'.1 rfl rfl
      obtain ⟨rfl, rfl⟩ := ihRest (List.cons.inj tail).2 max.2 max'.2 follow follow'
      exact ⟨rfl, rfl⟩

/-- A word has at most one greedy derivation. -/
theorem Greedy.unique {d d' : Derivation .expression} (same : d.word = d'.word) (greedy : d.Greedy none)
    (greedy' : d'.Greedy none) : d = d' := by
  have texts : d.word ++ [] = d'.word ++ [] := by rw [same]
  exact (Maximal.unique texts ⟨greedy, rfl⟩ ⟨greedy', rfl⟩ rfl rfl).1

theorem Greedy.atEnd {d : Derivation r} {next : Option Token} (greedy : d.Greedy next) : d.Greedy none := by
  induction d generalizing next with
  | noTerms | noFactors | number | emptyCall | var => trivial
  | call name arguments _ => exact greedy
  | group inner _ => exact greedy
  | neg operand ih => exact ih greedy
  | plain operand ih => exact ih greedy
  | base b ih => exact ih greedy
  | lastArgument e ih => exact ih greedy
  | raised b exponent _ ih => exact ⟨greedy.1, ih greedy.2⟩
  | argument e rest _ ih => exact ⟨greedy.1, ih greedy.2⟩
  | assign name value ih => exact ⟨ih greedy.1, rfl⟩
  | expression first rest ihFirst ihRest | moreTerms op _ first rest ihFirst ihRest
  | term first rest ihFirst ihRest | moreFactors op _ first rest ihFirst ihRest =>
    refine ⟨?_, ihRest greedy.2⟩
    have inside := greedy.1
    cases h : rest.word.head? with
    | none =>
      rw [h] at inside
      exact ihFirst inside
    | some token =>
      rw [h] at inside
      exact inside

end Derivation

end Calculator
