import Calculator.Proofs.Dissection
import Calculator.Proofs.Simulation

/-! # Lookahead

How much of a text parsing it looks at. What stands behind the lexeme that is read last is never inspected: it can be
replaced by any other text that does not go on with that lexeme, and the tree or the error stays the same.
-/

namespace Calculator

open Piece TokenStream

/-- What was read last where an error is met: a stray character is met by reading it, and any other error is about
    tokens read before. -/
def ParseError.lastRead? (current : Option Token) : ParseError → Option Lexeme
  | .strayCharacter c => some (.stray c)
  | .unexpected _ | .invalidNumber _ => current.map .token

namespace Expr

/-- The lexeme that parsing a text reads last; none if the end of the text is read. -/
def lastRead? (text : List Char) : Option Lexeme :=
  match TokenStream.read text with
  | .error error _ => error.lastRead? none
  | .ok token rest =>
    match TokenStream.expression ⟨token, rest⟩ with
    | .ok _ after => after.current.map .token
    | .error error after => error.lastRead? after.current

/-- The text that parsing leaves unread. -/
def leftover (text : List Char) : List Char :=
  match read text with
  | .ok _ rest => rest
  | .error _ rest => rest

end Expr

namespace Piece

/-- Pieces that are read one after the other at the start of a text, up to the text behind them. -/
structure Taken (pieces : List Piece) (text rest : List Char) : Prop where
  joined : text = texts pieces ++ rest
  maximal : Maximal pieces rest

variable {p : Piece} {pieces : List Piece} {text rest : List Char}

theorem Taken.append {before after : List Piece} {middle : List Char} (h : Taken before text middle)
    (h' : Taken after middle rest) : Taken (before ++ after) text rest := by
  obtain ⟨rfl, maximal⟩ := h
  obtain ⟨rfl, maximal'⟩ := h'
  exact ⟨by rw [texts_append, List.append_assoc], maximal_append.mpr ⟨maximal, maximal'⟩⟩

theorem Maximal.of_head? {rest' : List Char} (h : Maximal pieces rest) (same : rest'.head? = rest.head?) :
    Maximal pieces rest' := by
  induction pieces with
  | nil => trivial
  | cons p pieces ih =>
    refine ⟨?_, ih h.2⟩
    rw [List.head?_append, same, ← List.head?_append]
    exact h.1

theorem Maximal.of_last {rest' : List Char} (h : Maximal (pieces ++ [p]) rest)
    (ends : ∀ c ∈ rest'.head?, p.lexeme.isExtendedBy c = false) : Maximal (pieces ++ [p]) rest' := by
  refine maximal_append.mpr ⟨(maximal_append.mp h).1.of_head? ?_, ends, trivial⟩
  have nonempty : texts [p] ≠ [] := by
    rw [texts_cons, Piece.text]
    simp [Lexeme.text_ne_nil p.proper]
  rw [List.head?_append_of_ne_nil _ nonempty, List.head?_append_of_ne_nil _ nonempty]

end Piece

namespace TokenStream

variable {pieces : List Piece} {text rest : List Char} {lexeme : Lexeme}

theorem next?_of_read (found : read text = answer lexeme rest) : Lexeme.next? text = some (lexeme, rest) := by
  unfold read at found
  split at found <;> cases lexeme <;> cases found
  · assumption
  · assumption

theorem exists_taken_of_read (found : read text = answer lexeme rest) :
    ∃ p : Piece, p.lexeme = lexeme ∧ Taken [p] text rest := by
  obtain ⟨gap, blank, rfl, proper, ends⟩ := Lexeme.next?_cuts (next?_of_read found)
  refine ⟨⟨gap, lexeme, blank, proper⟩, rfl, ?_, ends, trivial⟩
  simp [texts, Piece.text]

theorem read_of_taken_cons {p : Piece} {text' rest' : List Char} (taken : Taken (p :: pieces) text rest)
    (taken' : Taken (p :: pieces) text' rest') : ∃ lexeme middle middle', read text = answer lexeme middle ∧
      read text' = answer lexeme middle' ∧ Taken pieces middle rest ∧ Taken pieces middle' rest' := by
  obtain ⟨rfl, maximal⟩ := taken
  obtain ⟨rfl, maximal'⟩ := taken'
  exact ⟨p.lexeme, _, _, read_texts_cons maximal, read_texts_cons maximal', ⟨rfl, maximal.2⟩, ⟨rfl, maximal'.2⟩⟩

theorem read_unread_of_taken {p : Piece} (taken : Taken (pieces ++ [p]) text rest) :
    read (unread pieces.length text) = answer p.lexeme rest := by
  obtain ⟨rfl, maximal⟩ := taken
  obtain ⟨maximalBefore, maximalLast⟩ := maximal_append.mp maximal
  rw [texts_append, List.append_assoc, unread_texts maximalBefore, read_texts_cons maximalLast]
  rfl

/-- What was read last stands behind the place where a text begins, or the end was read there. -/
def Passed (start : List Char) (last : Option Lexeme) (rest : List Char) : Prop :=
  last = none ∨ rest.length < start.length

theorem passed_of_read {next : Option Token} (found : read text = .ok next rest) :
    Passed text (next.map .token) rest := by
  have bound := read_size_le found
  cases next with
  | none => exact .inl rfl
  | some token => exact .inr bound

theorem passed_of_read_eq_error {error : ParseError} (found : read text = .error error rest) (last : Option Lexeme) :
    Passed text last rest := by
  unfold read at found
  split at found <;> cases found
  rename_i found
  exact .inr (Lexeme.next?_length_lt found)

/-- Behind a place that was passed with a token ahead, whatever is passed next is behind the first place too. -/
theorem Passed.trans {start : List Char} {token : Token} {last : Option Lexeme}
    (h : Passed start (some (.token token)) text) (h' : Passed text last rest) : Passed start last rest :=
  h'.imp_right fun shorter => shorter.trans (h.resolve_left (by simp))

/-- The lexeme is the last one of those that lead to the rest of a text. -/
def Reached (text : List Char) (last : Option Lexeme) (rest : List Char) : Prop :=
  ∀ lexeme ∈ last, ∃ (pieces : List Piece) (p : Piece), p.lexeme = lexeme ∧ Taken (pieces ++ [p]) text rest

theorem reached_of_read (found : read text = answer lexeme rest) : Reached text (some lexeme) rest := by
  obtain ⟨p, same, taken⟩ := exists_taken_of_read found
  intro _ member
  obtain rfl := Option.some.inj member
  exact ⟨[], p, same, taken⟩

theorem Reached.read {middle : List Char} {token : Token} (h : Reached text (some (.token token)) middle)
    (found : TokenStream.read middle = answer lexeme rest) : Reached text (some lexeme) rest := by
  obtain ⟨pieces, p, -, taken⟩ := h _ rfl
  obtain ⟨q, same, taken'⟩ := exists_taken_of_read found
  intro _ member
  obtain rfl := Option.some.inj member
  exact ⟨pieces ++ [p], q, same, taken.append taken'⟩

/-- A stream that reads a text stays in it, and the token it shows is the last one it has read. -/
def reaching (text : List Char) : Simulation where
  Rel s twin := twin = none ∧ Reached text (s.current.map .token) s.rest
  Halt error s twin := twin = none ∧ Reached text (error.lastRead? s.current) s.rest
  moved := by
    rintro token middle rest next twin ⟨rfl, reached⟩ found
    refine ⟨none, ⟨rfl, ?_⟩, by simp⟩
    cases next with
    | none => simp [Reached]
    | some next => exact reached.read found
  stopped := by
    rintro token middle rest error twin ⟨rfl, reached⟩ found
    refine ⟨none, ⟨rfl, ?_⟩, by simp⟩
    obtain ⟨c, rfl, -⟩ := all_of_read_eq_error found
    exact reached.read found
  refused := by
    rintro s error twin ⟨rfl, reached⟩ notStray
    refine ⟨rfl, ?_⟩
    cases error with
    | strayCharacter c => exact absurd rfl (notStray c)
    | unexpected | invalidNumber => exact reached

/-- Two streams that have the same pieces ahead up to where two texts begin. The second one is lost as soon as the first
    one reads on there. -/
def cut (a b : List Char) : Simulation where
  Rel s twin := twin.elim (Passed a (s.current.map .token) s.rest)
    fun text => ∃ pieces, Taken pieces s.rest a ∧ Taken pieces text b
  Halt error s twin := twin.elim (Passed a (error.lastRead? s.current) s.rest) fun _ => True
  moved := by
    intro token middle rest next twin rel found
    cases twin with
    | none => exact ⟨none, rel.trans (passed_of_read found), by simp⟩
    | some text =>
      obtain ⟨pieces, taken, taken'⟩ := rel
      cases pieces with
      | nil =>
        obtain ⟨rfl, -⟩ := taken
        exact ⟨none, passed_of_read found, by simp⟩
      | cons p pieces =>
        obtain ⟨lexeme, _, rest', here, there, taken, taken'⟩ := read_of_taken_cons taken taken'
        cases lexeme with
        | stray c => cases here.symm.trans found
        | token t =>
          cases here.symm.trans found
          exact ⟨some rest', ⟨pieces, taken, taken'⟩, fun _ member => ⟨text, rfl, by cases member; exact there⟩⟩
  stopped := by
    intro token middle rest error twin rel found
    cases twin with
    | none => exact ⟨none, rel.trans (passed_of_read_eq_error found _), by simp⟩
    | some text =>
      obtain ⟨pieces, taken, taken'⟩ := rel
      cases pieces with
      | nil =>
        obtain ⟨rfl, -⟩ := taken
        exact ⟨none, passed_of_read_eq_error found _, by simp⟩
      | cons p pieces =>
        obtain ⟨lexeme, _, rest', here, there, -, -⟩ := read_of_taken_cons taken taken'
        cases lexeme with
        | token t => cases here.symm.trans found
        | stray c =>
          cases here.symm.trans found
          exact ⟨some rest', trivial, fun _ member => ⟨text, rfl, by cases member; exact there⟩⟩
  refused := by
    rintro s error twin rel notStray
    cases twin with
    | some text => trivial
    | none =>
      cases error with
      | strayCharacter c => exact absurd rfl (notStray c)
      | unexpected | invalidNumber => exact rel

end TokenStream

namespace Expr

variable {text : List Char} {lexeme : Lexeme}

/-- What is read last stands right in front of what is left unread. -/
theorem reached_lastRead? (text : List Char) : Reached text (lastRead? text) (leftover text) := by
  cases first : TokenStream.read text with
  | error error rest =>
    obtain ⟨c, rfl, -⟩ := all_of_read_eq_error first
    simp only [lastRead?, leftover, read, first]
    exact reached_of_read first
  | ok token rest =>
    have started : (reaching text).Rel ⟨token, rest⟩ none := by
      refine ⟨rfl, ?_⟩
      cases token with
      | none => simp [Reached]
      | some token => exact reached_of_read first
    have follows := Grammar.expression_follows _ _ started
    cases outcome : TokenStream.expression ⟨token, rest⟩ with
    | ok e t =>
      obtain ⟨_, ⟨-, reached⟩, -⟩ := follows.of_ok outcome
      simpa only [lastRead?, leftover, read, first, outcome] using reached
    | error error t =>
      obtain ⟨_, ⟨-, reached⟩, -⟩ := follows.of_error outcome
      simpa only [lastRead?, leftover, read, first, outcome] using reached

theorem not_passed_leftover (last : lastRead? text = some lexeme) :
    ¬ Passed (leftover text) (lastRead? text) (leftover text) := by
  rintro (ended | shorter)
  · cases ended.symm.trans last
  · exact absurd shorter (Nat.lt_irrefl _)

/-- A text with the same pieces, up to those left unread, has the same tree or the same error. -/
theorem parse_of_taken {pieces : List Piece} (nonempty : pieces ≠ []) {text' rest' : List Char}
    (last : lastRead? text = some lexeme) (taken : Taken pieces text (leftover text))
    (taken' : Taken pieces text' rest') : parse (String.ofList text') = parse (String.ofList text) := by
  obtain ⟨p, pieces, rfl⟩ := List.exists_cons_of_ne_nil nonempty
  obtain ⟨first, middle, middle', here, there, ahead, ahead'⟩ := read_of_taken_cons taken taken'
  rw [parse, parse, String.toList_ofList, String.toList_ofList]
  cases first with
  | stray c => simp only [read, here, there, answer]
  | token token =>
    have started : (cut (leftover text) rest').Rel ⟨some token, middle⟩ (some middle') := ⟨pieces, ahead, ahead'⟩
    have follows := Grammar.expression_follows _ _ started
    have notPassed := not_passed_leftover last
    cases outcome : TokenStream.expression ⟨some token, middle⟩ with
    | ok e t =>
      obtain ⟨twin, rel, along⟩ := follows.of_ok outcome
      cases twin with
      | none =>
        simp only [lastRead?, leftover, read, here, answer, outcome] at rel notPassed
        exact absurd rel notPassed
      | some after =>
        obtain ⟨_, member, same⟩ := along after rfl
        cases member
        have same : TokenStream.expression ⟨some token, middle'⟩ = .ok e ⟨t.current, after⟩ := same
        simp only [read, here, there, answer, outcome, same]
    | error error t =>
      obtain ⟨twin, halt, along⟩ := follows.of_error outcome
      cases twin with
      | none =>
        simp only [lastRead?, leftover, read, here, answer, outcome] at halt notPassed
        exact absurd halt notPassed
      | some after =>
        obtain ⟨_, member, same⟩ := along after rfl
        cases member
        have same : TokenStream.expression ⟨some token, middle'⟩ = .error error ⟨t.current, after⟩ := same
        simp only [read, here, there, answer, outcome, same]

/-- The text that parsing has taken settles its result, unless the end of the text was looked at. It ends with the
    lexeme read last, and behind it there may be any other text that does not go on with that lexeme. -/
theorem parse_taken_append {text : String} (last : lastRead? text.toList = some lexeme) :
    ∃ taken : String, text = taken ++ String.ofList (leftover text.toList) ∧
      (∃ n, TokenStream.read (unread n text.toList) = answer lexeme (leftover text.toList)) ∧
      ∀ more : String, (∀ c ∈ more.toList.head?, lexeme.isExtendedBy c = false) →
        parse (taken ++ more) = parse text := by
  obtain ⟨pieces, p, rfl, taken⟩ := reached_lastRead? text.toList _ last
  refine ⟨String.ofList (Piece.texts (pieces ++ [p])), ?_, ⟨pieces.length, ?_⟩, fun more ends => ?_⟩
  · rw [← String.toList_inj, String.toList_append, String.toList_ofList, String.toList_ofList]
    exact taken.joined
  · exact read_unread_of_taken taken
  · have taken' : Taken (pieces ++ [p]) (Piece.texts (pieces ++ [p]) ++ more.toList) more.toList :=
      ⟨rfl, taken.maximal.of_last ends⟩
    have same := parse_of_taken (by simp) last taken taken'
    rwa [String.ofList_append, String.ofList_toList, String.ofList_toList] at same

theorem parse_taken_operand : lastRead? "1 2 $".toList = some (.token (.number "2")) ∧
    ∃ taken : String, "1 2 $" = taken ++ " $" ∧ parse (taken ++ "_)") = parse "1 2 $" := by
  obtain ⟨x, value⟩ : ∃ x, numberOfLiteral "1" = .ok x := ⟨_, rfl⟩
  have primary : (Grammar.primary ⟨some (.number "1"), " 2 $".toList⟩).result =
      .ok (.number x) ⟨some (.number "2"), " $".toList⟩ := by
    rw [Grammar.primary]
    refine Parsed.result_shift_of_ok rfl fun _ => ?_
    rw [value]
    rfl
  have unary : (Grammar.unary ⟨some (.number "1"), " 2 $".toList⟩).result =
      .ok (.number x) ⟨some (.number "2"), " $".toList⟩ := by
    rw [Grammar.unary]
    dsimp only
    rw [Grammar.power]
    exact Parsed.result_andThen_of_ok primary fun _ => rfl
  have term : (Grammar.term ⟨some (.number "1"), " 2 $".toList⟩).result =
      .ok (.number x) ⟨some (.number "2"), " $".toList⟩ := by
    rw [Grammar.term]
    exact Parsed.result_andThen_of_ok unary fun _ => by rw [Grammar.moreFactors]; rfl
  have outcome : TokenStream.expression ⟨some (.number "1"), " 2 $".toList⟩ =
      .ok (.number x) ⟨some (.number "2"), " $".toList⟩ := by
    rw [TokenStream.expression, Grammar.expression]
    exact Parsed.result_andThen_of_ok term fun _ => by rw [Grammar.moreTerms]; rfl
  have first : TokenStream.read "1 2 $".toList = .ok (some (.number "1")) " 2 $".toList := rfl
  have last : lastRead? "1 2 $".toList = some (.token (.number "2")) := by
    simp only [lastRead?, first, outcome]
    rfl
  have left : leftover "1 2 $".toList = " $".toList := by simp only [leftover, read, first, outcome]
  obtain ⟨taken, joined, -, same⟩ := parse_taken_append last
  rw [left] at joined
  exact ⟨last, taken, joined, same "_)" (by rintro c ⟨⟩; rfl)⟩

end Expr

end Calculator
