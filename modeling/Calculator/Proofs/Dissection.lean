import Calculator.Proofs.Separation

/-! # Dissection

Every text is taken apart into pieces with blanks between them, and nothing of it is lost. A piece is a token in the
spelling of its kind, as long as it can be, or a single character that no token starts with. Reading a text again and
again delivers these pieces, one for each read, and then the end.
-/

namespace Calculator

/-- Whether some token starts with the character. -/
def StartsToken (c : Char) : Prop := ∃ token : Token, token.isSpelled = true ∧ token.text.toList.head? = some c

namespace Lexeme

/-- The lexeme as it stands in the source. -/
def text : Lexeme → List Char
  | token t => t.text.toList
  | stray c => [c]

/-- Whether a character behind a lexeme is read as part of it. -/
def isExtendedBy : Lexeme → Char → Bool
  | token t, c => t.isExtendedBy c
  | stray _, _ => false

/-- A lexeme that stands for itself: a token in the spelling of its kind, or a character that has no other meaning. -/
def IsProper : Lexeme → Prop
  | token t => t.isSpelled = true
  | stray c => isBlank c = false ∧ ¬ StartsToken c

variable {c : Char} {text rest : List Char} {lexeme : Lexeme}

theorem char_of_ofChar? {s : Symbol} (symbol : Symbol.ofChar? c = some s) : s.char = c := by
  unfold Symbol.ofChar? at symbol
  split at symbol <;> cases symbol <;> rfl

theorem not_startsToken (notNumeric : isNumeric c = false) (notLetter : c.isAlpha = false)
    (noSymbol : Symbol.ofChar? c = none) : ¬ StartsToken c := by
  rintro ⟨token, spelled, head⟩
  cases token with
  | symbol s =>
    rw [Token.text, Char.toString, String.toList_singleton] at head
    obtain rfl : s.char = c := Option.some.inj head
    cases s <;> cases noSymbol
  | number literal =>
    obtain ⟨rest, chars⟩ := List.head?_eq_some_iff.mp head
    have chars : literal.toList = c :: rest := chars
    simp [Token.isSpelled, chars, notNumeric] at spelled
  | identifier name =>
    obtain ⟨rest, chars⟩ := List.head?_eq_some_iff.mp head
    have chars : name.toList = c :: rest := chars
    simp [Token.isSpelled, isName, chars, notLetter] at spelled

theorem not_of_head?_dropWhile (kind : Char → Bool) (text : List Char) :
    ∀ d ∈ (text.dropWhile kind).head?, kind d = false := by
  intro d head
  have outside := List.head?_dropWhile_not kind text
  rwa [Option.mem_def.mp head] at outside

/-- What is read at a character that is no blank: the text is cut behind a proper lexeme that does not go on. -/
theorem startingWith_cuts (notBlank : isBlank c = false) (found : startingWith c text = (lexeme, rest)) :
    c :: text = lexeme.text ++ rest ∧ lexeme.IsProper ∧ ∀ d ∈ rest.head?, lexeme.isExtendedBy d = false := by
  have proper {t : Token} (same : lexeme = .token t) : lexeme.IsProper := by
    subst same
    exact isSpelled_of_startingWith found
  unfold startingWith at found
  split at found
  · cases found
    exact ⟨by simp [Lexeme.text, Token.text], proper rfl, not_of_head?_dropWhile isNumeric text⟩
  · rename_i notNumeric
    split at found
    · cases found
      exact ⟨by simp [Lexeme.text, Token.text], proper rfl, not_of_head?_dropWhile isNameChar text⟩
    · rename_i notLetter
      split at found
      · rename_i s symbol
        cases found
        have char := char_of_ofChar? symbol
        exact ⟨by simp [Lexeme.text, Token.text, Char.toString, char], rfl, fun _ _ => rfl⟩
      · rename_i noSymbol
        cases found
        have starts := not_startsToken (Bool.eq_false_iff.mpr notNumeric) (Bool.eq_false_iff.mpr notLetter) noSymbol
        exact ⟨rfl, ⟨notBlank, starts⟩, fun _ _ => rfl⟩

theorem next?_eq_none_iff : next? text = none ↔ ∀ c ∈ text, isBlank c = true := by
  induction text with
  | nil => simp [next?]
  | cons c text ih => by_cases blank : isBlank c = true <;> simp [next?, blank, ih]

theorem next?_cuts (found : next? text = some (lexeme, rest)) :
    ∃ gap, (∀ c ∈ gap, isBlank c = true) ∧ text = gap ++ (lexeme.text ++ rest) ∧ lexeme.IsProper ∧
      ∀ d ∈ rest.head?, lexeme.isExtendedBy d = false := by
  induction text with
  | nil => cases found
  | cons c text ih =>
    unfold next? at found
    split at found
    · rename_i blank
      obtain ⟨gap, blanks, rfl, proper, ends⟩ := ih found
      exact ⟨c :: gap, List.forall_mem_cons.mpr ⟨blank, blanks⟩, rfl, proper, ends⟩
    · rename_i notBlank
      have cuts := startingWith_cuts (Bool.eq_false_iff.mpr notBlank) (Option.some.inj found)
      exact ⟨[], by simp, cuts⟩

theorem text_ne_nil (proper : lexeme.IsProper) : lexeme.text ≠ [] := by
  cases lexeme with
  | stray c => exact List.cons_ne_nil c []
  | token t =>
    obtain ⟨c, rest, chars⟩ := Token.exists_toList_text_eq_cons proper
    simp [Lexeme.text, chars]

theorem next?_append (proper : lexeme.IsProper) (ends : ∀ d ∈ rest.head?, lexeme.isExtendedBy d = false) :
    next? (lexeme.text ++ rest) = some (lexeme, rest) := by
  cases lexeme with
  | token t => exact next?_text_append proper ends
  | stray c =>
    obtain ⟨notBlank, starts⟩ := proper
    have found : next? (c :: rest) = some (startingWith c rest) := if_neg (Bool.eq_false_iff.mp notBlank)
    cases read : startingWith c rest with
    | mk first behind =>
      obtain ⟨text, proper, -⟩ := startingWith_cuts notBlank read
      cases first with
      | stray d =>
        obtain ⟨rfl, rfl⟩ := List.cons.inj text
        exact found.trans (congrArg some read)
      | token t =>
        obtain ⟨d, others, chars⟩ := Token.exists_toList_text_eq_cons proper
        rw [Lexeme.text, chars, List.cons_append] at text
        obtain ⟨rfl, -⟩ := List.cons.inj text
        exact absurd ⟨t, proper, by rw [chars]; rfl⟩ starts

end Lexeme

/-- A proper lexeme with the blanks in front of it. -/
structure Piece where
  gap : List Char
  lexeme : Lexeme
  blank : ∀ c ∈ gap, isBlank c = true
  proper : lexeme.IsProper

namespace Piece

/-- The text of a piece. -/
def text (p : Piece) : List Char := p.gap ++ p.lexeme.text

/-- The text of pieces. -/
def texts (pieces : List Piece) : List Char := pieces.flatMap text

/-- Pieces in front of a text, none of which goes on with the character behind it. -/
def Maximal : List Piece → List Char → Prop
  | [], _ => True
  | p :: pieces, rest =>
    (∀ c ∈ (texts pieces ++ rest).head?, p.lexeme.isExtendedBy c = false) ∧ Maximal pieces rest

variable {p : Piece} {pieces : List Piece} {rest : List Char}

theorem texts_cons (p : Piece) (pieces : List Piece) : texts (p :: pieces) = p.text ++ texts pieces :=
  List.flatMap_cons

theorem texts_append (before after : List Piece) : texts (before ++ after) = texts before ++ texts after :=
  List.flatMap_append

theorem maximal_append {before after : List Piece} :
    Maximal (before ++ after) rest ↔ Maximal before (texts after ++ rest) ∧ Maximal after rest := by
  induction before with
  | nil => simp [Maximal]
  | cons p before ih =>
    rw [List.cons_append, Maximal, Maximal, ih, texts_append, List.append_assoc, and_assoc]

theorem length_le_length_texts (pieces : List Piece) : pieces.length ≤ (texts pieces).length := by
  induction pieces with
  | nil => exact Nat.zero_le _
  | cons p pieces ih =>
    have nonempty := List.length_pos_iff.mpr (Lexeme.text_ne_nil p.proper)
    rw [texts_cons, List.length_append, text, List.length_append, List.length_cons]
    omega

end Piece

namespace TokenStream

open Piece

/-- The answer of a read that meets a lexeme in front of a text. -/
def answer : Lexeme → List Char → EStateM.Result ParseError (List Char) (Option Token)
  | .token token, rest => .ok (some token) rest
  | .stray c, rest => .error (.strayCharacter c) rest

variable {p : Piece} {pieces : List Piece} {text rest : List Char} {lexeme : Lexeme}

theorem unread_succ_of_answer (found : read text = answer lexeme rest) (n : Nat) :
    unread (n + 1) text = unread n rest := by
  rw [unread, behind, found]
  cases lexeme <;> rfl

theorem read_texts_cons (maximal : Maximal (p :: pieces) rest) :
    read (texts (p :: pieces) ++ rest) = answer p.lexeme (texts pieces ++ rest) := by
  have found := Lexeme.next?_append p.proper maximal.1
  rw [texts_cons, Piece.text, List.append_assoc, List.append_assoc, read_blanks p.blank, read, found]
  cases p.lexeme <;> rfl

theorem unread_add (m n : Nat) (text : List Char) : unread (m + n) text = unread n (unread m text) := by
  induction m generalizing text with
  | zero => rw [Nat.zero_add, unread]
  | succ m ih => rw [Nat.succ_add, unread, unread, ih]

theorem unread_texts (maximal : Maximal pieces rest) : unread pieces.length (texts pieces ++ rest) = rest := by
  induction pieces with
  | nil => rfl
  | cons p pieces ih =>
    rw [List.length_cons, unread_succ_of_answer (read_texts_cons maximal), ih maximal.2]

/-- Every text is a row of maximal pieces with blanks at the end. -/
theorem exists_pieces (text : List Char) : ∃ (pieces : List Piece) (trail : List Char),
    text = texts pieces ++ trail ∧ Maximal pieces trail ∧ ∀ c ∈ trail, isBlank c = true := by
  induction text using Lexeme.all.induct with
  | case1 text ended => exact ⟨[], text, rfl, trivial, Lexeme.next?_eq_none_iff.mp ended⟩
  | case2 text lexeme rest found ih =>
    obtain ⟨gap, blank, rfl, proper, ends⟩ := Lexeme.next?_cuts found
    obtain ⟨pieces, trail, rfl, maximal, blankTrail⟩ := ih
    refine ⟨⟨gap, lexeme, blank, proper⟩ :: pieces, trail, ?_, ⟨ends, maximal⟩, blankTrail⟩
    rw [texts_cons, Piece.text, List.append_assoc, List.append_assoc]

/-- A text is the concatenation of proper lexemes, each as long as it can be, and of blanks in front of them and at the
    end. Reads deliver these lexemes in order: each leaves exactly the text behind its lexeme, be it a token or a stray
    character, and from then on every read finds the end. There are no more lexemes than characters. -/
theorem read_dissects (text : List Char) : ∃ (pieces : List Piece) (trail : List Char),
    text = texts pieces ++ trail ∧ Maximal pieces trail ∧ (∀ c ∈ trail, isBlank c = true) ∧
    pieces.length ≤ text.length ∧
    (∀ before p after, pieces = before ++ p :: after →
      read (unread before.length text) = answer p.lexeme (texts after ++ trail)) ∧
    ∀ n, pieces.length ≤ n → read (unread n text) = .ok none [] := by
  obtain ⟨pieces, trail, rfl, maximal, blank⟩ := exists_pieces text
  refine ⟨pieces, trail, rfl, maximal, blank, ?_, ?_, ?_⟩
  · have counted := length_le_length_texts pieces
    rw [List.length_append]
    omega
  · rintro before p after rfl
    obtain ⟨maximalBefore, maximalAfter⟩ := maximal_append.mp maximal
    rw [texts_append, List.append_assoc, unread_texts maximalBefore, read_texts_cons maximalAfter]
  · intro n enough
    obtain ⟨m, rfl⟩ := Nat.exists_eq_add_of_le enough
    rw [unread_add, unread_texts maximal]
    exact read_unread_of_blank blank m

end TokenStream

end Calculator
