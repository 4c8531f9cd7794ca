import Mathlib.Data.List.Chain
import Calculator.Proofs.Spelling
import Calculator.Token.Stream

/-! # Separation

Texts of tokens with blanks in front, between and behind. Two tokens need a blank between them only where the second
would be read as part of the first. Reading such a text step by step gives back the tokens and then the end, again and
again.
-/

namespace Calculator

namespace Token

/-- Whether a token is taken for a part of the one in front if no blank stands between them. -/
def runsInto : Token → Token → Bool
  | number _, number _ => true
  | identifier _, identifier _ => true
  | identifier _, number literal => literal.toList.head?.any Char.isDigit
  | _, _ => false

variable {token next : Token}

theorem isExtendedBy_eq_false_of_isBlank {c : Char} (blank : isBlank c = true) : token.isExtendedBy c = false := by
  have neither : isNumeric c = false ∧ isNameChar c = false := by
    simp only [isBlank, Bool.or_eq_true, decide_eq_true_eq] at blank
    rcases blank with ((((rfl | rfl) | rfl) | rfl) | rfl) | rfl <;> decide
  cases token with
  | number literal => exact neither.1
  | identifier name => exact neither.2
  | symbol s => rfl

theorem exists_toList_text_eq_cons (spelled : token.isSpelled = true) : ∃ c rest, token.text.toList = c :: rest := by
  cases token with
  | number literal =>
    simp only [isSpelled, Bool.and_eq_true, decide_eq_true_eq] at spelled
    exact List.exists_cons_of_ne_nil fun empty => spelled.1 (String.toList_eq_nil_iff.mp empty)
  | identifier name =>
    cases chars : name.toList with
    | nil => simp [isSpelled, isName, chars] at spelled
    | cons c rest => exact ⟨c, rest, chars⟩
  | symbol s => exact ⟨s.char, [], String.toList_singleton ..⟩

theorem runsInto_of_isExtendedBy (spelled : next.isSpelled = true) {c : Char} {rest : List Char}
    (first : next.text.toList = c :: rest) (extended : token.isExtendedBy c = true) : token.runsInto next = true := by
  cases next with
  | symbol s =>
    obtain ⟨rfl, _⟩ := List.cons.inj ((String.toList_singleton s.char).symm.trans first)
    obtain ⟨notNumeric, notName⟩ := separates_symbol s rest s.char rfl
    cases token <;> simp_all [isExtendedBy]
  | identifier name =>
    have letter : c.isAlpha = true := by
      have chars : name.toList = c :: rest := first
      simp only [isSpelled, isName, chars, Bool.and_eq_true] at spelled
      exact spelled.1
    cases token with
    | number literal => cases extended.symm.trans (isNumeric_eq_false_of_isAlpha letter)
    | identifier other => rfl
    | symbol s => cases extended
  | number literal =>
    have chars : literal.toList = c :: rest := first
    cases token with
    | number other => rfl
    | identifier name =>
      have numeric : isNumeric c = true := by
        simp only [isSpelled, chars, List.all_cons, Bool.and_eq_true] at spelled
        exact spelled.2.1
      rcases Bool.or_eq_true_iff.mp numeric with digit | point
      · simp [runsInto, chars, digit]
      · obtain rfl : c = '.' := by simpa using point
        cases extended
    | symbol s => cases extended

end Token

/-- A token with the blanks behind it. -/
structure Spaced where
  token : Token
  gap : List Char

/-- The text of a token and of the blanks behind it. -/
def Spaced.text (p : Spaced) : List Char := p.token.text.toList ++ p.gap

namespace TokenStream

/-- The text behind the token that is read first. -/
def behind (text : List Char) : List Char :=
  match read text with
  | .ok _ rest => rest
  | .error _ rest => rest

/-- What is left of a text after a number of reads. -/
def unread : Nat → List Char → List Char
  | 0, text => text
  | n + 1, text => unread n (behind text)

variable {text gap rest : List Char}

theorem unread_succ {token : Option Token} (found : read text = .ok token rest) (n : Nat) :
    unread (n + 1) text = unread n rest := by
  rw [unread, behind, found]

theorem read_blanks (blank : ∀ c ∈ gap, isBlank c = true) (text : List Char) : read (gap ++ text) = read text := by
  induction gap with
  | nil => rfl
  | cons c gap ih =>
    have skipped : Lexeme.next? (c :: (gap ++ text)) = Lexeme.next? (gap ++ text) := if_pos (blank c List.mem_cons_self)
    have same : read (c :: (gap ++ text)) = read (gap ++ text) := by rw [read, read, skipped]
    exact same.trans (ih fun d member => blank d (List.mem_cons_of_mem c member))

theorem read_text_append {token : Token} (spelled : token.isSpelled = true)
    (bounded : ∀ c ∈ rest.head?, token.isExtendedBy c = false) :
    read (token.text.toList ++ rest) = .ok (some token) rest := by
  rw [read, Lexeme.next?_text_append spelled bounded]

theorem isExtendedBy_eq_false_of_head? {p : Spaced} {pieces : List Spaced} (blank : ∀ c ∈ p.gap, isBlank c = true)
    (spelled : ∀ q ∈ pieces, q.token.isSpelled = true)
    (apart : ∀ q ∈ pieces.head?, p.token.runsInto q.token = true → p.gap ≠ []) :
    ∀ c ∈ (p.gap ++ pieces.flatMap Spaced.text).head?, p.token.isExtendedBy c = false := by
  intro c head
  cases gap : p.gap with
  | cons b rest =>
    rw [gap] at head
    obtain rfl : b = c := Option.some.inj head
    exact Token.isExtendedBy_eq_false_of_isBlank (blank b (gap ▸ List.mem_cons_self))
  | nil =>
    rw [gap, List.nil_append] at head
    cases pieces with
    | nil => cases head
    | cons q rest =>
      obtain ⟨first, others, chars⟩ := Token.exists_toList_text_eq_cons (spelled q List.mem_cons_self)
      rw [List.flatMap_cons, Spaced.text, chars] at head
      obtain rfl : first = c := Option.some.inj head
      rw [Bool.eq_false_iff]
      intro extended
      have runs := Token.runsInto_of_isExtendedBy (spelled q List.mem_cons_self) chars extended
      exact apart q rfl runs gap

theorem read_unread_of_blank (blank : ∀ c ∈ text, isBlank c = true) (n : Nat) : read (unread n text) = .ok none [] := by
  have ended : read text = .ok none [] := by
    rw [← List.append_nil text, read_blanks blank]
    rfl
  induction n generalizing text with
  | zero => exact ended
  | succ n ih =>
    rw [unread_succ ended]
    exact ih (by simp) rfl

/-- A text of tokens in the spelling of their kinds, with blanks in front and behind each, at least one where a token
    would run into the next, is read as those tokens one by one, and as the end from then on. -/
theorem read_unread_spaced (lead : List Char) (pieces : List Spaced) (blankLead : ∀ c ∈ lead, isBlank c = true)
    (blank : ∀ p ∈ pieces, ∀ c ∈ p.gap, isBlank c = true) (spelled : ∀ p ∈ pieces, p.token.isSpelled = true)
    (apart : pieces.IsChain fun p q => p.token.runsInto q.token = true → p.gap ≠ []) (n : Nat) :
    ∃ rest, read (unread n (lead ++ pieces.flatMap Spaced.text)) = .ok (pieces.map Spaced.token)[n]? rest := by
  induction pieces generalizing lead n with
  | nil =>
    rw [List.flatMap_nil, List.append_nil]
    exact ⟨[], read_unread_of_blank blankLead n⟩
  | cons p pieces ih =>
    obtain ⟨apartFirst, apartRest⟩ := List.isChain_cons.mp apart
    have blankFirst := blank p List.mem_cons_self
    have spelledRest := fun q (member : q ∈ pieces) => spelled q (List.mem_cons_of_mem p member)
    have bounded := isExtendedBy_eq_false_of_head? blankFirst spelledRest apartFirst
    have found : read (lead ++ (p :: pieces).flatMap Spaced.text) =
        .ok (some p.token) (p.gap ++ pieces.flatMap Spaced.text) := by
      rw [read_blanks blankLead, List.flatMap_cons, Spaced.text, List.append_assoc]
      exact read_text_append (spelled p List.mem_cons_self) bounded
    cases n with
    | zero => exact ⟨_, found⟩
    | succ n =>
      rw [unread_succ found, List.map_cons, List.getElem?_cons_succ]
      exact ih p.gap blankFirst (fun q member => blank q (List.mem_cons_of_mem p member)) spelledRest apartRest n

theorem read_unread_spaced_adjacent :
    (∃ rest, read (unread 3 "\tx.5 1e5\n".toList) = .ok (some (.identifier "e5")) rest) ∧
    ∃ rest, read (unread 9 "\tx.5 1e5\n".toList) = .ok none rest := by
  have all := read_unread_spaced ['\t']
    [⟨.identifier "x", []⟩, ⟨.number ".5", [' ']⟩, ⟨.number "1", []⟩, ⟨.identifier "e5", ['\n']⟩]
    (by simp [isBlank]) (by simp [isBlank]) (by decide) (by decide)
  exact ⟨all 3, all 9⟩

end TokenStream

end Calculator
