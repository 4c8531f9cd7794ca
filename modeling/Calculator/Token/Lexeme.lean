import Calculator.Token.Basic

/-! # Lexemes

Reading source text piece by piece. A piece is the longest token at its position or, where no token starts, one
stray character. Blanks separate pieces and mean nothing else. `next?` follows what a generated lexer is taken to do
with the patterns of the tokens: the longest match wins, and a character without a match is left out alone.
-/

namespace Calculator

/-- Characters skipped between pieces. -/
def isBlank (c : Char) : Bool :=
  c = ' ' || c = '\t' || c = '\n' || c = '\r' || c = '\x0c' || c = '\x0b'

/-- Characters of a number. -/
def isNumeric (c : Char) : Bool := c.isDigit || c = '.'

/-- Characters of a name after its first letter. -/
def isNameChar (c : Char) : Bool := c.isAlphanum || c = '_'

/-- A piece of source text. -/
inductive Lexeme where
  | token (token : Token)
  /-- A character that starts no token. -/
  | stray (c : Char)
  deriving DecidableEq, Repr

namespace Lexeme

/-- The piece that starts with the nonblank character `c`, and the text behind it. -/
def startingWith (c : Char) (rest : List Char) : Lexeme × List Char :=
  if isNumeric c then
    (.token (.number (String.ofList (c :: rest.takeWhile isNumeric))), rest.dropWhile isNumeric)
  else if c.isAlpha then
    (.token (.identifier (String.ofList (c :: rest.takeWhile isNameChar))), rest.dropWhile isNameChar)
  else
    match Symbol.ofChar? c with
    | some s => (.token (.symbol s), rest)
    | none => (.stray c, rest)

/-- The first piece of a text and the text behind it; none if only blanks are left. -/
def next? : List Char → Option (Lexeme × List Char)
  | [] => none
  | c :: rest => if isBlank c then next? rest else some (startingWith c rest)

theorem length_dropWhile_le (p : Char → Bool) (s : List Char) : (s.dropWhile p).length ≤ s.length :=
  (List.dropWhile_sublist p).length_le

theorem startingWith_length_le (c : Char) (s : List Char) : (startingWith c s).2.length ≤ s.length := by
  unfold startingWith
  split
  · exact length_dropWhile_le isNumeric s
  · split
    · exact length_dropWhile_le isNameChar s
    · split <;> exact Nat.le_refl _

theorem next?_length_lt {s : List Char} {piece : Lexeme} {rest : List Char} (h : next? s = some (piece, rest)) :
    rest.length < s.length := by
  induction s with
  | nil => simp [next?] at h
  | cons c s ih =>
    unfold next? at h
    split at h
    · exact Nat.lt_succ_of_lt (ih h)
    · have bound := startingWith_length_le c s
      rw [Option.some.inj h] at bound
      exact Nat.lt_succ_of_le bound

/-- All pieces of a text, in order. -/
def all (s : List Char) : List Lexeme :=
  match _h : next? s with
  | none => []
  | some (piece, rest) => piece :: all rest
termination_by s.length
decreasing_by exact next?_length_lt _h

end Lexeme

end Calculator
