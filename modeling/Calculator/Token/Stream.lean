import Calculator.Token.Lexeme

/-! # Token streams

One token of lookahead over the unread text. Reading fails at a stray character, which is then behind the
stream; the lookahead stays.
-/

namespace Calculator

/-- Why a text is no expression. -/
inductive ParseError where
  /-- A character that starts no token. -/
  | strayCharacter (c : Char)
  /-- A token, or the end of input, that cannot stand here. -/
  | unexpected (found : Option Token)
  /-- A run of digits and points that denotes no number. -/
  | invalidNumber (literal : String)
  deriving DecidableEq, Repr

namespace ParseError

/-- The text of an error. -/
def message : ParseError → String
  | strayCharacter c => "Unexpected character '" ++ c.toString ++ "': no token starts with it"
  | unexpected found => "Unexpected token: " ++ Token.describe found
  | invalidNumber literal => "Invalid number literal: " ++ literal

end ParseError

/-- The lookahead token (none at the end of input) and the text behind it. -/
structure TokenStream where
  current : Option Token
  rest : List Char
  deriving DecidableEq, Repr

namespace TokenStream

/-- Read one token of a text: the token, or none at the end, and the text behind it. -/
def read (text : List Char) : EStateM.Result ParseError (List Char) (Option Token) :=
  match Lexeme.next? text with
  | none => .ok none []
  | some (.token token, rest) => .ok (some token) rest
  | some (.stray c, rest) => .error (.strayCharacter c) rest

/-- A stream at the first token of a text. -/
def ofText (text : List Char) : Except ParseError TokenStream :=
  match read text with
  | .ok token rest => .ok ⟨token, rest⟩
  | .error error _ => .error error

/-- Move past the current token and return it. -/
def advance : EStateM ParseError TokenStream (Option Token) := fun s =>
  match read s.rest with
  | .ok token rest => .ok s.current ⟨token, rest⟩
  | .error error rest => .error error ⟨s.current, rest⟩

/-- The error that names the current token. -/
def unexpected (s : TokenStream) : ParseError := .unexpected s.current

/-- Move past a token of the given kind, or past the end of input; any other token stays. -/
def consume (kind : Option Token.Kind) : EStateM ParseError TokenStream (Option Token) := fun s =>
  if s.current.map Token.kind = kind then advance s else .error s.unexpected s

/-- Bound on the tokens to come: the characters left, and the current token. -/
def size (s : TokenStream) : Nat :=
  s.rest.length + if s.current.isSome then 1 else 0

theorem read_size_le {text rest : List Char} {token : Option Token} (h : read text = .ok token rest) :
    size ⟨token, rest⟩ ≤ text.length := by
  unfold read at h
  split at h
  · cases h
    exact Nat.zero_le _
  · rename_i shorter
    cases h
    exact Lexeme.next?_length_lt shorter
  · cases h

/-- Moving past a token leaves less to come. -/
theorem advance_size_lt {s t : TokenStream} {token : Option Token} (current : s.current.isSome)
    (h : advance s = .ok token t) : t.size < s.size := by
  unfold advance at h
  split at h
  · rename_i found
    cases h
    have bound := read_size_le found
    simp only [size, current] at bound ⊢
    exact Nat.lt_succ_of_le bound
  · cases h

end TokenStream

end Calculator
