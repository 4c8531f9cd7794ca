import Calculator.Expr.Grammar
import Calculator.Proofs.Spelling

/-! # Streams as lists of pieces

What a stream has still to deliver is a list of pieces, and moving past a token takes its first one. A condition on
the outcome of a grammar rule passes through the steps that rules are made of.
-/

namespace Calculator

namespace TokenStream

/-- The pieces that a stream has still to deliver, from its current token on. -/
def lexemes (s : TokenStream) : List Lexeme :=
  match s.current with
  | none => []
  | some token => .token token :: Lexeme.all s.rest

theorem lexemes_eq_nil {s : TokenStream} (current : s.current = none) : s.lexemes = [] := by
  rw [lexemes, current]

theorem lexemes_eq_cons {s : TokenStream} {token : Token} (current : s.current = some token) :
    s.lexemes = .token token :: Lexeme.all s.rest := by
  rw [lexemes, current]

theorem head?_lexemes (s : TokenStream) : s.lexemes.head? = s.current.map .token := by
  cases current : s.current with
  | none => rw [lexemes_eq_nil current]; rfl
  | some token => rw [lexemes_eq_cons current]; rfl

theorem all_of_read_eq_ok {text rest : List Char} {token : Option Token} (h : read text = .ok token rest) :
    Lexeme.all text = lexemes ⟨token, rest⟩ := by
  unfold read at h
  split at h
  · rename_i none
    cases h
    exact Lexeme.all_of_next?_eq_none none
  · rename_i found
    cases h
    exact Lexeme.all_of_next?_eq_some found
  · cases h

theorem all_of_read_eq_error {text rest : List Char} {error : ParseError} (h : read text = .error error rest) :
    ∃ c, error = .strayCharacter c ∧ Lexeme.all text = .stray c :: Lexeme.all rest := by
  unfold read at h
  split at h
  · cases h
  · cases h
  · rename_i c _ found
    cases h
    exact ⟨c, rfl, Lexeme.all_of_next?_eq_some found⟩

theorem eq_current_of_advance {s t : TokenStream} {moved : Option Token} (h : s.advance = .ok moved t) :
    moved = s.current := by
  unfold advance at h
  split at h <;> cases h
  rfl

theorem current_of_advance_eq_error {s t : TokenStream} {error : ParseError} (h : s.advance = .error error t) :
    t.current = s.current := by
  unfold advance at h
  split at h <;> cases h
  rfl

theorem lexemes_of_advance_eq_ok {s t : TokenStream} {token : Token} {moved : Option Token}
    (current : s.current = some token) (h : s.advance = .ok moved t) :
    s.lexemes = .token token :: t.lexemes := by
  unfold advance at h
  split at h
  · rename_i found
    cases h
    rw [lexemes_eq_cons current, all_of_read_eq_ok found]
  · cases h

theorem lexemes_of_advance_eq_error {s t : TokenStream} {token : Token} {error : ParseError}
    (current : s.current = some token) (h : s.advance = .error error t) :
    ∃ c, error = .strayCharacter c ∧ s.lexemes = .token token :: .stray c :: Lexeme.all t.rest := by
  unfold advance at h
  split at h
  · cases h
  · rename_i found
    cases h
    obtain ⟨c, rfl, pieces⟩ := all_of_read_eq_error found
    exact ⟨c, rfl, by rw [lexemes_eq_cons current, pieces]⟩

end TokenStream

namespace Parsed

variable {α β : Type} {bound : Nat}

/-- The same outcome within a larger bound. -/
def weaken {larger : Nat} (le : bound ≤ larger) : Parsed α bound → Parsed α larger
  | done a s shrinks => done a s (Nat.le_trans shrinks le)
  | failed error s => failed error s

theorem andThen_done {a : α} {s : TokenStream} {shrinks : s.size ≤ bound}
    {next : α → (s : TokenStream) → s.size ≤ bound → Parsed β s.size} :
    (done a s shrinks).andThen next = (next a s shrinks).weaken shrinks := by
  rw [andThen]
  cases next a s shrinks <;> rfl

end Parsed

namespace TokenStream

variable {α : Type} {s t : TokenStream}

theorem shift_of_ok {next : (t : TokenStream) → t.size < s.size → Parsed α t.size} {token : Option Token}
    (isSome : s.current.isSome) (advanced : s.advance = .ok token t) :
    s.shift next = (next t (advance_size_lt isSome advanced)).weaken
      (Nat.le_of_lt (advance_size_lt isSome advanced)) := by
  unfold shift
  rw [dif_pos isSome]
  split <;> cases ‹s.advance = _›.symm.trans advanced
  cases outcome : next t (advance_size_lt isSome advanced) <;> simp only [outcome, Parsed.weaken]

theorem shift_of_error {next : (t : TokenStream) → t.size < s.size → Parsed α t.size} {error : ParseError}
    (isSome : s.current.isSome) (advanced : s.advance = .error error t) : s.shift next = .failed error t := by
  unfold shift
  rw [dif_pos isSome]
  split <;> cases ‹s.advance = _›.symm.trans advanced
  rfl

end TokenStream

namespace Parsed

variable {α β : Type} {bound : Nat} {failed : ParseError → TokenStream → Prop}

/-- The outcome is a value and a stream of one kind, or an error and a stream of another. -/
def Meets (outcome : Parsed α bound) (done : α → TokenStream → Prop) (failed : ParseError → TokenStream → Prop) :
    Prop :=
  match outcome with
  | .done a t _ => done a t
  | .failed error t => failed error t

theorem Meets.mono {outcome : Parsed α bound} {done done' : α → TokenStream → Prop}
    {failed' : ParseError → TokenStream → Prop} (h : outcome.Meets done failed)
    (imp : ∀ a t, t.size ≤ bound → done a t → done' a t) (imp' : ∀ error t, failed error t → failed' error t) :
    outcome.Meets done' failed' := by
  cases outcome with
  | done a t shrinks => exact imp a t shrinks h
  | failed error t => exact imp' error t h

theorem Meets.and {outcome : Parsed α bound} {done done' : α → TokenStream → Prop}
    {failed' : ParseError → TokenStream → Prop} (h : outcome.Meets done failed) (h' : outcome.Meets done' failed') :
    outcome.Meets (fun a t => done a t ∧ done' a t) fun error t => failed error t ∧ failed' error t := by
  cases outcome with
  | done | failed => exact ⟨h, h'⟩

theorem Meets.of_ok {outcome : Parsed α bound} {done : α → TokenStream → Prop} {a : α} {t : TokenStream}
    (h : outcome.Meets done failed) (ok : outcome.result = .ok a t) : done a t := by
  cases outcome with
  | done => cases ok; exact h
  | failed => cases ok

theorem Meets.of_error {outcome : Parsed α bound} {done : α → TokenStream → Prop} {error : ParseError}
    {t : TokenStream} (h : outcome.Meets done failed) (met : outcome.result = .error error t) : failed error t := by
  cases outcome with
  | done => cases met
  | failed => cases met; exact h

theorem meets_map {outcome : Parsed α bound} {f : α → β} {done : β → TokenStream → Prop}
    (h : outcome.Meets (fun a t => done (f a) t) failed) : (outcome.map f).Meets done failed := by
  cases outcome with
  | done => exact h
  | failed => exact h

theorem meets_weaken {larger : Nat} {le : bound ≤ larger} {outcome : Parsed α bound} {done : α → TokenStream → Prop}
    (h : outcome.Meets done failed) : (outcome.weaken le).Meets done failed := by
  cases outcome with
  | done => exact h
  | failed => exact h

theorem meets_andThen {first : Parsed α bound} {next : α → (s : TokenStream) → s.size ≤ bound → Parsed β s.size}
    {middle : α → TokenStream → Prop} {done : β → TokenStream → Prop} (h : first.Meets middle failed)
    (step : ∀ a t shrinks, middle a t → (next a t shrinks).Meets done failed) :
    (first.andThen next).Meets done failed := by
  cases first with
  | failed => exact h
  | done a t shrinks =>
    rw [andThen_done]
    exact meets_weaken (step a t shrinks h)

theorem meets_shift {s : TokenStream} {token : Token} {done : α → TokenStream → Prop}
    {next : (t : TokenStream) → t.size < s.size → Parsed α t.size} (current : s.current = some token)
    (moved : ∀ t shorter, s.advance = .ok (some token) t → (next t shorter).Meets done failed)
    (stopped : ∀ error t, s.advance = .error error t → failed error t) : (s.shift next).Meets done failed := by
  have isSome : s.current.isSome := by rw [current]; rfl
  cases advanced : s.advance with
  | ok found t =>
    obtain rfl : found = some token := (TokenStream.eq_current_of_advance advanced).trans current
    rw [TokenStream.shift_of_ok isSome advanced]
    exact meets_weaken (moved t _ advanced)
  | error error t =>
    rw [TokenStream.shift_of_error isSome advanced]
    exact stopped error t advanced

end Parsed

end Calculator
