import Calculator.Proofs.Descent

/-! # Texts read along

A grammar rule looks at nothing of a stream but its current token, and it goes on only by reading the next one. So what
every read keeps, of a stream and of a second text that is read along with it, is kept by every rule, and the rule ends
on both alike for as long as the second text is still read along.
-/

namespace Calculator

/-- A condition on a stream and on a twin, the text behind a second stream with the same current token. A read keeps
    the condition; it may lose the twin, which is none from then on. -/
structure Simulation where
  /-- The condition between two reads. -/
  Rel : TokenStream → Option (List Char) → Prop
  /-- The condition where an error is met. -/
  Halt : ParseError → TokenStream → Option (List Char) → Prop
  moved : ∀ {token : Token} {text rest : List Char} {next : Option Token} {twin : Option (List Char)},
    Rel ⟨some token, text⟩ twin → TokenStream.read text = .ok next rest →
      ∃ twin', Rel ⟨next, rest⟩ twin' ∧ ∀ rest' ∈ twin', ∃ text' ∈ twin, TokenStream.read text' = .ok next rest'
  stopped : ∀ {token : Token} {text rest : List Char} {error : ParseError} {twin : Option (List Char)},
    Rel ⟨some token, text⟩ twin → TokenStream.read text = .error error rest →
      ∃ twin', Halt error ⟨some token, rest⟩ twin' ∧
        ∀ rest' ∈ twin', ∃ text' ∈ twin, TokenStream.read text' = .error error rest'
  refused : ∀ {s : TokenStream} {error : ParseError} {twin : Option (List Char)},
    Rel s twin → (∀ c, error ≠ .strayCharacter c) → Halt error s twin

namespace Parsed

variable {α β : Type} {bound : Nat} {result : EStateM.Result ParseError TokenStream β}

theorem result_eq_iff {outcome : Parsed β bound} :
    outcome.result = result ↔ outcome.Meets (fun a t => .ok a t = result) fun error t => .error error t = result := by
  cases outcome <;> rfl

theorem result_andThen_of_ok {first : Parsed α bound} {a : α} {t : TokenStream}
    {next : α → (s : TokenStream) → s.size ≤ bound → Parsed β s.size} (ok : first.result = .ok a t)
    (goesOn : ∀ shrinks, (next a t shrinks).result = result) : (first.andThen next).result = result := by
  cases first with
  | failed => cases ok
  | done a t shrinks =>
    cases ok
    rw [← goesOn shrinks, andThen]
    cases next a t shrinks <;> rfl

theorem result_andThen_of_error {first : Parsed α bound} {error : ParseError} {t : TokenStream}
    {next : α → (s : TokenStream) → s.size ≤ bound → Parsed β s.size} (met : first.result = .error error t) :
    (first.andThen next).result = .error error t := by
  cases first with
  | done => cases met
  | failed => cases met; rfl

theorem result_map_of_ok {first : Parsed α bound} {f : α → β} {a : α} {t : TokenStream}
    (ok : first.result = .ok a t) : (first.map f).result = .ok (f a) t := by
  cases first with
  | done => cases ok; rfl
  | failed => cases ok

theorem result_map_of_error {first : Parsed α bound} {f : α → β} {error : ParseError} {t : TokenStream}
    (met : first.result = .error error t) : (first.map f).result = .error error t := by
  cases first with
  | done => cases met
  | failed => cases met; rfl

theorem result_shift_of_ok {token : Token} {text rest : List Char} {next : Option Token}
    {cont : (t : TokenStream) → t.size < TokenStream.size ⟨some token, text⟩ → Parsed β t.size}
    (found : TokenStream.read text = .ok next rest) (goesOn : ∀ shorter, (cont ⟨next, rest⟩ shorter).result = result) :
    (TokenStream.shift ⟨some token, text⟩ cont).result = result := by
  refine result_eq_iff.mpr (meets_shift rfl (fun t shorter advanced => ?_) fun error t advanced => ?_)
  · rw [TokenStream.advance, found] at advanced
    cases advanced
    exact result_eq_iff.mp (goesOn shorter)
  · rw [TokenStream.advance, found] at advanced
    cases advanced

theorem result_shift_of_error {token : Token} {text rest : List Char} {error : ParseError}
    {cont : (t : TokenStream) → t.size < TokenStream.size ⟨some token, text⟩ → Parsed β t.size}
    (found : TokenStream.read text = .error error rest) :
    (TokenStream.shift ⟨some token, text⟩ cont).result = .error error ⟨some token, rest⟩ := by
  refine result_eq_iff.mpr (meets_shift rfl (fun t shorter advanced => ?_) fun error t advanced => ?_)
  · rw [TokenStream.advance, found] at advanced
    cases advanced
  · rw [TokenStream.advance, found] at advanced
    cases advanced
    rfl

end Parsed

namespace Simulation

variable {sim : Simulation} {α β : Type} {s : TokenStream} {twin : Option (List Char)}

/-- An outcome within the conditions, which is also that of the twin's run, if there is still a twin. -/
def Accompanies (sim : Simulation) {bound : Nat} (outcome : Parsed α bound) (twin : Option (List Char))
    (run : List Char → EStateM.Result ParseError TokenStream α) : Prop :=
  outcome.Meets
    (fun a t => ∃ twin', sim.Rel t twin' ∧ ∀ rest ∈ twin', ∃ text ∈ twin, run text = .ok a ⟨t.current, rest⟩)
    fun error t => ∃ twin', sim.Halt error t twin' ∧
      ∀ rest ∈ twin', ∃ text ∈ twin, run text = .error error ⟨t.current, rest⟩

/-- A rule that ends on both streams alike. -/
def Follows (sim : Simulation) (rule : (s : TokenStream) → Parsed α s.size) (s : TokenStream)
    (twin : Option (List Char)) : Prop :=
  sim.Accompanies (rule s) twin fun text => (rule ⟨s.current, text⟩).result

/-- A run can start earlier, where every later twin comes from an earlier one. -/
theorem Accompanies.before {bound : Nat} {outcome : Parsed α bound} {twin' : Option (List Char)}
    {run run' : List Char → EStateM.Result ParseError TokenStream α} (h : sim.Accompanies outcome twin' run')
    (along : ∀ middle ∈ twin', ∃ text ∈ twin, run text = run' middle) : sim.Accompanies outcome twin run := by
  refine h.mono (fun a t _ ⟨twin'', rel, ended⟩ => ⟨twin'', rel, fun rest member => ?_⟩)
    fun error t ⟨twin'', halt, ended⟩ => ⟨twin'', halt, fun rest member => ?_⟩
  · obtain ⟨middle, member, ended⟩ := ended rest member
    obtain ⟨text, member, same⟩ := along middle member
    exact ⟨text, member, same.trans ended⟩
  · obtain ⟨middle, member, ended⟩ := ended rest member
    obtain ⟨text, member, same⟩ := along middle member
    exact ⟨text, member, same.trans ended⟩

theorem follows_value (a : α) (rel : sim.Rel s twin) : sim.Follows (Parsed.value a) s twin :=
  ⟨twin, rel, fun text member => ⟨text, member, rfl⟩⟩

theorem follows_failed {error : ParseError} (rel : sim.Rel s twin) (notStray : ∀ c, error ≠ .strayCharacter c) :
    sim.Follows (fun t => (.failed error t : Parsed α t.size)) s twin :=
  ⟨twin, sim.refused rel notStray, fun text member => ⟨text, member, rfl⟩⟩

theorem follows_unexpected (rel : sim.Rel s twin) :
    sim.Follows (fun t => (.failed t.unexpected t : Parsed α t.size)) s twin :=
  ⟨twin, sim.refused rel (fun c same => by cases same), fun text member => ⟨text, member, rfl⟩⟩

theorem follows_map {rule : (s : TokenStream) → Parsed α s.size} (f : α → β) (h : sim.Follows rule s twin) :
    sim.Follows (fun t => (rule t).map f) s twin := by
  refine Parsed.meets_map (h.mono (fun a t _ ⟨twin', rel, along⟩ => ⟨twin', rel, fun rest member => ?_⟩)
    fun error t ⟨twin', halt, along⟩ => ⟨twin', halt, fun rest member => ?_⟩)
  · obtain ⟨text, member, ended⟩ := along rest member
    exact ⟨text, member, Parsed.result_map_of_ok ended⟩
  · obtain ⟨text, member, ended⟩ := along rest member
    exact ⟨text, member, Parsed.result_map_of_error ended⟩

theorem follows_andThen {first : (s : TokenStream) → Parsed α s.size} {next : α → (t : TokenStream) → Parsed β t.size}
    (h : sim.Follows first s twin)
    (step : ∀ a t twin', t.size ≤ s.size → sim.Rel t twin' → sim.Follows (next a) t twin') :
    sim.Follows (fun s => (first s).andThen fun a t _ => next a t) s twin := by
  refine Parsed.meets_andThen (h.mono (fun _ _ _ h => h)
    fun error t ⟨twin', halt, along⟩ => ⟨twin', halt, fun rest member => ?_⟩) ?_
  · obtain ⟨text, member, ended⟩ := along rest member
    exact ⟨text, member, Parsed.result_andThen_of_error ended⟩
  · intro a t shrinks ⟨twin', rel, along⟩
    refine (step a t twin' shrinks rel).before fun middle member => ?_
    obtain ⟨text, member, ended⟩ := along middle member
    exact ⟨text, member, Parsed.result_andThen_of_ok ended fun _ => rfl⟩

theorem follows_shift {next : (t : TokenStream) → Parsed α t.size} {token : Token} (current : s.current = some token)
    (rel : sim.Rel s twin) (step : ∀ t twin', t.size < s.size → sim.Rel t twin' → sim.Follows next t twin') :
    sim.Follows (fun s => s.shift fun t _ => next t) s twin := by
  obtain ⟨_, text⟩ := s
  cases current
  refine Parsed.meets_shift rfl (fun t shorter advanced => ?_) fun error t advanced => ?_
  · unfold TokenStream.advance at advanced
    split at advanced <;> cases advanced
    rename_i found rest moved
    obtain ⟨twin', rel, along⟩ := sim.moved rel moved
    refine (step _ twin' shorter rel).before fun middle member => ?_
    obtain ⟨text, member, moved⟩ := along middle member
    exact ⟨text, member, Parsed.result_shift_of_ok moved fun _ => rfl⟩
  · unfold TokenStream.advance at advanced
    split at advanced <;> cases advanced
    rename_i rest stopped
    obtain ⟨twin', halt, along⟩ := sim.stopped rel stopped
    refine ⟨twin', halt, fun rest member => ?_⟩
    obtain ⟨text, member, stopped⟩ := along rest member
    exact ⟨text, member, Parsed.result_shift_of_error stopped⟩

end Simulation

namespace Grammar

open Calculator.Simulation

variable {sim : Simulation}

mutual

theorem expression_follows (s : TokenStream) (twin : Option (List Char)) (rel : sim.Rel s twin) :
    sim.Follows expression s twin := by
  rw [funext expression.eq_def]
  exact follows_andThen (term_follows s twin rel) fun left t twin' shrinks rel => moreTerms_follows left t twin' rel
termination_by 6 * s.size + 4

theorem moreTerms_follows (left : Expr) (s : TokenStream) (twin : Option (List Char)) (rel : sim.Rel s twin) :
    sim.Follows (moreTerms left) s twin := by
  have operator (text : List Char) : TokenStream.operator? ⟨s.current, text⟩ BinaryOp.isAdditive =
      s.operator? BinaryOp.isAdditive := rfl
  rw [funext (moreTerms.eq_def left), Follows]
  simp only [operator]
  split
  · rename_i op found
    obtain ⟨current, _⟩ := TokenStream.operator?_eq_some found
    exact (follows_shift current rel fun t twin' shorter rel =>
      follows_andThen (term_follows t twin' rel) fun right u twin'' shrinks rel =>
        moreTerms_follows (.binary op left right) u twin'' rel :)
  · exact follows_value left rel
termination_by 6 * s.size

theorem term_follows (s : TokenStream) (twin : Option (List Char)) (rel : sim.Rel s twin) :
    sim.Follows term s twin := by
  rw [funext term.eq_def]
  exact follows_andThen (unary_follows s twin rel) fun left t twin' shrinks rel => moreFactors_follows left t twin' rel
termination_by 6 * s.size + 3

theorem moreFactors_follows (left : Expr) (s : TokenStream) (twin : Option (List Char)) (rel : sim.Rel s twin) :
    sim.Follows (moreFactors left) s twin := by
  have operator (text : List Char) : TokenStream.operator? ⟨s.current, text⟩ BinaryOp.isMultiplicative =
      s.operator? BinaryOp.isMultiplicative := rfl
  rw [funext (moreFactors.eq_def left), Follows]
  simp only [operator]
  split
  · rename_i op found
    obtain ⟨current, _⟩ := TokenStream.operator?_eq_some found
    exact (follows_shift current rel fun t twin' shorter rel =>
      follows_andThen (unary_follows t twin' rel) fun right u twin'' shrinks rel =>
        moreFactors_follows (.binary op left right) u twin'' rel :)
  · exact follows_value left rel
termination_by 6 * s.size

theorem unary_follows (s : TokenStream) (twin : Option (List Char)) (rel : sim.Rel s twin) :
    sim.Follows unary s twin := by
  rw [funext unary.eq_def, Follows]
  dsimp only
  split
  · rename_i current
    exact (follows_shift current rel fun t twin' shorter rel => follows_map Expr.neg (unary_follows t twin' rel) :)
  · exact power_follows s twin rel
termination_by 6 * s.size + 2

theorem power_follows (s : TokenStream) (twin : Option (List Char)) (rel : sim.Rel s twin) :
    sim.Follows power s twin := by
  rw [funext power.eq_def]
  refine follows_andThen (primary_follows s twin rel) fun base t twin' shrinks rel => ?_
  rw [Follows]
  dsimp only
  split
  · rename_i current
    exact (follows_shift current rel fun u twin'' shorter rel =>
      follows_map (Expr.binary .pow base) (unary_follows u twin'' rel) :)
  · exact follows_value base rel
termination_by 6 * s.size + 1

theorem primary_follows (s : TokenStream) (twin : Option (List Char)) (rel : sim.Rel s twin) :
    sim.Follows primary s twin := by
  rw [funext primary.eq_def, Follows]
  dsimp only
  split
  · rename_i literal current
    cases value : numberOfLiteral literal with
    | ok x => exact (follows_shift current rel fun t twin' shorter rel => follows_value (Expr.number x) rel :)
    | error error =>
      have notStray : ∀ c, error ≠ .strayCharacter c := by
        unfold numberOfLiteral at value
        split at value <;> cases value
        intro c same
        cases same
      exact (follows_shift current rel fun t twin' shorter rel => follows_failed rel notStray :)
  · rename_i name current
    refine follows_shift current rel fun t twin' shorter rel => ?_
    rw [Follows]
    dsimp only
    split
    · rename_i opened
      refine follows_shift opened rel fun u twin'' shorter' rel => ?_
      rw [Follows]
      dsimp only
      split
      · rename_i closed
        exact (follows_shift closed rel fun v _ shorter'' rel => follows_value (Expr.call name []) rel :)
      · exact (follows_map (Expr.call name) (arguments_follows u twin'' rel) :)
    · rename_i equals
      exact (follows_shift equals rel fun u twin'' shorter' rel =>
        follows_map (Expr.assign name) (expression_follows u twin'' rel) :)
    · exact follows_value (Expr.var name) rel
  · rename_i current
    refine follows_shift current rel fun t twin' shorter rel => ?_
    refine follows_andThen (expression_follows t twin' rel) fun e u twin'' shrinks rel => ?_
    rw [Follows]
    dsimp only
    split
    · rename_i closed
      exact (follows_shift closed rel fun v _ shorter' rel => follows_value e rel :)
    · exact follows_unexpected rel
  · exact follows_unexpected rel
termination_by 6 * s.size

theorem arguments_follows (s : TokenStream) (twin : Option (List Char)) (rel : sim.Rel s twin) :
    sim.Follows arguments s twin := by
  rw [funext arguments.eq_def]
  refine follows_andThen (expression_follows s twin rel) fun first t twin' shrinks rel => ?_
  rw [Follows]
  dsimp only
  split
  · rename_i comma
    exact (follows_shift comma rel fun u twin'' shorter rel =>
      follows_map (first :: ·) (arguments_follows u twin'' rel) :)
  · rename_i closed
    exact (follows_shift closed rel fun u twin'' shorter rel => follows_value [first] rel :)
  · exact follows_unexpected rel
termination_by 6 * s.size + 5

end

end Grammar

end Calculator
