import Mathlib.Data.List.Induction
import Calculator.Proofs.Quoting

/-! # Splitting and open quotes

What a scan of a command line remembers besides its terms can be told from the text alone: whether a backslash waits
for its character, by counting the backslashes at the end, and which quote is open, by the place where it was opened.
So a line can be cut at any space outside of quotes, and a line that cannot be split has one quote to blame.
-/

namespace Calculator

/-- The length of the run of backslashes at the end of a text. -/
def backslashes (text : List Char) : Nat := (text.reverse.takeWhile (· = '\\')).length

/-- Whether a text ends in a backslash that is not itself taken as it is. -/
def endsEscaping (text : List Char) : Bool := backslashes text % 2 = 1

/-- A quote that opens behind terms and meets no partner: every later one has a backslash in front that takes it
    as it is. -/
def LeftOpen (quote : Char) (line : String) : Prop :=
  ∃ before after : String, line = before ++ quote.toString ++ after ∧ (∃ terms, splitTerms before = .ok terms) ∧
    endsEscaping before.toList = false ∧ ∀ u v, after.toList = u ++ quote :: v → endsEscaping u = true

theorem endsEscaping_concat (text : List Char) (c : Char) :
    endsEscaping (text ++ [c]) = (decide (c = '\\') && !endsEscaping text) := by
  by_cases backslash : c = '\\'
  · have one_more : backslashes (text ++ [c]) = backslashes text + 1 := by simp [backslashes, backslash]
    rw [endsEscaping, endsEscaping, one_more]
    grind
  · simp [endsEscaping, backslashes, backslash]

theorem endsEscaping_append_cons {c : Char} (other : c ≠ '\\') (before after : List Char) :
    endsEscaping (before ++ c :: after) = endsEscaping after := by
  induction after using List.reverseRecOn with
  | nil => simp [endsEscaping, backslashes, other]
  | append_singleton after d ih =>
    rw [← List.cons_append, ← List.append_assoc, endsEscaping_concat, endsEscaping_concat, ih]

namespace TermScan

variable {scan : TermScan} {text : List Char} {quote : Char}

theorem foldl_concat (scan : TermScan) (text : List Char) (c : Char) :
    (text ++ [c]).foldl step scan = (text.foldl step scan).step c := by
  simp

theorem escaping_step (scan : TermScan) (c : Char) :
    (scan.step c).escaping = (decide (c = '\\') && !scan.escaping) := by
  unfold step flush push
  split
  · simp_all
  · grind

/-- Whether a backslash waits for its character depends on the text alone. -/
theorem escaping_foldl (awake : scan.escaping = false) (text : List Char) :
    (text.foldl step scan).escaping = endsEscaping text := by
  induction text using List.reverseRecOn with
  | nil => exact awake
  | append_singleton text c ih => rw [foldl_concat, escaping_step, endsEscaping_concat, ih]

theorem escaping_initial (text : List Char) : (text.foldl step .initial).escaping = endsEscaping text :=
  escaping_foldl rfl text

/-- The scan with terms finished earlier. -/
def behind (earlier : List String) (scan : TermScan) : TermScan := { scan with terms := earlier ++ scan.terms }

theorem flush_behind (earlier : List String) (scan : TermScan) :
    (scan.behind earlier).flush = scan.flush.behind earlier := by
  by_cases empty : scan.term.isEmpty <;> simp [flush, behind, empty]

theorem step_behind (earlier : List String) (scan : TermScan) (c : Char) :
    (scan.behind earlier).step c = (scan.step c).behind earlier := by
  have flushed := flush_behind earlier scan
  obtain ⟨terms, term, quote, escaping⟩ := scan
  simp only [behind] at flushed
  cases escaping with
  | true => rfl
  | false =>
    cases quote with
    | some quote => grind [step, push, behind]
    | none => grind [step, push, behind]

theorem foldl_behind (earlier : List String) (scan : TermScan) (text : List Char) :
    text.foldl step (scan.behind earlier) = (text.foldl step scan).behind earlier := by
  induction text generalizing scan with
  | nil => rfl
  | cons c text ih => rw [List.foldl_cons, List.foldl_cons, step_behind, ih]

theorem finish_behind (earlier : List String) (scan : TermScan) :
    (scan.behind earlier).finish = scan.finish.map (earlier ++ ·) := by
  cases opened : scan.quote with
  | some quote => simp [finish, behind, opened, Except.map]
  | none =>
    have still : (scan.behind earlier).quote = none := opened
    simp only [finish, still, opened, flush_behind, Except.map]
    rfl

theorem finish_eq_ok_iff {terms : List String} :
    scan.finish = .ok terms ↔ scan.quote = none ∧ scan.flush.terms = terms := by
  cases opened : scan.quote <;> simp [finish, opened]

theorem finish_eq_error_iff : scan.finish = .error (.unclosedQuote quote) ↔ scan.quote = some quote := by
  cases opened : scan.quote <;> simp [finish, opened]

/-- A space outside of quotes ends the term being read, and the scan goes on like a new one. -/
theorem step_space (outside : scan.quote = none) (awake : scan.escaping = false) :
    scan.step ' ' = initial.behind scan.flush.terms := by
  obtain ⟨terms, term, quote, escaping⟩ := scan
  cases outside
  cases awake
  have space : step ⟨terms, term, none, false⟩ ' ' = flush ⟨terms, term, none, false⟩ := rfl
  simp [space, flush_mk, behind, initial]

/-- A quote is open behind a character if it was open and is not closed, or if the character opens it. -/
theorem quote_step_iff (other : quote ≠ '\\') (scan : TermScan) (c : Char) :
    (scan.step c).quote = some quote ↔
      (scan.quote = some quote ∧ (c = quote → scan.escaping = true)) ∨
      (scan.quote = none ∧ scan.escaping = false ∧ c = quote ∧ (quote = '\'' ∨ quote = '"')) := by
  unfold step flush push
  grind

/-- An open quote stays open if the text has no other than escaped ones. -/
theorem quote_foldl_of_escaped (other : quote ≠ '\\') (opened : scan.quote = some quote) (awake : scan.escaping = false)
    (escaped : ∀ u v, text = u ++ quote :: v → endsEscaping u = true) : (text.foldl step scan).quote = some quote := by
  induction text using List.reverseRecOn with
  | nil => exact opened
  | append_singleton text c ih =>
    have still := ih fun u v split => escaped u (v ++ [c]) (by rw [split, List.append_assoc, List.cons_append])
    rw [foldl_concat, quote_step_iff other]
    refine .inl ⟨still, fun same => ?_⟩
    rw [escaping_foldl awake]
    exact escaped text [] (by rw [same])

theorem isQuote_of_quote_foldl (opened : (text.foldl step .initial).quote = some quote) :
    quote = '\'' ∨ quote = '"' := by
  induction text using List.reverseRecOn with
  | nil => cases opened
  | append_singleton text c ih =>
    rw [foldl_concat] at opened
    generalize text.foldl step .initial = scan at opened ih
    unfold step flush push at opened
    grind

/-- The quote that is open was opened outside of quotes, and all later ones are escaped. -/
theorem exists_opening (opened : (text.foldl step .initial).quote = some quote) :
    ∃ before after, text = before ++ quote :: after ∧ (before.foldl step .initial).quote = none ∧
      endsEscaping before = false ∧ ∀ u v, after = u ++ quote :: v → endsEscaping u = true := by
  have other : quote ≠ '\\' := by rcases isQuote_of_quote_foldl opened with rfl | rfl <;> decide
  induction text using List.reverseRecOn with
  | nil => cases opened
  | append_singleton text c ih =>
    rw [foldl_concat, quote_step_iff other] at opened
    rcases opened with ⟨still, escaped⟩ | ⟨outside, awake, rfl, -⟩
    · obtain ⟨before, after, rfl, outside, awake, others⟩ := ih still
      refine ⟨before, after ++ [c], by simp, outside, awake, fun u v split => ?_⟩
      rcases List.eq_nil_or_concat v with rfl | ⟨v, d, rfl⟩
      · obtain ⟨rfl, same⟩ := List.append_inj' split rfl
        have waiting := escaped (List.singleton_inj.mp same)
        rwa [escaping_initial, endsEscaping_append_cons other] at waiting
      · rw [List.concat_eq_append, ← List.cons_append, ← List.append_assoc] at split
        exact others u v (List.append_inj' split rfl).1
    · exact ⟨text, [], rfl, outside, by rw [← awake, escaping_initial], by simp⟩

end TermScan

variable {line : String} {quote : Char}

theorem splitTerms_succeeds_iff :
    (∃ terms, splitTerms line = .ok terms) ↔ (line.toList.foldl TermScan.step .initial).quote = none := by
  simp [splitTerms, TermScan.finish_eq_ok_iff]

theorem splitTerms_eq_error_iff : splitTerms line = .error (.unclosedQuote quote) ↔
    (line.toList.foldl TermScan.step .initial).quote = some quote :=
  TermScan.finish_eq_error_iff

theorem leftOpen_iff : LeftOpen quote line ↔
    ∃ before after, line.toList = before ++ quote :: after ∧
      (before.foldl TermScan.step .initial).quote = none ∧ endsEscaping before = false ∧
      ∀ u v, after = u ++ quote :: v → endsEscaping u = true := by
  constructor
  · rintro ⟨before, after, rfl, split, complete, escaped⟩
    exact ⟨before.toList, after.toList, by simp, splitTerms_succeeds_iff.mp split, complete, escaped⟩
  · rintro ⟨before, after, text, outside, complete, escaped⟩
    refine ⟨String.ofList before, String.ofList after, ?_, ?_, ?_, ?_⟩
    · rw [← String.toList_inj, text]
      simp
    · rwa [splitTerms_succeeds_iff, String.toList_ofList]
    · rwa [String.toList_ofList]
    · rwa [String.toList_ofList]

theorem leftOpen_of_splitTerms (failed : splitTerms line = .error (.unclosedQuote quote)) : LeftOpen quote line :=
  leftOpen_iff.mpr (TermScan.exists_opening (splitTerms_eq_error_iff.mp failed))

theorem splitTerms_of_leftOpen (isQuote : quote = '\'' ∨ quote = '"') (leftOpen : LeftOpen quote line) :
    splitTerms line = .error (.unclosedQuote quote) := by
  obtain ⟨before, after, text, outside, complete, escaped⟩ := leftOpen_iff.mp leftOpen
  have other : quote ≠ '\\' := by rcases isQuote with rfl | rfl <;> decide
  rw [splitTerms_eq_error_iff, text, List.foldl_append, List.foldl_cons]
  have awake : (before.foldl TermScan.step .initial).escaping = false := by
    rw [TermScan.escaping_initial, complete]
  have opened := (TermScan.quote_step_iff other (before.foldl TermScan.step .initial) quote).mpr
    (.inr ⟨outside, awake, rfl, isQuote⟩)
  refine TermScan.quote_foldl_of_escaped other opened ?_ escaped
  rw [TermScan.escaping_step, decide_eq_false other, Bool.false_and]

/-- Behind a line that ends outside of quotes, with a character for every backslash, a space and more text only add to
    its terms: those of the text are put behind, and a quote that the text leaves open is reported as it is. -/
theorem splitTerms_append_space {a : String} {terms : List String} (split : splitTerms a = .ok terms)
    (complete : endsEscaping a.toList = false) (b : String) :
    (∀ others, splitTerms b = .ok others → splitTerms (a ++ " " ++ b) = .ok (terms ++ others)) ∧
    ∀ error, splitTerms b = .error error → splitTerms (a ++ " " ++ b) = .error error := by
  obtain ⟨outside, rfl⟩ := TermScan.finish_eq_ok_iff.mp split
  have awake : (a.toList.foldl TermScan.step .initial).escaping = false := by
    rw [TermScan.escaping_initial, complete]
  have composed : splitTerms (a ++ " " ++ b) =
      (splitTerms b).map ((a.toList.foldl TermScan.step .initial).flush.terms ++ ·) := by
    rw [splitTerms, String.toList_append, String.toList_append, List.foldl_append, List.foldl_append]
    rw [show " ".toList = [' '] from rfl, List.foldl_cons, List.foldl_nil, TermScan.step_space outside awake,
      TermScan.foldl_behind, TermScan.finish_behind]
    rfl
  constructor
  · intro others right
    rw [composed, right]
    rfl
  · intro error right
    rw [composed, right]
    rfl

theorem splitTerms_append_space_quoted :
    splitTerms ("f 'a b'c\\\\" ++ " " ++ "\"d e\"") = .ok (["f", "a bc\\"] ++ ["d e"]) ∧
    splitTerms ("f 'a b'c\\\\" ++ " " ++ "d 'e") = .error (.unclosedQuote '\'') :=
  have left : splitTerms "f 'a b'c\\\\" = .ok ["f", "a bc\\"] := by decide
  ⟨(splitTerms_append_space left (by decide) _).1 _ (by decide),
    (splitTerms_append_space left (by decide) _).2 _ (by decide)⟩

/-- Splitting fails with a quote exactly if that one is left open, and succeeds if neither kind of quote is. -/
theorem splitTerms_unclosedQuote :
    (∀ (line : String) (quote : Char), (quote = '\'' ∨ quote = '"') →
      (splitTerms line = .error (.unclosedQuote quote) ↔ LeftOpen quote line)) ∧
    ∀ line : String, ¬ LeftOpen '\'' line → ¬ LeftOpen '"' line → ∃ terms, splitTerms line = .ok terms := by
  refine ⟨fun line quote isQuote => ⟨leftOpen_of_splitTerms, splitTerms_of_leftOpen isQuote⟩, ?_⟩
  intro line notSingle notDouble
  cases outcome : splitTerms line with
  | ok terms => exact ⟨terms, rfl⟩
  | error error =>
    obtain ⟨quote⟩ := error
    have leftOpen := leftOpen_of_splitTerms outcome
    rcases TermScan.isQuote_of_quote_foldl (splitTerms_eq_error_iff.mp outcome) with rfl | rfl
    · exact absurd leftOpen notSingle
    · exact absurd leftOpen notDouble

theorem splitTerms_unclosedQuote_escaped :
    LeftOpen '"' "'a' \"b\\\"c '" ∧ ∃ terms, splitTerms "a\\' 'b\"'" = .ok terms := by
  obtain ⟨blamed, otherwise⟩ := splitTerms_unclosedQuote
  refine ⟨(blamed _ '"' (.inr rfl)).mp (by decide), otherwise _ ?_ ?_⟩
  · rw [← blamed _ _ (.inl rfl)]
    decide
  · rw [← blamed _ _ (.inr rfl)]
    decide

end Calculator
