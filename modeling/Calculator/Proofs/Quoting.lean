import Calculator.Command

/-! # Quoting

The ways to write a term on a command line, and lines of terms written in any of them with spaces between. Splitting
such a line gives back the terms. No line has an empty term.
-/

namespace Calculator

/-- A way to write a term. -/
inductive Quoting where
  /-- With backslashes alone. -/
  | bare
  /-- Between double quotes. -/
  | double
  /-- Between single quotes. -/
  | single
  deriving DecidableEq, Repr

namespace Quoting

/-- The quote on both sides of the term. -/
def mark? : Quoting → Option Char
  | bare => none
  | double => some '"'
  | single => some '\''

/-- The characters that have a backslash in front. -/
def special : Quoting → List Char
  | bare => ['\\', '\'', '"', ' ']
  | double => ['\\', '"']
  | single => ['\\', '\'']

def escape (quoting : Quoting) (text : List Char) : List Char :=
  text.flatMap fun c => if c ∈ quoting.special then ['\\', c] else [c]

/-- A term, written. -/
def write (quoting : Quoting) (term : String) : List Char :=
  quoting.mark?.toList ++ quoting.escape term.toList ++ quoting.mark?.toList

end Quoting

/-- A term on a line. -/
structure Written where
  /-- The number of spaces in front. -/
  gap : Nat
  quoting : Quoting
  term : String

/-- The line of written terms, with spaces at the end. -/
def Written.line (trail : Nat) : List Written → List Char
  | [] => List.replicate trail ' '
  | w :: rest => List.replicate w.gap ' ' ++ (w.quoting.write w.term ++ line trail rest)

namespace TermScan

variable {quoting : Quoting} {terms : List String} {term : String}

theorem step_of_notMem_special {c : Char} (plain : c ∉ quoting.special) :
    step ⟨terms, term, quoting.mark?, false⟩ c = ⟨terms, term.push c, quoting.mark?, false⟩ := by
  cases quoting <;> simp_all [Quoting.special, Quoting.mark?, step, push]

theorem foldl_escape (cs : List Char) :
    (quoting.escape cs).foldl step ⟨terms, term, quoting.mark?, false⟩ =
      ⟨terms, term ++ String.ofList cs, quoting.mark?, false⟩ := by
  induction cs generalizing term with
  | nil => simp [Quoting.escape]
  | cons c rest ih =>
    have read : (if c ∈ quoting.special then ['\\', c] else [c]).foldl step ⟨terms, term, quoting.mark?, false⟩ =
        ⟨terms, term.push c, quoting.mark?, false⟩ := by
      by_cases special : c ∈ quoting.special
      · rw [if_pos special]
        rfl
      · rw [if_neg special]
        exact step_of_notMem_special special
    rw [Quoting.escape, List.flatMap_cons, List.foldl_append, read]
    exact ih.trans (by simp [String.ext_iff])

/-- A written term is read as the term, outside of quotes and to the end. -/
theorem foldl_write (quoting : Quoting) (terms : List String) (term text : String) :
    (quoting.write text).foldl step ⟨terms, term, none, false⟩ = ⟨terms, term ++ text, none, false⟩ := by
  have opened : quoting.mark?.toList.foldl step ⟨terms, term, none, false⟩ = ⟨terms, term, quoting.mark?, false⟩ := by
    cases quoting <;> rfl
  have closed (term : String) :
      quoting.mark?.toList.foldl step ⟨terms, term, quoting.mark?, false⟩ = ⟨terms, term, none, false⟩ := by
    cases quoting <;> rfl
  rw [Quoting.write, List.foldl_append, List.foldl_append, opened, foldl_escape, closed, String.ofList_toList]

theorem flush_mk (terms : List String) (term : String) (quote : Option Char) (escaping : Bool) :
    (⟨terms, term, quote, escaping⟩ : TermScan).flush =
      ⟨if term = "" then terms else terms ++ [term], "", quote, escaping⟩ := by
  by_cases empty : term = "" <;> simp [flush, empty]

theorem foldl_spaces {n : Nat} (ended : term = "" ∨ 0 < n) :
    (List.replicate n ' ').foldl step ⟨terms, term, none, false⟩ =
      ⟨if term = "" then terms else terms ++ [term], "", none, false⟩ := by
  induction n generalizing terms term with
  | zero => simp [ended.resolve_right (Nat.lt_irrefl 0)]
  | succ n ih =>
    have space : step ⟨terms, term, none, false⟩ ' ' =
        ⟨if term = "" then terms else terms ++ [term], "", none, false⟩ := flush_mk terms term none false
    rw [List.replicate_succ, List.foldl_cons, space, ih (.inl rfl), if_pos rfl]

theorem finish_mk (terms : List String) (term : String) :
    (⟨terms, term, none, false⟩ : TermScan).finish = .ok (if term = "" then terms else terms ++ [term]) := by
  rw [finish, flush_mk]

theorem finish_line {writings : List Written} (trail : Nat) (nonempty : ∀ w ∈ writings, w.term ≠ "")
    (apart : ∀ w ∈ writings.tail, 0 < w.gap) (ended : term = "" ∨ ∀ w ∈ writings.head?, 0 < w.gap) :
    ((Written.line trail writings).foldl step ⟨terms, term, none, false⟩).finish =
      .ok ((if term = "" then terms else terms ++ [term]) ++ writings.map Written.term) := by
  induction writings generalizing terms term with
  | nil =>
    rw [Written.line, List.map_nil, List.append_nil]
    cases trail with
    | zero => exact finish_mk terms term
    | succ trail => rw [foldl_spaces (.inr trail.succ_pos), finish_mk, if_pos rfl]
  | cons w rest ih =>
    have gap : term = "" ∨ 0 < w.gap := ended.imp_right fun ended => ended w rfl
    have own : w.term ≠ "" := nonempty w List.mem_cons_self
    have others : ∀ v ∈ rest, v.term ≠ "" := fun v member => nonempty v (List.mem_cons_of_mem w member)
    have next : ∀ v ∈ rest.head?, 0 < v.gap := fun v member => apart v (List.mem_of_mem_head? member)
    rw [Written.line, List.foldl_append, foldl_spaces gap, List.foldl_append, foldl_write, String.empty_append,
      ih others (fun v member => apart v (List.mem_of_mem_tail member)) (.inr next), if_neg own, List.append_assoc]
    rfl

theorem nonempty_flush {scan : TermScan} (nonempty : ∀ term ∈ scan.terms, term ≠ "") :
    ∀ term ∈ scan.flush.terms, term ≠ "" := by
  rw [flush_mk]
  grind

theorem nonempty_step {scan : TermScan} (nonempty : ∀ term ∈ scan.terms, term ≠ "") (c : Char) :
    ∀ term ∈ (scan.step c).terms, term ≠ "" := by
  have flushed := nonempty_flush nonempty
  grind [step, push]

theorem nonempty_foldl {scan : TermScan} (nonempty : ∀ term ∈ scan.terms, term ≠ "") (cs : List Char) :
    ∀ term ∈ (cs.foldl step scan).terms, term ≠ "" := by
  induction cs generalizing scan with
  | nil => exact nonempty
  | cons c rest ih => exact ih (nonempty_step nonempty c)

end TermScan

theorem nonempty_of_splitTerms {line : String} {terms : List String} (split : splitTerms line = .ok terms) :
    ∀ term ∈ terms, term ≠ "" := by
  have nonempty : ∀ term ∈ (line.toList.foldl TermScan.step .initial).terms, term ≠ "" :=
    TermScan.nonempty_foldl (by simp [TermScan.initial]) _
  unfold splitTerms TermScan.finish at split
  split at split
  · cases split
  · cases split
    exact TermScan.nonempty_flush nonempty

/-- Terms that are written on a line, each in its own way and with spaces between, are the terms of that line, and the
    paths of the command that runs files if its word stands in front. A line has no other than nonempty terms. -/
theorem splitTerms_line :
    (∀ (writings : List Written) (trail : Nat), (∀ w ∈ writings, w.term ≠ "") → (∀ w ∈ writings.tail, 0 < w.gap) →
      splitTerms (String.ofList (Written.line trail writings)) = .ok (writings.map Written.term) ∧
      ∀ word, (word = "file" ∨ word = "f") →
        Command.parse (word ++ " " ++ String.ofList (Written.line trail writings)) =
          .ok (some (.file (writings.map Written.term)))) ∧
    ∀ line terms, splitTerms line = .ok terms → ∀ term ∈ terms, term ≠ "" := by
  refine ⟨fun writings trail nonempty apart => ⟨?_, fun word named => ?_⟩, fun line terms => nonempty_of_splitTerms⟩
  · rw [splitTerms, String.toList_ofList]
    exact TermScan.finish_line trail nonempty apart (.inl rfl)
  · have begun : (word ++ " ").toList.foldl TermScan.step .initial = ⟨[word], "", none, false⟩ := by
      rcases named with rfl | rfl <;> decide
    have split : splitTerms (word ++ " " ++ String.ofList (Written.line trail writings)) =
        .ok (word :: writings.map Written.term) := by
      rw [splitTerms, String.toList_append, List.foldl_append, begun, String.toList_ofList]
      exact TermScan.finish_line trail nonempty apart (.inl rfl)
    rw [Command.parse, split]
    rcases named with rfl | rfl <;> rfl

theorem splitTerms_line_mixed :
    String.ofList (Written.line 1 [⟨0, .single, "it's"⟩, ⟨2, .bare, "a \""⟩, ⟨1, .double, "\\ "⟩]) =
      "'it\\'s'  a\\ \\\" \"\\\\ \" " ∧
    Command.parse ("f" ++ " " ++ "'it\\'s'  a\\ \\\" \"\\\\ \" ") = .ok (some (.file ["it's", "a \"", "\\ "])) := by
  have text : String.ofList (Written.line 1 [⟨0, .single, "it's"⟩, ⟨2, .bare, "a \""⟩, ⟨1, .double, "\\ "⟩]) =
      "'it\\'s'  a\\ \\\" \"\\\\ \" " := by decide
  have read := (splitTerms_line.1 [⟨0, .single, "it's"⟩, ⟨2, .bare, "a \""⟩, ⟨1, .double, "\\ "⟩] 1
    (by decide) (by decide)).2 "f" (.inr rfl)
  rw [text] at read
  exact ⟨text, read⟩

end Calculator
