import Calculator.Session.Line

/-! # Lines of byte streams

A stream that ends with a line feed is a stream of whole lines, and what is appended to it adds lines behind them. A
line feed behind any stream closes its last line; that line reads the same closed or not.
-/

/-- What trimming takes from the end of a list satisfies the predicate, and what it leaves does not end so. -/
theorem Calculator.exists_trimmed_append {α : Type} (p : α → Bool) (l : List α) :
    ∃ last, (l.reverse.dropWhile p).reverse ++ last = l ∧ (∀ a ∈ last, p a = true) ∧
      ∀ a, (l.reverse.dropWhile p).reverse.getLast? = some a → p a = false := by
  refine ⟨(l.reverse.takeWhile p).reverse, ?_, ?_, ?_⟩
  · rw [← List.reverse_append, List.takeWhile_append_dropWhile, List.reverse_reverse]
  · intro a member
    exact List.all_eq_true.mp List.all_takeWhile a (List.mem_reverse.mp member)
  · intro a last
    have head := List.head?_dropWhile_not p l.reverse
    rw [List.getLast?_reverse] at last
    simpa only [last] using head

namespace Calculator.Input

/-- Whether a stream is made of whole lines. -/
def IsWhole (bytes : List UInt8) : Prop := bytes = [] ∨ bytes.getLast? = some lineFeed

theorem splitLines_lineFeed (rest : List UInt8) :
    splitLines (lineFeed :: rest) = ([] :: (splitLines rest).1, (splitLines rest).2) := by
  simp [splitLines]

theorem splitLines_cons {b : UInt8} (h : b ≠ lineFeed) (rest : List UInt8) :
    splitLines (b :: rest) =
      match (splitLines rest).1 with
      | [] => ([], b :: (splitLines rest).2)
      | line :: more => ((b :: line) :: more, (splitLines rest).2) := by
  cases lines : (splitLines rest).1 <;> simp [splitLines, h, lines]

theorem splitLines_of_not_mem {bytes : List UInt8} (h : lineFeed ∉ bytes) : splitLines bytes = ([], bytes) := by
  induction bytes with
  | nil => rfl
  | cons b rest ih =>
    rw [List.mem_cons, not_or] at h
    rw [splitLines_cons (Ne.symm h.1), ih h.2]

theorem lineFeed_not_mem_splitLines (bytes : List UInt8) :
    (∀ line ∈ (splitLines bytes).1, lineFeed ∉ line) ∧ lineFeed ∉ (splitLines bytes).2 := by
  induction bytes with
  | nil => simp [splitLines]
  | cons b rest ih =>
    by_cases h : b = lineFeed
    · subst h
      rw [splitLines_lineFeed]
      simpa using ih
    · rw [splitLines_cons h]
      cases lines : (splitLines rest).1 with
      | nil => simpa [Ne.symm h] using ih.2
      | cons line more =>
        rw [lines] at ih
        simpa [Ne.symm h] using ih

theorem lineFeed_not_mem_of_mem_lines {input : Input} {line : List UInt8} (member : line ∈ input.lines) :
    lineFeed ∉ line := by
  obtain ⟨closed, open_⟩ := lineFeed_not_mem_splitLines input.bytes
  unfold lines at member
  simp only at member
  split at member
  · exact closed line member
  · rcases List.mem_append.mp member with member | member
    · exact closed line member
    · rw [List.mem_singleton.mp member]
      exact open_

theorem splitLines_append_lineFeed (bytes : List UInt8) :
    splitLines (bytes ++ [lineFeed]) = ((splitLines bytes).1 ++ [(splitLines bytes).2], []) := by
  induction bytes with
  | nil => rfl
  | cons b rest ih =>
    by_cases h : b = lineFeed
    · rw [h, List.cons_append, splitLines_lineFeed, splitLines_lineFeed, ih]
      rfl
    · rw [List.cons_append, splitLines_cons h, splitLines_cons h, ih]
      cases (splitLines rest).1 <;> rfl

theorem splitLines_append_of_eq_nil {bytes : List UInt8} (closed : (splitLines bytes).2 = []) (more : List UInt8) :
    splitLines (bytes ++ more) = ((splitLines bytes).1 ++ (splitLines more).1, (splitLines more).2) := by
  induction bytes with
  | nil => rfl
  | cons b rest ih =>
    by_cases h : b = lineFeed
    · subst h
      rw [splitLines_lineFeed] at closed ⊢
      rw [List.cons_append, splitLines_lineFeed, ih closed]
      rfl
    · rw [splitLines_cons h] at closed ⊢
      rw [List.cons_append, splitLines_cons h]
      cases lines : (splitLines rest).1 with
      | nil =>
        rw [lines] at closed
        cases closed
      | cons line others =>
        rw [lines] at closed
        rw [ih closed, lines]
        rfl

theorem splitLines_append_lineFeed_cons {line : List UInt8} (single : lineFeed ∉ line) (rest : List UInt8) :
    splitLines (line ++ lineFeed :: rest) = (line :: (splitLines rest).1, (splitLines rest).2) := by
  have closed := splitLines_append_lineFeed line
  rw [splitLines_of_not_mem single] at closed
  rw [List.append_cons, splitLines_append_of_eq_nil (by rw [closed]), closed]
  rfl

theorem snd_splitLines_of_isWhole {bytes : List UInt8} (whole : IsWhole bytes) : (splitLines bytes).2 = [] := by
  rcases whole with rfl | last
  · rfl
  · obtain ⟨front, rfl⟩ := List.getLast?_eq_some_iff.mp last
    rw [splitLines_append_lineFeed]

theorem isWhole_append_lineFeed (bytes : List UInt8) : IsWhole (bytes ++ [lineFeed]) := by
  right
  simp

theorem script_of_isWhole {bytes : List UInt8} (whole : IsWhole bytes) (failure : Option StreamError) :
    script ⟨bytes, failure⟩ = (splitLines bytes).1.map fun line => Line.ofText (lineText line) := by
  simp [script, lines, snd_splitLines_of_isWhole whole]

theorem script_eq_nil_iff {bytes : List UInt8} (whole : IsWhole bytes) (failure : Option StreamError) :
    script ⟨bytes, failure⟩ = [] ↔ bytes = [] := by
  rw [script_of_isWhole whole, List.map_eq_nil_iff]
  rcases whole with rfl | last
  · simp [splitLines]
  · obtain ⟨front, rfl⟩ := List.getLast?_eq_some_iff.mp last
    simp [splitLines_append_lineFeed]

theorem script_append {bytes : List UInt8} (whole : IsWhole bytes) (more : List UInt8) (failure : Option StreamError) :
    script ⟨bytes ++ more, failure⟩ = script ⟨bytes, failure⟩ ++ script ⟨more, failure⟩ := by
  rw [script_of_isWhole whole]
  simp only [script, lines, splitLines_append_of_eq_nil (snd_splitLines_of_isWhole whole), ← List.map_append]
  split <;> simp

theorem script_between {bytes : List UInt8} (whole : IsWhole bytes) (middle more : List UInt8)
    (failure : Option StreamError) :
    script ⟨bytes ++ (middle ++ [lineFeed]) ++ more, failure⟩ =
      script ⟨bytes, failure⟩ ++ (script ⟨middle ++ [lineFeed], failure⟩ ++ script ⟨more, failure⟩) := by
  rw [List.append_assoc, script_append whole, script_append (isWhole_append_lineFeed middle)]

theorem script_line {line : List UInt8} (single : lineFeed ∉ line) (failure : Option StreamError) :
    script ⟨line ++ [lineFeed], failure⟩ = [Line.ofText (lineText line)] := by
  rw [script_of_isWhole (isWhole_append_lineFeed line), splitLines_append_lineFeed, splitLines_of_not_mem single]
  rfl

/-- The bytes of lines, each with its line feed. -/
def joinLines (lines : List (List UInt8)) : List UInt8 := lines.flatMap (· ++ [lineFeed])

theorem script_joinLines {lines : List (List UInt8)} (single : ∀ line ∈ lines, lineFeed ∉ line)
    (failure : Option StreamError) :
    script ⟨joinLines lines, failure⟩ = lines.map fun line => Line.ofText (lineText line) := by
  induction lines with
  | nil => simp [joinLines, script, Input.lines, splitLines]
  | cons line rest ih =>
    have appended : joinLines (line :: rest) = (line ++ [lineFeed]) ++ joinLines rest := rfl
    rw [appended, script_append (isWhole_append_lineFeed line), script_line (single line List.mem_cons_self),
      ih fun line member => single line (List.mem_cons_of_mem _ member)]
    rfl

/-- A line feed behind a stream adds a blank line at most. -/
theorem script_append_lineFeed (bytes : List UInt8) (failure : Option StreamError) :
    ∃ blanks, script ⟨bytes ++ [lineFeed], failure⟩ = script (.ofBytes bytes) ++ blanks ∧
      ∀ line ∈ blanks, line = .blank := by
  rw [script_of_isWhole (isWhole_append_lineFeed bytes), splitLines_append_lineFeed]
  by_cases closed : (splitLines bytes).2 = []
  · refine ⟨[.blank], ?_, by simp⟩
    have blank : Line.ofText (lineText []) = .blank := by simp [Line.ofText, lineText, Utf8.decode, Utf8.decodeFrom]
    simp [script, lines, ofBytes, closed, blank]
  · exact ⟨[], by simp [script, lines, ofBytes, closed], by simp⟩

end Calculator.Input
