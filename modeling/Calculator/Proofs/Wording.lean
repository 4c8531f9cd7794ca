import Calculator.Proofs.Decoding
import Calculator.Proofs.Framing

/-! # What lines say

A line is a command only if its first byte is a colon. A path without blanks, quotes and backslashes names itself in a
command, as long as the line does not lose its end.
-/

namespace Calculator

namespace TermScan

/-- Whether a character stands for itself in a command. -/
def isBare (c : Char) : Bool := c ≠ ' ' && c ≠ '\'' && c ≠ '"' && c ≠ '\\'

theorem foldl_step_of_isBare {cs : List Char} (bare : ∀ c ∈ cs, isBare c = true) (terms : List String) (term : String) :
    cs.foldl step ⟨terms, term, none, false⟩ = ⟨terms, term ++ String.ofList cs, none, false⟩ := by
  induction cs generalizing term with
  | nil => simp
  | cons c rest ih =>
    have plain : c ≠ ' ' ∧ c ≠ '\'' ∧ c ≠ '"' ∧ c ≠ '\\' := by
      simpa [isBare, and_assoc] using bare c List.mem_cons_self
    have pushed : step ⟨terms, term, none, false⟩ c = ⟨terms, term.push c, none, false⟩ := by
      simp [step, push, plain]
    rw [List.foldl_cons, pushed, ih fun c member => bare c (List.mem_cons_of_mem _ member)]
    simp [String.ext_iff]

/-- Whether all characters of the terms are of a kind. -/
def Consists (scan : TermScan) (kind : Char → Prop) : Prop :=
  (∀ term ∈ scan.terms, ∀ c ∈ term.toList, kind c) ∧ ∀ c ∈ scan.term.toList, kind c

variable {scan : TermScan} {kind : Char → Prop}

theorem Consists.push (consists : scan.Consists kind) {c : Char} (own : kind c) : (scan.push c).Consists kind := by
  refine ⟨consists.1, ?_⟩
  intro d member
  rw [TermScan.push, String.toList_push, List.mem_append, List.mem_singleton] at member
  rcases member with member | rfl
  · exact consists.2 d member
  · exact own

theorem Consists.flush (consists : scan.Consists kind) : scan.flush.Consists kind := by
  unfold TermScan.flush
  split
  · exact consists
  · refine ⟨?_, by simp⟩
    intro term member
    rcases List.mem_append.mp member with member | member
    · exact consists.1 term member
    · rw [List.mem_singleton.mp member]
      exact consists.2

theorem Consists.step (consists : scan.Consists kind) {c : Char} (own : kind c) : (scan.step c).Consists kind := by
  unfold TermScan.step
  split
  · exact consists.push own
  · split
    · exact consists
    · split
      · split
        · exact consists
        · exact consists.push own
      · split
        · exact consists
        · split
          · exact consists.flush
          · exact consists.push own

theorem Consists.foldl (consists : scan.Consists kind) {cs : List Char} (own : ∀ c ∈ cs, kind c) :
    (cs.foldl TermScan.step scan).Consists kind := by
  induction cs generalizing scan with
  | nil => exact consists
  | cons c rest ih =>
    exact ih (consists.step (own c List.mem_cons_self)) fun d member => own d (List.mem_cons_of_mem _ member)

end TermScan

theorem mem_toList_of_splitTerms {line : String} {terms : List String} (split : splitTerms line = .ok terms) :
    ∀ term ∈ terms, ∀ c ∈ term.toList, c ∈ line.toList := by
  have initial : TermScan.initial.Consists (· ∈ line.toList) := by simp [TermScan.Consists, TermScan.initial]
  have consists := (initial.foldl fun _ member => member).flush
  unfold splitTerms TermScan.finish at split
  split at split
  · cases split
  · cases split
    exact consists.1

theorem Command.mem_of_ofTerms? {terms paths : List String} (read : ofTerms? terms = some (.file paths)) :
    ∀ path ∈ paths, path ∈ terms := by
  cases terms with
  | nil => cases read
  | cons word rest =>
    obtain rfl : rest = paths := by grind [ofTerms?]
    exact fun path member => List.mem_cons_of_mem word member

namespace Line

theorem ofCommandText_eq_file {text : String} {paths : List String}
    (read : ofCommandText text = .command (.file paths)) :
    ∃ terms, splitTerms text = .ok terms ∧ Command.ofTerms? terms = some (.file paths) := by
  unfold ofCommandText Command.parse at read
  cases split : splitTerms text with
  | error error =>
    rw [split] at read
    cases read
  | ok terms =>
    rw [split] at read
    cases named : Command.ofTerms? terms with
    | none => simp [Except.map, named] at read
    | some command =>
      simp only [Except.map, named, Line.command.injEq] at read
      exact ⟨terms, rfl, by rw [named, read]⟩

theorem mem_toList_of_mem_paths {text path : String} (named : path ∈ (ofText text).paths) :
    ∀ c ∈ path.toList, c ∈ text.toList := by
  unfold ofText at named
  split at named
  · cases named
  · rename_i rest chars
    unfold paths at named
    split at named
    · rename_i list read
      obtain ⟨terms, split, command⟩ := ofCommandText_eq_file read
      intro c member
      have inRest := mem_toList_of_splitTerms split path (Command.mem_of_ofTerms? command path named) c member
      rw [String.toList_ofList] at inRest
      rw [chars]
      exact List.mem_cons_of_mem _ inRest
    · cases named
  · cases named

end Line

/-- A path that a command names as it is. -/
structure IsBarePath (path : String) : Prop where
  nonempty : path ≠ ""
  bare : path.toList.all TermScan.isBare = true
  single : '\n' ∉ path.toList
  closed : path.toList.getLast? ≠ some '\r'

/-- The text of a line that runs a file. -/
def sourceText (path : String) : String := ":file " ++ path

theorem splitTerms_file {path : String} (bare : IsBarePath path) :
    splitTerms (String.ofList ('f' :: 'i' :: 'l' :: 'e' :: ' ' :: path.toList)) = .ok ["file", path] := by
  have word : ['f', 'i', 'l', 'e', ' '].foldl TermScan.step .initial = ⟨["file"], "", none, false⟩ := by decide
  have scanned : ('f' :: 'i' :: 'l' :: 'e' :: ' ' :: path.toList).foldl TermScan.step .initial =
      ⟨["file"], path, none, false⟩ := by
    have all := TermScan.foldl_step_of_isBare (List.all_eq_true.mp bare.bare) ["file"] ""
    rw [← word, ← List.foldl_append] at all
    simpa using all
  have something : path.isEmpty = false := by simpa using bare.nonempty
  rw [splitTerms, String.toList_ofList, scanned]
  simp [TermScan.finish, TermScan.flush, something]

namespace Input

/-- The byte that begins a command. -/
def colon : UInt8 := 58

/-- A line that is no command. -/
structure IsPlain (line : List UInt8) : Prop where
  single : lineFeed ∉ line
  free : line.head? ≠ some colon

theorem lineText_encode {text : String} (closed : text.toList.getLast? ≠ some '\r') :
    lineText (Utf8.encode text) = text := by
  have kept : text.toList.reverse.dropWhile (· = '\r') = text.toList.reverse := by
    rw [← List.head?_reverse] at closed
    cases reversed : text.toList.reverse with
    | nil => rfl
    | cons c rest =>
      rw [reversed] at closed
      apply List.dropWhile_cons_of_neg
      simpa using closed
  rw [lineText, Utf8.decode_encode, kept, List.reverse_reverse, String.ofList_toList]

theorem lineText_prefix (line : List UInt8) : (lineText line).toList <+: Utf8.decodeFrom none line := by
  have trimmed := List.dropWhile_suffix (l := (Utf8.decodeFrom none line).reverse) (· = '\r')
  rw [← List.reverse_prefix, List.reverse_reverse] at trimmed
  simpa [lineText, Utf8.decode] using trimmed

theorem newline_not_mem_lineText {line : List UInt8} (single : lineFeed ∉ line) : '\n' ∉ (lineText line).toList := by
  intro member
  have own : ¬ Utf8.IsForeign '\n' := by simp [Utf8.IsForeign]
  have trimmed := lineText_prefix line
  obtain ⟨byte, inLine, value⟩ := Utf8.exists_mem_of_mem_decodeFrom own (by simp) (trimmed.subset member)
  have same : byte = lineFeed := UInt8.toNat_inj.mp value
  rw [same] at inLine
  exact single inLine

theorem newline_not_mem_of_mem_paths {input : Input} {path : String} (named : path ∈ input.paths) :
    '\n' ∉ path.toList := by
  obtain ⟨line, inScript, named⟩ := List.mem_flatMap.mp named
  obtain ⟨bytes, inLines, rfl⟩ := List.mem_map.mp inScript
  intro member
  exact newline_not_mem_lineText (lineFeed_not_mem_of_mem_lines inLines) (Line.mem_toList_of_mem_paths named _ member)

theorem ofText_of_isPlain {line : List UInt8} (plain : IsPlain line) :
    Line.ofText (lineText line) = .blank ∨ Line.ofText (lineText line) = .expression (lineText line) := by
  unfold Line.ofText
  split
  · left
    rfl
  · rename_i rest text
    exfalso
    obtain ⟨more, decoded⟩ := lineText_prefix line
    rw [text, List.cons_append] at decoded
    cases line with
    | nil => cases decoded
    | cons byte bytes =>
      have own : ¬ Utf8.IsForeign ':' := by simp [Utf8.IsForeign]
      have value := Utf8.toNat_of_decodeFrom_cons decoded.symm own
      apply plain.free
      have same : byte = colon := UInt8.toNat_inj.mp value
      rw [same, List.head?_cons]
  · right
    rfl

theorem toList_sourceText (path : String) :
    (sourceText path).toList = [':', 'f', 'i', 'l', 'e', ' '] ++ path.toList := by
  simp [sourceText]

theorem ofText_sourceText {path : String} (bare : IsBarePath path) :
    Line.ofText (lineText (Utf8.encode (sourceText path))) = .command (.file [path]) := by
  have closed : (sourceText path).toList.getLast? ≠ some '\r' := by
    rw [toList_sourceText, List.getLast?_append]
    cases last : path.toList.getLast? with
    | none => simp
    | some c => simpa [last] using bare.closed
  rw [lineText_encode closed, Line.ofText, toList_sourceText]
  simp only [List.cons_append, List.nil_append, Line.ofCommandText, Command.parse, splitTerms_file bare]
  simp [Except.map, Command.ofTerms?]

theorem lineFeed_not_mem_sourceText {path : String} (bare : IsBarePath path) :
    lineFeed ∉ Utf8.encode (sourceText path) := by
  intro member
  have inText : '\n' ∈ (sourceText path).toList := Utf8.mem_toList_of_mem_encode (by decide) member
  rw [toList_sourceText, List.mem_append] at inText
  rcases inText with inWord | inPath
  · simp at inWord
  · exact bare.single inPath

end Input

end Calculator
