import Calculator.Proofs.Framing
import Calculator.Proofs.Reading

/-! # Sourcing is inlining

Where files run each other without cycles and not too deep, it does not matter at which level a file is read: its plan
is the same. So a command that runs one file can be replaced by the lines of that file, unless one of them leaves the
stream.
-/

namespace Calculator

/-- A rank for the files that can be opened: each has a greater one than the files that it runs. -/
structure Ranking (files : FileMap) where
  rank : String → Nat
  positive : ∀ path input, files path = some input → 1 ≤ rank path
  descends : ∀ path input, files path = some input →
    ∀ inner ∈ input.paths, (files inner).isSome → rank inner < rank path

namespace Plan

variable {files : FileMap} {interactive once : Bool} {failure : Option StreamError} {handle handle' : Line → List Act}

theorem ofLine_congr {run run' : Input → List Act} {line : Line}
    (same : ∀ path ∈ line.paths, ofPath files run path = ofPath files run' path) :
    ofLine files run interactive line = ofLine files run' interactive line := by
  match line with
  | .blank | .command .exit | .command .help | .command (.unknown _) | .malformed _ | .expression _ => rfl
  | .command (.file paths) =>
    simp only [ofLine, List.flatMap_def]
    exact congrArg List.flatten (List.map_congr_left same)

theorem ofLines_congr {lines : List Line} (same : ∀ line ∈ lines, handle line = handle' line) :
    ofLines handle interactive once failure lines = ofLines handle' interactive once failure lines := by
  induction lines with
  | nil => rfl
  | cons line rest ih =>
    rw [ofLines, ofLines, same line List.mem_cons_self, ih fun line member => same line (List.mem_cons_of_mem _ member)]

theorem ofLines_append_congr {after after' : List Line}
    (same : ofLines handle interactive once failure after = ofLines handle interactive once failure after')
    (before : List Line) :
    ofLines handle interactive once failure (before ++ after) =
      ofLines handle interactive once failure (before ++ after') := by
  induction before with
  | nil => exact same
  | cons line rest ih => rw [List.cons_append, List.cons_append, ofLines, ofLines, ih]

theorem ofLines_append_of_staying {lines : List Line} (staying : .command .exit ∉ lines) (after : List Line) :
    ofLines handle false once failure (lines ++ after) =
      lines.flatMap handle ++ ofLines handle false once failure after := by
  rw [ofLines_eq, ofLines_eq, Bool.false_and, Script.taken_append_of_staying staying,
    Script.runsOut_append_of_staying staying, List.flatMap_append, List.append_assoc]
  rfl

theorem ofLines_of_staying {lines : List Line} (staying : .command .exit ∉ lines) :
    ofLines handle false once none lines = lines.flatMap handle := by
  have appended : ofLines handle false once none (lines ++ []) = _ := ofLines_append_of_staying staying []
  rw [List.append_nil] at appended
  simpa [ofLines, prompts] using appended

theorem within_of_staying {content : List UInt8} (staying : .command .exit ∉ (Input.ofBytes content).script)
    (levels : Nat) :
    within files once (levels + 1) false (.ofBytes content) =
      (Input.ofBytes content).script.flatMap (ofLine files (within files once levels false) false) :=
  ofLines_of_staying staying

/-- From its rank on, the levels left do not change the plan of a file. -/
theorem within_eq_of_rank_le (ranking : Ranking files) {path : String} {input : Input}
    (opens : files path = some input) {m n : Nat} (hm : ranking.rank path ≤ m) (hn : ranking.rank path ≤ n) :
    within files once m false input = within files once n false input := by
  induction m generalizing n path input with
  | zero =>
    have := ranking.positive path input opens
    omega
  | succ m ih =>
    cases n with
    | zero =>
      have := ranking.positive path input opens
      omega
    | succ n =>
      apply ofLines_congr
      intro line member
      apply ofLine_congr
      intro inner named
      unfold ofPath
      cases opensInner : files inner with
      | none => rfl
      | some input' =>
        have lower : ranking.rank inner < ranking.rank path := by
          apply ranking.descends path input opens
          · exact List.mem_flatMap.mpr ⟨line, member, named⟩
          · rw [opensInner]
            rfl
        exact congrArg (List.map Act.caught) (ih opensInner (by omega) (by omega))

/-- One level further down, the lines of a file have the acts that they have in its place. -/
theorem within_eq_flatMap (ranking : Ranking files) (once : Bool) {path : String} {content : List UInt8}
    (opens : files path = some (.ofBytes content)) (staying : .command .exit ∉ (Input.ofBytes content).script)
    {levels : Nat} (deep : ranking.rank path ≤ levels + 1) :
    within files once (levels + 1) false (.ofBytes content) =
      (Input.ofBytes content).script.flatMap (ofLine files (within files once (levels + 1) false) false) := by
  rw [within_eq_of_rank_le ranking opens deep (show ranking.rank path ≤ levels + 2 by omega)]
  exact within_of_staying staying (levels + 1)

end Plan

namespace Session

open Plan

variable {files : FileMap} {depth : Nat} {a line b content : List UInt8} {failure : Option StreamError} {path : String}

theorem plan_inlined (ranking : Ranking files) (once : Bool) (whole : Input.IsWhole a)
    (single : Input.lineFeed ∉ line) (command : Line.ofText (Input.lineText line) = .command (.file [path]))
    (opens : files path = some (.ofBytes content)) (staying : .command .exit ∉ (Input.ofBytes content).script)
    (shallow : depth + ranking.rank path ≤ maxDepth) :
    plan files once false depth ⟨a ++ (line ++ [Input.lineFeed]) ++ b, failure⟩ =
      plan files once false depth ⟨a ++ (content ++ [Input.lineFeed]) ++ b, failure⟩ := by
  have positive := ranking.positive path _ opens
  obtain ⟨levels, left⟩ : ∃ levels, maxDepth + 1 - depth = levels + 2 := ⟨maxDepth - 1 - depth, by omega⟩
  obtain ⟨blanks, closed, blank⟩ := Input.script_append_lineFeed content failure
  unfold plan
  rw [left, within, within, Input.script_between whole, Input.script_between whole, Input.script_line single, command,
    closed]
  apply ofLines_append_congr
  have command_stays : Line.command .exit ∉ [Line.command (.file [path])] := by simp
  have content_stays : Line.command .exit ∉ (Input.ofBytes content).script ++ blanks := by
    intro member
    rcases List.mem_append.mp member with member | member
    · exact staying member
    · cases blank _ member
  have idle : blanks.flatMap (ofLine files (within files once (levels + 1) false) false) = [] := by
    apply List.flatMap_eq_nil_iff.mpr
    intro line member
    rw [blank line member]
    rfl
  have inlined := within_eq_flatMap ranking once opens staying (show ranking.rank path ≤ levels + 1 by omega)
  rw [ofLines_append_of_staying command_stays, ofLines_append_of_staying content_stays, List.flatMap_append, idle]
  simp [ofLine, ofPath, opens, ← inlined, map_caught_within]

/-- A line that runs a single file does to the variables and the error channel what the lines of the file do in its
    place. The files have ranks that fit below the deepest level, and no line of this one leaves the stream. -/
theorem process_inlined (ranking : Ranking files) {interactive : Bool} {s : Session}
    (mode : interactive = false ∨ s.once = false) (whole : Input.IsWhole a) (single : Input.lineFeed ∉ line)
    (command : Line.ofText (Input.lineText line) = .command (.file [path]))
    (opens : files path = some (.ofBytes content)) (staying : .command .exit ∉ (Input.ofBytes content).script)
    (shallow : ∀ named ∈ Input.paths ⟨a ++ (line ++ [Input.lineFeed]) ++ b, failure⟩, (files named).isSome →
      depth + ranking.rank named ≤ maxDepth) :
    ∃ (ending : Option StreamError) (t : Session) (shown : Channel),
      process files interactive depth ⟨a ++ (line ++ [Input.lineFeed]) ++ b, failure⟩ s.unlimited = finish ending t ∧
      process files interactive depth ⟨a ++ (content ++ [Input.lineFeed]) ++ b, failure⟩ s.unlimited =
        finish ending (t.withOut shown) := by
  have named : path ∈ Input.paths ⟨a ++ (line ++ [Input.lineFeed]) ++ b, failure⟩ := by
    rw [Input.paths, Input.script_between whole, Input.script_line single, command]
    simp [Line.paths]
  have opened : (files path).isSome := by
    rw [opens]
    rfl
  have planned : plan files s.once false depth ⟨a ++ (line ++ [Input.lineFeed]) ++ b, failure⟩ =
      plan files s.once false depth ⟨a ++ (content ++ [Input.lineFeed]) ++ b, failure⟩ :=
    plan_inlined ranking s.once whole single command opens staying (shallow path named opened)
  obtain ⟨shown, run⟩ := process_unlimited files depth ⟨a ++ (line ++ [Input.lineFeed]) ++ b, failure⟩ mode
  obtain ⟨shown', run'⟩ := process_unlimited files depth ⟨a ++ (content ++ [Input.lineFeed]) ++ b, failure⟩ mode
  rw [planned] at run
  exact ⟨_, _, s.unlimited.out.write shown', run, run'⟩

end Session

/-- A file that runs another one and ends without a line feed. -/
def FileMap.nested : FileMap
  | "outer" => some (.ofBytes (Utf8.encode "x = 2\n:file inner missing\nx *"))
  | "inner" => some (.ofBytes (Utf8.encode "y = x\r\n"))
  | _ => none

def FileMap.nestedRanking : Ranking nested where
  rank path := if path = "outer" then 2 else 1
  positive := by
    intro path _ _
    split <;> decide
  descends := by
    intro path content opens
    unfold nested at opens
    split at opens
    · cases opens
      decide
    · cases opens
      decide
    · cases opens

theorem Session.process_nested_inlined :
    ∃ (ending : Option StreamError) (t : Session) (shown : Channel),
      process .nested false 126 (.ofBytes (Utf8.encode "x = 1\n:file outer\nz = y\n"))
          (.start true .unbounded .unbounded) = finish ending t ∧
        process .nested false 126 (.ofBytes (Utf8.encode "x = 1\nx = 2\n:file inner missing\nx *\nz = y\n"))
          (.start true .unbounded .unbounded) = finish ending (t.withOut shown) := by
  have whole : Input.IsWhole (Utf8.encode "x = 1\n") := .inr rfl
  have command : Line.ofText (Input.lineText (Utf8.encode ":file outer")) = .command (.file ["outer"]) := by decide
  exact process_inlined FileMap.nestedRanking (s := .start true .unbounded .unbounded) (b := Utf8.encode "z = y\n")
    (.inl rfl) whole (by decide) command rfl (by decide) (by decide)

end Calculator
