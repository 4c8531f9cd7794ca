import Calculator.Proofs.Inlining
import Calculator.Proofs.Wording

/-! # Files in a ring

Files that run each other in a ring are read round and round until no level is left, and then each is read to its end.
So a run is its first lines on the way down and its last lines on the way up, as often as there are levels.
-/

namespace Calculator

/-- Files in a ring: each holds a line, a command that runs the next file, and another line. -/
structure FileRing where
  size : Nat
  size_pos : 0 < size
  path : Fin size → String
  opening : Fin size → List UInt8
  closing : Fin size → List UInt8
  path_bare : ∀ i, IsBarePath (path i)
  opening_plain : ∀ i, Input.IsPlain (opening i)
  closing_plain : ∀ i, Input.IsPlain (closing i)

namespace FileRing

variable (ring : FileRing)

/-- The place of a number in the ring. -/
def place (n : Nat) : Fin ring.size := ⟨n % ring.size, Nat.mod_lt n ring.size_pos⟩

def lines (i : Fin ring.size) : List (List UInt8) :=
  [ring.opening i, Utf8.encode (sourceText (ring.path (ring.place (i + 1)))), ring.closing i]

/-- So many first lines, then the last lines in reverse order. -/
def unrolled (count : Nat) : List (List UInt8) :=
  (List.range count).map (fun n => ring.opening (ring.place n)) ++
    (List.range count).reverse.map fun n => ring.closing (ring.place n)

/-- Every file of the ring can be opened. -/
def Present (files : FileMap) : Prop := ∀ i, files (ring.path i) = some (.ofBytes (Input.joinLines (ring.lines i)))

theorem place_succ (n : Nat) : ring.place (ring.place n + 1) = ring.place (n + 1) := by
  simp [place]

end FileRing

namespace Plan

/-- The acts for a line that is no command. -/
def ofPlain (line : List UInt8) : List Act :=
  ofLine (fun _ => none) (fun _ => []) false (Line.ofText (Input.lineText line))

variable {files : FileMap} {once : Bool} {run : Input → List Act}

theorem ofLine_of_isPlain {line : List UInt8} (plain : Input.IsPlain line) :
    ofLine files run false (Line.ofText (Input.lineText line)) = ofPlain line := by
  unfold ofPlain
  rcases Input.ofText_of_isPlain plain with blank | expression
  · rw [blank]
    rfl
  · rw [expression]
    rfl

theorem ne_exit_of_isPlain {line : List UInt8} (plain : Input.IsPlain line) :
    Line.ofText (Input.lineText line) ≠ .command .exit := by
  rcases Input.ofText_of_isPlain plain with blank | expression
  · simp [blank]
  · simp [expression]

theorem within_of_isPlain {lines : List (List UInt8)} (plain : ∀ line ∈ lines, Input.IsPlain line) (levels : Nat) :
    within files once (levels + 1) false (.ofBytes (Input.joinLines lines)) = lines.flatMap ofPlain := by
  have script : (Input.ofBytes (Input.joinLines lines)).script =
      lines.map fun line => Line.ofText (Input.lineText line) :=
    Input.script_joinLines (fun line member => (plain line member).single) none
  have staying : .command .exit ∉ (Input.ofBytes (Input.joinLines lines)).script := by
    rw [script]
    intro member
    obtain ⟨line, inLines, exit⟩ := List.mem_map.mp member
    exact ne_exit_of_isPlain (plain line inLines) exit
  rw [within_of_staying staying, script, List.flatMap_map, List.flatMap_def, List.flatMap_def]
  exact congrArg List.flatten (List.map_congr_left fun line member => ofLine_of_isPlain (plain line member))

end Plan

namespace FileRing

open Plan

variable {ring : FileRing} {files : FileMap} {once : Bool}

theorem ofLine_path (present : ring.Present files) (levels : Nat) (i : Fin ring.size) :
    ofLine files (within files once levels false) false (.command (.file [ring.path i])) =
      within files once levels false (.ofBytes (Input.joinLines (ring.lines i))) := by
  simp [ofLine, ofPath, present i, map_caught_within]

theorem script_lines (i : Fin ring.size) :
    (Input.ofBytes (Input.joinLines (ring.lines i))).script =
      [Line.ofText (Input.lineText (ring.opening i)), .command (.file [ring.path (ring.place (i + 1))]),
        Line.ofText (Input.lineText (ring.closing i))] := by
  have bare : IsBarePath (ring.path (ring.place (i + 1))) := ring.path_bare _
  have single : ∀ line ∈ ring.lines i, Input.lineFeed ∉ line := by
    intro line member
    simp only [lines, List.mem_cons, List.not_mem_nil, or_false] at member
    rcases member with rfl | rfl | rfl
    · exact (ring.opening_plain i).single
    · exact Input.lineFeed_not_mem_sourceText bare
    · exact (ring.closing_plain i).single
  have scripted := Input.script_joinLines single none
  rw [lines, List.map_cons, List.map_cons, Input.ofText_sourceText bare] at scripted
  exact scripted

theorem within_lines_succ (present : ring.Present files) (levels : Nat) (i : Fin ring.size) :
    within files once (levels + 1) false (.ofBytes (Input.joinLines (ring.lines i))) =
      ofPlain (ring.opening i) ++
        (within files once levels false (.ofBytes (Input.joinLines (ring.lines (ring.place (i + 1))))) ++
          ofPlain (ring.closing i)) := by
  have staying : .command .exit ∉ (Input.ofBytes (Input.joinLines (ring.lines i))).script := by
    have first := ne_exit_of_isPlain (ring.opening_plain i)
    have last := ne_exit_of_isPlain (ring.closing_plain i)
    simp [script_lines, first.symm, last.symm]
  rw [within_of_staying staying, script_lines]
  simp only [List.flatMap_cons, List.flatMap_nil, List.append_nil]
  rw [ofLine_of_isPlain (ring.opening_plain i), ofLine_of_isPlain (ring.closing_plain i), ofLine_path present]

theorem within_lines (present : ring.Present files) (levels n : Nat) :
    within files once levels false (.ofBytes (Input.joinLines (ring.lines (ring.place n)))) =
      (List.range levels).flatMap (fun k => ofPlain (ring.opening (ring.place (n + k)))) ++
        (List.range levels).reverse.flatMap fun k => ofPlain (ring.closing (ring.place (n + k))) := by
  induction levels generalizing n with
  | zero => rfl
  | succ levels ih =>
    -- the level in hand is the outermost: its first line comes before all others and its last line behind them
    rw [within_lines_succ present, ring.place_succ, ih, List.range_succ_eq_map]
    simp [List.flatMap_map, ← List.map_reverse, Nat.add_assoc, Nat.add_comm 1]

theorem isPlain_of_mem_unrolled {count : Nat} {line : List UInt8} (member : line ∈ ring.unrolled count) :
    Input.IsPlain line := by
  rcases List.mem_append.mp member with member | member
  · obtain ⟨n, _, rfl⟩ := List.mem_map.mp member
    exact ring.opening_plain _
  · obtain ⟨n, _, rfl⟩ := List.mem_map.mp member
    exact ring.closing_plain _

/-- The first file of a ring at some level has the acts of as many unrolled lines at any other. -/
theorem within_lines_eq_unrolled (present : ring.Present files) (count levels : Nat) :
    within files once count false (.ofBytes (Input.joinLines (ring.lines (ring.place 0)))) =
      within files once (levels + 1) false (.ofBytes (Input.joinLines (ring.unrolled count))) := by
  rw [within_lines present, within_of_isPlain fun _ => isPlain_of_mem_unrolled]
  simp only [unrolled, List.flatMap_append, List.flatMap_map, Nat.zero_add]

end FileRing

namespace Session

open Plan

variable {files : FileMap} {once : Bool} {depth : Nat}

theorem plan_fileRing {ring : FileRing} (present : ring.Present files) (shallow : depth ≤ maxDepth) :
    plan files once false depth (.ofBytes (Input.joinLines [Utf8.encode (sourceText (ring.path (ring.place 0)))])) =
      plan files once false 0 (.ofBytes (Input.joinLines (ring.unrolled (maxDepth - depth)))) := by
  let stream := Input.joinLines [Utf8.encode (sourceText (ring.path (ring.place 0)))]
  have bare : IsBarePath (ring.path (ring.place 0)) := ring.path_bare _
  have script : (Input.ofBytes stream).script = [.command (.file [ring.path (ring.place 0)])] := by
    rw [← Input.ofText_sourceText bare]
    apply Input.script_joinLines
    intro line member
    rw [List.mem_singleton.mp member]
    exact Input.lineFeed_not_mem_sourceText bare
  have staying : .command .exit ∉ (Input.ofBytes stream).script := by simp [script]
  have left : maxDepth + 1 - depth = maxDepth - depth + 1 := by omega
  calc plan files once false depth (.ofBytes stream)
    _ = within files once (maxDepth - depth + 1) false (.ofBytes stream) := by rw [plan, left]
    _ = ofLine files (within files once (maxDepth - depth) false) false
          (.command (.file [ring.path (ring.place 0)])) := by
      rw [within_of_staying staying, script, List.flatMap_singleton]
    _ = within files once (maxDepth - depth) false (.ofBytes (Input.joinLines (ring.lines (ring.place 0)))) :=
      FileRing.ofLine_path present _ _
    _ = plan files once false 0 (.ofBytes (Input.joinLines (ring.unrolled (maxDepth - depth)))) :=
      FileRing.within_lines_eq_unrolled present _ _

/-- A ring of files is read down to level 128 and then back up: running its first file is running, as a single stream,
    as many first lines as there are levels and their last lines in reverse order. A startup file has one level more. -/
theorem process_fileRing (ring : FileRing) (present : ring.Present files) (s : Session) :
    (∀ depth ≤ 128,
      process files false depth
          (.ofBytes (Input.joinLines [Utf8.encode (sourceText (ring.path (ring.place 0)))])) s =
        process files false 0 (.ofBytes (Input.joinLines (ring.unrolled (128 - depth)))) s) ∧
    runStartup files [ring.path (ring.place 0)] s =
      process files false 0 (.ofBytes (Input.joinLines (ring.unrolled 129))) s := by
  constructor
  · intro depth shallow
    rw [process_eq_perform, process_eq_perform, plan_fileRing present shallow]
    rfl
  · have started : runStartup files [ring.path (ring.place 0)] s =
        source (process files false 0) (.ofBytes (Input.joinLines (ring.lines (ring.place 0)))) s := by
      simp [runStartup, present (ring.place 0)]
    rw [started, source_eq_perform, process_eq_perform, plan, map_caught_within]
    exact congrArg (perform · s) (FileRing.within_lines_eq_unrolled present 129 128)

end Session

/-- Two files that run each other. -/
def FileRing.pair : FileRing where
  size := 2
  size_pos := by decide
  path i := if i = 0 then "a" else "b"
  opening i := if i = 0 then Utf8.encode "x = 1" else Utf8.encode "x = x + "
  closing i := if i = 0 then Utf8.encode "y" else Utf8.encode "x = x * 2"
  path_bare i := by split <;> constructor <;> decide
  opening_plain i := by split <;> constructor <;> decide
  closing_plain i := by split <;> constructor <;> decide

def FileRing.pairFiles : FileMap
  | "a" => some (.ofBytes (Utf8.encode "x = 1\n:file b\ny\n"))
  | "b" => some (.ofBytes (Utf8.encode "x = x + \n:file a\nx = x * 2\n"))
  | _ => none

theorem Session.process_pair :
    FileRing.pair.Present FileRing.pairFiles ∧ ∀ s,
      process FileRing.pairFiles false 125 (.ofBytes (Utf8.encode ":file a\n")) s =
        process FileRing.pairFiles false 0
          (.ofBytes (Utf8.encode "x = 1\nx = x + \nx = 1\ny\nx = x * 2\ny\n")) s := by
  have present : FileRing.pair.Present FileRing.pairFiles := by
    unfold FileRing.Present
    decide
  exact ⟨present, fun s => (process_fileRing FileRing.pair present s).1 125 (by decide)⟩

end Calculator
