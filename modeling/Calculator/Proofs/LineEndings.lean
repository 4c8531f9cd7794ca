import Calculator.Proofs.Decoding
import Calculator.Proofs.Framing
import Calculator.Proofs.Reading

/-! # Line endings

A line ends with a line feed, and carriage returns in front of it are not part of the line. So they can be put in
anywhere in front of a line feed, in a stream or in the files that it runs, and no run will tell. This holds of all
bytes: a sequence that a carriage return breaks off was broken off before, by the line feed.
-/

namespace Calculator

/-- A text without the carriage returns at its end. -/
def withoutReturns (text : String) : String := String.ofList (text.toList.reverse.dropWhile (· = '\r')).reverse

namespace Input

/-- The carriage return. -/
def carriageReturn : UInt8 := 13

/-- The bytes with carriage returns put in front of line feeds: `count n` of them in front of the one of number `n`. -/
def withReturns (count : Nat → Nat) : List UInt8 → List UInt8
  | [] => []
  | b :: rest =>
    if b = lineFeed then
      List.replicate (count 0) carriageReturn ++ lineFeed :: withReturns (fun n => count (n + 1)) rest
    else b :: withReturns count rest

theorem lineText_eq (line : List UInt8) : lineText line = withoutReturns (Utf8.decode line) := rfl

theorem lineText_append_return (line : List UInt8) : lineText (line ++ [carriageReturn]) = lineText line := by
  have decoded : (Utf8.decode (line ++ [carriageReturn])).toList = (Utf8.decode line).toList ++ ['\r'] :=
    Utf8.toList_decode_append_ascii line (by decide)
  simp [lineText, decoded]

theorem lineText_append_returns (line : List UInt8) (count : Nat) :
    lineText (line ++ List.replicate count carriageReturn) = lineText line := by
  induction count with
  | zero => rw [List.replicate_zero, List.append_nil]
  | succ count ih => rw [List.replicate_succ', ← List.append_assoc, lineText_append_return, ih]

theorem splitLines_withReturns (count : Nat → Nat) (bytes : List UInt8) :
    splitLines (withReturns count bytes) =
      ((splitLines bytes).1.mapIdx fun n line => line ++ List.replicate (count n) carriageReturn,
        (splitLines bytes).2) := by
  induction bytes generalizing count with
  | nil => rfl
  | cons b rest ih =>
    by_cases h : b = lineFeed
    · have single : lineFeed ∉ List.replicate (count 0) carriageReturn := by
        intro member
        cases List.eq_of_mem_replicate member
      rw [withReturns, if_pos h, splitLines_append_lineFeed_cons single, ih, h, splitLines_lineFeed, List.mapIdx_cons,
        List.nil_append]
    · rw [withReturns, if_neg h, splitLines_cons h, splitLines_cons h, ih]
      cases (splitLines rest).1 with
      | nil => rfl
      | cons line more => simp only [List.mapIdx_cons, List.cons_append]

theorem map_lineText_mapIdx (count : Nat → Nat) (lines : List (List UInt8)) :
    (lines.mapIdx fun n line => line ++ List.replicate (count n) carriageReturn).map lineText = lines.map lineText := by
  induction lines generalizing count with
  | nil => rfl
  | cons line rest ih =>
    simp only [List.mapIdx_cons, List.map_cons, lineText_append_returns]
    exact congrArg _ (ih fun n => count (n + 1))

theorem script_eq (input : Input) : input.script = (input.lines.map lineText).map Line.ofText := by
  simp only [script, List.map_map, Function.comp_def]

theorem script_withReturns (count : Nat → Nat) (bytes : List UInt8) (failure : Option StreamError) :
    script ⟨withReturns count bytes, failure⟩ = script ⟨bytes, failure⟩ := by
  have texts : (lines ⟨withReturns count bytes, failure⟩).map lineText = (lines ⟨bytes, failure⟩).map lineText := by
    simp only [lines, splitLines_withReturns]
    split
    · exact map_lineText_mapIdx count _
    · rw [List.map_append, List.map_append, map_lineText_mapIdx]
  rw [script_eq, script_eq, texts]

/-- Decoded with its line feed, a line is its text, carriage returns and the line feed; only these are trimmed. -/
theorem exists_toList_decode_line {line : List UInt8} (single : lineFeed ∉ line) :
    ∃ returns, (Utf8.decode (line ++ [lineFeed])).toList =
        (lineText line).toList ++ List.replicate returns '\r' ++ ['\n'] ∧
      '\n' ∉ (lineText line).toList ∧ (lineText line).toList.getLast? ≠ some '\r' := by
  have decoded : (Utf8.decode (line ++ [lineFeed])).toList = (Utf8.decode line).toList ++ ['\n'] :=
    Utf8.toList_decode_append_ascii line (by decide)
  have text : (lineText line).toList = ((Utf8.decode line).toList.reverse.dropWhile (· = '\r')).reverse :=
    String.toList_ofList
  obtain ⟨last, split, returns, ends⟩ := exists_trimmed_append (· = '\r') (Utf8.decode line).toList
  rw [← text] at split ends
  have only : last = List.replicate last.length '\r' := by
    rw [List.eq_replicate_iff]
    exact ⟨rfl, fun c member => of_decide_eq_true (returns c member)⟩
  refine ⟨last.length, ?_, ?_, ?_⟩
  · rw [decoded, ← only, split]
  · intro member
    have read : '\n' ∈ Utf8.decodeFrom none line := by
      rw [← String.toList_ofList (l := Utf8.decodeFrom none line)]
      exact split ▸ List.mem_append_left last member
    obtain ⟨byte, inLine, value⟩ := Utf8.exists_mem_of_mem_decodeFrom (by simp [Utf8.IsForeign]) (by simp) read
    have feed : byte = lineFeed := UInt8.toNat_inj.mp value
    exact single (feed ▸ inLine)
  · intro ending
    simpa using ends '\r' ending

theorem script_encode {texts : List String} (single : ∀ text ∈ texts, '\n' ∉ text.toList)
    (failure : Option StreamError) :
    script ⟨texts.flatMap fun text => Utf8.encode (text ++ "\n"), failure⟩ =
      texts.map fun text => Line.ofText (withoutReturns text) := by
  have bytes : (texts.flatMap fun text => Utf8.encode (text ++ "\n")) = joinLines (texts.map Utf8.encode) := by
    have feed : Utf8.encode "\n" = [lineFeed] := by decide
    simp only [joinLines, List.flatMap_map, Utf8.encode_append, feed]
  have framed : ∀ line ∈ texts.map Utf8.encode, lineFeed ∉ line := by
    intro line member inLine
    obtain ⟨text, inTexts, rfl⟩ := List.mem_map.mp member
    exact single text inTexts (Utf8.mem_toList_of_mem_encode (by decide) inLine)
  rw [bytes, script_joinLines framed, List.map_map]
  apply List.map_congr_left
  intro text _
  simp only [Function.comp, lineText_eq, Utf8.decode_encode]

end Input

/-- The files with carriage returns put into each of them. -/
def FileMap.withReturns (counts : String → Nat → Nat) (files : FileMap) : FileMap := fun path =>
  (files path).map fun input => ⟨Input.withReturns (counts path) input.bytes, input.failure⟩

namespace Session

variable {files files' : FileMap} {interactive : Bool}

theorem runWithin_congr {bytes bytes' : List UInt8} {failure : Option StreamError}
    (same : Input.script ⟨bytes, failure⟩ = Input.script ⟨bytes', failure⟩) (levels : Nat) :
    runWithin files levels interactive ⟨bytes, failure⟩ = runWithin files levels interactive ⟨bytes', failure⟩ := by
  cases levels with
  | zero => rfl
  | succ levels => rw [runWithin, runWithin, same]

theorem sourcePath_withReturns (counts : String → Nat → Nat) (levels : Nat) :
    sourcePath (files.withReturns counts) (runWithin files levels false) =
      sourcePath files (runWithin files levels false) := by
  funext path
  unfold sourcePath FileMap.withReturns
  cases files path with
  | none => rfl
  | some input =>
    have same : runWithin files levels false ⟨Input.withReturns (counts path) input.bytes, input.failure⟩ =
        runWithin files levels false input :=
      runWithin_congr (Input.script_withReturns (counts path) input.bytes input.failure) levels
    simp only [Option.map_some]
    unfold source
    rw [same]

theorem handleLine_congr {run : Input → SessionM Unit} (same : sourcePath files' run = sourcePath files run) :
    handleLine files' run interactive = handleLine files run interactive := by
  funext line
  unfold handleLine runCommand
  rw [same]

theorem runWithin_withReturns (counts : String → Nat → Nat) (levels : Nat) (interactive : Bool) (input : Input) :
    runWithin (files.withReturns counts) levels interactive input = runWithin files levels interactive input := by
  induction levels generalizing interactive input with
  | zero => rfl
  | succ levels ih =>
    have inner : runWithin (files.withReturns counts) levels false = runWithin files levels false := funext (ih false)
    rw [runWithin, runWithin, inner, handleLine_congr (sourcePath_withReturns counts levels)]

/-- Carriage returns put in front of line feeds change nothing in a run, neither in the bytes of its stream, whatever
    they are, nor in the files that it runs. Of a line that is read with its line feed, just the line feed and the
    carriage returns in front of it are left out of the text. Of a stream that encodes texts, the lines that are handled
    are these texts without carriage returns at their ends, up to the one that ends the stream. -/
theorem process_withReturns (files : FileMap) (interactive : Bool) (depth : Nat) :
    (∀ count bytes failure,
      process files interactive depth ⟨Input.withReturns count bytes, failure⟩ =
        process files interactive depth ⟨bytes, failure⟩) ∧
    (∀ counts input,
      process (files.withReturns counts) interactive depth input = process files interactive depth input) ∧
    (∀ line, Input.lineFeed ∉ line → ∃ returns,
      (Utf8.decode (line ++ [Input.lineFeed])).toList =
        (Input.lineText line).toList ++ List.replicate returns '\r' ++ ['\n'] ∧
      '\n' ∉ (Input.lineText line).toList ∧ (Input.lineText line).toList.getLast? ≠ some '\r') ∧
    ∀ texts : List String, (∀ text ∈ texts, '\n' ∉ text.toList) → depth ≤ maxDepth → ∀ failure lines,
      lines = (texts.map fun text => Line.ofText (withoutReturns text)) → ∀ s : Session,
      process files interactive depth ⟨texts.flatMap fun text => Utf8.encode (text ++ "\n"), failure⟩ s =
        (do
          (Script.taken (interactive && s.once) lines).forM (handlePrompted files interactive depth)
          if Script.runsOut (interactive && s.once) lines then meetEnd interactive failure) s := by
  refine ⟨?_, ?_, fun _ => Input.exists_toList_decode_line, ?_⟩
  · intro count bytes failure
    exact runWithin_congr (Input.script_withReturns count bytes failure) _
  · intro counts input
    exact runWithin_withReturns counts _ interactive input
  · intro texts single shallow failure lines same s
    rw [process_eq_taken files interactive shallow, Input.script_encode single, same]

theorem process_withReturns_truncated :
    process (fun _ => none) true 0 ⟨[10, 0xE2, 0x82, 13, 10], none⟩ =
      process (fun _ => none) true 0 ⟨[10, 0xE2, 0x82, 10], none⟩ ∧
    (Input.lineFeed ∉ [0xE2, 0x82, 13] ∧ ∃ returns,
      (Utf8.decode [0xE2, 0x82, 13, 10]).toList =
        (Input.lineText [0xE2, 0x82, 13]).toList ++ List.replicate returns '\r' ++ ['\n']) ∧
    ((∀ text ∈ [":e\r", "é"], '\n' ∉ text.toList) ∧ 128 ≤ maxDepth ∧
      process (fun _ => none) true 128 (.ofBytes (Utf8.encode ":e\r\né\n")) (start false .unbounded .unbounded) =
        (do
          [Line.command .exit].forM (handlePrompted (fun _ => none) true 128)
          if false then meetEnd true none) (start false .unbounded .unbounded)) := by
  have inserted : Input.withReturns (fun n => n) [10, 0xE2, 0x82, 10] = [10, 0xE2, 0x82, 13, 10] := by decide
  have single : Input.lineFeed ∉ [0xE2, 0x82, 13] := by decide
  have framed : ∀ text ∈ [":e\r", "é"], '\n' ∉ text.toList := by simp
  have bytes : ([":e\r", "é"].flatMap fun text => Utf8.encode (text ++ "\n")) = Utf8.encode ":e\r\né\n" := by decide
  have lines : [Line.command .exit, .expression "é"] =
      ([":e\r", "é"].map fun text => Line.ofText (withoutReturns text)) := by decide
  obtain ⟨same, _, line, _⟩ := process_withReturns (fun _ => none) true 0
  obtain ⟨_, _, _, handled⟩ := process_withReturns (fun _ => none) true 128
  have stream := same (fun n => n) [10, 0xE2, 0x82, 10] none
  rw [inserted] at stream
  obtain ⟨returns, decoded, _⟩ := line [0xE2, 0x82, 13] single
  have run := handled [":e\r", "é"] framed (Nat.le_refl 128) none _ lines (start false .unbounded .unbounded)
  rw [bytes] at run
  exact ⟨stream, ⟨single, returns, decoded⟩, framed, Nat.le_refl 128, run⟩

end Session

end Calculator
