import Calculator.Proofs.Literal

/-! # Literals cut at byte offsets

A text takes up the bytes of its characters and can be cut only between two of them. The part of a literal that counts
is found by two cuts, behind the first point and in front of the second one. Neither falls inside a character or behind
the end, whatever the text is.
-/

namespace Calculator

/-- The bytes that a text takes up. -/
def byteCount : List Char → Nat
  | [] => 0
  | c :: rest => c.utf8Size + byteCount rest

/-- The offset in bytes of the first occurrence of a character. -/
def offset? (c : Char) : List Char → Option Nat
  | [] => none
  | d :: rest => if d = c then some 0 else (offset? c rest).map (d.utf8Size + ·)

/-- The two sides of a cut at an offset in bytes; none inside a character and behind the end. -/
def cutAt? : List Char → Nat → Option (List Char × List Char)
  | text, 0 => some ([], text)
  | [], _ + 1 => none
  | c :: rest, n + 1 =>
    if c.utf8Size ≤ n + 1 then (cutAt? rest (n + 1 - c.utf8Size)).map fun sides => (c :: sides.1, sides.2) else none

/-- Where the part of a literal that counts ends, as an offset in bytes. The second point is searched for in the text
    behind the first one. -/
def countedEnd? (text : List Char) : Option Nat :=
  match offset? '.' text with
  | none => some (byteCount text)
  | some point => (cutAt? text (point + 1)).map fun sides =>
    ((offset? '.' sides.2).map (point + 1 + ·)).getD (byteCount text)

/-- The part of a literal that counts; none if a cut fails. -/
def countedPart? (text : List Char) : Option (List Char) := do
  let stop ← countedEnd? text
  let sides ← cutAt? text stop
  some sides.1

theorem byteCount_append (front back : List Char) : byteCount (front ++ back) = byteCount front + byteCount back := by
  induction front with
  | nil => simp [byteCount]
  | cons c front ih => simp [byteCount, ih, Nat.add_assoc]

theorem cutAt?_append (front back : List Char) : cutAt? (front ++ back) (byteCount front) = some (front, back) := by
  induction front with
  | nil => simp [byteCount, cutAt?]
  | cons c front ih =>
    have positive : 0 < c.utf8Size := c.utf8Size_pos
    obtain ⟨n, count⟩ := Nat.exists_eq_add_of_lt positive
    have behind : c.utf8Size + byteCount front = n + byteCount front + 1 := by omega
    have left : n + byteCount front + 1 - c.utf8Size = byteCount front := by omega
    have fits : c.utf8Size ≤ n + byteCount front + 1 := by omega
    rw [List.cons_append, byteCount, behind, cutAt?, if_pos fits, left, ih]
    rfl

theorem not_mem_of_offset?_eq_none {c : Char} {text : List Char} (missing : offset? c text = none) : c ∉ text := by
  induction text with
  | nil => exact List.not_mem_nil
  | cons d text ih =>
    unfold offset? at missing
    split at missing
    · cases missing
    · rename_i other
      rw [List.mem_cons, not_or]
      exact ⟨Ne.symm other, ih (Option.map_eq_none_iff.mp missing)⟩

theorem exists_of_offset?_eq_some {c : Char} {text : List Char} {n : Nat} (found : offset? c text = some n) :
    ∃ front back, text = front ++ c :: back ∧ c ∉ front ∧ n = byteCount front := by
  induction text generalizing n with
  | nil => cases found
  | cons d text ih =>
    unfold offset? at found
    split at found
    · rename_i same
      cases found
      exact ⟨[], text, by rw [same]; rfl, List.not_mem_nil, rfl⟩
    · rename_i other
      obtain ⟨m, earlier, rfl⟩ := Option.map_eq_some_iff.mp found
      obtain ⟨front, back, rfl, outside, rfl⟩ := ih earlier
      exact ⟨d :: front, back, rfl, by simp [outside, Ne.symm other], rfl⟩

theorem countedPart?_eq (text : List Char) : countedPart? text = some (beforePoint 1 text) := by
  cases first : offset? '.' text with
  | none =>
    have whole := beforePoint_append (not_mem_of_offset?_eq_none first) 1 []
    have cut := cutAt?_append text []
    rw [List.append_nil] at whole cut
    simp [countedPart?, countedEnd?, first, cut, whole, beforePoint]
  | some point =>
    obtain ⟨whole, tail, rfl, pointless, rfl⟩ := exists_of_offset?_eq_some first
    have counted := beforePoint_append pointless 1 ('.' :: tail)
    have cut : cutAt? (whole ++ '.' :: tail) (byteCount whole + 1) = some (whole ++ ['.'], tail) := by
      have cut := cutAt?_append (whole ++ ['.']) tail
      rwa [byteCount_append, List.append_assoc] at cut
    cases second : offset? '.' tail with
    | none =>
      have rest := beforePoint_append (not_mem_of_offset?_eq_none second) 0 []
      have all := cutAt?_append (whole ++ '.' :: tail) []
      rw [List.append_nil] at rest all
      simp [countedPart?, countedEnd?, first, cut, second, all, counted, beforePoint, rest]
    | some next =>
      obtain ⟨fraction, more, rfl, digits, rfl⟩ := exists_of_offset?_eq_some second
      have rest := beforePoint_append digits 0 ('.' :: more)
      have stop := cutAt?_append (whole ++ '.' :: fraction) ('.' :: more)
      have size : byteCount (whole ++ '.' :: fraction) = byteCount whole + 1 + byteCount fraction := by
        rw [byteCount_append, byteCount, Nat.add_assoc]
        rfl
      rw [size, List.append_assoc, List.cons_append] at stop
      simp [countedPart?, countedEnd?, first, cut, second, stop, counted, beforePoint, rest]

end Calculator
