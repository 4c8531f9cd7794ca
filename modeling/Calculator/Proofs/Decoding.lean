import Calculator.Text.Utf8

/-! # Decoding

Bytes that encode a text are decoded to that text. Of other bytes only so much is said: characters of ASCII are read
from their own bytes, and a text that starts with one is read from bytes that do.
-/

namespace Calculator.Utf8

variable {b : Nat} {p : Pending} {rest : List UInt8}

/-- Read a byte, whether or not a sequence has begun. -/
def read : Option Pending → Nat → List Char × Option Pending
  | none, b => start b
  | some p, b => resume p b

theorem decodeFrom_cons (pending : Option Pending) (byte : UInt8) (rest : List UInt8) :
    decodeFrom pending (byte :: rest) = (read pending byte.toNat).1 ++ decodeFrom (read pending byte.toNat).2 rest := by
  cases pending <;> rfl

theorem decodeFrom_ascii (ascii : b < 0x80) :
    decodeFrom none (UInt8.ofNat b :: rest) = Char.ofNat b :: decodeFrom none rest := by
  have small : b % 256 = b := by omega
  simp [decodeFrom, start, small, ascii]

theorem decodeFrom_lead (byte : b < 256) (leading : 0x80 ≤ b) (begun : lead? b = some p) :
    decodeFrom none (UInt8.ofNat b :: rest) = decodeFrom (some p) rest := by
  have small : b % 256 = b := by omega
  have high : ¬ b < 0x80 := by omega
  simp [decodeFrom, start, small, high, begun]

theorem decodeFrom_more (byte : b < 256) (low : p.low ≤ b) (high : b ≤ p.high) (more : 1 < p.missing) :
    decodeFrom (some p) (UInt8.ofNat b :: rest) =
      decodeFrom (some (.plain (p.code * 64 + (b - 0x80)) (p.missing - 1))) rest := by
  have small : b % 256 = b := by omega
  have notLast : ¬ p.missing ≤ 1 := by omega
  simp [decodeFrom, resume, small, low, high, notLast]

theorem decodeFrom_last (byte : b < 256) (low : p.low ≤ b) (high : b ≤ p.high) (last : p.missing ≤ 1) :
    decodeFrom (some p) (UInt8.ofNat b :: rest) = Char.ofNat (p.code * 64 + (b - 0x80)) :: decodeFrom none rest := by
  have small : b % 256 = b := by omega
  simp [decodeFrom, resume, small, low, high, last]

theorem lead?_two (low : 0xC2 ≤ b) (high : b ≤ 0xDF) : lead? b = some (.plain (b - 0xC0) 1) := by
  simp [lead?, low, high]

theorem lead?_three (low : 0xE0 ≤ b) (high : b ≤ 0xEF) :
    lead? b = some ⟨b - 0xE0, 2, if b = 0xE0 then 0xA0 else 0x80, if b = 0xED then 0x9F else 0xBF⟩ := by
  grind [lead?, Pending.plain]

theorem lead?_four (low : 0xF0 ≤ b) (high : b ≤ 0xF4) :
    lead? b = some ⟨b - 0xF0, 3, if b = 0xF0 then 0x90 else 0x80, if b = 0xF4 then 0x8F else 0xBF⟩ := by
  grind [lead?, Pending.plain]

theorem decodeFrom_two (v : Nat) (low : 0x80 ≤ v) (high : v ≤ 0x7FF) :
    decodeFrom none (UInt8.ofNat (v / 64 % 32 + 192) :: UInt8.ofNat (v % 64 + 128) :: rest) =
      Char.ofNat v :: decodeFrom none rest := by
  have value : (v / 64 % 32 + 192 - 0xC0) * 64 + (v % 64 + 128 - 0x80) = v := by omega
  rw [decodeFrom_lead (by omega) (by omega) (lead?_two (by omega) (by omega)),
    decodeFrom_last (by omega) (by simp [Pending.plain]) (by simp only [Pending.plain]; omega) (Nat.le_refl 1)]
  simp only [Pending.plain, value]

theorem decodeFrom_three (v : Nat) (low : 0x800 ≤ v) (high : v ≤ 0xFFFF) (valid : v < 0xD800 ∨ 0xDFFF < v) :
    decodeFrom none (UInt8.ofNat (v / 4096 % 16 + 224) :: UInt8.ofNat (v / 64 % 64 + 128) ::
      UInt8.ofNat (v % 64 + 128) :: rest) = Char.ofNat v :: decodeFrom none rest := by
  have value : ((v / 4096 % 16 + 224 - 0xE0) * 64 + (v / 64 % 64 + 128 - 0x80)) * 64 + (v % 64 + 128 - 0x80) = v := by
    omega
  rw [decodeFrom_lead (by omega) (by omega) (lead?_three (by omega) (by omega)),
    decodeFrom_more (by omega) (by simp only; split <;> omega) (by simp only; split <;> omega) (by simp),
    decodeFrom_last (by omega) (by simp [Pending.plain]) (by simp only [Pending.plain]; omega)
      (by simp [Pending.plain])]
  simp only [Pending.plain, value]

theorem decodeFrom_four (v : Nat) (low : 0x10000 ≤ v) (high : v < 0x110000) :
    decodeFrom none (UInt8.ofNat (v / 262144 % 8 + 240) :: UInt8.ofNat (v / 4096 % 64 + 128) ::
      UInt8.ofNat (v / 64 % 64 + 128) :: UInt8.ofNat (v % 64 + 128) :: rest) =
        Char.ofNat v :: decodeFrom none rest := by
  have value : (((v / 262144 % 8 + 240 - 0xF0) * 64 + (v / 4096 % 64 + 128 - 0x80)) * 64 +
      (v / 64 % 64 + 128 - 0x80)) * 64 + (v % 64 + 128 - 0x80) = v := by
    omega
  rw [decodeFrom_lead (by omega) (by omega) (lead?_four (by omega) (by omega)),
    decodeFrom_more (by omega) (by simp only; split <;> omega) (by simp only; split <;> omega) (by simp),
    decodeFrom_more (by omega) (by simp [Pending.plain]) (by simp only [Pending.plain]; omega)
      (by simp [Pending.plain]),
    decodeFrom_last (by omega) (by simp [Pending.plain]) (by simp only [Pending.plain]; omega)
      (by simp [Pending.plain])]
  simp only [Pending.plain, value]

theorem decodeFrom_utf8EncodeChar (c : Char) (rest : List UInt8) :
    decodeFrom none (String.utf8EncodeChar c ++ rest) = c :: decodeFrom none rest := by
  have valid : c.toNat < 0xD800 ∨ 0xDFFF < c.toNat ∧ c.toNat < 0x110000 := c.valid
  have value : c.val.toNat = c.toNat := rfl
  have decoded : decodeFrom none (String.utf8EncodeChar c ++ rest) = Char.ofNat c.toNat :: decodeFrom none rest := by
    simp only [String.utf8EncodeChar, value]
    split
    · exact decodeFrom_ascii (by omega)
    · split
      · exact decodeFrom_two c.toNat (by omega) (by omega)
      · split
        · exact decodeFrom_three c.toNat (by omega) (by omega) (by omega)
        · exact decodeFrom_four c.toNat (by omega) (by omega)
  rwa [Char.ofNat_toNat] at decoded

theorem decodeFrom_encode (text : String) (rest : List UInt8) :
    decodeFrom none (encode text ++ rest) = text.toList ++ decodeFrom none rest := by
  unfold encode
  induction text.toList with
  | nil => rfl
  | cons c cs ih => rw [List.flatMap_cons, List.append_assoc, decodeFrom_utf8EncodeChar, ih, List.cons_append]

/-- Decoding gives back what was encoded. -/
theorem decode_encode (text : String) : decode (encode text) = text := by
  have decoded := decodeFrom_encode text []
  rw [List.append_nil] at decoded
  simp [decode, decoded, decodeFrom]

theorem encode_append (first second : String) : encode (first ++ second) = encode first ++ encode second := by
  rw [encode, String.toList_append, List.flatMap_append, encode, encode]

/-- Whether a sequence that may have begun goes on with bytes above ASCII only. -/
def IsAbove (pending : Option Pending) : Prop := ∀ p ∈ pending, 0x80 ≤ p.low

theorem isAbove_start (b : Nat) : IsAbove (start b).2 := by
  grind [IsAbove, start, lead?, Pending.plain]

theorem isAbove_read (pending : Option Pending) (b : Nat) : IsAbove (read pending b).2 := by
  cases pending with
  | none => exact isAbove_start b
  | some p =>
    simp only [read, resume]
    split
    · split <;> simp [IsAbove, Pending.plain]
    · exact isAbove_start b

theorem read_ascii {pending : Option Pending} (above : IsAbove pending) (ascii : b < 0x80) :
    read pending b = (decodeFrom pending [] ++ [Char.ofNat b], none) := by
  cases pending with
  | none => simp [read, start, ascii, decodeFrom]
  | some p =>
    have low : 0x80 ≤ p.low := above p rfl
    have ends : ¬ (p.low ≤ b ∧ b ≤ p.high) := by omega
    simp [read, resume, ends, start, ascii, decodeFrom]

/-- Decoding can be cut at every byte of ASCII, also where the bytes in front of it are ill-formed. -/
theorem decodeFrom_append_ascii {pending : Option Pending} (above : IsAbove pending) (bytes : List UInt8) {byte : UInt8}
    (ascii : byte.toNat < 0x80) (rest : List UInt8) :
    decodeFrom pending (bytes ++ byte :: rest) =
      decodeFrom pending bytes ++ Char.ofNat byte.toNat :: decodeFrom none rest := by
  induction bytes generalizing pending with
  | nil => simp [decodeFrom_cons, read_ascii above ascii]
  | cons first bytes ih =>
    rw [List.cons_append, decodeFrom_cons, decodeFrom_cons, ih (isAbove_read pending first.toNat), List.append_assoc]

theorem toList_decode_append_ascii (bytes : List UInt8) {byte : UInt8} (ascii : byte.toNat < 0x80) :
    (decode (bytes ++ [byte])).toList = (decode bytes).toList ++ [Char.ofNat byte.toNat] := by
  have clear : IsAbove none := by simp [IsAbove]
  simp only [decode, String.toList_ofList, decodeFrom_append_ascii clear bytes ascii, decodeFrom]

theorem toNat_of_mem_utf8EncodeChar {byte : UInt8} (ascii : byte.toNat < 0x80) {c : Char}
    (member : byte ∈ String.utf8EncodeChar c) : c.toNat = byte.toNat := by
  have value : c.val.toNat = c.toNat := rfl
  simp only [String.utf8EncodeChar, value] at member
  split at member
  · have same := congrArg UInt8.toNat (List.mem_singleton.mp member)
    rw [UInt8.toNat_ofNat'] at same
    omega
  · have large : ∀ n, byte = UInt8.ofNat n → 0x80 ≤ n → n < 256 → False := by
      rintro n rfl low high
      rw [UInt8.toNat_ofNat'] at ascii
      omega
    exfalso
    split at member
    · simp only [List.mem_cons, List.not_mem_nil, or_false] at member
      rcases member with h | h <;> exact large _ h (by omega) (by omega)
    · split at member
      · simp only [List.mem_cons, List.not_mem_nil, or_false] at member
        rcases member with h | h | h <;> exact large _ h (by omega) (by omega)
      · simp only [List.mem_cons, List.not_mem_nil, or_false] at member
        rcases member with h | h | h | h <;> exact large _ h (by omega) (by omega)

theorem mem_toList_of_mem_encode {byte : UInt8} (ascii : byte.toNat < 0x80) {text : String}
    (member : byte ∈ encode text) : Char.ofNat byte.toNat ∈ text.toList := by
  obtain ⟨c, inText, member⟩ := List.mem_flatMap.mp member
  rw [← toNat_of_mem_utf8EncodeChar ascii member, Char.ofNat_toNat]
  exact inText

/-- A character that no byte of ASCII stands for. -/
def IsForeign (c : Char) : Prop := c.toNat = 0 ∨ 0x80 ≤ c.toNat

theorem toNat_ofNat {n : Nat} (valid : n.isValidChar) : (Char.ofNat n).toNat = n := by
  rw [Char.ofNat, dif_pos valid]
  rfl

theorem isForeign_ofNat {n : Nat} (high : 0x80 ≤ n) : IsForeign (Char.ofNat n) := by
  by_cases valid : n.isValidChar
  · right
    rwa [toNat_ofNat valid]
  · left
    rw [Char.ofNat, dif_neg valid]
    rfl

/-- A begun sequence that will not come out as ASCII. -/
def Pending.IsHigh (p : Pending) : Prop := 2 ≤ p.code ∨ (2 ≤ p.missing ∧ 2 ≤ p.code * 64 + (p.low - 0x80))

theorem isHigh_of_lead? (begun : lead? b = some p) : p.IsHigh := by
  grind [lead?, Pending.plain, Pending.IsHigh]

/-- Each byte makes the code of a sequence greater, whatever it adds. -/
theorem two_le_of_isHigh (high : p.IsHigh) (low : p.low ≤ b) : 2 ≤ p.code * 64 + (b - 0x80) := by
  rcases high with high | high <;> omega

theorem two_le_code_of_isHigh (high : p.IsHigh) (last : p.missing ≤ 1) : 2 ≤ p.code := by
  rcases high with high | high <;> omega

theorem isForeign_replacement : IsForeign replacement := .inr (by decide)

theorem isForeign_head_of_isHigh (high : p.IsHigh) (bytes : List UInt8) :
    ∃ c cs, decodeFrom (some p) bytes = c :: cs ∧ IsForeign c := by
  induction bytes generalizing p with
  | nil => exact ⟨replacement, [], rfl, isForeign_replacement⟩
  | cons byte rest ih =>
    by_cases carries : p.low ≤ byte.toNat ∧ byte.toNat ≤ p.high
    · by_cases last : p.missing ≤ 1
      · have code := two_le_code_of_isHigh high last
        have completed : decodeFrom (some p) (byte :: rest) =
            Char.ofNat (p.code * 64 + (byte.toNat - 0x80)) :: decodeFrom none rest := by
          simp [decodeFrom, resume, carries, last]
        exact ⟨_, _, completed, isForeign_ofNat (by omega)⟩
      · have higher : (Pending.plain (p.code * 64 + (byte.toNat - 0x80)) (p.missing - 1)).IsHigh :=
          .inl (two_le_of_isHigh high carries.1)
        obtain ⟨c, cs, decoded, isForeign⟩ := ih higher
        exact ⟨c, cs, by simp [decodeFrom, resume, carries, last, decoded], isForeign⟩
    · exact ⟨_, _, by simp only [decodeFrom, resume, if_neg carries]; rfl, isForeign_replacement⟩

theorem toNat_of_decodeFrom_cons {byte : UInt8} {c : Char} {cs : List Char}
    (decoded : decodeFrom none (byte :: rest) = c :: cs) (own : ¬ IsForeign c) : byte.toNat = c.toNat := by
  by_cases ascii : byte.toNat < 0x80
  · have read := @decodeFrom_ascii byte.toNat rest ascii
    rw [UInt8.ofNat_toNat, decoded] at read
    rw [(List.cons.inj read).1, toNat_ofNat (.inl (by omega))]
  · exfalso
    apply own
    cases begun : lead? byte.toNat with
    | none =>
      have read : decodeFrom none (byte :: rest) = replacement :: decodeFrom none rest := by
        simp [decodeFrom, start, ascii, begun]
      rw [decoded] at read
      rw [(List.cons.inj read).1]
      exact isForeign_replacement
    | some p =>
      have read : decodeFrom none (byte :: rest) = decodeFrom (some p) rest := by
        simp [decodeFrom, start, ascii, begun]
      obtain ⟨c', cs', decoded', isForeign⟩ := isForeign_head_of_isHigh (isHigh_of_lead? begun) rest
      rw [decoded, decoded'] at read
      rw [(List.cons.inj read).1]
      exact isForeign

/-- What a byte adds to a text and leaves begun: its own character, or foreign ones. -/
def Accounts (b : Nat) (read : List Char × Option Pending) : Prop :=
  (∀ c ∈ read.1, IsForeign c ∨ c.toNat = b) ∧ ∀ q ∈ read.2, q.IsHigh

theorem accounts_start (b : Nat) : Accounts b (start b) := by
  unfold start
  split
  · rename_i ascii
    refine ⟨?_, by simp⟩
    intro c member
    rw [List.mem_singleton.mp member]
    exact .inr (toNat_ofNat (.inl (by omega)))
  · cases begun : lead? b with
    | some q =>
      refine ⟨by simp, ?_⟩
      rintro q ⟨⟩
      exact isHigh_of_lead? begun
    | none =>
      refine ⟨?_, by simp⟩
      intro c member
      rw [List.mem_singleton.mp member]
      exact .inl isForeign_replacement

theorem accounts_resume (high : p.IsHigh) (b : Nat) : Accounts b (resume p b) := by
  unfold resume
  split
  · rename_i carries
    simp only
    split
    · rename_i last
      have code := two_le_code_of_isHigh high last
      refine ⟨?_, by simp⟩
      intro c member
      rw [List.mem_singleton.mp member]
      exact .inl (isForeign_ofNat (by omega))
    · refine ⟨by simp, ?_⟩
      intro q begun
      rw [← Option.some.inj begun]
      exact .inl (two_le_of_isHigh high carries.1)
  · obtain ⟨read, begun⟩ := accounts_start b
    refine ⟨?_, begun⟩
    intro c member
    rcases List.mem_cons.mp member with rfl | member
    · exact .inl isForeign_replacement
    · exact read c member

/-- A character of ASCII is read from its own byte only. -/
theorem exists_mem_of_mem_decodeFrom {c : Char} (own : ¬ IsForeign c) {pending : Option Pending}
    (high : ∀ q ∈ pending, q.IsHigh) {bytes : List UInt8} (member : c ∈ decodeFrom pending bytes) :
    ∃ byte ∈ bytes, byte.toNat = c.toNat := by
  induction bytes generalizing pending with
  | nil =>
    cases pending with
    | none => cases member
    | some q =>
      rw [List.mem_singleton.mp member] at own
      exact absurd isForeign_replacement own
  | cons byte rest ih =>
    have account : Accounts byte.toNat (read pending byte.toNat) := by
      cases pending with
      | none => exact accounts_start _
      | some q => exact accounts_resume (high q rfl) _
    rw [decodeFrom_cons, List.mem_append] at member
    rcases member with now | later
    · exact ⟨byte, List.mem_cons_self, ((account.1 c now).resolve_left own).symm⟩
    · obtain ⟨byte', inRest, value⟩ := ih account.2 later
      exact ⟨byte', List.mem_cons_of_mem _ inRest, value⟩

end Calculator.Utf8
