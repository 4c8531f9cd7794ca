/-! # UTF-8

Encoding, and a decoder that takes any bytes: each maximal ill-formed part becomes one replacement character. The
decoder looks at one byte at a time and remembers what a begun sequence still needs.
-/

namespace Calculator.Utf8

/-- The bytes of a text. -/
def encode (text : String) : List UInt8 := text.toList.flatMap String.utf8EncodeChar

/-- What ill-formed bytes are read as. -/
def replacement : Char := '�'

/-- A sequence begun: its bits so far, the bytes it still needs, and the range of the next one. -/
structure Pending where
  code : Nat
  missing : Nat
  low : Nat
  high : Nat
  deriving DecidableEq, Repr

/-- A sequence that any continuation byte carries on. -/
def Pending.plain (code missing : Nat) : Pending := ⟨code, missing, 0x80, 0xBF⟩

/-- The sequence that a byte begins. The range of the second byte leaves out overlong forms, surrogates and code
    points above the last one. -/
def lead? (b : Nat) : Option Pending :=
  if 0xC2 ≤ b ∧ b ≤ 0xDF then some (.plain (b - 0xC0) 1)
  else if b = 0xE0 then some ⟨0, 2, 0xA0, 0xBF⟩
  else if b = 0xED then some ⟨0xD, 2, 0x80, 0x9F⟩
  else if 0xE1 ≤ b ∧ b ≤ 0xEF then some (.plain (b - 0xE0) 2)
  else if b = 0xF0 then some ⟨0, 3, 0x90, 0xBF⟩
  else if 0xF1 ≤ b ∧ b ≤ 0xF3 then some (.plain (b - 0xF0) 3)
  else if b = 0xF4 then some ⟨4, 3, 0x80, 0x8F⟩
  else none

/-- Read a byte between characters: what it completes, and the sequence it begins. -/
def start (b : Nat) : List Char × Option Pending :=
  if b < 0x80 then ([Char.ofNat b], none)
  else
    match lead? b with
    | some pending => ([], some pending)
    | none => ([replacement], none)

/-- Read a byte inside a sequence. A byte that does not carry the sequence on ends it, ill-formed, and is read
    afresh. -/
def resume (p : Pending) (b : Nat) : List Char × Option Pending :=
  if p.low ≤ b ∧ b ≤ p.high then
    let code := p.code * 64 + (b - 0x80)
    if p.missing ≤ 1 then ([Char.ofNat code], none) else ([], some (.plain code (p.missing - 1)))
  else
    let (read, pending) := start b
    (replacement :: read, pending)

/-- Read the bytes behind a sequence that may have begun. -/
def decodeFrom : Option Pending → List UInt8 → List Char
  | none, [] => []
  | some _, [] => [replacement]
  | none, b :: rest =>
    let (read, pending) := start b.toNat
    read ++ decodeFrom pending rest
  | some p, b :: rest =>
    let (read, pending) := resume p b.toNat
    read ++ decodeFrom pending rest

/-- The text of any bytes. -/
def decode (bytes : List UInt8) : String := String.ofList (decodeFrom none bytes)

end Calculator.Utf8
