/-! # Channels

Where a session writes. A channel may take only so many bytes; a write that does not fit leaves what fits and
fails.
-/

namespace Calculator

/-- Why reading or writing a stream fails. -/
inductive StreamError where
  /-- An output channel takes no more. -/
  | sinkFull
  /-- An input stops delivering before its end. -/
  | inputBroken
  /-- An input is a directory. -/
  | isDirectory
  deriving DecidableEq, Repr

/-- The text of an error. -/
def StreamError.message : StreamError → String
  | sinkFull => "sink full"
  | inputBroken => "input broken"
  | isDirectory => "Is a directory (os error 21)"

/-- An output channel. -/
structure Channel where
  /-- The bytes it has taken, latest first. -/
  taken : List UInt8
  /-- How many more it takes, if it is bounded. -/
  room : Option Nat
  deriving DecidableEq, Repr

namespace Channel

/-- An empty channel without a bound. -/
def unbounded : Channel := ⟨[], none⟩

/-- An empty channel for so many bytes. -/
def bounded (capacity : Nat) : Channel := ⟨[], some capacity⟩

/-- The bytes it has taken, in order. -/
def written (channel : Channel) : List UInt8 := channel.taken.reverse

/-- The bytes of a write that a channel takes. -/
def fitting (channel : Channel) (bytes : List UInt8) : List UInt8 :=
  match channel.room with
  | none => bytes
  | some room => bytes.take room

/-- Whether a channel takes all of a write. -/
def fits (channel : Channel) (bytes : List UInt8) : Bool :=
  match channel.room with
  | none => true
  | some room => bytes.length ≤ room

/-- The channel after a write. -/
def write (channel : Channel) (bytes : List UInt8) : Channel :=
  ⟨(channel.fitting bytes).reverse ++ channel.taken, channel.room.map (· - bytes.length)⟩

@[simp]
theorem written_write (channel : Channel) (bytes : List UInt8) :
    (channel.write bytes).written = channel.written ++ channel.fitting bytes := by
  simp [written, write]

end Channel

end Calculator
