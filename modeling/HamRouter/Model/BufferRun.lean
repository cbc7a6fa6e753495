import HamRouter.Library.BigEndian
import HamRouter.Library.Transition
import HamRouter.Program.Buffer

/-! # Operations on a buffer

Sequences of reads, seeks, resets and assignments, and what each of them is to do. -/

namespace HamRouter.Buffer

open Ax25 (intMax)
open BigEndian

/-- The size is the number of bytes. -/
structure Sized (b : Buffer) : Prop where
  size_eq : b.size = b.bytes.length
  inRange : b.size ≤ intMax

/-- The cursor is in the buffer, or at its end. -/
structure InBounds (b : Buffer) : Prop where
  nonneg : 0 ≤ b.o
  le_size : b.o ≤ b.size

/-- An `int` that is not negative. -/
structure Length where
  val : ℤ
  nonneg : 0 ≤ val
  inRange : val ≤ intMax

inductive Operation where
  | getByte
  | getNetShort
  | getNetLong
  | getNetLongLong
  | getBytes (len : Length)
  | getSegment (len : Length)
  | getString (len : Length)
  | getRest
  | seek (len : Length)
  | reset
  | assign (other : Buffer) (h : other.Sized)

/-- What an operation returns. -/
inductive Value where
  | byte (v : UInt8)
  | short (v : UInt16)
  | long (v : UInt32)
  | longLong (v : UInt64)
  | pointer (index : ℤ)
  | segment (b : Buffer)
  | text (s : StdString)
  | nothing
deriving DecidableEq

def Outcome.map {α β : Type*} (f : α → β) : Outcome α → Outcome β
  | .returned value => .returned (f value)
  | .threw exception => .threw exception
  | .undefined => .undefined

def Operation.run (b : Buffer) : Operation → Outcome Value × Buffer
  | .getByte => b.getByte.map (·.map .byte) id
  | .getNetShort => b.getNetShort.map (·.map .short) id
  | .getNetLong => b.getNetLong.map (·.map .long) id
  | .getNetLongLong => b.getNetLongLong.map (·.map .longLong) id
  | .getBytes len => (b.getBytes len.val).map (·.map .pointer) id
  | .getSegment len => (b.getSegment len.val).map (·.map .segment) id
  | .getString len => (b.getString len.val).map (·.map .text) id
  | .getRest => b.getRest.map (·.map .text) id
  | .seek len => (b.seek len.val).map (·.map fun _ => .nothing) id
  | .reset => b.reset.map (·.map fun _ => .nothing) id
  | .assign other _ => (Buffer.assign other b).map (·.map fun _ => .nothing) id

def step (b : Buffer) (op : Operation) : Buffer := (op.run b).2

/-- How many bytes an operation reads, if it is a read. -/
def Operation.count (b : Buffer) : Operation → Option ℕ
  | .getByte => some 1
  | .getNetShort => some 2
  | .getNetLong => some 4
  | .getNetLongLong => some 8
  | .getBytes len => some len.val.toNat
  | .getSegment len => some len.val.toNat
  | .getString len => some len.val.toNat
  | .getRest => some (b.size - b.o).toNat
  | .seek _ => none
  | .reset => none
  | .assign _ _ => none

/-- A value that was read from a buffer is these bytes, in network order where it is a number. -/
def Value.Shows (b : Buffer) : Value → List UInt8 → Prop
  | .byte v, bytes => bytes = [v]
  | .short v, bytes => bytes.length = 2 ∧ v.toNat = unsigned bytes
  | .long v, bytes => bytes.length = 4 ∧ v.toNat = unsigned bytes
  | .longLong v, bytes => bytes.length = 8 ∧ v.toNat = unsigned bytes
  | .pointer index, bytes => 0 ≤ index ∧ bytes <+: b.bytes.drop index.toNat
  | .segment s, bytes => s = ofPointer bytes bytes.length
  | .text s, bytes => s = bytes
  | .nothing, _ => False

/-- The value is the `n` bytes at the cursor, and behind them is where the cursor is afterwards. -/
def ReadsAtCursor (b : Buffer) (n : ℕ) (value : Value) (after : Buffer) : Prop :=
  (∃ bytes, bytes <+: b.bytes.drop b.o.toNat ∧ bytes.length = n ∧ value.Shows b bytes) ∧
    after = { b with o := b.o + n }

/-- What an operation is to do: the cursor is in bounds, nothing is changed where it throws, and
a read gives the bytes at the cursor. -/
structure Operation.Sound (b : Buffer) (op : Operation) : Prop where
  defined : (op.run b).1 ≠ .undefined
  inBounds : (op.run b).2.InBounds
  unchanged : ∀ exception, (op.run b).1 = .threw exception → (op.run b).2 = b
  reads : ∀ value n, (op.run b).1 = .returned value → op.count b = some n →
    b.ReadsAtCursor n value (op.run b).2

/-- The sum of the cursor and the length is an `int`, and what is assigned reaches to the
cursor. -/
def Operation.Harmless (b : Buffer) : Operation → Prop
  | .getNetShort => b.o + 2 ≤ intMax
  | .getNetLong => b.o + 4 ≤ intMax
  | .getNetLongLong => b.o + 8 ≤ intMax
  | .getBytes len => b.o + len.val ≤ intMax
  | .getSegment len => b.o + len.val ≤ intMax
  | .getString len => b.o + len.val ≤ intMax
  | .seek len => b.o + len.val ≤ intMax
  | .assign other _ => b.o ≤ other.size
  | .getByte => True
  | .getRest => True
  | .reset => True

/-- Bytes a buffer can be made of. -/
structure Content where
  bytes : List UInt8
  short : (bytes.length : ℤ) ≤ intMax

/-- `buffer(p, size)` of them. -/
def Content.buffer (content : Content) : Buffer := ofPointer content.bytes content.bytes.length

end HamRouter.Buffer
