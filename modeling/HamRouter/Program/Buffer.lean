import HamRouter.Program.Ax25

/-! # Reading a buffer

The members of `buffer` in `buffer.cpp` that move its cursor, and the functions of `net.cpp` they
read numbers with. -/

namespace HamRouter

open Ax25 (intMax)

/-! ## `net.cpp` -/

namespace Net

/-- `get_net_short(p)`. -/
def getNetShort (p : List UInt8) : UInt16 := (p.getD 0 0).toUInt16 <<< 8 ||| (p.getD 1 0).toUInt16

/-- `get_net_long(p)`. -/
def getNetLong (p : List UInt8) : UInt32 :=
  (p.getD 0 0).toUInt32 <<< 24 ||| (p.getD 1 0).toUInt32 <<< 16 ||| (p.getD 2 0).toUInt32 <<< 8 |||
    (p.getD 3 0).toUInt32

/-- `get_net_long_long(p)`. -/
def getNetLongLong (p : List UInt8) : UInt64 :=
  (List.range 8).foldl (fun out i => (out <<< 8) ||| (p.getD i 0).toUInt64) 0

end Net

/-! ## `buffer.cpp` -/

/-- `buffer`: the bytes it holds a copy of, its size and its cursor `o`. -/
structure Buffer extends Ax25.Buffer where
  o : ℤ := 0
deriving DecidableEq

namespace Buffer

/-- `std::out_of_range` with its text, and the `std::length_error` of a string of a negative
length. -/
inductive Exception where
  | outOfRange (what : StdString)
  | lengthError
deriving DecidableEq

/-- How a member ends. A sum beyond `int` and a read outside of the bytes are not defined. -/
inductive Outcome (α : Type*) where
  | returned (value : α)
  | threw (exception : Exception)
  | undefined
deriving DecidableEq

/-- The sum of two `int`s. -/
def addInt (a b : ℤ) : Option ℤ := if -intMax - 1 ≤ a + b ∧ a + b ≤ intMax then some (a + b) else none

/-- `buffer(p, size)`. -/
def ofPointer (p : List UInt8) (size : ℤ) : Buffer := { Ax25.Buffer.ofPointer p size with }

variable {α : Type*}

/-- What is made of `n` bytes from `p[o]` on. -/
def readAt (b : Buffer) (n : ℕ) (f : List UInt8 → α) : Outcome α :=
  if 0 ≤ b.o ∧ b.o + n ≤ b.bytes.length then .returned (f ((b.bytes.drop b.o.toNat).take n))
  else .undefined

/-- A member that throws unless `len` bytes are left, reads and moves the cursor by `len`. -/
def bounded (what : StdString) (len : ℤ) (read : Buffer → Outcome α) (b : Buffer) :
    Outcome α × Buffer :=
  match addInt b.o len with
  | none => (.undefined, b)
  | some stop =>
      if stop > b.size then (.threw (.outOfRange what), b)
      else
        match read b with
        | .returned value => (.returned value, { b with o := stop })
        | .threw exception => (.threw exception, b)
        | .undefined => (.undefined, b)

/-- `get_byte()`. -/
def getByte (b : Buffer) : Outcome UInt8 × Buffer :=
  if b.o ≥ b.size then (.threw (.outOfRange (str "buffer::get_byte")), b)
  else (b.readAt 1 (·.getD 0 0), { b with o := b.o + 1 })

/-- `get_net_short()`. -/
def getNetShort : Buffer → Outcome UInt16 × Buffer :=
  bounded (str "buffer::get_net_short") 2 fun b => b.readAt 2 Net.getNetShort

/-- `get_net_long()`. -/
def getNetLong : Buffer → Outcome UInt32 × Buffer :=
  bounded (str "buffer::get_net_long") 4 fun b => b.readAt 4 Net.getNetLong

/-- `get_net_long_long()`. -/
def getNetLongLong : Buffer → Outcome UInt64 × Buffer :=
  bounded (str "buffer::get_net_long_long") 8 fun b => b.readAt 8 Net.getNetLongLong

/-- `get_segment(len)`. Nothing is copied for a negative size. -/
def getSegment (len : ℤ) : Buffer → Outcome Buffer × Buffer :=
  bounded (str "buffer::get_segment") len fun b =>
    if len < 0 then .returned (ofPointer [] len) else b.readAt len.toNat (ofPointer · len)

/-- `std::string(&p[o], len)`. -/
def stringAt (b : Buffer) (len : ℤ) : Outcome StdString :=
  if len < 0 then .threw .lengthError else b.readAt len.toNat id

/-- `get_string(len)`. -/
def getString (len : ℤ) : Buffer → Outcome StdString × Buffer :=
  bounded (str "buffer::get_string()") len fun b => b.stringAt len

/-- `get_string()`: the rest. -/
def getRest (b : Buffer) : Outcome StdString × Buffer :=
  if b.o = b.size then (.threw (.outOfRange (str "buffer::get_string")), b)
  else
    let len := b.size - b.o
    match b.stringAt len with
    | .returned value => (.returned value, { b with o := b.o + len })
    | .threw exception => (.threw exception, b)
    | .undefined => (.undefined, b)

/-- `seek(len)`. -/
def seek (len : ℤ) : Buffer → Outcome Unit × Buffer :=
  bounded (str "buffer::seek") len fun _ => .returned ()

/-- `get_bytes(len)`: the index of the first byte. -/
def getBytes (len : ℤ) : Buffer → Outcome ℤ × Buffer :=
  bounded (str "buffer::get_bytes") len fun b => .returned b.o

/-- `reset()`. -/
def reset (b : Buffer) : Outcome Unit × Buffer := (.returned (), { b with o := 0 })

/-- `operator=`. The cursor stays where it was. -/
def assign (other b : Buffer) : Outcome Unit × Buffer :=
  (.returned (), { Ax25.Buffer.ofPointer other.bytes other.size with o := b.o })

end Buffer

end HamRouter
