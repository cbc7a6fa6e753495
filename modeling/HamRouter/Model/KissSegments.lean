import HamRouter.Library.Segments
import HamRouter.Program.Kiss

/-! # What a KISS stream says

A stream is cut at its `FEND` bytes; each segment is decoded on its own. -/

namespace HamRouter.Kiss

open Segments

/-- A byte of the packet, or an escape that stands for none. -/
inductive Item where
  | byte (b : UInt8)
  | broken

def Item.bytes : Item → List UInt8
  | .byte b => [b]
  | .broken => []

/-- What stands after a `FESC`. -/
def resolve (c : UInt8) : Item :=
  if c = tfend then .byte fend
  else if c = tfesc then .byte fesc
  else .broken

/-- The items of a segment, and whether it ends in an open escape. -/
def scan : Bool → List UInt8 → List Item × Bool
  | escape, [] => ([], escape)
  | true, c :: rest => (resolve c :: (scan false rest).1, (scan false rest).2)
  | false, c :: rest =>
      if c = fesc then scan true rest
      else (.byte c :: (scan false rest).1, (scan false rest).2)

def decode (segment : List UInt8) : List UInt8 := (scan false segment).1.flatMap Item.bytes

/-- The packet of a segment: no empty one, no oversized one, without the command byte. -/
def packetOf (segment : List UInt8) : Option (List UInt8) :=
  if 1 ≤ (decode segment).length ∧ (decode segment).length ≤ maxPacketSize then
    some (decode segment).tail
  else none

/-- The packets of a stream. -/
def packets (stream : List UInt8) : List (List UInt8) :=
  (terminated fend stream).filterMap packetOf

/-! ## Segments that leave nothing behind -/

/-- Count the bytes, starting again at each item that finds the count at the limit. -/
def leftOver : ℕ → List Item → ℕ
  | n, [] => n
  | n, item :: rest => leftOver (if n = maxPacketSize then 0 else n + item.bytes.length) rest

/-- The items of a segment, an open escape at its end included. -/
def closedItems (segment : List UInt8) : List Item :=
  (scan false segment).1 ++ if (scan false segment).2 then [.broken] else []

/-- A packet is not followed by an escape; anything else is cut off without a rest. -/
def SegmentSafe (segment : List UInt8) : Prop :=
  if (packetOf segment).isSome then
    (scan false segment).2 = false ∧ leftOver 0 (closedItems segment) = (decode segment).length
  else leftOver 0 (closedItems segment) = 0

instance (segment : List UInt8) : Decidable (SegmentSafe segment) := by
  unfold SegmentSafe
  infer_instance

end HamRouter.Kiss
