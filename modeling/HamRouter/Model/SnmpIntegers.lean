import HamRouter.Library.BigEndian
import HamRouter.Model.SnmpRequest
import HamRouter.Program.Stats

/-! # What the integers of a reply are to stand for -/

namespace HamRouter.Snmp

/-- The request-id of a reply. -/
def Elem.requestId : Elem → Option Elem
  | .sequence [_, _, .pdu _ (reqId :: _)] => some reqId
  | _ => none

/-- The reply has an INTEGER as its request-id, with the two's-complement value of the one
that was asked with. -/
def SameId (reply : Elem) (content : List UInt8) : Prop :=
  ∃ reqId written, reply.requestId = some reqId ∧
    reqId.getPayload.out.bytes = element 0x02 written ∧
    BigEndian.signed written = BigEndian.signed content

/-- A number that is not negative and not one of those with 32 bits of which the highest is
set, or a negative number of four or eight bytes. -/
def KeepsSign (content : List UInt8) : Prop :=
  if 128 ≤ content.headD 0 then content.length = 4 ∨ content.length = 8
  else ¬ (2 ^ 31 ≤ BigEndian.unsigned content ∧ BigEndian.unsigned content < 2 ^ 32)

instance (content : List UInt8) : Decidable (KeepsSign content) := by
  unfold KeepsSign
  infer_instance

/-- What is done to a counter. -/
inductive CounterCall where
  | inc
  | add (value : UInt64)

def CounterCall.apply (p : UInt64) : CounterCall → UInt64
  | .inc => statsIncCounter p
  | .add value => statsAddCounter p value

/-- A counter after a run. `register_stat` sets it to 0. -/
def counterAfter (calls : List CounterCall) : UInt64 := calls.foldl CounterCall.apply 0

def CounterCall.amount : CounterCall → ℕ
  | .inc => 1
  | .add value => value.toNat

/-- What was accumulated in a run. -/
def accumulated (calls : List CounterCall) : ℕ := (calls.map CounterCall.amount).sum

/-- The time between two readings of the clock, in hundredths of a second. -/
def ticksBetween (since now : UInt64) : ℤ := now.toNat / 10000 - since.toNat / 10000

/-- An element is put out with at most five bytes of content, which stand for a number
modulo 2^32. -/
def PutsOut32 (value : List UInt8 → ℤ) (e : Elem) (type : UInt8) (n : ℤ) : Prop :=
  ∃ content, e.getPayload.out.bytes = element type content ∧ content.length ≤ 5 ∧
    value content = n % 2 ^ 32

end HamRouter.Snmp
