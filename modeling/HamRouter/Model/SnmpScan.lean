import HamRouter.Program.Snmp

/-! # Whether a datagram holds what it announces

An element announces its length; `bytes` are those of them that are there, in its own
region and in the regions around it. -/

namespace HamRouter.Snmp

/-- The types of the PDUs. -/
def isPdu (type : UInt8) : Prop := type = 0xa0 ∨ type = 0xa1 ∨ type = 0xa3

instance (type : UInt8) : Decidable (isPdu type) := by
  unfold isPdu
  infer_instance

/-- The types of elements. -/
def isKnown (type : UInt8) : Prop :=
  type = 0x02 ∨ type = 0x04 ∨ type = 0x05 ∨ type = 0x06 ∨ type = 0x30 ∨ isPdu type

instance (type : UInt8) : Decidable (isKnown type) := by
  unfold isKnown
  infer_instance

/-- The element is accepted or rejected, or a byte of it is needed that is not there. -/
inductive Verdict where
  | accepted
  | rejected
  | short
  | unfinished
deriving DecidableEq

/-- Go on behind an accepted element. -/
def Verdict.andThen : Verdict → Verdict → Verdict
  | .accepted, next => next
  | verdict, _ => verdict

/-- Go on behind an element, accepted or not. -/
def Verdict.regardless : Verdict → Verdict → Verdict
  | .accepted, next => next
  | .rejected, next => next
  | verdict, _ => verdict

/-- A type, a length and what follows them. -/
def headerScan (next : UInt8 → UInt8 → List UInt8 → Verdict) : List UInt8 → Verdict
  | type :: length :: rest => next type length rest
  | _ => .short

/-- An integer of a PDU with all of its bytes. -/
def integerScan (next : List UInt8 → Verdict) (bytes : List UInt8) : Verdict :=
  headerScan (fun type length rest =>
    if type ≠ 0x02 then .rejected
    else if rest.length < length.toNat then .short
    else next (rest.drop length.toNat)) bytes

def lengthScan (next : ℕ → List UInt8 → Verdict) : List UInt8 → Verdict
  | [] => .short
  | length :: rest => next length.toNat (rest.take length.toNat)

/-- The header of the variable-binding list; the length is only looked at behind the
right type. -/
def listScan (next : ℕ → List UInt8 → Verdict) : List UInt8 → Verdict
  | [] => .short
  | type :: rest => if type ≠ 0x30 then .rejected else lengthScan next rest

mutual

/-- A PDU of `len` bytes: three integers and a list of variable bindings. -/
def pduScan : ℕ → (len : ℕ) → List UInt8 → Verdict
  | 0, _, _ => .unfinished
  | fuel + 1, len, bytes =>
      if len < 2 then .rejected
      else integerScan (integerScan (integerScan (listScan (varbindScan fuel)))) bytes
termination_by structural fuel => fuel

/-- The rest of a variable-binding list, of which `len` bytes are announced. -/
def varbindScan : ℕ → (len : ℕ) → List UInt8 → Verdict
  | 0, _, _ => .unfinished
  | fuel + 1, len, bytes =>
      if len = 0 then .accepted
      else
        headerScan (fun type length rest =>
          if len < 2 + length.toNat then .rejected
          else if type = 0x30 then
            (berScan fuel length.toNat 0 (rest.take length.toNat)).regardless
              (varbindScan fuel (len - (2 + length.toNat)) (rest.drop length.toNat))
          else .rejected) bytes
termination_by structural fuel => fuel

/-- A sequence of elements of `len` bytes. -/
def berScan : ℕ → (len : ℕ) → (isTop : ℤ) → List UInt8 → Verdict
  | 0, _, _, _ => .unfinished
  | fuel + 1, len, isTop, bytes =>
      if len < 2 then .rejected else elementScan fuel len isTop true bytes
termination_by structural fuel => fuel

/-- The rest of a sequence of elements. Integers are passed over, except for the first
one where it is the version. -/
def elementScan : ℕ → (len : ℕ) → (isTop : ℤ) → (firstInteger : Bool) → List UInt8 → Verdict
  | 0, _, _, _, _ => .unfinished
  | fuel + 1, len, isTop, firstInteger, bytes =>
      if len < 2 then .accepted
      else
        headerScan (fun type length rest =>
          let behind := rest.drop length.toNat
          let left := len - (2 + length.toNat)
          if len < 2 + length.toNat then .rejected
          else if type = 0x02 then
            if isTop ≠ 0 ∧ firstInteger then
              if rest.length < length.toNat then .short
              else elementScan fuel left isTop false behind
            else elementScan fuel left isTop false behind
          else if type = 0x04 then
            if rest.length < length.toNat then .short
            else elementScan fuel left isTop firstInteger behind
          else if type = 0x05 then elementScan fuel left isTop firstInteger behind
          else if type = 0x06 then
            if rest.length < length.toNat then .short
            else if (getOid (rest.take length.toNat)).isNone then .rejected
            else elementScan fuel left isTop firstInteger behind
          else if type = 0x30 then
            (berScan fuel length.toNat (isTop - 1) (rest.take length.toNat)).andThen
              (elementScan fuel left isTop firstInteger behind)
          else if type = 0xa0 ∨ type = 0xa1 ∨ type = 0xa3 then
            (pduScan fuel length.toNat (rest.take length.toNat)).andThen
              (elementScan fuel left isTop firstInteger behind)
          else .rejected) bytes
termination_by structural fuel => fuel

end

/-- The verdict on a datagram. Each step takes two bytes at least. -/
def datagramScan (bytes : List UInt8) : Verdict :=
  berScan (bytes.length + 2) bytes.length 2 bytes

end HamRouter.Snmp
