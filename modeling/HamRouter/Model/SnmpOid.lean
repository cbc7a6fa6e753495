import HamRouter.Library.Base128
import HamRouter.Program.Snmp

/-! # The sub-identifiers of an OID

The values a sequence of octets stands for, their text, and the room an OID takes as
text and as octets. -/

namespace HamRouter.Snmp

/-- The 32-bit values of the groups of seven bits that end in an octet below 128, and the
value of the open group at the end. -/
def subIdentifiers : UInt32 → List UInt8 → List UInt32 × UInt32
  | v, [] => ([], v)
  | v, b :: rest =>
      if b < 128 then
        (((v <<< 7) ||| b.toUInt32) :: (subIdentifiers 0 rest).1, (subIdentifiers 0 rest).2)
      else subIdentifiers ((v <<< 7) ||| (b &&& 127).toUInt32) rest

/-- A first octet 43 is printed as `1.3`. -/
def isIso (octets : List UInt8) : Prop := octets.head? = some 43

instance (octets : List UInt8) : Decidable (isIso octets) := by
  unfold isIso
  infer_instance

/-- The sub-identifiers printed with a dot and a number. -/
def dottedIds (octets : List UInt8) : List UInt32 :=
  (subIdentifiers 0 (if isIso octets then octets.tail else octets)).1

/-- A sub-identifier as text. -/
def dotted (v : UInt32) : StdString := ch '.' :: formatInt v.toInt32.toInt

/-- The characters of a sub-identifier with its dot. Those with bit 31 are printed as
negative numbers. -/
def printedLength (v : UInt32) : ℕ :=
  if v < 0x80000000 then 1 + max 1 (Nat.digits 10 v.toNat).length
  else 2 + max 1 (Nat.digits 10 (2 ^ 32 - v.toNat)).length

/-- The octets of a sub-identifier that was printed and read back, ten for a negative
number of 64 bits. -/
def groupCount (v : UInt32) : ℕ :=
  if v < 0x80000000 then max 1 (Nat.digits 128 v.toNat).length else 10

/-- The text of the OID has as many characters as its octets need: one octet for `1.3`, or
for the empty component before a leading dot, and the groups of each sub-identifier. -/
def Roomy (octets : List UInt8) : Prop :=
  dottedIds octets = [] ∨
    1 + ((dottedIds octets).map groupCount).sum ≤
      (if isIso octets then 3 else 0) + ((dottedIds octets).map printedLength).sum

/-- An octet string that `get_OID` accepts, with its text. -/
structure AcceptedOid where
  octets : List UInt8
  text : StdString
  accepted : getOid octets = some text

/-- `1.3` and numbers, each with a dot before it. -/
def isoText (ids : List ℕ) : StdString := str "1.3" ++ ids.flatMap fun a => ch '.' :: decimal a

/-- An accepted octet string with sub-identifiers below 2^31 in as few octets as possible,
where the first octet may be any. -/
structure MinimalOid extends AcceptedOid where
  ids : List ℕ
  small : ∀ a ∈ ids, a < 2 ^ 31
  minimal : octets = ids.flatMap Base128.encode ∨
    ∃ first, octets = first :: ids.flatMap Base128.encode

/-- Octets that are empty, or 43 and at least one more. -/
def Rooted (octets : List UInt8) : Prop :=
  octets = [] ∨ ∃ rest, rest ≠ [] ∧ octets = 43 :: rest

/-- The contents of the OIDs in front of the values of a reply. -/
def varbindNames : Elem → List (List UInt8)
  | .sequence [_, _, .pdu _ [_, _, _, .sequence varbinds]] =>
      varbinds.filterMap fun
        | .sequence [.oid v, _] => some v
        | _ => none
  | _ => []

/-- Encoding the text again stays in the allocated memory and in `temp`. -/
def AcceptedOid.StaysInside (o : AcceptedOid) : Prop :=
  (snmpOid o.text).written.length ≤ (snmpOid o.text).newSize ∧
    ∀ round ∈ (snmpOid o.text).rounds, round.length ≤ 10

end HamRouter.Snmp
