import HamRouter.Library.Block
import HamRouter.Program.Str

/-! # SNMP elements: `snmp-elem.cpp`

The lengths are kept in `uint8_t` variables and wrap. -/

namespace HamRouter.Snmp

open Memory

/-! ## Object identifiers -/

/-- The loop `while(v)` that fills `temp`, lowest group first. -/
def groups (v : UInt64) : List UInt8 :=
  if v = 0 then [] else (v &&& 127).toUInt8 :: groups (v >>> 7)
termination_by v.toNat
decreasing_by
  rename_i h
  have hne : v.toNat ≠ 0 := fun hzero => h (UInt64.toNat_inj.mp hzero)
  have hshift : (v >>> 7).toNat = v.toNat / 128 := by
    simp [UInt64.toNat_shiftRight, Nat.shiftRight_eq_div_pow]
  omega

/-- `temp[0 .. temp_o)` for a value. -/
def temp (v : UInt64) : List UInt8 := if v = 0 then [0] else groups v

/-- What is put out of `temp`, from its end: all but the last byte have bit 7 set. -/
def emit : List UInt8 → List UInt8
  | [] => []
  | first :: rest => rest.reverse.map (· ||| 128) ++ [first]

/-- The loop over `work`: the contents of `temp` in each round. -/
def oidRounds (work : StdString) : List (List UInt8) :=
  if work = [] then []
  else
    temp (UInt64.ofInt (atoll work)) ::
      match _h : work.idxOf? (ch '.') with
      | none => []
      | some dot => oidRounds (work.drop (dot + 1))
termination_by work.length
decreasing_by
  have hpos := List.length_pos_of_ne_nil ‹¬work = []›
  rw [List.length_drop]
  omega

/-- What the constructor of `snmp_oid` does: the size it allocates, the contents of its
ten bytes `temp` in each round, and the bytes it writes to the allocated memory. -/
structure OidBuild where
  newSize : ℕ
  rounds : List (List UInt8)
  written : List UInt8

/-- `snmp_oid(oid)`. -/
def snmpOid (oid : StdString) : OidBuild :=
  let isPrefixed := oid.take 4 = str "1.3."
  let rounds := oidRounds (if isPrefixed then oid.drop 4 else oid)
  { newSize := oid.length
    rounds := rounds
    written := (if isPrefixed then [43] else []) ++ rounds.flatMap emit }

/-! ## The elements -/

inductive IntegerType where
  | counter32
  | integer
  | counter64
  | ticks
deriving DecidableEq

/-- The classes below `snmp_elem`. An OID has the bytes its constructor wrote. -/
inductive Elem where
  | integer (type : IntegerType) (v : UInt64)
  | octetString (v : List UInt8)
  | oid (v : List UInt8)
  | null
  | sequence (sequence : List Elem)
  | pdu (type : UInt8) (sequence : List Elem)

def IntegerType.snmpType : IntegerType → UInt8
  | .integer => 0x02
  | .counter32 => 0x41
  | .counter64 => 0x46
  | .ticks => 0x43

/-- `len` of an integer element. -/
def integerLen (v : UInt64) : UInt8 := if v ≤ 0xffffffff then 4 else 8

mutual

/-- `get_size()`: `len` for all but the sequences. -/
def Elem.getSize : Elem → UInt8
  | .integer _ v => integerLen v
  | .octetString v => UInt8.ofNat v.length
  | .oid v => UInt8.ofNat v.length
  | .null => 0
  | .sequence es => sumSizes es + UInt8.ofNat (es.length * 2)
  | .pdu _ es => sumSizes es + UInt8.ofNat (es.length * 2)

def sumSizes : List Elem → UInt8
  | [] => 0
  | e :: es => e.getSize + sumSizes es

end

/-- A result of `get_payload()`: the block and the size that is returned with it. The
assertions are those of the element and of everything in it. -/
structure Payload where
  out : Block
  size : UInt8
  asserted : Bool

/-- The big-endian bytes `v >> (len * 8 - (i + 1) * 8)` for `i` from 0 to `len - 1`. -/
def bigEndian (len : ℕ) (v : UInt64) : List UInt8 :=
  (List.range len).map fun i => (v >>> UInt64.ofNat (len * 8 - (i + 1) * 8)).toUInt8

def integerPayload (type : IntegerType) (v : UInt64) : Payload :=
  let len := integerLen v
  let size := len + 2
  let out := ((Block.malloc size.toNat).write 0 type.snmpType).write 1 len
  { out := out.memcpy 2 (bigEndian len.toNat v), size := size, asserted := true }

/-- Octet strings and OIDs: `len` bytes of `v` behind a type and `len`. -/
def bytesPayload (type : UInt8) (v : List UInt8) : Payload :=
  let len := UInt8.ofNat v.length
  let outLen := len + 2
  let out := (Block.malloc outLen.toNat).memcpy 2 (v.take len.toNat)
  { out := (out.write 0 type).write 1 len, size := outLen, asserted := true }

def nullPayload : Payload :=
  { out := ((Block.malloc 2).write 0 0x05).write 1 0x00, size := 2, asserted := true }

/-- The loop of `snmp_sequence::get_payload` over the payloads of the children. A write
behind the block of a child counts as well. -/
def copyPayloads : Block → UInt8 → List Payload → Block × UInt8
  | out, o, [] => (out, o)
  | out, o, pl :: rest =>
      let out := out.memcpy o.toNat pl.out.bytes
      copyPayloads { out with overrun := out.overrun || pl.out.overrun } (o + pl.size) rest

/-- `snmp_sequence::get_payload`, with the result of `get_size()`. -/
def sequencePayload (getSize : UInt8) (children : List Payload) : Payload :=
  let outSize := getSize + 2
  let out := ((Block.malloc outSize.toNat).write 0 0x30).write 1 (outSize - 2)
  let (out, o) := copyPayloads out 2 children
  { out := out
    size := outSize
    asserted := children.all (·.asserted) && o == outSize }

mutual

/-- `get_payload()`. -/
def Elem.getPayload : Elem → Payload
  | .integer type v => integerPayload type v
  | .octetString v => bytesPayload 0x04 v
  | .oid v => bytesPayload 0x06 v
  | .null => nullPayload
  | .sequence es => sequencePayload (Elem.sequence es).getSize (payloads es)
  | .pdu type es =>
      let pl := sequencePayload (Elem.pdu type es).getSize (payloads es)
      { pl with out := pl.out.write 0 type }

def payloads : List Elem → List Payload
  | [] => []
  | e :: es => e.getPayload :: payloads es

end

end HamRouter.Snmp
