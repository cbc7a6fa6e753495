import HamRouter.Model.SnmpScan

/-! # Datagrams with an element that fails to parse -/

namespace HamRouter.Snmp

open TracedRead

/-- What bytes are the content of: a sequence, the rest of a sequence, the rest of a PDU with
a number of integers before its variable-binding list, the rest of such a list, of which a
number of bytes is announced. -/
inductive Place where
  | sequence
  | elements
  | parts (integers : ℕ)
  | varbinds (announced : ℕ)

/-- An element fails to parse, at any depth. Inside a variable binding, and by running out of
its PDU, it only counts if `all`. -/
inductive Fails (all : Bool) : Place → List UInt8 → Prop where
  | small {content} (h : content.length < 2) : Fails all .sequence content
  | sequence {content} (h : Fails all .elements content) : Fails all .sequence content
  | unknown {type length rest} (h : ¬ isKnown type) : Fails all .elements (type :: length :: rest)
  | outOfSequence {type length rest} (h : rest.length < length.toNat) :
      Fails all .elements (type :: length :: rest)
  | oid {length rest} (hin : length.toNat ≤ rest.length)
      (h : getOid (rest.take length.toNat) = none) : Fails all .elements (0x06 :: length :: rest)
  | nested {length rest} (hin : length.toNat ≤ rest.length)
      (h : Fails all .sequence (rest.take length.toNat)) :
      Fails all .elements (0x30 :: length :: rest)
  | pdu {type length rest} (htype : isPdu type) (hin : length.toNat ≤ rest.length)
      (h : Fails all (.parts 3) (rest.take length.toNat)) :
      Fails all .elements (type :: length :: rest)
  | later {type length rest} (hin : length.toNat ≤ rest.length)
      (h : Fails all .elements (rest.drop length.toNat)) :
      Fails all .elements (type :: length :: rest)
  | noPart {n bytes} (h : bytes.length < 2) : Fails all (.parts n) bytes
  | outOfPdu {n type length rest} (hall : all = true) (h : rest.length < length.toNat) :
      Fails all (.parts n) (type :: length :: rest)
  | notInteger {n type length rest} (h : type ≠ 0x02) :
      Fails all (.parts (n + 1)) (type :: length :: rest)
  | laterPart {n length rest} (hin : length.toNat ≤ rest.length)
      (h : Fails all (.parts n) (rest.drop length.toNat)) :
      Fails all (.parts (n + 1)) (0x02 :: length :: rest)
  | notList {type length rest} (h : type ≠ 0x30) : Fails all (.parts 0) (type :: length :: rest)
  | list {length : UInt8} {rest} (h : Fails all (.varbinds length.toNat) (rest.take length.toNat)) :
      Fails all (.parts 0) (0x30 :: length :: rest)
  | noVarbind {announced bytes} (hpos : announced ≠ 0) (h : bytes.length < 2) :
      Fails all (.varbinds announced) bytes
  | outOfList {announced type length rest} (hpos : announced ≠ 0)
      (h : announced < 2 + length.toNat) : Fails all (.varbinds announced) (type :: length :: rest)
  | notVarbind {announced type length rest} (hpos : announced ≠ 0) (h : type ≠ 0x30) :
      Fails all (.varbinds announced) (type :: length :: rest)
  | varbind {announced length rest} (hall : all = true) (hin : 2 + length.toNat ≤ announced)
      (h : Fails all .sequence (rest.take length.toNat)) :
      Fails all (.varbinds announced) (0x30 :: length :: rest)
  | laterVarbind {announced type length rest} (hin : 2 + length.toNat ≤ announced)
      (h : Fails all (.varbinds (announced - (2 + length.toNat))) (rest.drop length.toNat)) :
      Fails all (.varbinds announced) (type :: length :: rest)

/-- Some element of a datagram fails to parse. -/
def SomeFails (bytes : List UInt8) : Prop := Fails true .sequence bytes

/-- Some element outside the variable bindings fails to parse, other than by running out of
its PDU. -/
def FailsOutside (bytes : List UInt8) : Prop := Fails false .sequence bytes

/-- The outermost `process_BER` returns `false`, and no reply is sent. -/
def Dropped (bytes : List UInt8) : Prop :=
  ∀ (beyond : ℕ → UInt8) (findNextOid : StdString → StdString)
    (findByOid : StdString → Option (Option Elem)),
    (∃ req, (parseDatagram ⟨bytes, beyond⟩ findNextOid (bytes.length + 2)).val =
        some (false, req)) ∧
      input ⟨bytes, beyond⟩ findNextOid findByOid (bytes.length + 2) = some none

end HamRouter.Snmp
