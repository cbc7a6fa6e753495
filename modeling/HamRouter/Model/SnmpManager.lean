import HamRouter.Library.BigEndian
import HamRouter.Model.SnmpRegistry
import HamRouter.Model.SnmpRequest
import HamRouter.Model.SnmpTree

/-! # A manager of the agent

How the bytes of a reply are taken apart again, and a manager that asks for the next name until
there is none. -/

namespace HamRouter.Snmp

open SnmpData

/-! ## Reading a reply -/

/-- The number without a sign that octets stand for, in 64 bits. -/
def number (octets : List UInt8) : UInt64 := UInt64.ofNat (BigEndian.unsigned octets)

/-- The type and the content of the first element, and what is behind it. -/
def readElement : List UInt8 → Option (UInt8 × List UInt8 × List UInt8)
  | type :: length :: rest =>
      if length.toNat ≤ rest.length then
        some (type, rest.take length.toNat, rest.drop length.toNat)
      else none
  | _ => none

def readElements : ℕ → List UInt8 → Option (List (UInt8 × List UInt8))
  | _, [] => some []
  | 0, _ :: _ => none
  | fuel + 1, b :: bytes =>
      (readElement (b :: bytes)).bind fun e =>
        (readElements fuel e.2.2).map ((e.1, e.2.1) :: ·)

/-- The types and the contents of the elements, when the bytes are nothing else. -/
def elementsOf (bytes : List UInt8) : Option (List (UInt8 × List UInt8)) :=
  readElements bytes.length bytes

def contentOf (type : UInt8) (e : UInt8 × List UInt8) : Option (List UInt8) :=
  if e.1 = type then some e.2 else none

/-- The name of a variable binding, and the bytes of its value. -/
def readBinding (e : UInt8 × List UInt8) : Option (List UInt8 × List UInt8) :=
  ((contentOf 0x30 e).bind readElement).bind fun first =>
    (contentOf 0x06 (first.1, first.2.1)).map (·, first.2.2)

/-- What a reply says. -/
structure Reply where
  version : UInt64
  community : List UInt8
  reqId : UInt64
  err : UInt64
  errIdx : UInt64
  bindings : List (List UInt8 × List UInt8)
deriving DecidableEq

def readInteger (e : UInt8 × List UInt8) : Option UInt64 := (contentOf 0x02 e).map number

def readPdu (version : UInt64) (community : List UInt8) :
    List (UInt8 × List UInt8) → Option Reply
  | [reqId, err, errIdx, varbinds] => do
      let reqId ← readInteger reqId
      let err ← readInteger err
      let errIdx ← readInteger errIdx
      let bindings ← (← elementsOf (← contentOf 0x30 varbinds)).mapM readBinding
      return ⟨version, community, reqId, err, errIdx, bindings⟩
  | _ => none

def readMessage : List (UInt8 × List UInt8) → Option Reply
  | [version, community, pdu] => do
      let version ← readInteger version
      let community ← contentOf 0x04 community
      readPdu version community (← elementsOf (← contentOf 0xa2 pdu))
  | _ => none

def readReply (bytes : List UInt8) : Option Reply :=
  (elementsOf bytes).bind fun
    | [message] => ((contentOf 0x30 message).bind elementsOf).bind readMessage
    | _ => none

/-! ## What a request is to be told -/

/-- An empty community is filled in. -/
def communityOf (community : StdString) : StdString :=
  if community = [] then str "public" else community

namespace Request

variable (q : Request) (findNextOid : StdString → StdString)
  (findByOid : StdString → Option (Option Elem))

/-- The OIDs of the request that are answered. -/
def answeredOids : List StdString :=
  (q.oids.filter fun o => ¬ q.Exhausted findNextOid o).map (q.answered findNextOid)

def SomeExhausted : Prop := ∃ o ∈ q.oids, q.Exhausted findNextOid o

instance : Decidable (q.SomeExhausted findNextOid) := by
  unfold SomeExhausted
  infer_instance

/-- The version is an `int` on its way, and the error index always is 1. -/
def reply : Reply where
  version := (number q.version).toUInt32.toInt32.toInt64.toUInt64
  community := communityOf q.community
  reqId := number q.reqId
  err := if q.SomeExhausted findNextOid then 2 else 0
  errIdx := if q.SomeExhausted findNextOid then 1 else 0
  bindings := (q.answeredOids findNextOid).map fun e =>
    ((snmpOid e).written, (replyValue findByOid e).getPayload.out.bytes)

/-- The bytes of variable bindings. -/
def varbindsLength (findByOid : StdString → Option (Option Elem)) (oids : List StdString) : ℕ :=
  (oids.map fun e => 6 + (snmpOid e).written.length + (replyValue findByOid e).contentLength).sum

/-- The bytes in a reply behind its type and its length. -/
def replyLength : ℕ :=
  2 + (Elem.integer .integer (q.reply findNextOid findByOid).version).contentLength +
    (2 + (q.reply findNextOid findByOid).community.length) +
    (2 + (2 + (Elem.integer .integer (number q.reqId)).contentLength + 6 + 6 +
      (2 + varbindsLength findByOid (q.answeredOids findNextOid))))

/-- The reply and the values in it leave room for two bytes in 255. -/
structure HasRoom : Prop where
  values : ∀ e ∈ q.answeredOids findNextOid, (replyValue findByOid e).Fits
  length : q.replyLength findNextOid findByOid ≤ 253

end Request

/-! ## Asking for the next name -/

/-- What a manager puts into its requests, a number for each. -/
structure Manager where
  version : List UInt8
  community : List UInt8
  reqId : ℕ → List UInt8

namespace Manager

variable (m : Manager)

/-- The `n`-th request, for the name behind another. -/
def datagram (n : ℕ) (name : List UInt8) : List UInt8 :=
  element 0x30 (element 0x02 m.version ++ element 0x04 m.community ++
    element 0xa1 (element 0x02 (m.reqId n) ++ element 0x02 [0] ++ element 0x02 [0] ++
      element 0x30 (element 0x30 (element 0x06 name ++ element 0x05 []))))

/-- Asking for the next name, from the `n`-th request on, until the agent says that there is
none. A reply to another request, or with more or fewer bindings, ends it with nothing. -/
def walk (answer : ℕ → List UInt8 → Option (List UInt8)) :
    ℕ → ℕ → List UInt8 → Option (List (List UInt8 × List UInt8))
  | 0, _, _ => none
  | rounds + 1, n, name =>
      ((answer n (m.datagram n name)).bind readReply).bind fun reply =>
        if reply.reqId ≠ number (m.reqId n) then none
        else if reply.err = 2 then some []
        else
          match reply.bindings with
          | [binding] => (walk answer rounds (n + 1) binding.1).map (binding :: ·)
          | _ => none

end Manager

/-! ## The agent that is asked -/

/-- The octets of an OID below 1.3. -/
def octetsOf (o : Oid) : List UInt8 :=
  43 :: (o.ids.drop 2).flatMap fun i => Base128.encode i.toNat

/-- `find_next_oid` as far as it returns. -/
def nextName {δ : Type*} (data : List (Node δ)) (oid : StdString) : StdString :=
  match findNextOid data oid with
  | .returned next => next
  | .nullParent => []
  | .assertFailed => []

/-- Registrations below 1.3, and what `get_data()` of an object returns at each time. -/
structure Agent (δ : Type*) extends Registrations δ where
  iso : [1, 3] <+: root.ids
  registered : entries ≠ []
  getData : ℕ → δ → Elem

namespace Agent

variable {δ : Type*} (a : Agent δ)

def findNext (oid : StdString) : StdString := nextName (treeOf a.entries) oid

/-- `find_by_oid` at a time. -/
def findAt (n : ℕ) (oid : StdString) : Option (Option Elem) :=
  (findByOid (treeOf a.entries) oid).map (·.map (a.getData n))

/-- What the agent sends for the datagram at a time, with what lies behind it in the
buffer. -/
def answer (beyond : ℕ → ℕ → UInt8) (n : ℕ) (datagram : List UInt8) : Option (List UInt8) :=
  ((input ⟨datagram, beyond n⟩ a.findNext (a.findAt n) (datagram.length + 2)).bind id).map
    (·.out.bytes)

/-- The OIDs that are asked for the next one. -/
def asked : List Oid := a.root :: a.entries.map Prod.fst

end Agent

/-- The bytes in a reply with one binding, behind its type and its length. -/
def Manager.replyLength (m : Manager) (n : ℕ) (name : List UInt8) (value : Elem) : ℕ :=
  (Elem.integer .integer (number m.version).toUInt32.toInt32.toInt64.toUInt64).contentLength +
    (communityOf m.community).length +
    (Elem.integer .integer (number (m.reqId n))).contentLength + name.length +
    value.contentLength + 28

/-- Every request has lengths of one byte, and there is room for every reply to one. -/
structure Manager.Suits {δ : Type*} (m : Manager) (a : Agent δ) : Prop where
  short : ∀ n, ∀ o ∈ a.asked, (m.datagram n (octetsOf o)).length < 258
  values : ∀ n, ∀ entry ∈ a.entries, (a.getData n entry.2).Fits
  room : ∀ n, ∀ entry ∈ a.entries,
    m.replyLength n (octetsOf entry.1) (a.getData n entry.2) ≤ 253

end HamRouter.Snmp
