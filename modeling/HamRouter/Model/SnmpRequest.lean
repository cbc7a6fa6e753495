import HamRouter.Model.SnmpOid

/-! # Requests and what their replies are to hold -/

namespace HamRouter.Snmp

open TracedRead

/-- A type, a length of one byte and the content. -/
def element (type : UInt8) (content : List UInt8) : List UInt8 :=
  type :: UInt8.ofNat content.length :: content

/-- An OID and a NULL. -/
def varbindContent (o : AcceptedOid) : List UInt8 := element 0x06 o.octets ++ element 0x05 []

def varbind (o : AcceptedOid) : List UInt8 := element 0x30 (varbindContent o)

/-- What a Get or a GetNext request holds, as the contents of its elements. -/
structure RequestParts where
  version : List UInt8
  community : List UInt8
  getNext : Bool
  reqId : List UInt8
  error : List UInt8
  errorIndex : List UInt8
  oids : List AcceptedOid

namespace RequestParts

variable (q : RequestParts)

def pduContent : List UInt8 :=
  element 0x02 q.reqId ++ element 0x02 q.error ++ element 0x02 q.errorIndex ++
    element 0x30 (q.oids.flatMap varbind)

def pduType : UInt8 := if q.getNext then 0xa1 else 0xa0

def content : List UInt8 :=
  element 0x02 q.version ++ element 0x04 q.community ++ element q.pduType q.pduContent

end RequestParts

/-- A request whose lengths all are lengths of one byte. -/
structure Request extends RequestParts where
  short : toRequestParts.content.length < 256

namespace Request

variable (q : Request) (findNextOid : StdString → StdString)
  (findByOid : StdString → Option (Option Elem))

def bytes : List UInt8 := element 0x30 q.content

/-- The OID is one of a GetNext request, and there is none behind it. -/
def Exhausted (o : AcceptedOid) : Prop := q.getNext = true ∧ findNextOid o.text = []

instance (o : AcceptedOid) : Decidable (q.Exhausted findNextOid o) := by
  unfold Exhausted
  infer_instance

/-- The OID that is answered. -/
def answered (o : AcceptedOid) : StdString := if q.getNext then findNextOid o.text else o.text

/-- The variable binding for an OID that is not exhausted. -/
def Binds (o : AcceptedOid) (e : Elem) : Prop :=
  ¬ q.Exhausted findNextOid o →
    e = .sequence [.oid (snmpOid (q.answered findNextOid o)).written,
      replyValue findByOid (q.answered findNextOid o)]

end Request

/-- The variable bindings of a reply. -/
def Elem.varbinds : Elem → List Elem
  | .sequence [_, _, .pdu _ [_, _, _, .sequence varbinds]] => varbinds
  | _ => []

namespace Request

variable (q : Request) (findNextOid : StdString → StdString)
  (findByOid : StdString → Option (Option Elem))

/-- A reply has one variable binding for each OID of the request, in order, and its error
index is the position of the first exhausted OID. -/
structure Answers (req : OidReq) : Prop where
  bindings : List.Forall₂ (q.Binds findNextOid findByOid) q.oids (genReply findByOid req).varbinds
  errorIndex : ∀ front o back, q.oids = front ++ o :: back → q.Exhausted findNextOid o →
    (∀ other ∈ front, ¬ q.Exhausted findNextOid other) →
      req.err = 2 ∧ req.errIdx.toInt = front.length + 1

/-- The request is parsed, and answered. -/
def Answered : Prop :=
  ∀ beyond fuel, q.bytes.length + 2 ≤ fuel →
    ∃ req, (parseDatagram ⟨q.bytes, beyond⟩ findNextOid fuel).val = some (true, req) ∧
      q.Answers findNextOid findByOid req

end Request

/-- A Get request for OIDs in as few octets as possible. -/
structure GetRequest extends Request where
  names : List MinimalOid
  get : getNext = false
  oids_eq : oids = names.map (·.toAcceptedOid)

/-- The request is parsed, and the names in the reply to it are those that were asked for. -/
def GetRequest.NamesKept (q : GetRequest) : Prop :=
  ∀ findNextOid findByOid beyond fuel, q.bytes.length + 2 ≤ fuel →
    ∃ req, (parseDatagram ⟨q.bytes, beyond⟩ findNextOid fuel).val = some (true, req) ∧
      varbindNames (genReply findByOid req) = q.names.map (·.octets)

end HamRouter.Snmp
