import HamRouter.Model.SnmpRequest
import HamRouter.Model.SnmpScan

/-! # Requests with values of any type

A PDU's list may hold anything. The first INTEGER and the first OCTET STRING of a sequence
inside a variable binding are written to the header of the request. -/

namespace HamRouter.Snmp

/-- The content of a PDU that is left before its list: it is too small, or up to three INTEGERs
come in front of another type than the next one must have. -/
inductive RejectedPdu : List UInt8 → Prop
  | small {content : List UInt8} (h : content.length < 2) : RejectedPdu content
  | type (integers : List (List UInt8)) (h : integers.length ≤ 3) {type : UInt8}
      (hother : type ≠ if integers.length < 3 then 0x02 else 0x30) (rest : List UInt8) :
      RejectedPdu (integers.flatMap (element 0x02) ++ type :: rest)

/-- An element. The list of a PDU holds elements too, and anything may be behind it. -/
inductive Value where
  | integer (content : List UInt8)
  | octetString (content : List UInt8)
  | null (content : List UInt8)
  | oid (content : List UInt8)
  | other (type : UInt8) (h : ¬ isKnown type) (content : List UInt8)
  | sequence (values : List Value)
  | rejectedPdu (type : UInt8) (h : isPdu type) (content : List UInt8)
      (hrejected : RejectedPdu content)
  | pdu (type : UInt8) (h : isPdu type) (reqId error errorIndex : List UInt8) (list : List Value)
      (behind : List UInt8)

mutual

def Value.bytes : Value → List UInt8
  | .integer content => element 0x02 content
  | .octetString content => element 0x04 content
  | .null content => element 0x05 content
  | .oid content => element 0x06 content
  | .other type _ content => element type content
  | .sequence values => element 0x30 (valuesBytes values)
  | .rejectedPdu type _ content _ => element type content
  | .pdu type _ reqId error errorIndex list behind =>
      element type (element 0x02 reqId ++ element 0x02 error ++ element 0x02 errorIndex ++
        element 0x30 (valuesBytes list) ++ behind)

def valuesBytes : List Value → List UInt8
  | [] => []
  | v :: vs => v.bytes ++ valuesBytes vs

end

def Value.isInteger : Value → Bool
  | .integer _ => true
  | _ => false

def Value.isOctetString : Value → Bool
  | .octetString _ => true
  | _ => false

def Value.isSequence : Value → Bool
  | .sequence _ => true
  | _ => false

mutual

/-- The element is parsed. Of a PDU's list only the types matter, and an empty sequence is
too small. -/
def Value.parsed : Value → Bool
  | .integer _ => true
  | .octetString _ => true
  | .null _ => true
  | .oid content => (getOid content).isSome
  | .other _ _ _ => false
  | .sequence values => !values.isEmpty && valuesParsed values
  | .rejectedPdu _ _ _ _ => false
  | .pdu _ _ _ _ _ list _ => list.all (·.isSequence)

def valuesParsed : List Value → Bool
  | [] => true
  | v :: vs => v.parsed && valuesParsed vs

end

/-- What is written to the header of a request. -/
inductive HeaderWrite where
  | version (content : List UInt8)
  | community (content : List UInt8)

mutual

/-- What the parser writes on an element, in a sequence that is nested in a variable binding
or not, before or after its first INTEGER and its first OCTET STRING. -/
def Value.writes (nested firstInteger firstOctetStr : Bool) : Value → List HeaderWrite
  | .integer content => if nested && firstInteger then [.version content] else []
  | .octetString content => if nested && firstOctetStr then [.community content] else []
  | .null _ => []
  | .oid _ => []
  | .other _ _ _ => []
  | .sequence values => valuesWrites true true true values
  | .rejectedPdu _ _ _ _ => []
  | .pdu _ _ _ _ _ list _ => listWrites list

/-- The rest of a sequence, up to the first element that is not parsed. -/
def valuesWrites (nested firstInteger firstOctetStr : Bool) : List Value → List HeaderWrite
  | [] => []
  | v :: vs =>
      v.writes nested firstInteger firstOctetStr ++
        if v.parsed then
          valuesWrites nested (firstInteger && !v.isInteger) (firstOctetStr && !v.isOctetString) vs
        else []

/-- A variable binding. -/
def Value.varbindWrites : Value → List HeaderWrite
  | .sequence values => valuesWrites false true true values
  | _ => []

/-- The list of a PDU, up to the first element that is no sequence. -/
def listWrites : List Value → List HeaderWrite
  | [] => []
  | v :: vs => if v.isSequence then v.varbindWrites ++ listWrites vs else []

end

/-- The contents of the INTEGERs and of the OCTET STRINGs that are written. -/
def HeaderWrite.versions (writes : List HeaderWrite) : List (List UInt8) :=
  writes.filterMap fun
    | .version content => some content
    | .community _ => none

def HeaderWrite.communities (writes : List HeaderWrite) : List (List UInt8) :=
  writes.filterMap fun
    | .version _ => none
    | .community content => some content

/-- A request: one sequence of a version, a community and a PDU with any list. -/
structure AnyRequest where
  version : List UInt8
  community : List UInt8
  type : UInt8
  isPdu : isPdu type
  reqId : List UInt8
  error : List UInt8
  errorIndex : List UInt8
  list : List Value
  short : (valuesBytes [.integer version, .octetString community,
    .pdu type isPdu reqId error errorIndex list []]).length < 256

namespace AnyRequest

variable (q : AnyRequest)

def bytes : List UInt8 :=
  (Value.sequence [.integer q.version, .octetString q.community,
    .pdu q.type q.isPdu q.reqId q.error q.errorIndex q.list []]).bytes

/-- The version as 32 bits. -/
def versionOf (content : List UInt8) : Int32 := (integerOf content).toUInt32.toInt32

/-- What was parsed has the version and the community of the outer sequence. -/
def HeaderKept (req : OidReq) : Prop :=
  req.version = versionOf q.version ∧ req.community = q.community

/-- Nothing inside the list changes the version and the community. -/
def Unchanged (findNextOid : StdString → StdString) : Prop :=
  ∀ beyond fuel, q.bytes.length + 2 ≤ fuel →
    ∃ ok req, (parseDatagram ⟨q.bytes, beyond⟩ findNextOid fuel).val = some (ok, req) ∧
      q.HeaderKept req

/-- The last INTEGER and the last OCTET STRING that are written inside the list, if any,
say what the outer sequence says. -/
def WritesHarmless : Prop :=
  (∀ content ∈ (HeaderWrite.versions (listWrites q.list)).getLast?,
      versionOf content = versionOf q.version) ∧
    ∀ content ∈ (HeaderWrite.communities (listWrites q.list)).getLast?, content = q.community

end AnyRequest

end HamRouter.Snmp
