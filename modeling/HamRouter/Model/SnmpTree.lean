import HamRouter.Program.SnmpElem

/-! # How large the elements of a tree are

The lengths without their wrapping, and the trees in which none wraps. -/

namespace HamRouter.Snmp

mutual

/-- The content bytes of an element, behind its type and its length. Of the bytes of an
octet string and an OID only their number modulo 256 is put out. -/
def Elem.contentLength : Elem → ℕ
  | .integer _ v => if v ≤ 0xffffffff then 4 else 8
  | .octetString v => v.length % 256
  | .oid v => v.length % 256
  | .null => 0
  | .sequence es => contentLengths es
  | .pdu _ es => contentLengths es

def contentLengths : List Elem → ℕ
  | [] => 0
  | e :: es => 2 + e.contentLength + contentLengths es

end

mutual

/-- The content of the element and of every element in it leaves room for two bytes in
255. -/
def Elem.Fits : Elem → Prop
  | .integer _ _ => True
  | .octetString v => v.length % 256 ≤ 253
  | .oid v => v.length % 256 ≤ 253
  | .null => True
  | .sequence es => contentLengths es ≤ 253 ∧ AllFit es
  | .pdu _ es => contentLengths es ≤ 253 ∧ AllFit es

def AllFit : List Elem → Prop
  | [] => True
  | e :: es => e.Fits ∧ AllFit es

end

def Elem.children : Elem → Option (List Elem)
  | .sequence es => some es
  | .pdu _ es => some es
  | _ => none

/-- What a payload should be: a type, the number of the content bytes and the content,
which for a sequence are the payloads of its children; all of it within the allocated
blocks and the assertions. -/
structure Elem.Encodes (e : Elem) : Prop where
  inside : e.getPayload.out.overrun = false
  asserted : e.getPayload.asserted = true
  framed : ∃ type length content, e.getPayload.out.bytes = type :: length :: content ∧
    length.toNat = content.length ∧
    ∀ es, e.children = some es → content = es.flatMap fun e => e.getPayload.out.bytes

end HamRouter.Snmp
