import HamRouter.Library.TracedRead
import HamRouter.Program.SnmpElem

/-! # The SNMP agent: `snmp.cpp`

The parsers record the offsets in the datagram they read. A read also carries the
smallest end of the regions it lies in: those handed to `process_BER` and `process_PDU`
with a pointer and a length, and the variable-binding list. -/

namespace HamRouter.Snmp

open TracedRead

/-- `oid_req_t`. -/
structure OidReq where
  oids : List StdString := []
  reqId : UInt64 := 0
  err : Int32 := 0
  errIdx : Int32 := 0
  version : Int32 := 0
  community : StdString := []
deriving DecidableEq

/-! ## Values -/

/-- The value `get_INTEGER` computes from the bytes it reads. -/
def integerOf (bytes : List UInt8) : UInt64 :=
  bytes.foldl (fun v b => (v <<< 8) ||| b.toUInt64) 0

/-- The text of a sub-identifier: `"1.3"` for a first 43, a dot and `%d` otherwise. -/
def oidPart (first : Bool) (v : UInt32) : StdString :=
  if first ∧ v = 43 then str "1.3" else ch '.' :: formatInt v.toInt32.toInt

/-- The loop of `get_OID`; `first` says that `i == 0`. -/
def oidLoop : (first : Bool) → (v : UInt32) → StdString → List UInt8 → Option StdString
  | _, v, oidOut, [] => if v = 0 then some oidOut else none
  | first, v, oidOut, b :: rest =>
      if b < 128 then
        oidLoop false 0 (oidOut ++ oidPart first ((v <<< 7) ||| b.toUInt32)) rest
      else oidLoop false ((v <<< 7) ||| (b &&& 127).toUInt32) oidOut rest

/-- `get_OID` of the bytes it reads. -/
def getOid (bytes : List UInt8) : Option StdString := oidLoop true 0 [] bytes

/-- An accepted OID becomes a requested one, or its successor does. -/
def addOid (findNextOid : StdString → StdString) (isGetnext : Bool) (req : OidReq)
    (oid : StdString) : OidReq :=
  if isGetnext then
    let oidNext := findNextOid oid
    if oidNext = [] then { req with err := 2, errIdx := 1 }
    else { req with oids := req.oids ++ [oidNext] }
  else { req with oids := req.oids ++ [oid] }

/-! ## Reading the datagram -/

/-- A read of the byte at `offset`, in regions that end at `stop` or later. -/
structure Read where
  offset : ℕ
  stop : ℕ
deriving DecidableEq

/-- What a parser returns, with the request it leaves; nothing if the fuel ran out. -/
abbrev Parsed := Option (Bool × OidReq)

section

variable (r : Region)

def readByte (stop i : ℕ) : Traced Read UInt8 := ⟨r.get i, [⟨i, stop⟩]⟩

def readBytes (stop start n : ℕ) : Traced Read (List UInt8) :=
  ⟨r.slice start n, (List.range' start n).map (⟨·, stop⟩)⟩

/-- `get_type_length(p, len)`. -/
def getTypeLength (stop p len : ℕ) : Traced Read (Option (UInt8 × UInt8)) :=
  if len < 2 then pure none
  else do
    let type ← readByte r stop p
    let length ← readByte r stop (p + 1)
    pure (some (type, length))

/-- One of the three integers of a PDU, with the pointer behind it. All three ask
`get_type_length` with the length of the whole PDU. -/
def pduInteger (stop p len : ℕ) : Traced Read (Option (UInt64 × ℕ)) := do
  match ← getTypeLength r stop p len with
  | none => pure none
  | some (type, length) =>
      if type ≠ 0x02 then pure none
      else do
        let bytes ← readBytes r stop (p + 2) length.toNat
        pure (some (integerOf bytes, p + 2 + length.toNat))

variable (findNextOid : StdString → StdString)

mutual

/-- `process_PDU(p, len)`. -/
def processPDU : ℕ → (stop p len : ℕ) → (isGetnext : Bool) → OidReq → Traced Read Parsed
  | 0, _, _, _, _, _ => pure none
  | fuel + 1, stop, p, len, isGetnext, req => do
      let stop := min stop (p + len)
      match ← pduInteger r stop p len with
      | none => pure (some (false, req))
      | some (reqId, p) =>
          let req := { req with reqId := reqId }
          match ← pduInteger r stop p len with
          | none => pure (some (false, req))
          | some (_, p) =>
              match ← pduInteger r stop p len with
              | none => pure (some (false, req))
              | some (_, p) => do
                  let typeVbList ← readByte r stop p
                  if typeVbList ≠ 0x30 then pure (some (false, req))
                  else do
                    let lenVbList ← readByte r stop (p + 1)
                    let last := p + 2 + lenVbList.toNat
                    varbindLoop fuel (min stop last) (p + 2) last isGetnext req
termination_by structural fuel => fuel

/-- The loop over the variable bindings, up to `last`. It drops what `process_BER`
returns. -/
def varbindLoop : ℕ → (stop pnt last : ℕ) → (isGetnext : Bool) → OidReq → Traced Read Parsed
  | 0, _, _, _, _, _ => pure none
  | fuel + 1, stop, pnt, last, isGetnext, req =>
      if pnt < last then do
        let seqType ← readByte r stop pnt
        let seqLength ← readByte r stop (pnt + 1)
        let pnt := pnt + 2
        if last < pnt + seqLength.toNat then pure (some (false, req))
        else if seqType = 0x30 then do
          match ← processBER fuel stop pnt seqLength.toNat isGetnext 0 req with
          | none => pure none
          | some (_, req) => varbindLoop fuel stop (pnt + seqLength.toNat) last isGetnext req
        else pure (some (false, req))
      else pure (some (true, req))
termination_by structural fuel => fuel

/-- `process_BER(p, len)`. -/
def processBER : ℕ → (stop p len : ℕ) → (isGetnext : Bool) → (isTop : ℤ) → OidReq →
    Traced Read Parsed
  | 0, _, _, _, _, _, _ => pure none
  | fuel + 1, stop, p, len, isGetnext, isTop, req =>
      if len < 2 then pure (some (false, req))
      else berLoop fuel (min stop (p + len)) p (p + len) isGetnext isTop true true req
termination_by structural fuel => fuel

/-- The loop of `process_BER` up to `last`, with its two flags. Of the three PDUs only
`0xa1` changes `is_getnext`. -/
def berLoop : ℕ → (stop pnt last : ℕ) → (isGetnext : Bool) → (isTop : ℤ) →
    (firstInteger firstOctetStr : Bool) → OidReq → Traced Read Parsed
  | 0, _, _, _, _, _, _, _, _ => pure none
  | fuel + 1, stop, pnt, last, isGetnext, isTop, firstInteger, firstOctetStr, req =>
      if pnt + 1 < last then do
        let type ← readByte r stop pnt
        let length ← readByte r stop (pnt + 1)
        let pnt := pnt + 2
        let next := pnt + length.toNat
        if last < next then pure (some (false, req))
        else if type = 0x02 then
          if isTop ≠ 0 ∧ firstInteger then do
            let bytes ← readBytes r stop pnt length.toNat
            let req := { req with version := (integerOf bytes).toUInt32.toInt32 }
            berLoop fuel stop next last isGetnext isTop false firstOctetStr req
          else berLoop fuel stop next last isGetnext isTop false firstOctetStr req
        else if type = 0x04 then do
          let v ← readBytes r stop pnt length.toNat
          let req := if isTop ≠ 0 ∧ firstOctetStr then { req with community := v } else req
          berLoop fuel stop next last isGetnext isTop firstInteger false req
        else if type = 0x05 then
          berLoop fuel stop next last isGetnext isTop firstInteger firstOctetStr req
        else if type = 0x06 then do
          let bytes ← readBytes r stop pnt length.toNat
          match getOid bytes with
          | none => pure (some (false, req))
          | some oid =>
              berLoop fuel stop next last isGetnext isTop firstInteger firstOctetStr
                (addOid findNextOid isGetnext req oid)
        else if type = 0x30 then do
          match ← processBER fuel stop pnt length.toNat isGetnext (isTop - 1) req with
          | none => pure none
          | some (false, req) => pure (some (false, req))
          | some (true, req) =>
              berLoop fuel stop next last isGetnext isTop firstInteger firstOctetStr req
        else if type = 0xa0 ∨ type = 0xa1 ∨ type = 0xa3 then do
          match ← processPDU fuel stop pnt length.toNat (isGetnext || type == 0xa1) req with
          | none => pure none
          | some (false, req) => pure (some (false, req))
          | some (true, req) =>
              berLoop fuel stop next last isGetnext isTop firstInteger firstOctetStr req
        else pure (some (false, req))
      else pure (some (true, req))
termination_by structural fuel => fuel

end

/-- What `input` makes of a datagram: `process_BER(data, data_len, &or_, false, 2)`. -/
def parseDatagram (fuel : ℕ) : Traced Read Parsed :=
  processBER r findNextOid fuel r.bytes.length 0 r.bytes.length false 2 {}

end

/-! ## The reply -/

/-- `e.rfind('.')`. -/
def lastDot (e : StdString) : Pos := (e.reverse.idxOf? (ch '.')).map (e.length - 1 - ·)

/-- The element for a requested OID. `findByOid` is `snmp_data::find_by_oid`, which may
find an entry without an element; an OID ending in `.0` is also tried without it. -/
def replyValue (findByOid : StdString → Option (Option Elem)) (e : StdString) : Elem :=
  let dot := lastDot e
  let endsWith := match dot with
    | some n => e.drop n
    | none => []
  let rc := match findByOid e with
    | some found => some found
    | none =>
        if endsWith = str ".0" then findByOid (match dot with
          | some n => e.take n
          | none => e)
        else none
  match rc with
  | some (some element) => element
  | some none => .null
  | none => .null

/-- `gen_reply`: the tree whose payload is sent. -/
def genReply (findByOid : StdString → Option (Option Elem)) (req : OidReq) : Elem :=
  .sequence [
    .integer .integer req.version.toInt64.toUInt64,
    .octetString (if req.community = [] then str "public" else req.community),
    .pdu 0xa2 [
      .integer .integer req.reqId,
      .integer .integer req.err.toInt64.toUInt64,
      .integer .integer req.errIdx.toInt64.toUInt64,
      .sequence (req.oids.map fun e =>
        .sequence [.oid (snmpOid e).written, replyValue findByOid e])]]

/-- `input`: the payload sent in reply to a datagram, if any. -/
def input (r : Region) (findNextOid : StdString → StdString)
    (findByOid : StdString → Option (Option Elem)) (fuel : ℕ) : Option (Option Payload) :=
  (parseDatagram r findNextOid fuel).val.map fun (ok, req) =>
    let pl := (genReply findByOid req).getPayload
    if ok = true ∧ pl.size ≠ 0 then some pl else none

end HamRouter.Snmp
