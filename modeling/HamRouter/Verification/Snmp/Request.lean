import HamRouter.Model.SnmpRequest
import HamRouter.Model.SnmpScan
import Mathlib.Data.List.Forall2

/-! # What the parser makes of a request -/

namespace HamRouter.Snmp

open TracedRead

variable (r : Region) (findNextOid : StdString → StdString)

/-! ## Elements in a datagram -/

/-- There is an element at an offset. -/
structure ElementAt (pnt : ℕ) (type : UInt8) (content : List UInt8) : Prop where
  type_eq : r.get pnt = type
  length_eq : (r.get (pnt + 1)).toNat = content.length
  content_eq : r.slice (pnt + 2) content.length = content

theorem length_element (type : UInt8) (content : List UInt8) :
    (element type content).length = 2 + content.length := by
  rw [element, List.length_cons, List.length_cons]
  omega

variable {r}

theorem elementAt_of_bytes {type : UInt8} {content front rest : List UInt8} {pnt : ℕ}
    (hbytes : r.bytes = front ++ (element type content ++ rest)) (hpnt : pnt = front.length)
    (hshort : content.length < 256) : ElementAt r pnt type content where
  type_eq := by
    rw [hpnt]
    exact r.get_append front (UInt8.ofNat content.length :: (content ++ rest)) hbytes
  length_eq := by
    have h : r.get (front ++ [type]).length = UInt8.ofNat content.length :=
      r.get_append _ (content ++ rest) (by simp [hbytes, element])
    rw [List.length_append, List.length_singleton, ← hpnt] at h
    rw [h, UInt8.toNat_ofNat_of_lt' hshort]
  content_eq := by
    have h := r.slice_append (front ++ [type, UInt8.ofNat content.length]) content rest
      (by simp [hbytes, element])
    rwa [List.length_append, ← hpnt] at h

/-- Behind an element the next one starts. -/
theorem exists_behind {type : UInt8} {content front rest : List UInt8} {pnt : ℕ}
    (hbytes : r.bytes = front ++ (element type content ++ rest)) (hpnt : pnt = front.length) :
    ∃ front', r.bytes = front' ++ rest ∧ pnt + 2 + content.length = front'.length := by
  refine ⟨front ++ element type content, ?_, ?_⟩
  · rw [hbytes, List.append_assoc]
  · rw [List.length_append, length_element]
    omega

/-- Behind the length of an element its content starts. -/
theorem exists_inside {type : UInt8} {content front rest : List UInt8} {pnt : ℕ}
    (hbytes : r.bytes = front ++ (element type content ++ rest)) (hpnt : pnt = front.length) :
    ∃ front', r.bytes = front' ++ (content ++ rest) ∧ pnt + 2 = front'.length := by
  refine ⟨front ++ [type, UInt8.ofNat content.length], ?_, ?_⟩
  · rw [hbytes, element]
    simp
  · rw [List.length_append, hpnt]
    rfl

/-! ## The loop of `process_BER` -/

section Loop

variable {findNextOid} (fuel stop pnt last : ℕ) (isGetnext : Bool) (isTop : ℤ)
  (firstInteger firstOctetStr : Bool) (req : OidReq)

theorem val_berLoop_done (h : last ≤ pnt + 1) :
    (berLoop r findNextOid (fuel + 1) stop pnt last isGetnext isTop firstInteger firstOctetStr
      req).val = some (true, req) := by
  rw [berLoop, if_neg (by omega)]
  rfl

variable {pnt last} {content : List UInt8}

/-- The first integer above the variable bindings is the version. -/
def withVersion (content : List UInt8) : OidReq :=
  if isTop ≠ 0 ∧ firstInteger then
    { req with version := (integerOf content).toUInt32.toInt32 } else req

theorem val_berLoop_integer (h : ElementAt r pnt 0x02 content)
    (hin : pnt + 2 + content.length ≤ last) :
    (berLoop r findNextOid (fuel + 1) stop pnt last isGetnext isTop firstInteger firstOctetStr
        req).val =
      (berLoop r findNextOid fuel stop (pnt + 2 + content.length) last isGetnext isTop false
        firstOctetStr (withVersion isTop firstInteger req content)).val := by
  rw [berLoop, if_pos (by omega)]
  simp only [Traced.val_bind, readByte, h.type_eq, h.length_eq, if_neg (Nat.not_lt.mpr hin)]
  rw [if_pos trivial, withVersion]
  split
  · rw [Traced.val_bind, readBytes, h.content_eq]
  · rfl

/-- The first octet string above the variable bindings is the community. -/
def withCommunity (content : List UInt8) : OidReq :=
  if isTop ≠ 0 ∧ firstOctetStr then { req with community := content } else req

theorem val_berLoop_octetStr (h : ElementAt r pnt 0x04 content)
    (hin : pnt + 2 + content.length ≤ last) :
    (berLoop r findNextOid (fuel + 1) stop pnt last isGetnext isTop firstInteger firstOctetStr
        req).val =
      (berLoop r findNextOid fuel stop (pnt + 2 + content.length) last isGetnext isTop firstInteger
        false (withCommunity isTop firstOctetStr req content)).val := by
  rw [berLoop, if_pos (by omega)]
  simp only [Traced.val_bind, readByte, h.type_eq, h.length_eq, if_neg (Nat.not_lt.mpr hin)]
  rw [if_neg (by decide), if_pos trivial, Traced.val_bind, readBytes, h.content_eq]
  rfl

theorem val_berLoop_null (h : ElementAt r pnt 0x05 content)
    (hin : pnt + 2 + content.length ≤ last) :
    (berLoop r findNextOid (fuel + 1) stop pnt last isGetnext isTop firstInteger firstOctetStr
        req).val =
      (berLoop r findNextOid fuel stop (pnt + 2 + content.length) last isGetnext isTop firstInteger
        firstOctetStr req).val := by
  rw [berLoop, if_pos (by omega)]
  simp only [Traced.val_bind, readByte, h.type_eq, h.length_eq, if_neg (Nat.not_lt.mpr hin)]
  rw [if_neg (by decide), if_neg (by decide), if_pos trivial]

theorem val_berLoop_oid {oid : StdString} (h : ElementAt r pnt 0x06 content)
    (hin : pnt + 2 + content.length ≤ last) (hoid : getOid content = some oid) :
    (berLoop r findNextOid (fuel + 1) stop pnt last isGetnext isTop firstInteger firstOctetStr
        req).val =
      (berLoop r findNextOid fuel stop (pnt + 2 + content.length) last isGetnext isTop firstInteger
        firstOctetStr (addOid findNextOid isGetnext req oid)).val := by
  rw [berLoop, if_pos (by omega)]
  simp only [Traced.val_bind, readByte, h.type_eq, h.length_eq, if_neg (Nat.not_lt.mpr hin)]
  rw [if_neg (by decide), if_neg (by decide), if_neg (by decide), if_pos trivial, Traced.val_bind,
    readBytes, h.content_eq]
  simp only [hoid]

theorem val_berLoop_oid_none (h : ElementAt r pnt 0x06 content)
    (hin : pnt + 2 + content.length ≤ last) (hoid : getOid content = none) :
    (berLoop r findNextOid (fuel + 1) stop pnt last isGetnext isTop firstInteger firstOctetStr
        req).val = some (false, req) := by
  rw [berLoop, if_pos (by omega)]
  simp only [Traced.val_bind, readByte, h.type_eq, h.length_eq, if_neg (Nat.not_lt.mpr hin)]
  rw [if_neg (by decide), if_neg (by decide), if_neg (by decide), if_pos trivial, Traced.val_bind,
    readBytes, h.content_eq]
  simp only [hoid]
  rfl

theorem val_berLoop_sequence {ok : Bool} {req' : OidReq} (h : ElementAt r pnt 0x30 content)
    (hin : pnt + 2 + content.length ≤ last)
    (hcall : (processBER r findNextOid fuel stop (pnt + 2) content.length isGetnext (isTop - 1)
      req).val = some (ok, req')) :
    (berLoop r findNextOid (fuel + 1) stop pnt last isGetnext isTop firstInteger firstOctetStr
        req).val =
      if ok then
        (berLoop r findNextOid fuel stop (pnt + 2 + content.length) last isGetnext isTop
          firstInteger firstOctetStr req').val
      else some (false, req') := by
  rw [berLoop, if_pos (by omega)]
  simp only [Traced.val_bind, readByte, h.type_eq, h.length_eq, if_neg (Nat.not_lt.mpr hin)]
  rw [if_neg (by decide), if_neg (by decide), if_neg (by decide), if_neg (by decide), if_pos trivial,
    Traced.val_bind, hcall]
  cases ok <;> rfl

theorem val_berLoop_pdu {type : UInt8} {ok : Bool} {req' : OidReq} (htype : isPdu type)
    (h : ElementAt r pnt type content) (hin : pnt + 2 + content.length ≤ last)
    (hcall : (processPDU r findNextOid fuel stop (pnt + 2) content.length
      (isGetnext || type == 0xa1) req).val = some (ok, req')) :
    (berLoop r findNextOid (fuel + 1) stop pnt last isGetnext isTop firstInteger firstOctetStr
        req).val =
      if ok then
        (berLoop r findNextOid fuel stop (pnt + 2 + content.length) last isGetnext isTop
          firstInteger firstOctetStr req').val
      else some (false, req') := by
  have hother : type ≠ 0x02 ∧ type ≠ 0x04 ∧ type ≠ 0x05 ∧ type ≠ 0x06 ∧ type ≠ 0x30 := by
    rcases htype with rfl | rfl | rfl <;> decide
  have hpdu : type = 0xa0 ∨ type = 0xa1 ∨ type = 0xa3 := htype
  rw [berLoop, if_pos (by omega)]
  simp only [Traced.val_bind, readByte, h.type_eq, h.length_eq, if_neg (Nat.not_lt.mpr hin)]
  rw [if_neg hother.1, if_neg hother.2.1, if_neg hother.2.2.1, if_neg hother.2.2.2.1,
    if_neg hother.2.2.2.2, if_pos hpdu, Traced.val_bind, hcall]
  cases ok <;> rfl

theorem val_berLoop_unknown {type : UInt8} (htype : ¬ isKnown type) (h : ElementAt r pnt type content)
    (hin : pnt + 2 + content.length ≤ last) :
    (berLoop r findNextOid (fuel + 1) stop pnt last isGetnext isTop firstInteger firstOctetStr
        req).val = some (false, req) := by
  simp only [isKnown, isPdu, not_or] at htype
  rw [berLoop, if_pos (by omega)]
  simp only [Traced.val_bind, readByte, h.type_eq, h.length_eq, if_neg (Nat.not_lt.mpr hin)]
  simp [htype]

end Loop

/-! ## The loop of `process_PDU` -/

section VarbindLoop

variable {findNextOid} (fuel stop : ℕ) {pnt last : ℕ} (isGetnext : Bool) (req : OidReq)
  {content : List UInt8}

theorem val_varbindLoop_done (h : last ≤ pnt) :
    (varbindLoop r findNextOid (fuel + 1) stop pnt last isGetnext req).val = some (true, req) := by
  rw [varbindLoop, if_neg (by omega)]
  rfl

theorem val_varbindLoop_sequence {ok : Bool} {req' : OidReq} (h : ElementAt r pnt 0x30 content)
    (hin : pnt + 2 + content.length ≤ last)
    (hcall : (processBER r findNextOid fuel stop (pnt + 2) content.length isGetnext 0 req).val =
      some (ok, req')) :
    (varbindLoop r findNextOid (fuel + 1) stop pnt last isGetnext req).val =
      (varbindLoop r findNextOid fuel stop (pnt + 2 + content.length) last isGetnext req').val := by
  rw [varbindLoop, if_pos (by omega)]
  simp only [Traced.val_bind, readByte, h.type_eq, h.length_eq, if_neg (Nat.not_lt.mpr hin)]
  rw [if_pos trivial, Traced.val_bind, hcall]

theorem val_varbindLoop_other {type : UInt8} (htype : type ≠ 0x30) (h : ElementAt r pnt type content)
    (hin : pnt + 2 + content.length ≤ last) :
    (varbindLoop r findNextOid (fuel + 1) stop pnt last isGetnext req).val = some (false, req) := by
  rw [varbindLoop, if_pos (by omega)]
  simp only [Traced.val_bind, readByte, h.type_eq, h.length_eq, if_neg (Nat.not_lt.mpr hin)]
  rw [if_neg htype]
  rfl

end VarbindLoop

/-! ## The parts of a request -/

section Parts

variable {findNextOid} (fuel stop : ℕ) {p : ℕ} (isGetnext : Bool) (req : OidReq)
  {front rest : List UInt8}

theorem val_processBER {len : ℕ} (isTop : ℤ) (hlen : 2 ≤ len) :
    (processBER r findNextOid (fuel + 1) stop p len isGetnext isTop req).val =
      (berLoop r findNextOid fuel (min stop (p + len)) p (p + len) isGetnext isTop true true
        req).val := by
  rw [processBER, if_neg (by omega)]

theorem length_varbindContent (o : AcceptedOid) :
    (varbindContent o).length = o.octets.length + 4 := by
  rw [varbindContent, List.length_append, length_element, length_element, List.length_nil]
  omega

/-- A variable binding adds its OID, and its NULL nothing. -/
theorem val_processBER_varbind (o : AcceptedOid)
    (hbytes : r.bytes = front ++ (element 0x06 o.octets ++ (element 0x05 [] ++ rest)))
    (hp : p = front.length) (hshort : o.octets.length < 256) :
    (processBER r findNextOid (fuel + 4) stop p (varbindContent o).length isGetnext 0 req).val =
      some (true, addOid findNextOid isGetnext req o.text) := by
  have hoid := elementAt_of_bytes hbytes hp hshort
  obtain ⟨behind, hrest, hpnt⟩ := exists_behind hbytes hp
  have hnull := elementAt_of_bytes hrest hpnt (by decide)
  rw [length_varbindContent, val_processBER _ _ _ _ _ (by omega), val_berLoop_oid _ _ _ _ _ _ _ hoid (by omega)
    o.accepted, val_berLoop_null _ _ _ _ _ _ _ hnull (by rw [List.length_nil]; omega),
    val_berLoop_done _ _ _ _ _ _ _ _ _ (by rw [List.length_nil]; omega)]

/-- The OIDs of the request, one behind the other. -/
def addOids (findNextOid : StdString → StdString) (isGetnext : Bool) (oids : List AcceptedOid)
    (req : OidReq) : OidReq :=
  oids.foldl (fun req o => addOid findNextOid isGetnext req o.text) req

theorem val_varbindLoop (oids : List AcceptedOid)
    (hbytes : r.bytes = front ++ (oids.flatMap varbind ++ rest)) (hp : p = front.length)
    (hshort : (oids.flatMap varbind).length < 256) :
    (varbindLoop r findNextOid (oids.length + 4 + fuel) stop p
        (p + (oids.flatMap varbind).length) isGetnext req).val =
      some (true, addOids findNextOid isGetnext oids req) := by
  induction oids generalizing front p req with
  | nil =>
      rw [List.length_nil, show 0 + 4 + fuel = fuel + 3 + 1 by omega,
        val_varbindLoop_done _ _ _ _ (by simp)]
      rfl
  | cons o oids ih =>
      have hcontent := length_varbindContent o
      have hlength : ((o :: oids).flatMap varbind).length =
          2 + (varbindContent o).length + (oids.flatMap varbind).length := by
        rw [List.flatMap_cons, List.length_append, varbind, length_element]
      have hsplit : r.bytes =
          front ++ (element 0x30 (varbindContent o) ++ (oids.flatMap varbind ++ rest)) := by
        rw [hbytes, List.flatMap_cons, varbind, List.append_assoc]
      have hfirst := elementAt_of_bytes hsplit hp (by omega)
      obtain ⟨inside, hcontentAt, hinside⟩ := exists_inside hsplit hp
      have hcall : (processBER r findNextOid (oids.length + fuel + 4) stop (p + 2)
          (varbindContent o).length isGetnext 0 req).val =
            some (true, addOid findNextOid isGetnext req o.text) :=
        val_processBER_varbind _ _ _ _ o (by rw [hcontentAt, varbindContent, List.append_assoc])
          hinside (by omega)
      obtain ⟨behind, hbehindAt, hbehind⟩ := exists_behind hsplit hp
      have hrest := ih (addOid findNextOid isGetnext req o.text) hbehindAt hbehind (by omega)
      have hlast : p + ((o :: oids).flatMap varbind).length =
          p + 2 + (varbindContent o).length + (oids.flatMap varbind).length := by omega
      have hfuel : (o :: oids).length + 4 + fuel = oids.length + fuel + 4 + 1 := by
        rw [List.length_cons]
        omega
      rw [hlast, hfuel, val_varbindLoop_sequence _ _ _ _ hfirst (by omega) hcall,
        show oids.length + fuel + 4 = oids.length + 4 + fuel by omega, hrest]
      rfl

theorem val_pduInteger {content : List UInt8} {len : ℕ} (h : ElementAt r p 0x02 content)
    (hlen : 2 ≤ len) :
    (pduInteger r stop p len).val = some (integerOf content, p + 2 + content.length) := by
  rw [pduInteger, getTypeLength, if_neg (by omega)]
  simp only [Traced.val_bind, Traced.val_pure, readByte, h.type_eq, h.length_eq]
  rw [if_neg (by decide)]
  simp only [Traced.val_bind, Traced.val_pure, readBytes, h.content_eq]

/-- Behind an integer of a PDU the next part starts. -/
theorem exists_val_pduInteger {content : List UInt8} {len : ℕ}
    (hbytes : r.bytes = front ++ (element 0x02 content ++ rest)) (hp : p = front.length)
    (hshort : content.length < 256) (hlen : 2 ≤ len) :
    ∃ front', r.bytes = front' ++ rest ∧
      ∀ stop, (pduInteger r stop p len).val = some (integerOf content, front'.length) := by
  obtain ⟨front', hbytes', hbehind⟩ := exists_behind hbytes hp
  refine ⟨front', hbytes', fun stop => ?_⟩
  rw [val_pduInteger _ (elementAt_of_bytes hbytes hp hshort) hlen, hbehind]

/-- No integer is read where the PDU is too small, or where something else is. -/
theorem val_pduInteger_none {len : ℕ} (h : 2 ≤ len → r.get p ≠ 0x02) :
    (pduInteger r stop p len).val = none := by
  rw [pduInteger, getTypeLength]
  split
  · rfl
  · rename_i hlen
    simp only [Traced.val_bind, Traced.val_pure, readByte]
    rw [if_pos (h (by omega))]
    rfl

/-- A PDU gives the number of the request, and goes on to its list. -/
theorem val_processPDU_parts {reqId error errorIndex list behind content : List UInt8}
    (hcontent : content = element 0x02 reqId ++ element 0x02 error ++ element 0x02 errorIndex ++
      element 0x30 list ++ behind)
    (hbytes : r.bytes = front ++ (content ++ rest)) (hp : p = front.length)
    (hshort : content.length < 256) :
    ∃ front' stop', r.bytes = front' ++ (list ++ (behind ++ rest)) ∧
      (processPDU r findNextOid (fuel + 1) stop p content.length isGetnext req).val =
        (varbindLoop r findNextOid fuel stop' front'.length (front'.length + list.length) isGetnext
          { req with reqId := integerOf reqId }).val := by
  have hlength : content.length =
      2 + reqId.length + (2 + error.length) + (2 + errorIndex.length) + (2 + list.length) +
        behind.length := by
    simp only [hcontent, List.length_append, length_element]
  have hsplit : r.bytes = front ++ (element 0x02 reqId ++ (element 0x02 error ++
      (element 0x02 errorIndex ++ (element 0x30 list ++ (behind ++ rest))))) := by
    rw [hbytes, hcontent]
    simp only [List.append_assoc]
  have hlen : 2 ≤ content.length := by omega
  obtain ⟨front₁, hsplit₁, hreqId⟩ := exists_val_pduInteger hsplit hp (by omega) hlen
  obtain ⟨front₂, hsplit₂, herror⟩ := exists_val_pduInteger hsplit₁ rfl (by omega) hlen
  obtain ⟨front₃, hsplit₃, herrorIndex⟩ := exists_val_pduInteger hsplit₂ rfl (by omega) hlen
  have hlist := elementAt_of_bytes hsplit₃ rfl (by omega)
  obtain ⟨front₄, hsplit₄, hp₄⟩ := exists_inside hsplit₃ rfl
  refine ⟨front₄, min (min stop (p + content.length)) (front₄.length + list.length), hsplit₄, ?_⟩
  rw [processPDU]
  simp only [Traced.val_bind, hreqId, herror, herrorIndex, readByte, hlist.type_eq]
  rw [if_neg (by decide), Traced.val_bind]
  simp only [hlist.length_eq, hp₄]

/-- The PDU of a request gives its number and the OIDs of its variable bindings. -/
theorem val_processPDU (q : RequestParts)
    (hbytes : r.bytes = front ++ (q.pduContent ++ rest)) (hp : p = front.length)
    (hshort : q.pduContent.length < 256) :
    (processPDU r findNextOid (q.oids.length + 5 + fuel) stop p q.pduContent.length isGetnext
        req).val =
      some (true, addOids findNextOid isGetnext q.oids { req with reqId := integerOf q.reqId }) := by
  obtain ⟨front', stop', hlist, hparts⟩ := val_processPDU_parts (q.oids.length + 4 + fuel) stop
    isGetnext req (List.append_nil q.pduContent).symm hbytes hp hshort
  have hfits : (q.oids.flatMap varbind).length < 256 := by
    simp only [RequestParts.pduContent, List.length_append, length_element] at hshort
    omega
  rw [show q.oids.length + 5 + fuel = q.oids.length + 4 + fuel + 1 by omega, hparts]
  exact val_varbindLoop fuel stop' isGetnext _ q.oids hlist rfl hfits

end Parts

/-! ## The whole datagram -/

/-- A sequence of a version, a community and a PDU is parsed to what its PDU is parsed to. -/
theorem exists_processPDU_of_parseDatagram {type : UInt8} (htype : isPdu type)
    (version community pduContent : List UInt8)
    (hshort : (element 0x02 version ++ element 0x04 community ++
      element type pduContent).length < 256)
    (beyond : ℕ → UInt8) (findNextOid : StdString → StdString) (fuel : ℕ) :
    let r : Region := ⟨element 0x30 (element 0x02 version ++ element 0x04 community ++
      element type pduContent), beyond⟩
    let start : OidReq :=
      { version := (integerOf version).toUInt32.toInt32, community := community }
    ∃ stop front, r.bytes = front ++ (pduContent ++ []) ∧
      ∀ ok req,
        (processPDU r findNextOid (fuel + 1) stop front.length pduContent.length (type == 0xa1)
          start).val = some (ok, req) →
        (parseDatagram r findNextOid (fuel + 7)).val = some (ok, req) := by
  intro r start
  let content := element 0x02 version ++ (element 0x04 community ++ (element type pduContent ++ []))
  have hcontent : element 0x02 version ++ element 0x04 community ++ element type pduContent =
      content := by simp [content]
  rw [hcontent] at hshort
  have hlength : content.length =
      2 + version.length + (2 + community.length + (2 + pduContent.length)) := by
    simp only [content, List.length_append, length_element, List.length_nil, Nat.add_zero]
  have hbytes : r.bytes = element 0x30 content := congrArg (element 0x30) hcontent
  have htotal : r.bytes.length = 2 + content.length := by rw [hbytes, length_element]
  have hsplit : r.bytes = [] ++ (element 0x30 content ++ []) := by
    rw [List.append_nil, List.nil_append, hbytes]
  have hstart : 0 = ([] : List UInt8).length := rfl
  have htop := elementAt_of_bytes hsplit hstart hshort
  obtain ⟨front₀, hsplit₀, hp₀⟩ := exists_inside hsplit hstart
  simp only [content, List.append_assoc] at hsplit₀
  have hversion := elementAt_of_bytes hsplit₀ hp₀ (by omega)
  obtain ⟨front₁, hsplit₁, hp₁⟩ := exists_behind hsplit₀ hp₀
  have hcommunity := elementAt_of_bytes hsplit₁ hp₁ (by omega)
  obtain ⟨front₂, hsplit₂, hp₂⟩ := exists_behind hsplit₁ hp₁
  have hpdu := elementAt_of_bytes hsplit₂ hp₂ (by omega)
  obtain ⟨front₃, hsplit₃, hp₃⟩ := exists_inside hsplit₂ hp₂
  refine ⟨min (min r.bytes.length (0 + r.bytes.length)) (0 + 2 + content.length), front₃, hsplit₃,
    ?_⟩
  intro ok req hcall
  rw [← hp₃] at hcall
  have hinner : (processBER r findNextOid (fuel + 5) (min r.bytes.length (0 + r.bytes.length))
      (0 + 2) content.length false 1 {}).val = some (ok, req) := by
    rw [val_processBER _ _ _ _ _ (by omega), val_berLoop_integer _ _ _ _ _ _ _ hversion (by omega),
      val_berLoop_octetStr _ _ _ _ _ _ _ hcommunity (by omega),
      val_berLoop_pdu _ _ _ _ _ _ _ htype hpdu (by omega) hcall]
    cases ok with
    | false => rfl
    | true => exact val_berLoop_done _ _ _ _ _ _ _ _ _ (by omega)
  rw [parseDatagram, val_processBER _ _ _ _ _ (by omega),
    val_berLoop_sequence _ _ _ _ _ _ _ htop (by omega) hinner]
  cases ok with
  | false => rfl
  | true => exact val_berLoop_done _ _ _ _ _ _ _ _ _ (by omega)

namespace Request

variable (q : Request) {findNextOid}

theorem length_content :
    q.content.length = 2 + q.version.length + (2 + q.community.length) +
      (2 + q.pduContent.length) := by
  simp only [RequestParts.content, List.length_append, length_element]

theorem length_oids_le : q.oids.length + 8 ≤ q.pduContent.length := by
  have hvarbinds : ∀ oids : List AcceptedOid, oids.length ≤ (oids.flatMap varbind).length := by
    intro oids
    induction oids with
    | nil => exact Nat.le_refl _
    | cons o oids ih =>
        rw [List.flatMap_cons, List.length_append, varbind, length_element, List.length_cons]
        omega
  have h := hvarbinds q.oids
  simp only [RequestParts.pduContent, List.length_append, length_element]
  omega

/-- What is known of a request before its OIDs. -/
def start : OidReq where
  version := (integerOf q.version).toUInt32.toInt32
  community := q.community
  reqId := integerOf q.reqId

/-- The request is parsed to its OIDs. -/
theorem val_parseDatagram (beyond : ℕ → UInt8) {fuel : ℕ} (hfuel : q.bytes.length + 2 ≤ fuel) :
    (parseDatagram ⟨q.bytes, beyond⟩ findNextOid fuel).val =
      some (true, addOids findNextOid q.getNext q.oids q.start) := by
  have hshort := q.short
  have hcontent := q.length_content
  have holds := q.length_oids_le
  have hlength : q.bytes.length = 2 + q.content.length := length_element _ _
  obtain ⟨fuel, rfl⟩ : ∃ spare, fuel = q.oids.length + 4 + spare + 7 :=
    ⟨fuel - q.oids.length - 11, by omega⟩
  have hpdu : isPdu q.pduType := by
    rw [RequestParts.pduType]
    cases q.getNext <;> decide
  have hgetNext : (q.pduType == 0xa1) = q.getNext := by
    rw [RequestParts.pduType]
    cases q.getNext <;> rfl
  obtain ⟨stop, front, hfront, houter⟩ := exists_processPDU_of_parseDatagram hpdu q.version
    q.community q.pduContent hshort beyond findNextOid (q.oids.length + 4 + fuel)
  apply houter
  rw [hgetNext, show q.oids.length + 4 + fuel + 1 = q.oids.length + 5 + fuel by omega]
  exact val_processPDU fuel stop q.getNext _ q.toRequestParts hfront rfl (by omega)

variable (findNextOid) (findByOid : StdString → Option (Option Elem))

theorem oids_addOid (req : OidReq) (o : AcceptedOid) :
    (addOid findNextOid q.getNext req o.text).oids =
      req.oids ++ if q.Exhausted findNextOid o then [] else [q.answered findNextOid o] := by
  unfold addOid Exhausted answered
  by_cases hget : q.getNext = true
  · by_cases hnext : findNextOid o.text = [] <;> simp [hget, hnext]
  · simp [hget]

/-- Only the OIDs that are not exhausted are answered. -/
theorem oids_addOids (oids : List AcceptedOid) (req : OidReq) :
    (addOids findNextOid q.getNext oids req).oids =
      req.oids ++ (oids.filter fun o => ¬ q.Exhausted findNextOid o).map (q.answered findNextOid) := by
  induction oids generalizing req with
  | nil => simp [addOids]
  | cons o oids ih =>
      have hstep : addOids findNextOid q.getNext (o :: oids) req =
          addOids findNextOid q.getNext oids (addOid findNextOid q.getNext req o.text) := rfl
      rw [hstep, ih, oids_addOid]
      by_cases hexhausted : q.Exhausted findNextOid o <;> simp [hexhausted]

variable {findNextOid findByOid}

/-- An exhausted OID is left out of the reply. -/
theorem not_exhausted_of_answered (h : q.Answered findNextOid findByOid) :
    ∀ o ∈ q.oids, ¬ q.Exhausted findNextOid o := by
  obtain ⟨req, hparsed, hanswers⟩ := h (fun _ => 0) _ (Nat.le_refl _)
  rw [q.val_parseDatagram (fun _ => 0) (Nat.le_refl _)] at hparsed
  obtain rfl := (Prod.mk.inj (Option.some.inj hparsed)).2
  have hlength := hanswers.bindings.length_eq
  change q.oids.length =
    ((addOids findNextOid q.getNext q.oids q.start).oids.map _).length at hlength
  have hstart : q.start.oids = [] := rfl
  rw [List.length_map, oids_addOids, hstart, List.nil_append, List.length_map] at hlength
  simpa using List.length_filter_eq_length_iff.mp hlength.symm

/-- The reply has a variable binding for each OID exactly if none is exhausted. -/
theorem answered_iff :
    q.Answered findNextOid findByOid ↔ ∀ o ∈ q.oids, ¬ q.Exhausted findNextOid o := by
  constructor
  · exact q.not_exhausted_of_answered
  · intro h beyond fuel hfuel
    refine ⟨_, q.val_parseDatagram beyond hfuel, ?_, ?_⟩
    · change List.Forall₂ _ q.oids ((addOids findNextOid q.getNext q.oids q.start).oids.map _)
      have hstart : q.start.oids = [] := rfl
      have hall : (q.oids.filter fun o => ¬ q.Exhausted findNextOid o) = q.oids :=
        List.filter_eq_self.mpr (by simpa using h)
      rw [oids_addOids, hstart, List.nil_append, hall, List.map_map, List.forall₂_map_right_iff,
        List.forall₂_same]
      intro o _ _
      rfl
    · intro front o back hsplit hexhausted _
      exact absurd hexhausted (h o (by simp [hsplit]))

end Request

/-! ## A request that is not answered -/

/-- 1.3.6.1 and 1.3.6.2. -/
def sampleOid (last : UInt8) (h : getOid [43, 6, last] = some (str "1.3.6." ++ [ch '0' + last])) :
    AcceptedOid :=
  ⟨[43, 6, last], str "1.3.6." ++ [ch '0' + last], h⟩

/-- A GetNext request for two OIDs. -/
def nextRequest : Request where
  version := [0]
  community := str "public"
  getNext := true
  reqId := [1]
  error := [0]
  errorIndex := [0]
  oids := [sampleOid 1 (by decide), sampleOid 2 (by decide)]
  short := by decide

/-- Only the first OID has a successor, itself with a 0 behind it. -/
def sampleNextOid (oid : StdString) : StdString :=
  if oid = str "1.3.6.1" then str "1.3.6.1.0" else []

theorem not_answered_nextRequest : ¬ nextRequest.Answered sampleNextOid fun _ => none := by
  intro h
  have hfresh := nextRequest.not_exhausted_of_answered h (sampleOid 2 (by decide)) (by simp [nextRequest])
  exact hfresh (by decide)

end HamRouter.Snmp
