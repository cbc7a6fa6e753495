import HamRouter.Model.SnmpValue
import HamRouter.Verification.Snmp.Request

/-! # What the list of a PDU does to the header of a request

The parser is followed along the tree of elements. It changes the version and the community
by the writes of the tree, one after the other. -/

namespace HamRouter.Snmp

open TracedRead AnyRequest

/-! ## Lengths -/

/-- An element without its type and its length. -/
def Value.content : Value → List UInt8
  | .integer content => content
  | .octetString content => content
  | .null content => content
  | .oid content => content
  | .other _ _ content => content
  | .sequence values => valuesBytes values
  | .rejectedPdu _ _ content _ => content
  | .pdu _ _ reqId error errorIndex list behind =>
      element 0x02 reqId ++ element 0x02 error ++ element 0x02 errorIndex ++
        element 0x30 (valuesBytes list) ++ behind

def Value.type : Value → UInt8
  | .integer _ => 0x02
  | .octetString _ => 0x04
  | .null _ => 0x05
  | .oid _ => 0x06
  | .other type _ _ => type
  | .sequence _ => 0x30
  | .rejectedPdu type _ _ _ => type
  | .pdu type _ _ _ _ _ _ => type

theorem Value.bytes_eq (v : Value) : v.bytes = element v.type v.content := by
  cases v <;> rfl

theorem Value.type_ne_sequence {v : Value} (h : ¬ v.isSequence) : v.type ≠ 0x30 := by
  cases v with
  | integer content => exact (by decide : (0x02 : UInt8) ≠ 0x30)
  | octetString content => exact (by decide : (0x04 : UInt8) ≠ 0x30)
  | null content => exact (by decide : (0x05 : UInt8) ≠ 0x30)
  | oid content => exact (by decide : (0x06 : UInt8) ≠ 0x30)
  | other type htype content =>
      rintro rfl
      exact htype (by decide)
  | sequence values => exact absurd rfl h
  | rejectedPdu type htype content hrejected =>
      rintro rfl
      exact absurd htype (by decide)
  | pdu type htype reqId error errorIndex list behind =>
      rintro rfl
      exact absurd htype (by decide)

theorem Value.varbindWrites_eq_nil {v : Value} (h : ¬ v.isSequence) : v.varbindWrites = [] := by
  cases v with
  | sequence values => exact absurd rfl h
  | _ => rfl

theorem Value.length_bytes (v : Value) : v.bytes.length = 2 + v.content.length := by
  rw [v.bytes_eq, length_element]

theorem length_list_lt (type : UInt8) (h : isPdu type) (reqId error errorIndex : List UInt8)
    (list : List Value) (behind : List UInt8) :
    (valuesBytes list).length + 8 ≤
      (Value.pdu type h reqId error errorIndex list behind).content.length := by
  simp only [Value.content, List.length_append, length_element]
  omega

theorem valuesBytes_cons (v : Value) (vs : List Value) :
    valuesBytes (v :: vs) = v.bytes ++ valuesBytes vs := by rw [valuesBytes]

/-! ## The header -/

/-- The two fields that are written. -/
structure Header where
  version : Int32
  community : StdString

def OidReq.header (req : OidReq) : Header := ⟨req.version, req.community⟩

def Header.write (h : Header) : HeaderWrite → Header
  | .version content => { h with version := versionOf content }
  | .community content => { h with community := content }

theorem header_withVersion (isTop : ℤ) (firstInteger : Bool) (req : OidReq) (content : List UInt8) :
    (withVersion isTop firstInteger req content).header =
      (if decide (isTop ≠ 0) && firstInteger then [HeaderWrite.version content] else []).foldl
        Header.write req.header := by
  unfold withVersion
  by_cases h : isTop ≠ 0 ∧ firstInteger = true
  · rw [if_pos h, if_pos (by simpa using h)]
    rfl
  · rw [if_neg h, if_neg (by simpa using h)]
    rfl

theorem header_withCommunity (isTop : ℤ) (firstOctetStr : Bool) (req : OidReq)
    (content : List UInt8) :
    (withCommunity isTop firstOctetStr req content).header =
      (if decide (isTop ≠ 0) && firstOctetStr then [HeaderWrite.community content] else []).foldl
        Header.write req.header := by
  unfold withCommunity
  by_cases h : isTop ≠ 0 ∧ firstOctetStr = true
  · rw [if_pos h, if_pos (by simpa using h)]
    rfl
  · rw [if_neg h, if_neg (by simpa using h)]
    rfl

theorem header_addOid (findNextOid : StdString → StdString) (isGetnext : Bool) (req : OidReq)
    (oid : StdString) : (addOid findNextOid isGetnext req oid).header = req.header := by
  rw [addOid]
  split
  · dsimp only
    split <;> rfl
  · rfl

/-! ## Along the tree -/

variable {r : Region} {findNextOid : StdString → StdString}

/-- A call returned a result and a request whose header is changed by writes. -/
def Returns (parsed : Parsed) (ok : Bool) (writes : List HeaderWrite) (header : Header) : Prop :=
  ∃ req, parsed = some (ok, req) ∧ req.header = writes.foldl Header.write header

/-- The loop over the rest of a sequence in a variable binding. -/
def LoopRuns (r : Region) (findNextOid : StdString → StdString) (vs : List Value) : Prop :=
  ∀ (fuel stop : ℕ) (isGetnext : Bool) (isTop : ℤ) (firstInteger firstOctetStr : Bool)
    (req : OidReq) (front rest : List UInt8), isTop ≤ 0 →
    r.bytes = front ++ (valuesBytes vs ++ rest) → (valuesBytes vs).length < 256 →
    (valuesBytes vs).length + 1 ≤ fuel →
      Returns (berLoop r findNextOid fuel stop front.length
          (front.length + (valuesBytes vs).length) isGetnext isTop firstInteger firstOctetStr req).val
        (valuesParsed vs) (valuesWrites (isTop ≠ 0) firstInteger firstOctetStr vs) req.header

/-- The loop over the list of a PDU. -/
def ListRuns (r : Region) (findNextOid : StdString → StdString) (list : List Value) : Prop :=
  ∀ (fuel stop : ℕ) (isGetnext : Bool) (req : OidReq) (front rest : List UInt8),
    r.bytes = front ++ (valuesBytes list ++ rest) → (valuesBytes list).length < 256 →
    (valuesBytes list).length + 1 ≤ fuel →
      Returns (varbindLoop r findNextOid fuel stop front.length
          (front.length + (valuesBytes list).length) isGetnext req).val
        (list.all (·.isSequence)) (listWrites list) req.header

/-- A sequence in a variable binding, or a variable binding itself. -/
theorem LoopRuns.processBER {vs : List Value} (h : LoopRuns r findNextOid vs) (fuel stop : ℕ)
    (isGetnext : Bool) {isTop : ℤ} (htop : isTop ≤ 0) (req : OidReq) (front rest : List UInt8)
    (hbytes : r.bytes = front ++ (valuesBytes vs ++ rest)) (hshort : (valuesBytes vs).length < 256)
    (hfuel : (valuesBytes vs).length + 2 ≤ fuel) :
    Returns (Snmp.processBER r findNextOid fuel stop front.length (valuesBytes vs).length isGetnext
        isTop req).val
      (!vs.isEmpty && valuesParsed vs) (valuesWrites (isTop ≠ 0) true true vs) req.header := by
  obtain ⟨fuel, rfl⟩ : ∃ spare, fuel = spare + 1 := ⟨fuel - 1, by omega⟩
  cases vs with
  | nil => exact ⟨req, rfl, rfl⟩
  | cons v vs =>
      have hlong : 2 ≤ (valuesBytes (v :: vs)).length := by
        rw [valuesBytes_cons, List.length_append, v.length_bytes]
        omega
      rw [val_processBER _ _ _ _ _ hlong]
      exact h fuel _ isGetnext isTop true true req front rest htop hbytes hshort (by omega)

/-- A PDU. -/
theorem ListRuns.processPDU {list : List Value} (h : ListRuns r findNextOid list)
    {type : UInt8} {htype : isPdu type} {reqId error errorIndex behind : List UInt8}
    (fuel stop : ℕ) (isGetnext : Bool) (req : OidReq) (front rest : List UInt8)
    (hbytes : r.bytes =
      front ++ ((Value.pdu type htype reqId error errorIndex list behind).content ++ rest))
    (hshort : (Value.pdu type htype reqId error errorIndex list behind).content.length < 256)
    (hfuel : (Value.pdu type htype reqId error errorIndex list behind).content.length ≤ fuel) :
    Returns (Snmp.processPDU r findNextOid fuel stop front.length
        (Value.pdu type htype reqId error errorIndex list behind).content.length isGetnext req).val
      (list.all (·.isSequence)) (listWrites list) req.header := by
  have hlist := length_list_lt type htype reqId error errorIndex list behind
  obtain ⟨fuel, rfl⟩ : ∃ spare, fuel = spare + 1 := ⟨fuel - 1, by omega⟩
  have hcontent : (Value.pdu type htype reqId error errorIndex list behind).content =
      element 0x02 reqId ++ element 0x02 error ++ element 0x02 errorIndex ++
        element 0x30 (valuesBytes list) ++ behind := rfl
  obtain ⟨front', stop', hfront, hparts⟩ := @val_processPDU_parts r findNextOid fuel stop _
    isGetnext req front rest _ _ _ _ _ _ hcontent hbytes rfl hshort
  rw [hparts]
  exact h fuel stop' isGetnext { req with reqId := integerOf reqId } front' (behind ++ rest) hfront
    (by omega) (by omega)

/-- A PDU that is left before its list changes nothing of the header. -/
theorem RejectedPdu.processPDU {content : List UInt8} (h : RejectedPdu content) (fuel stop : ℕ)
    (isGetnext : Bool) (req : OidReq) (front rest : List UInt8)
    (hbytes : r.bytes = front ++ (content ++ rest)) (hshort : content.length < 256)
    (hfuel : 0 < fuel) :
    Returns (Snmp.processPDU r findNextOid fuel stop front.length content.length isGetnext req).val
      false [] req.header := by
  obtain ⟨fuel, rfl⟩ : ∃ spare, fuel = spare + 1 := ⟨fuel - 1, by omega⟩
  obtain ⟨len, hlen⟩ : ∃ len, content.length = len := ⟨_, rfl⟩
  rw [Snmp.processPDU, hlen]
  cases h with
  | small h =>
      rw [Traced.val_bind, val_pduInteger_none _ (by omega)]
      exact ⟨req, rfl, rfl⟩
  | @type integers hcount type hother behind =>
      rw [List.append_assoc, List.cons_append] at hbytes
      have hat : ∀ front' : List UInt8, r.bytes = front' ++ type :: (behind ++ rest) →
          r.get front'.length = type := fun front' => r.get_append front' (behind ++ rest)
      -- as many integers are read as there are, and then the type of the next part is wrong
      rcases integers with _ | ⟨reqId, _ | ⟨error, _ | ⟨errorIndex, _ | ⟨more, integers⟩⟩⟩⟩
      · rw [Traced.val_bind, val_pduInteger_none _ fun _ => (hat _ hbytes).trans_ne hother]
        exact ⟨req, rfl, rfl⟩
      · simp only [List.flatMap_cons, List.flatMap_nil, List.append_nil, List.length_append,
          length_element, List.length_cons] at hbytes hlen hshort
        have hlong : 2 ≤ len := by omega
        obtain ⟨front₁, hbytes₁, hreqId⟩ := exists_val_pduInteger hbytes rfl (by omega) hlong
        simp only [Traced.val_bind, hreqId,
          val_pduInteger_none _ fun _ => (hat _ hbytes₁).trans_ne hother]
        exact ⟨{ req with reqId := integerOf reqId }, rfl, rfl⟩
      · simp only [List.flatMap_cons, List.flatMap_nil, List.append_nil, List.append_assoc,
          List.length_append, length_element, List.length_cons] at hbytes hlen hshort
        have hlong : 2 ≤ len := by omega
        obtain ⟨front₁, hbytes₁, hreqId⟩ := exists_val_pduInteger hbytes rfl (by omega) hlong
        obtain ⟨front₂, hbytes₂, herror⟩ := exists_val_pduInteger hbytes₁ rfl (by omega) hlong
        simp only [Traced.val_bind, hreqId, herror,
          val_pduInteger_none _ fun _ => (hat _ hbytes₂).trans_ne hother]
        exact ⟨{ req with reqId := integerOf reqId }, rfl, rfl⟩
      · simp only [List.flatMap_cons, List.flatMap_nil, List.append_nil, List.append_assoc,
          List.length_append, length_element, List.length_cons] at hbytes hlen hshort
        have hlong : 2 ≤ len := by omega
        obtain ⟨front₁, hbytes₁, hreqId⟩ := exists_val_pduInteger hbytes rfl (by omega) hlong
        obtain ⟨front₂, hbytes₂, herror⟩ := exists_val_pduInteger hbytes₁ rfl (by omega) hlong
        obtain ⟨front₃, hbytes₃, herrorIndex⟩ := exists_val_pduInteger hbytes₂ rfl (by omega) hlong
        simp only [Traced.val_bind, hreqId, herror, herrorIndex, readByte]
        have hlist : r.get front₃.length ≠ 0x30 := (hat _ hbytes₃).trans_ne hother
        rw [if_pos hlist]
        exact ⟨{ req with reqId := integerOf reqId }, rfl, rfl⟩
      · simp only [List.length_cons] at hcount
        omega

/-- What is known of the parts of an element. -/
def PartsRun (r : Region) (findNextOid : StdString → StdString) : Value → Prop
  | .sequence values => LoopRuns r findNextOid values
  | .pdu _ _ _ _ _ list _ => ListRuns r findNextOid list
  | _ => True

/-- A round of the loop: the element is parsed and the loop goes on behind it, or the loop is
left. -/
theorem PartsRun.val_berLoop {v : Value} (hv : PartsRun r findNextOid v) (fuel stop last : ℕ)
    (isGetnext : Bool) {isTop : ℤ} (htop : isTop ≤ 0) (firstInteger firstOctetStr : Bool)
    (req : OidReq) (front rest : List UInt8) (hbytes : r.bytes = front ++ (v.bytes ++ rest))
    (hlast : front.length + v.bytes.length ≤ last) (hshort : v.bytes.length < 256)
    (hfuel : v.bytes.length ≤ fuel) :
    ∃ req' : OidReq,
      req'.header = (v.writes (isTop ≠ 0) firstInteger firstOctetStr).foldl Header.write
        req.header ∧
      (berLoop r findNextOid (fuel + 1) stop front.length last isGetnext isTop firstInteger
          firstOctetStr req).val =
        if v.parsed then
          (berLoop r findNextOid fuel stop (front.length + v.bytes.length) last isGetnext isTop
            (firstInteger && !v.isInteger) (firstOctetStr && !v.isOctetString) req').val
        else some (false, req') := by
  have hlength := v.length_bytes
  have hnext : front.length + v.bytes.length = front.length + 2 + v.content.length := by omega
  have hfits : v.content.length < 256 := by omega
  rw [hnext]
  rw [hnext] at hlast
  rw [v.bytes_eq] at hbytes
  have hat := elementAt_of_bytes hbytes rfl hfits
  cases v with
  | integer content =>
      refine ⟨withVersion isTop firstInteger req content,
        header_withVersion isTop firstInteger req content, ?_⟩
      rw [val_berLoop_integer _ _ _ _ _ _ _ hat hlast]
      simp [Value.parsed, Value.isInteger, Value.isOctetString, Value.content]
  | octetString content =>
      refine ⟨withCommunity isTop firstOctetStr req content,
        header_withCommunity isTop firstOctetStr req content, ?_⟩
      rw [val_berLoop_octetStr _ _ _ _ _ _ _ hat hlast]
      simp [Value.parsed, Value.isInteger, Value.isOctetString, Value.content]
  | null content =>
      refine ⟨req, rfl, ?_⟩
      rw [val_berLoop_null _ _ _ _ _ _ _ hat hlast]
      simp [Value.parsed, Value.isInteger, Value.isOctetString, Value.content]
  | oid content =>
      cases hoid : getOid content with
      | none =>
          refine ⟨req, rfl, ?_⟩
          rw [val_berLoop_oid_none _ _ _ _ _ _ _ hat hlast hoid]
          simp [Value.parsed, hoid]
      | some oid =>
          refine ⟨addOid findNextOid isGetnext req oid, header_addOid _ _ _ _, ?_⟩
          rw [val_berLoop_oid _ _ _ _ _ _ _ hat hlast hoid]
          simp [Value.parsed, Value.isInteger, Value.isOctetString, Value.content, hoid]
  | other type htype content =>
      refine ⟨req, rfl, ?_⟩
      rw [val_berLoop_unknown _ _ _ _ _ _ _ htype hat hlast]
      simp [Value.parsed]
  | sequence values =>
      obtain ⟨inside, hinside, hstart⟩ := exists_inside hbytes rfl
      obtain ⟨req', hcall, hheader⟩ := LoopRuns.processBER hv fuel stop isGetnext
        (show isTop - 1 ≤ 0 by omega) req inside rest hinside hfits
        (by simp only [Value.content] at hlength; omega)
      rw [← hstart] at hcall
      have hnested : decide (isTop - 1 ≠ 0) = true := by
        rw [decide_eq_true_eq]
        omega
      rw [hnested] at hheader
      refine ⟨req', hheader, ?_⟩
      rw [val_berLoop_sequence _ _ _ _ _ _ _ hat hlast hcall]
      simp [Value.parsed, Value.isInteger, Value.isOctetString, Value.content]
  | rejectedPdu type htype content hrejected =>
      obtain ⟨inside, hinside, hstart⟩ := exists_inside hbytes rfl
      obtain ⟨req', hcall, hheader⟩ := hrejected.processPDU fuel stop (isGetnext || type == 0xa1) req
        inside rest hinside hfits (by omega)
      rw [← hstart] at hcall
      refine ⟨req', hheader, ?_⟩
      rw [val_berLoop_pdu _ _ _ _ _ _ _ htype hat hlast hcall]
      simp [Value.parsed]
  | pdu type htype reqId error errorIndex list behind =>
      obtain ⟨inside, hinside, hstart⟩ := exists_inside hbytes rfl
      obtain ⟨req', hcall, hheader⟩ := ListRuns.processPDU hv fuel stop
        (isGetnext || type == 0xa1) req inside rest hinside hfits (by omega)
      rw [← hstart] at hcall
      refine ⟨req', hheader, ?_⟩
      rw [val_berLoop_pdu _ _ _ _ _ _ _ htype hat hlast hcall]
      simp [Value.parsed, Value.isInteger, Value.isOctetString]

/-- A round of the loop over the list of a PDU. -/
theorem PartsRun.val_varbindLoop {v : Value} (hv : PartsRun r findNextOid v) (fuel stop last : ℕ)
    (isGetnext : Bool) (req : OidReq) (front rest : List UInt8)
    (hbytes : r.bytes = front ++ (v.bytes ++ rest))
    (hlast : front.length + v.bytes.length ≤ last) (hshort : v.bytes.length < 256)
    (hfuel : v.bytes.length ≤ fuel) :
    ∃ req' : OidReq, req'.header = v.varbindWrites.foldl Header.write req.header ∧
      (varbindLoop r findNextOid (fuel + 1) stop front.length last isGetnext req).val =
        if v.isSequence then
          (varbindLoop r findNextOid fuel stop (front.length + v.bytes.length) last isGetnext
            req').val
        else some (false, req') := by
  have hlength := v.length_bytes
  have hnext : front.length + v.bytes.length = front.length + 2 + v.content.length := by omega
  have hfits : v.content.length < 256 := by omega
  rw [hnext]
  rw [hnext] at hlast
  rw [v.bytes_eq] at hbytes
  have hat := elementAt_of_bytes hbytes rfl hfits
  by_cases hseq : v.isSequence
  · cases v with
    | sequence values =>
        obtain ⟨inside, hinside, hstart⟩ := exists_inside hbytes rfl
        obtain ⟨req', hcall, hheader⟩ := LoopRuns.processBER hv fuel stop isGetnext (Int.le_refl 0)
          req inside rest hinside hfits (by simp only [Value.content] at hlength; omega)
        rw [← hstart] at hcall
        exact ⟨req', hheader, by rw [val_varbindLoop_sequence _ _ _ _ hat hlast hcall]; rfl⟩
    | _ => exact absurd hseq (by simp [Value.isSequence])
  · refine ⟨req, ?_, ?_⟩
    · rw [Value.varbindWrites_eq_nil hseq]
      rfl
    · rw [val_varbindLoop_other _ _ _ _ (Value.type_ne_sequence hseq) hat hlast, if_neg hseq]

theorem loopRuns_nil : LoopRuns r findNextOid [] := by
  intro fuel stop isGetnext isTop firstInteger firstOctetStr req front rest htop hbytes hshort hfuel
  obtain ⟨fuel, rfl⟩ : ∃ spare, fuel = spare + 1 := ⟨fuel - 1, by omega⟩
  have hlength : (valuesBytes []).length = 0 := rfl
  exact ⟨req, val_berLoop_done _ _ _ _ _ _ _ _ _ (by omega), rfl⟩

theorem listRuns_nil : ListRuns r findNextOid [] := by
  intro fuel stop isGetnext req front rest hbytes hshort hfuel
  obtain ⟨fuel, rfl⟩ : ∃ spare, fuel = spare + 1 := ⟨fuel - 1, by omega⟩
  have hlength : (valuesBytes []).length = 0 := rfl
  exact ⟨req, val_varbindLoop_done _ _ _ _ (by omega), rfl⟩

theorem PartsRun.loopRuns_cons {v : Value} {vs : List Value} (hv : PartsRun r findNextOid v)
    (hvs : LoopRuns r findNextOid vs) : LoopRuns r findNextOid (v :: vs) := by
  intro fuel stop isGetnext isTop firstInteger firstOctetStr req front rest htop hbytes hshort hfuel
  have hlength := v.length_bytes
  rw [valuesBytes_cons, List.append_assoc] at hbytes
  rw [valuesBytes_cons, List.length_append] at hshort hfuel ⊢
  rw [← Nat.add_assoc]
  obtain ⟨fuel, rfl⟩ : ∃ spare, fuel = spare + 1 := ⟨fuel - 1, by omega⟩
  obtain ⟨req₁, hheader₁, hround⟩ := PartsRun.val_berLoop hv fuel stop
    (front.length + v.bytes.length + (valuesBytes vs).length) isGetnext htop firstInteger
    firstOctetStr req front _ hbytes (by omega) (by omega) (by omega)
  rw [hround, valuesParsed, valuesWrites]
  cases hparsed : v.parsed with
  | false => exact ⟨req₁, rfl, by rw [hheader₁]; simp⟩
  | true =>
      have hbehind : r.bytes = (front ++ v.bytes) ++ (valuesBytes vs ++ rest) := by
        rw [hbytes, List.append_assoc]
      obtain ⟨req₂, hrest, hheader₂⟩ := hvs fuel stop isGetnext isTop (firstInteger && !v.isInteger)
        (firstOctetStr && !v.isOctetString) req₁ (front ++ v.bytes) rest htop hbehind (by omega)
        (by omega)
      rw [List.length_append] at hrest
      refine ⟨req₂, hrest, ?_⟩
      rw [hheader₂, hheader₁, if_pos rfl, List.foldl_append]

theorem PartsRun.listRuns_cons {v : Value} {vs : List Value} (hv : PartsRun r findNextOid v)
    (hvs : ListRuns r findNextOid vs) : ListRuns r findNextOid (v :: vs) := by
  intro fuel stop isGetnext req front rest hbytes hshort hfuel
  have hlength := v.length_bytes
  rw [valuesBytes_cons, List.append_assoc] at hbytes
  rw [valuesBytes_cons, List.length_append] at hshort hfuel ⊢
  rw [← Nat.add_assoc]
  obtain ⟨fuel, rfl⟩ : ∃ spare, fuel = spare + 1 := ⟨fuel - 1, by omega⟩
  obtain ⟨req₁, hheader₁, hround⟩ := PartsRun.val_varbindLoop hv fuel stop
    (front.length + v.bytes.length + (valuesBytes vs).length) isGetnext req front _ hbytes
    (by omega) (by omega) (by omega)
  rw [hround, List.all_cons, listWrites]
  by_cases hseq : v.isSequence = true
  · have hbehind : r.bytes = (front ++ v.bytes) ++ (valuesBytes vs ++ rest) := by
      rw [hbytes, List.append_assoc]
    obtain ⟨req₂, hrest, hheader₂⟩ := hvs fuel stop isGetnext req₁ (front ++ v.bytes) rest hbehind
      (by omega) (by omega)
    rw [List.length_append] at hrest
    rw [if_pos hseq, if_pos hseq, hseq, Bool.true_and]
    refine ⟨req₂, hrest, ?_⟩
    rw [hheader₂, hheader₁, List.foldl_append]
  · rw [if_neg hseq, if_neg hseq, Bool.eq_false_iff.mpr hseq, Bool.false_and]
    exact ⟨req₁, rfl, by rw [hheader₁, Value.varbindWrites_eq_nil hseq]⟩

mutual

/-- The parser follows every tree. -/
theorem partsRun (v : Value) : PartsRun r findNextOid v := by
  cases v with
  | integer content => trivial
  | octetString content => trivial
  | null content => trivial
  | oid content => trivial
  | other type h content => trivial
  | sequence values => exact (listsRun values).1
  | rejectedPdu type h content hrejected => trivial
  | pdu type h reqId error errorIndex list behind => exact (listsRun list).2

theorem listsRun (vs : List Value) : LoopRuns r findNextOid vs ∧ ListRuns r findNextOid vs := by
  cases vs with
  | nil => exact ⟨loopRuns_nil, listRuns_nil⟩
  | cons v vs =>
      have hv := partsRun v
      have hvs := listsRun vs
      exact ⟨hv.loopRuns_cons hvs.1, hv.listRuns_cons hvs.2⟩

end

/-! ## The last writes -/

/-- A field that some of the writes set is what the last of those wrote. -/
theorem field_foldl_write {β γ : Type*} (field : Header → β) (select : HeaderWrite → Option γ)
    (value : γ → β)
    (hwrite : ∀ h write, field (h.write write) = ((select write).map value).getD (field h))
    (writes : List HeaderWrite) (h : Header) :
    field (writes.foldl Header.write h) =
      ((writes.filterMap select).getLast?.map value).getD (field h) := by
  induction writes generalizing h with
  | nil => rfl
  | cons first writes ih =>
      rw [List.foldl_cons, ih, hwrite]
      cases hselect : select first with
      | none =>
          rw [List.filterMap_cons_none hselect]
          rfl
      | some content =>
          rw [List.filterMap_cons_some hselect, List.getLast?_cons]
          cases (writes.filterMap select).getLast? <;> rfl

theorem version_foldl_write (writes : List HeaderWrite) (h : Header) :
    (writes.foldl Header.write h).version =
      ((HeaderWrite.versions writes).getLast?.map versionOf).getD h.version := by
  apply field_foldl_write Header.version
  intro h write
  cases write <;> rfl

theorem community_foldl_write (writes : List HeaderWrite) (h : Header) :
    (writes.foldl Header.write h).community =
      ((HeaderWrite.communities writes).getLast?.map id).getD h.community := by
  apply field_foldl_write Header.community
  intro h write
  cases write <;> rfl

namespace AnyRequest

variable (q : AnyRequest)

/-- The header after the outer sequence, before the list. -/
def header : Header := ⟨versionOf q.version, q.community⟩

/-- The header that is left is the one of the outer sequence, changed by the writes inside the
list. -/
theorem val_parseDatagram (beyond : ℕ → UInt8) (findNextOid : StdString → StdString) {fuel : ℕ}
    (hfuel : q.bytes.length + 2 ≤ fuel) :
    Returns (parseDatagram ⟨q.bytes, beyond⟩ findNextOid fuel).val (q.list.all (·.isSequence))
      (listWrites q.list) q.header := by
  let pdu : Value := .pdu q.type q.isPdu q.reqId q.error q.errorIndex q.list []
  let content := element 0x02 q.version ++ element 0x04 q.community ++ element q.type pdu.content
  have hcontent : valuesBytes [.integer q.version, .octetString q.community, pdu] = content := by
    have hvalues : valuesBytes [.integer q.version, .octetString q.community, pdu] =
        element 0x02 q.version ++ (element 0x04 q.community ++ (element q.type pdu.content ++ [])) :=
      rfl
    rw [hvalues, List.append_nil, ← List.append_assoc]
  have hshort : content.length < 256 := hcontent ▸ q.short
  have hbytes : q.bytes = element 0x30 content := congrArg (element 0x30) hcontent
  have hlength : content.length = 2 + q.version.length + (2 + q.community.length) +
      (2 + pdu.content.length) := by
    simp only [content, List.length_append, length_element]
  rw [hbytes] at hfuel ⊢
  rw [length_element] at hfuel
  obtain ⟨fuel, rfl⟩ : ∃ spare, fuel = spare + 7 := ⟨fuel - 7, by omega⟩
  obtain ⟨stop, front, hfront, houter⟩ := exists_processPDU_of_parseDatagram q.isPdu q.version
    q.community pdu.content hshort beyond findNextOid fuel
  have hfits : pdu.content.length < 256 := by omega
  have hspare : pdu.content.length ≤ fuel + 1 := by omega
  obtain ⟨req, hcall, hheader⟩ := ListRuns.processPDU (listsRun q.list).2 (fuel + 1) stop
    (q.type == 0xa1) _ front [] hfront hfits hspare
  exact ⟨req, houter _ _ hcall, hheader⟩

theorem headerKept_iff {req : OidReq}
    (h : req.header = (listWrites q.list).foldl Header.write q.header) :
    q.HeaderKept req ↔ q.WritesHarmless := by
  have hversion : req.version =
      ((HeaderWrite.versions (listWrites q.list)).getLast?.map versionOf).getD
        (versionOf q.version) :=
    (congrArg Header.version h).trans (version_foldl_write _ q.header)
  have hcommunity : req.community =
      ((HeaderWrite.communities (listWrites q.list)).getLast?.map id).getD q.community :=
    (congrArg Header.community h).trans (community_foldl_write _ q.header)
  rw [HeaderKept, WritesHarmless, hversion, hcommunity]
  cases (HeaderWrite.versions (listWrites q.list)).getLast? <;>
    cases (HeaderWrite.communities (listWrites q.list)).getLast? <;> simp

theorem writesHarmless_of_unchanged {findNextOid : StdString → StdString}
    (h : q.Unchanged findNextOid) : q.WritesHarmless := by
  obtain ⟨ok, req, hparsed, hkept⟩ := h (fun _ => 0) _ (Nat.le_refl _)
  obtain ⟨req', hparsed', hheader⟩ :=
    q.val_parseDatagram (fun _ => 0) findNextOid (Nat.le_refl _)
  obtain rfl := (Prod.mk.inj (Option.some.inj (hparsed.symm.trans hparsed'))).2
  exact (q.headerKept_iff hheader).mp hkept

end AnyRequest

/-! ## A request that is changed -/

/-- The value of its variable binding is a sequence of an INTEGER. -/
def nestedRequest : AnyRequest where
  version := [0]
  community := str "public"
  type := 0xa0
  isPdu := .inl rfl
  reqId := [1]
  error := [0]
  errorIndex := [0]
  list := [.sequence [.oid [43, 6, 1], .sequence [.integer [5]]]]
  short := by decide

end HamRouter.Snmp
