import HamRouter.Model.SnmpManager
import HamRouter.Verification.Snmp.Integers
import HamRouter.Verification.Snmp.Payload

/-! # A datagram and the reply to it

What a manager reads in the bytes that the agent sends. -/

namespace HamRouter.Snmp

/-! ## Elements are read as they were put out -/

theorem readElement_element (type : UInt8) {content : List UInt8} (h : content.length < 256)
    (rest : List UInt8) :
    readElement (element type content ++ rest) = some (type, content, rest) := by
  have hlength : (UInt8.ofNat content.length).toNat = content.length :=
    UInt8.toNat_ofNat_of_lt' h
  rw [element, List.cons_append, List.cons_append, readElement, hlength, List.length_append,
    if_pos (Nat.le_add_right _ _), List.take_left, List.drop_left]

theorem readElements_flatMap {es : List (UInt8 × List UInt8)} (h : ∀ e ∈ es, e.2.length < 256)
    {fuel : ℕ} (hfuel : es.length ≤ fuel) :
    readElements fuel (es.flatMap fun e => element e.1 e.2) = some es := by
  induction es generalizing fuel with
  | nil => cases fuel <;> rfl
  | cons e es ih =>
      obtain ⟨fuel, rfl⟩ := Nat.exists_eq_add_of_le' (Nat.lt_of_lt_of_le (Nat.zero_lt_succ _) hfuel)
      have hrest := ih (fun e' he' => h e' (List.mem_cons_of_mem _ he'))
        (Nat.le_of_succ_le_succ hfuel)
      have hfirst := readElement_element e.1 (h e List.mem_cons_self)
        (es.flatMap fun e => element e.1 e.2)
      rw [List.flatMap_cons]
      rw [element, List.cons_append] at hfirst ⊢
      rw [readElements, hfirst, Option.bind_some, hrest]
      rfl

theorem length_le_flatMap_element (es : List (UInt8 × List UInt8)) :
    es.length ≤ (es.flatMap fun e => element e.1 e.2).length := by
  induction es with
  | nil => exact Nat.le_refl _
  | cons e es ih =>
      rw [List.flatMap_cons, List.length_append, length_element, List.length_cons]
      omega

theorem elementsOf_flatMap {es : List (UInt8 × List UInt8)} (h : ∀ e ∈ es, e.2.length < 256) :
    elementsOf (es.flatMap fun e => element e.1 e.2) = some es :=
  readElements_flatMap h (length_le_flatMap_element es)

theorem integerOf_eq_number : integerOf = number := funext integerOf_eq

/-- The bytes of an integer. -/
def written (v : UInt64) : List UInt8 := BigEndian.ofNat (width v) v.toNat

theorem readInteger_written (v : UInt64) :
    readInteger (0x02, written v) = some v := by
  rw [readInteger, written, contentOf, if_pos rfl, Option.map_some, number, unsigned_written,
    UInt64.ofNat_toNat]

theorem readBinding_varbind {name : List UInt8} (h : name.length < 256) (value : List UInt8) :
    readBinding (0x30, element 0x06 name ++ value) = some (name, value) := by
  rw [readBinding, contentOf, if_pos rfl, Option.bind_some, readElement_element _ h,
    Option.bind_some, contentOf, if_pos rfl]
  rfl

/-! ## Payloads as elements -/

theorem bytes_bytesPayload (type : UInt8) {v : List UInt8} (h : v.length ≤ 253) :
    (bytesPayload type v).out.bytes = element type v := by
  have hmod : v.length % 256 = v.length := Nat.mod_eq_of_lt (by omega)
  rw [out_bytesPayload type (by omega), hmod, List.take_length]
  rfl

theorem bytes_sequence {es : List Elem} (h : (Elem.sequence es).Fits) :
    (Elem.sequence es).getPayload.out.bytes =
      element 0x30 (es.flatMap fun e => e.getPayload.out.bytes) := by
  rw [Elem.getPayload, Elem.getSize_eq, Elem.contentLength,
    out_sequencePayload h.2 h.1 ((payloads_inside_iff es).mpr h.2), ← contents_payloads, element,
    length_contents h.2]
  rfl

theorem bytes_pdu {type : UInt8} {es : List Elem} (h : (Elem.pdu type es).Fits) :
    (Elem.pdu type es).getPayload.out.bytes =
      element type (es.flatMap fun e => e.getPayload.out.bytes) := by
  rw [Elem.getPayload, Elem.getSize_eq, Elem.contentLength]
  simp only [out_sequencePayload h.2 h.1 ((payloads_inside_iff es).mpr h.2)]
  rw [← contents_payloads, element, length_contents h.2]
  rfl

theorem length_bytes_of_fits {e : Elem} (h : e.Fits) :
    e.getPayload.out.bytes.length = 2 + e.contentLength := by
  have hle := e.contentLength_le_of_fits h
  rw [e.length_getPayload, e.size_getPayload, UInt8.toNat_ofNat']
  omega

theorem allFit_iff (es : List Elem) : AllFit es ↔ ∀ e ∈ es, e.Fits := by
  induction es with
  | nil => simp [AllFit]
  | cons e es ih => rw [AllFit, List.forall_mem_cons, ih]

/-- Elements that fit are read again from their payloads. -/
theorem elementsOf_payloads (es : List Elem) (ps : List (UInt8 × List UInt8)) (hfit : AllFit es)
    (h : List.Forall₂ (fun e p => e.getPayload.out.bytes = element p.1 p.2) es ps) :
    elementsOf (es.flatMap fun e => e.getPayload.out.bytes) = some ps := by
  have hboth : (es.flatMap fun e => e.getPayload.out.bytes) =
      (ps.flatMap fun p => element p.1 p.2) ∧ ∀ p ∈ ps, p.2.length < 256 := by
    induction h with
    | nil => exact ⟨rfl, fun p hp => by cases hp⟩
    | cons hbytes _ ih =>
        obtain ⟨hrest, hlengths⟩ := ih hfit.2
        refine ⟨?_, List.forall_mem_cons.mpr ⟨?_, hlengths⟩⟩
        · rw [List.flatMap_cons, List.flatMap_cons, hbytes, hrest]
        · have hlength := length_bytes_of_fits hfit.1
          have hle := Elem.contentLength_le_of_fits hfit.1
          rw [hbytes, length_element] at hlength
          omega
  rw [hboth.1]
  exact elementsOf_flatMap hboth.2

theorem elementsOf_sequence {es : List Elem} (h : (Elem.sequence es).Fits) :
    elementsOf (Elem.sequence es).getPayload.out.bytes =
      some [(0x30, es.flatMap fun e => e.getPayload.out.bytes)] := by
  have hone := elementsOf_payloads [.sequence es] _ ⟨h, trivial⟩
    (.cons (show _ = element (0x30, es.flatMap fun e => e.getPayload.out.bytes).1
      (0x30, es.flatMap fun e => e.getPayload.out.bytes).2 from bytes_sequence h) .nil)
  rwa [List.flatMap_singleton] at hone

/-! ## What is left of a request -/

namespace Request

variable (q : Request) (findNextOid : StdString → StdString)
  (findByOid : StdString → Option (Option Elem))

theorem addOids_eq_with (oids : List AcceptedOid) (req : OidReq) :
    addOids findNextOid q.getNext oids req =
      { req with
        oids := req.oids ++
          (oids.filter fun o => ¬ q.Exhausted findNextOid o).map (q.answered findNextOid)
        err := if ∃ o ∈ oids, q.Exhausted findNextOid o then 2 else req.err
        errIdx := if ∃ o ∈ oids, q.Exhausted findNextOid o then 1 else req.errIdx } := by
  induction oids generalizing req with
  | nil => simp [addOids]
  | cons o oids ih =>
      have hstep : addOids findNextOid q.getNext (o :: oids) req =
          addOids findNextOid q.getNext oids (addOid findNextOid q.getNext req o.text) := rfl
      rw [hstep, ih]
      by_cases hget : q.getNext = true
      · by_cases hnext : findNextOid o.text = []
        · simp [addOid, Exhausted, hget, hnext]
        · simp [addOid, Exhausted, answered, hget, hnext]
      · simp [addOid, Exhausted, answered, hget]

/-- The request as the parser leaves it. -/
def parsed : OidReq :=
  { q.start with
    oids := q.answeredOids findNextOid
    err := if q.SomeExhausted findNextOid then 2 else 0
    errIdx := if q.SomeExhausted findNextOid then 1 else 0 }

theorem addOids_eq :
    addOids findNextOid q.getNext q.oids q.start = q.parsed findNextOid :=
  q.addOids_eq_with findNextOid q.oids q.start

/-! ## The bytes of the reply -/

variable {findNextOid findByOid}

/-- The variable bindings of the reply. -/
def varbindsOf (findByOid : StdString → Option (Option Elem)) (oids : List StdString) :
    List Elem :=
  oids.map fun e => .sequence [.oid (snmpOid e).written, replyValue findByOid e]

theorem varbindsLength_cons (findByOid : StdString → Option (Option Elem)) (e : StdString)
    (oids : List StdString) :
    varbindsLength findByOid (e :: oids) =
      6 + (snmpOid e).written.length + (replyValue findByOid e).contentLength +
        varbindsLength findByOid oids := by
  rw [varbindsLength, List.map_cons, List.sum_cons]
  rfl

theorem contentLengths_varbinds (oids : List StdString)
    (hlong : varbindsLength findByOid oids ≤ 253) :
    contentLengths (varbindsOf findByOid oids) = varbindsLength findByOid oids := by
  induction oids with
  | nil => rfl
  | cons e oids ih =>
      rw [varbindsLength_cons] at hlong
      have hmod : (snmpOid e).written.length % 256 = (snmpOid e).written.length :=
        Nat.mod_eq_of_lt (by omega)
      have hrest := ih (by omega)
      rw [varbindsLength_cons, ← hrest]
      simp only [varbindsOf, List.map_cons, contentLengths, Elem.contentLength, hmod]
      omega

theorem allFit_varbinds {oids : List StdString} (hvalues : ∀ e ∈ oids, (replyValue findByOid e).Fits)
    (hlong : varbindsLength findByOid oids ≤ 253) :
    AllFit (varbindsOf findByOid oids) := by
  induction oids with
  | nil => trivial
  | cons e oids ih =>
      rw [varbindsLength_cons] at hlong
      have hmod : (snmpOid e).written.length % 256 = (snmpOid e).written.length :=
        Nat.mod_eq_of_lt (by omega)
      refine ⟨⟨?_, ?_, hvalues e List.mem_cons_self, trivial⟩, ih ?_ (by omega)⟩
      · simp only [contentLengths, Elem.contentLength, hmod]
        omega
      · rw [Elem.Fits, hmod]
        omega
      · exact fun e' he' => hvalues e' (List.mem_cons_of_mem _ he')

theorem contentLength_flag (p : Prop) [Decidable p] {n : Int32}
    (hn : n.toInt64.toUInt64 ≤ 0xffffffff) :
    (Elem.integer .integer (if p then n else 0 : Int32).toInt64.toUInt64).contentLength = 4 := by
  by_cases hp : p
  · rw [if_pos hp, Elem.contentLength, if_pos hn]
  · rw [if_neg hp]
    rfl

theorem sum_varbinds_le (h : q.HasRoom findNextOid findByOid) :
    varbindsLength findByOid (q.answeredOids findNextOid) ≤ 253 := by
  have hlength := h.length
  rw [replyLength] at hlength
  omega

variable (findNextOid findByOid) in
/-- The elements in the PDU of the reply. -/
def pduElements : List Elem :=
  [.integer .integer (number q.reqId),
    .integer .integer (if q.SomeExhausted findNextOid then 2 else 0 : Int32).toInt64.toUInt64,
    .integer .integer (if q.SomeExhausted findNextOid then 1 else 0 : Int32).toInt64.toUInt64,
    .sequence (varbindsOf findByOid (q.answeredOids findNextOid))]

variable (findNextOid findByOid) in
theorem genReply_parsed :
    genReply findByOid (q.parsed findNextOid) =
      .sequence [.integer .integer (q.reply findNextOid findByOid).version,
        .octetString (q.reply findNextOid findByOid).community,
        .pdu 0xa2 (q.pduElements findNextOid findByOid)] := by
  rw [reply, pduElements, ← integerOf_eq_number]
  rfl

theorem contentLengths_pduElements (h : q.HasRoom findNextOid findByOid) :
    2 + (Elem.integer .integer (q.reply findNextOid findByOid).version).contentLength +
        (2 + (q.reply findNextOid findByOid).community.length) +
        (2 + contentLengths (q.pduElements findNextOid findByOid)) =
      q.replyLength findNextOid findByOid := by
  have hvarbinds := contentLengths_varbinds _ (q.sum_varbinds_le h)
  have htwo : (2 : Int32).toInt64.toUInt64 ≤ 0xffffffff := by decide
  have hone : (1 : Int32).toInt64.toUInt64 ≤ 0xffffffff := by decide
  have herr := contentLength_flag (q.SomeExhausted findNextOid) htwo
  have herrIdx := contentLength_flag (q.SomeExhausted findNextOid) hone
  have hsequence : ∀ es, (Elem.sequence es).contentLength = contentLengths es := fun _ => rfl
  simp only [replyLength, pduElements, contentLengths, hsequence, herr, herrIdx, hvarbinds]
  omega

theorem fits_pdu (h : q.HasRoom findNextOid findByOid) :
    (Elem.pdu 0xa2 (q.pduElements findNextOid findByOid)).Fits := by
  have hlong := q.sum_varbinds_le h
  have hlist := (contentLengths_varbinds _ hlong).trans_le hlong
  have hlength := h.length
  rw [← q.contentLengths_pduElements h] at hlength
  exact ⟨by omega, trivial, trivial, trivial, ⟨hlist, allFit_varbinds h.values hlong⟩, trivial⟩

theorem length_community_le (h : q.HasRoom findNextOid findByOid) :
    (q.reply findNextOid findByOid).community.length ≤ 253 := by
  have hlength := h.length
  rw [replyLength] at hlength
  omega

theorem fits_genReply (h : q.HasRoom findNextOid findByOid) :
    (genReply findByOid (q.parsed findNextOid)).Fits := by
  have hcommunity := q.length_community_le h
  have hmod : (q.reply findNextOid findByOid).community.length % 256 =
      (q.reply findNextOid findByOid).community.length := Nat.mod_eq_of_lt (by omega)
  have hoctets : (Elem.octetString (q.reply findNextOid findByOid).community).contentLength =
      (q.reply findNextOid findByOid).community.length := hmod
  have hpdu : (Elem.pdu 0xa2 (q.pduElements findNextOid findByOid)).contentLength =
      contentLengths (q.pduElements findNextOid findByOid) := rfl
  have hlength := h.length
  rw [← q.contentLengths_pduElements h] at hlength
  rw [genReply_parsed]
  refine ⟨?_, trivial, hmod.trans_le hcommunity, q.fits_pdu h, trivial⟩
  simp only [contentLengths, hoctets, hpdu]
  omega

/-! ## What is read in the reply -/

theorem toUInt64_flag (p : Prop) [Decidable p] (n : Int32) :
    (if p then n else 0 : Int32).toInt64.toUInt64 = if p then n.toInt64.toUInt64 else 0 := by
  split <;> rfl

theorem length_written_lt {oids : List StdString}
    (hlong : varbindsLength findByOid oids ≤ 253) :
    ∀ e ∈ oids, (snmpOid e).written.length < 253 := by
  intro e he
  obtain ⟨front, back, rfl⟩ := List.append_of_mem he
  rw [varbindsLength, List.map_append, List.map_cons, List.sum_append, List.sum_cons] at hlong
  omega

theorem elementsOf_varbinds {oids : List StdString}
    (hvalues : ∀ e ∈ oids, (replyValue findByOid e).Fits)
    (hlong : varbindsLength findByOid oids ≤ 253) :
    (elementsOf ((varbindsOf findByOid oids).flatMap fun e => e.getPayload.out.bytes)).bind
        (·.mapM readBinding) =
      some (oids.map fun e =>
        ((snmpOid e).written, (replyValue findByOid e).getPayload.out.bytes)) := by
  have hnames := length_written_lt hlong
  have hfit := allFit_varbinds hvalues hlong
  have helements : elementsOf ((varbindsOf findByOid oids).flatMap fun e =>
        e.getPayload.out.bytes) =
      some (oids.map fun e => (0x30, element 0x06 (snmpOid e).written ++
        (replyValue findByOid e).getPayload.out.bytes)) := by
    refine elementsOf_payloads _ _ hfit ?_
    rw [varbindsOf, List.forall₂_map_left_iff, List.forall₂_map_right_iff, List.forall₂_same]
    intro e he
    have hname := bytes_bytesPayload 0x06 (Nat.le_of_lt (hnames e he))
    rw [bytes_sequence ((allFit_iff _).mp hfit _ (List.mem_map_of_mem he)), List.flatMap_cons,
      List.flatMap_singleton, ← hname]
    rfl
  rw [helements, Option.bind_some]
  clear helements hfit hlong
  induction oids with
  | nil => rfl
  | cons e oids ih =>
      have hname : (snmpOid e).written.length < 256 :=
        (hnames e List.mem_cons_self).trans (by decide)
      have hfirst := readBinding_varbind hname (replyValue findByOid e).getPayload.out.bytes
      have hrest := ih (fun e' he' => hvalues e' (List.mem_cons_of_mem _ he'))
        (fun e' he' => hnames e' (List.mem_cons_of_mem _ he'))
      rw [List.map_cons, List.mapM_cons, hfirst, hrest]
      rfl

theorem readReply_genReply (h : q.HasRoom findNextOid findByOid) :
    readReply (genReply findByOid (q.parsed findNextOid)).getPayload.out.bytes =
      some (q.reply findNextOid findByOid) := by
  have hfits := q.fits_genReply h
  have hpdu := q.fits_pdu h
  have hcommunity := q.length_community_le h
  have hlist := elementsOf_varbinds h.values (q.sum_varbinds_le h)
  rw [genReply_parsed] at hfits ⊢
  have hparts : elementsOf ([.integer .integer (q.reply findNextOid findByOid).version,
      .octetString (q.reply findNextOid findByOid).community,
      .pdu 0xa2 (q.pduElements findNextOid findByOid)].flatMap fun e : Elem =>
        e.getPayload.out.bytes) =
      some [(0x02, written (q.reply findNextOid findByOid).version),
        (0x04, (q.reply findNextOid findByOid).community),
        (0xa2, (q.pduElements findNextOid findByOid).flatMap fun e => e.getPayload.out.bytes)] :=
    elementsOf_payloads _ _ hfits.2 (.cons (bytes_integerPayload _ _)
      (.cons (bytes_bytesPayload _ hcommunity) (.cons (bytes_pdu hpdu) .nil)))
  have hnumbers : elementsOf ((q.pduElements findNextOid findByOid).flatMap fun e =>
        e.getPayload.out.bytes) =
      some [(0x02, written (number q.reqId)),
        (0x02, written (if q.SomeExhausted findNextOid then 2 else 0 : Int32).toInt64.toUInt64),
        (0x02, written (if q.SomeExhausted findNextOid then 1 else 0 : Int32).toInt64.toUInt64),
        (0x30, (varbindsOf findByOid (q.answeredOids findNextOid)).flatMap fun e =>
          e.getPayload.out.bytes)] :=
    elementsOf_payloads _ _ hpdu.2 (.cons (bytes_integerPayload _ _)
      (.cons (bytes_integerPayload _ _) (.cons (bytes_integerPayload _ _)
        (.cons (bytes_sequence hpdu.2.2.2.2.1) .nil))))
  rw [readReply, elementsOf_sequence hfits, Option.bind_some]
  simp only [contentOf, if_true, Option.bind_some, hparts]
  simp only [readMessage, readInteger_written, contentOf, if_true, Option.bind_eq_bind,
    Option.bind_some, hnumbers, readPdu]
  rw [← Option.bind_assoc, hlist, Option.bind_some, toUInt64_flag, toUInt64_flag]
  rfl

/-- The reply is sent. -/
theorem input_bytes (beyond : ℕ → UInt8) {fuel : ℕ} (hfuel : q.bytes.length + 2 ≤ fuel)
    (h : q.HasRoom findNextOid findByOid) :
    input ⟨q.bytes, beyond⟩ findNextOid findByOid fuel =
      some (some (genReply findByOid (q.parsed findNextOid)).getPayload) := by
  have hsize : (genReply findByOid (q.parsed findNextOid)).getPayload.size ≠ 0 := by
    intro hzero
    have hbytes := length_bytes_of_fits (q.fits_genReply h)
    rw [Elem.length_getPayload, hzero] at hbytes
    have hnone : (0 : UInt8).toNat = 0 := rfl
    omega
  rw [input, q.val_parseDatagram beyond hfuel, addOids_eq, Option.map_some]
  simp only [hsize, ne_eq, not_false_eq_true, and_self, if_true]

end Request

end HamRouter.Snmp
