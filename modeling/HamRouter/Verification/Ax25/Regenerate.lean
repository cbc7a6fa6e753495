import HamRouter.Verification.Ax25.Validity

/-! # Generating a decoded packet again -/

namespace HamRouter.Ax25

open TracedRead

/-! ## The parts of a decoded packet -/

section

variable (r : Region) (packet : Packet) (offset : ℕ)

/-- The body of a frame whose type has both a message number and a pid. -/
theorem val_readBody_of_type (h : r.get offset &&& 3 = 0) :
    (readBody r packet offset).val =
      { packet with
        valid := true
        msgNr := some (r.get (offset + 1))
        pid := some (r.get (offset + 2))
        data := (readData r (offset + 3)).val } := by
  simp [readBody, val_readIf, h]

/-- Only that type has both. -/
theorem type_of_isSome (hmsg : (readBody r packet offset).val.msgNr.isSome = true)
    (hpid : (readBody r packet offset).val.pid.isSome = true) : r.get offset &&& 3 = 0 := by
  simp only [readBody, Traced.val_bind, Traced.val_pure, val_readByte, val_readIf] at hmsg hpid
  by_contra htype
  have hone : r.get offset &&& 3 = 1 := by
    by_contra hother
    simp [htype, hother] at hmsg
  simp [hone] at hpid

/-- The payload is read behind the control byte. -/
theorem exists_data_readBody :
    ∃ start, offset < start ∧ (readBody r packet offset).val.data = (readData r start).val :=
  ⟨_, by omega, rfl⟩

theorem size_readData (start : ℕ) :
    (readData r start).val.size =
      if start < r.bytes.length - 1 then intSize (r.bytes.length - start) else 0 := by
  unfold readData
  split
  · simp only [Traced.val_bind, Traced.val_pure, Buffer.ofPointer]
  · rfl

theorem length_readData (start : ℕ) :
    (readData r start).val.bytes.length = (readData r start).val.size.toNat := by
  unfold readData
  split
  · simp [Buffer.ofPointer]
  · rfl

/-- A payload is no longer than what is there. -/
theorem toNat_size_readData_le (start : ℕ) :
    (readData r start).val.size.toNat ≤ r.bytes.length - start := by
  rw [size_readData]
  split
  · exact toNat_intSize_le _
  · exact Nat.zero_le _

end

/-! ## The packet of an accepted frame -/

namespace AcceptedFrame

variable (f : AcceptedFrame)

/-- How many repeaters the packet has, and how it was decoded. -/
theorem exists_packet_eq :
    ∃ n, repeaterCount f.region = some n ∧ f.packet.seenBy.length = n ∧
      f.packet = (readBody f.region (headerPacket f.region n) (14 + 7 * n)).val := by
  obtain ⟨hlength, hcount⟩ := (valid_iff_repeaterCount f.region).mp f.valid
  obtain ⟨n, hn⟩ := Option.ne_none_iff_exists'.mp hcount
  exact ⟨n, hn, length_seenBy f.region hn hlength, ofVector_of_some f.region hn hlength⟩

theorem control_packet : f.packet.control = 0 := by
  obtain ⟨n, _, _, hpacket⟩ := f.exists_packet_eq
  rw [hpacket]
  rfl

theorem toAddress_packet : f.packet.toAddress = (addressAt f.region 0).assign := by
  obtain ⟨n, _, _, hpacket⟩ := f.exists_packet_eq
  rw [hpacket]
  rfl

theorem fromAddress_packet : f.packet.fromAddress = (addressAt f.region 1).assign := by
  obtain ⟨n, _, _, hpacket⟩ := f.exists_packet_eq
  rw [hpacket]
  rfl

theorem length_data_packet : f.packet.data.bytes.length = f.packet.data.size.toNat := by
  obtain ⟨n, _, _, hpacket⟩ := f.exists_packet_eq
  rw [hpacket]
  exact length_readData _ _

/-- Behind an end mark at the sender there are no repeaters. -/
theorem packet_eq_of_ends (hends : Clear f.region 1 ∧ Ends f.region 1) :
    f.packet = (readBody f.region (headerPacket f.region 0) 14).val := by
  obtain ⟨n, hn, _, hpacket⟩ := f.exists_packet_eq
  rw [(repeaterCount_eq_zero_iff f.region).mpr hends] at hn
  obtain rfl := Option.some.inj hn
  exact hpacket

theorem length_seenBy_packet (hends : Clear f.region 1 ∧ Ends f.region 1) :
    f.packet.seenBy.length = 0 := by
  rw [f.packet_eq_of_ends hends]
  rfl

/-- Without repeaters the control byte is behind the two addresses. -/
theorem controlByte_region (hends : Clear f.region 1 ∧ Ends f.region 1) :
    controlByte f.region = f.region.get 14 := by
  change f.region.get (14 + 7 * f.packet.seenBy.length) = _
  rw [f.length_seenBy_packet hends]

theorem size_data_packet (hends : Clear f.region 1 ∧ Ends f.region 1)
    (htype : f.region.get 14 &&& 3 = 0) : f.packet.data.size = f.payloadSize := by
  rw [f.packet_eq_of_ends hends, val_readBody_of_type _ _ _ htype, size_readData, payloadSize]
  by_cases hshort : f.region.bytes.length ≤ 18
  · rw [if_neg (by omega), if_pos hshort]
  · rw [if_pos (by omega), if_neg hshort]

/-! ## The packet generated again -/

/-- The bytes of the packet with a message number and a pid. -/
def generated (msgNr pid : UInt8) : List UInt8 :=
  f.packet.toAddress.generateAddress ++ f.packet.fromAddress.generateAddress ++
    0 :: ([msgNr] ++ [pid] ++ f.packet.data.bytes)

theorem length_generated (msgNr pid : UInt8) :
    (f.generated msgNr pid).length = 17 + f.packet.data.size.toNat := by
  simp only [generated, List.length_append, length_generateAddress, List.length_cons,
    List.length_nil, f.length_data_packet]
  omega

/-- The packet is generated if it has a message number, a pid and a payload that leaves room
for a header. -/
theorem generatePacket_eq_some_iff (bytes : List UInt8) :
    generatePacket f.packet = some bytes ↔
      (0 ≤ f.packet.data.size ∧ f.packet.data.size + 1024 ≤ intMax) ∧
        ∃ msgNr pid, f.packet.msgNr = some msgNr ∧ f.packet.pid = some pid ∧
          bytes = f.generated msgNr pid := by
  have htype : (0 : UInt8) &&& 3 = 0 := by decide
  have hwhole : f.packet.data.bytes.take f.packet.data.size.toNat = f.packet.data.bytes := by
    rw [← f.length_data_packet, List.take_length]
  rw [generatePacket, Option.ite_none_left_eq_some, f.control_packet, hwhole]
  simp only [htype, true_or, if_true, not_or, not_lt, generated]
  cases f.packet.msgNr <;> cases f.packet.pid <;> simp [eq_comm]

theorem get_generated (msgNr pid : UInt8) (beyond : ℕ → UInt8) :
    (Region.mk (f.generated msgNr pid) beyond).get 14 = 0 := by
  have h := (Region.mk (f.generated msgNr pid) beyond).get_append
    (f.packet.toAddress.generateAddress ++ f.packet.fromAddress.generateAddress) _ rfl
  rwa [List.length_append, length_generateAddress, length_generateAddress] at h

theorem ofVector_generated (hends : Clear f.region 1 ∧ Ends f.region 1) (msgNr pid : UInt8)
    (beyond : ℕ → UInt8) :
    (ofVector ⟨f.generated msgNr pid, beyond⟩).val =
      { valid := true
        toAddress := f.packet.toAddress
        fromAddress := f.packet.fromAddress
        msgNr := some msgNr
        pid := some pid
        data := if f.packet.data.bytes.length = 1 then {}
          else Buffer.ofPointer f.packet.data.bytes (intSize f.packet.data.bytes.length) } := by
  have hto := (scanned_ofBytes (f.region.slice (7 * 0) 7)).ofBytes_generateAddress_assign
  have hfrom := (scanned_ofBytes (f.region.slice (7 * 1) 7)).ofBytes_generateAddress_assign
  rw [← addressAt, ← f.toAddress_packet] at hto
  rw [← addressAt, ← f.fromAddress_packet] at hfrom
  have hmark : (Address.ofBytes f.packet.fromAddress.generateAddress).endMark = true := by
    have h := congrArg Address.endMark hfrom
    rw [Address.endMark_assign] at h
    rw [h, f.fromAddress_packet, Address.endMark_assign]
    exact (endMark_addressAt f.region 1).mpr hends
  have h := ofVector_parts ⟨f.generated msgNr pid, beyond⟩
    f.packet.toAddress.generateAddress f.packet.fromAddress.generateAddress [] 0 (some msgNr)
    (some pid) f.packet.data.bytes (length_generateAddress _) (length_generateAddress _) hmark
    (by decide) (by simp [generated, repeaterBytes]) rfl rfl
  rw [h, hto, hfrom]
  rfl

theorem controlByte_generated (hends : Clear f.region 1 ∧ Ends f.region 1) {msgNr pid : UInt8}
    {beyond : ℕ → UInt8}
    (hsame : (ofVector ⟨f.generated msgNr pid, beyond⟩).val = f.packet) :
    controlByte ⟨f.generated msgNr pid, beyond⟩ = 0 := by
  rw [controlByte, hsame, f.length_seenBy_packet hends, Nat.mul_zero, Nat.add_zero,
    f.get_generated]

/-- A packet with repeaters does not come back: its bytes are too few for them. -/
theorem ends_of_regenerates (h : f.Regenerates) : Clear f.region 1 ∧ Ends f.region 1 := by
  by_contra hopen
  obtain ⟨bytes, hbytes, hall⟩ := h
  obtain ⟨_, msgNr, pid, _, _, rfl⟩ := (f.generatePacket_eq_some_iff bytes).mp hbytes
  obtain ⟨hsame, _⟩ := hall fun _ => 1
  let again : AcceptedFrame := ⟨⟨f.generated msgNr pid, fun _ => 1⟩, by rw [hsame]; exact f.valid⟩
  have hpackets : again.packet = f.packet := hsame
  obtain ⟨n, hn, _, hagain⟩ := again.exists_packet_eq
  have hpos : 0 < n := by
    refine Nat.pos_of_ne_zero ?_
    rintro rfl
    have hmark := (endMark_addressAt again.region 1).mpr
      ((repeaterCount_eq_zero_iff again.region).mp hn)
    rw [← Address.endMark_assign, ← again.fromAddress_packet, hpackets, f.fromAddress_packet,
      Address.endMark_assign] at hmark
    exact hopen ((endMark_addressAt f.region 1).mp hmark)
  have hlength : again.region.bytes.length = 17 + f.packet.data.size.toNat :=
    f.length_generated msgNr pid
  have hempty : again.region.bytes.length = 17 := by
    obtain ⟨start, hstart, hdata⟩ :=
      exists_data_readBody again.region (headerPacket again.region n) (14 + 7 * n)
    have hsize := toNat_size_readData_le again.region start
    rw [← hdata, ← hagain, hpackets] at hsize
    omega
  have hone : again.region.get 17 = 1 := by
    rw [Region.get, List.getElem?_eq_none (by omega)]
    rfl
  have hmem : again.region.get 17 ∈ again.region.slice (7 * 2) 6 :=
    List.mem_map_of_mem (by decide)
  have hclear := clear_of_repeaterCount again.region hn hpos _ hmem
  rw [hone] at hclear
  exact absurd hclear (by decide)

theorem plain_of_regenerates (h : f.Regenerates) : f.Plain := by
  have hends := f.ends_of_regenerates h
  obtain ⟨bytes, hbytes, hall⟩ := h
  obtain ⟨⟨hsize, hroom⟩, msgNr, pid, hmsg, hpid, rfl⟩ :=
    (f.generatePacket_eq_some_iff bytes).mp hbytes
  obtain ⟨hsame, hcontrol⟩ := hall fun _ => 0
  have hpacket := f.packet_eq_of_ends hends
  have htype : f.region.get 14 &&& 3 = 0 :=
    type_of_isSome f.region (headerPacket f.region 0) 14 (by rw [← hpacket, hmsg]; rfl)
      (by rw [← hpacket, hpid]; rfl)
  have hzero : f.region.get 14 = 0 := by
    rw [f.controlByte_generated hends hsame, f.controlByte_region hends] at hcontrol
    exact hcontrol.symm
  rw [f.size_data_packet hends htype] at hsize hroom
  refine ⟨hends, hzero, hsize, ?_, hroom⟩
  intro hone
  rw [← f.size_data_packet hends htype] at hone
  have hlength : f.packet.data.bytes.length = 1 := by
    rw [f.length_data_packet, hone]
    rfl
  have hdata := congrArg (fun p => p.data.size) hsame
  simp only [f.ofVector_generated hends, if_pos hlength, hone] at hdata
  exact absurd hdata (by decide)

theorem regenerates_of_plain (h : f.Plain) : f.Regenerates := by
  obtain ⟨hends, hzero, hsize, hone, hroom⟩ := h
  have htype : f.region.get 14 &&& 3 = 0 := by
    rw [hzero]
    decide
  have hpacket := f.packet_eq_of_ends hends
  rw [val_readBody_of_type _ _ _ htype] at hpacket
  rw [← f.size_data_packet hends htype] at hsize hone hroom
  have hlength := f.length_data_packet
  have hint : intSize f.packet.data.bytes.length = f.packet.data.size := by
    rw [intSize_of_le (by omega), hlength, Int.toNat_of_nonneg hsize]
  have hbuffer : Buffer.ofPointer f.packet.data.bytes (intSize f.packet.data.bytes.length) =
      f.packet.data := by
    rw [hint, Buffer.ofPointer, ← hlength, List.take_length]
  refine ⟨f.generated (f.region.get 15) (f.region.get 16), ?_, fun beyond => ?_⟩
  · rw [f.generatePacket_eq_some_iff]
    exact ⟨⟨hsize, hroom⟩, f.region.get 15, f.region.get 16, by rw [hpacket], by rw [hpacket], rfl⟩
  · have hsame : (ofVector ⟨f.generated (f.region.get 15) (f.region.get 16), beyond⟩).val =
        f.packet := by
      rw [f.ofVector_generated hends, if_neg (by omega), hbuffer]
      rw [hpacket]
      rfl
    refine ⟨hsame, ?_⟩
    rw [f.controlByte_generated hends hsame, f.controlByte_region hends, hzero]

/-- A decoded packet comes back from its bytes exactly for frames without repeaters whose
control byte is 0 and whose payload is not a single byte. -/
theorem regenerates_iff : f.Regenerates ↔ f.Plain :=
  ⟨f.plain_of_regenerates, f.regenerates_of_plain⟩

end AcceptedFrame

/-! ## A frame that is not generated again -/

/-- A UI frame without repeaters: its control byte is 3. -/
def helloFrame : AcceptedFrame where
  region := ⟨addressIdent.bytes false ++ addressPd9fvh.bytes true ++ [3, 240] ++ str "Hello",
    fun _ => 0⟩
  valid := by decide

theorem not_regenerates_helloFrame : ¬ helloFrame.Regenerates := by
  rintro ⟨bytes, hbytes, _⟩
  have hthrows : generatePacket helloFrame.packet = none := by decide
  rw [hthrows] at hbytes
  exact Option.some_ne_none bytes hbytes.symm

end HamRouter.Ax25
