import HamRouter.Verification.Ax25.Frames

/-! # From the setters through `generate_packet` back to the decoder -/

namespace HamRouter.Ax25

open TracedRead

/-- A callsign of one to six printable characters, none of them a space. -/
structure Callsign where
  text : StdString
  nonempty : 1 ≤ text.length
  short : text.length ≤ 6
  printable : ∀ c ∈ text, 0x21 ≤ c ∧ c ≤ 0x7e

/-- An SSID character. -/
structure Ssid where
  char : UInt8
  range : ch '0' ≤ char ∧ char ≤ ch '?'

/-- Printable characters have seven bits. -/
theorem Callsign.clean (callsign : Callsign) :
    ∀ c ∈ callsign.text, c < 128 ∧ c ≠ 0 ∧ c ≠ 32 := by
  intro c hc
  obtain ⟨hlow, hhigh⟩ := callsign.printable c hc
  refine ⟨UInt8.lt_of_le_of_lt hhigh (by decide), ?_, ?_⟩
  · rintro rfl
    exact absurd hlow (by decide)
  · rintro rfl
    exact absurd hlow (by decide)

/-! ## A whole packet -/

/-- The packet the setters build: a U frame with a pid and a payload. -/
def unnumberedPacket (destination source : StdString) (destinationSsid sourceSsid : UInt8)
    (destinationRepeated sourceRepeated : Bool) (pid : UInt8) (payload : List UInt8) : Packet :=
  setData (setPid (setControl (setFrom (setTo {} destination destinationSsid false
    destinationRepeated) source sourceSsid true sourceRepeated) 3) pid) payload

section

variable (destination source : Callsign) (destinationSsid sourceSsid : Ssid)
  (destinationRepeated sourceRepeated : Bool) (pid : UInt8) (payload : List UInt8)

/-- Everything the decoder is asked to give back. -/
structure Preserved (q : Packet) : Prop where
  valid : q.valid = true
  toAddress : q.toAddress.address = destination.text
  toSsid : q.toAddress.ssid = destinationSsid.char
  toEndMark : q.toAddress.endMark = false
  toRepeated : q.toAddress.repeated = destinationRepeated
  fromAddress : q.fromAddress.address = source.text
  fromSsid : q.fromAddress.ssid = sourceSsid.char
  fromEndMark : q.fromAddress.endMark = true
  fromRepeated : q.fromAddress.repeated = sourceRepeated
  seenBy : q.seenBy = []
  pid : q.pid = some pid
  data : q.data.bytes = payload

/-- The packet is generated, and decodes to the same parts whatever lies behind it. -/
def RoundTrips : Prop :=
  ∃ bytes, generatePacket (unnumberedPacket destination.text source.text destinationSsid.char
      sourceSsid.char destinationRepeated sourceRepeated pid payload) = some bytes ∧
    ∀ beyond, Preserved destination source destinationSsid sourceSsid destinationRepeated
      sourceRepeated pid payload (ofVector ⟨bytes, beyond⟩).val

end

/-- The address both setters leave in a packet: the SSID character is 1. -/
def storedAddress (callsign : Callsign) (endMark repeated : Bool) : Address :=
  { valid := true, address := callsign.text, ssid := 1, endMark := endMark, repeated := repeated }

theorem ofBytes_storedAddress (callsign : Callsign) (endMark repeated : Bool) :
    Address.ofBytes (storedAddress callsign endMark repeated).generateAddress =
      { storedAddress callsign endMark repeated with ssid := ch '1' } := by
  have hone : ch '0' + (1 &&& 0x0f) = ch '1' := by decide
  rw [ofBytes_generateAddress (storedAddress callsign endMark repeated) callsign.short
    callsign.clean (show (1 : UInt8) &&& 64 = 0 by decide)]
  simp only [storedAddress, hone]

/-- The bytes of the packet: two addresses, the control byte, the pid and the payload. -/
def unnumberedBytes (destination source : Callsign) (destinationRepeated sourceRepeated : Bool)
    (pid : UInt8) (payload : List UInt8) : List UInt8 :=
  (storedAddress destination false destinationRepeated).generateAddress ++
    (storedAddress source true sourceRepeated).generateAddress ++ [3] ++ [] ++ [pid] ++ payload

theorem generatePacket_unnumbered (destination source : Callsign)
    (destinationSsid sourceSsid : UInt8) (destinationRepeated sourceRepeated : Bool) (pid : UInt8)
    (payload : List UInt8) :
    generatePacket (unnumberedPacket destination.text source.text destinationSsid sourceSsid
        destinationRepeated sourceRepeated pid payload) =
      if intSize payload.length < 0 ∨ intMax < intSize payload.length + 1024 then none
      else some (unnumberedBytes destination source destinationRepeated sourceRepeated pid
        (payload.take (intSize payload.length).toNat)) := by
  have htype : (3 : UInt8) &&& 3 = 3 := by decide
  unfold generatePacket unnumberedPacket setData
  generalize intSize payload.length = size
  simp [setPid, setControl, setFrom, setTo, Buffer.ofPointer, htype, Address.ofParts,
    Address.assign, unnumberedBytes, storedAddress, List.take_take]

/-- The decoder's answer: SSID '1' twice, and no payload where there was one byte. -/
theorem ofVector_unnumbered (destination source : Callsign)
    (destinationRepeated sourceRepeated : Bool) (pid : UInt8) (payload : List UInt8)
    (hsize : payload.length ≤ intMax) (beyond : ℕ → UInt8) :
    (ofVector ⟨unnumberedBytes destination source destinationRepeated sourceRepeated pid payload,
        beyond⟩).val =
      { valid := true
        toAddress := { storedAddress destination false destinationRepeated with ssid := ch '1' }
        fromAddress := { storedAddress source true sourceRepeated with ssid := ch '1' }
        pid := some pid
        data := if payload.length = 1 then {} else ⟨payload, payload.length⟩ } := by
  have h := ofVector_parts
    ⟨unnumberedBytes destination source destinationRepeated sourceRepeated pid payload, beyond⟩
    (storedAddress destination false destinationRepeated).generateAddress
    (storedAddress source true sourceRepeated).generateAddress [] 3 none (some pid) payload
    (length_generateAddress _) (length_generateAddress _) (by rw [ofBytes_storedAddress]; rfl)
    (by decide) (by simp [unnumberedBytes, repeaterBytes]) rfl rfl
  rw [h, ofBytes_storedAddress, ofBytes_storedAddress, Buffer.ofPointer_of_le hsize]
  rfl

/-- The round trip works exactly for packets with SSID '1' at both ends and a payload
that is not a single byte and leaves `data_size + 1024` an `int`. -/
theorem roundTrips_iff (destination source : Callsign) (destinationSsid sourceSsid : Ssid)
    (destinationRepeated sourceRepeated : Bool) (pid : UInt8) (payload : List UInt8) :
    RoundTrips destination source destinationSsid sourceSsid destinationRepeated sourceRepeated
        pid payload ↔
      destinationSsid.char = ch '1' ∧ sourceSsid.char = ch '1' ∧ payload.length ≠ 1 ∧
        payload.length + 1024 ≤ intMax := by
  unfold RoundTrips
  rw [generatePacket_unnumbered]
  constructor
  · intro hround
    rcases hround with ⟨bytes, hbytes, hall⟩
    have hle := toNat_intSize_le payload.length
    generalize intSize payload.length = size at hbytes hle
    obtain ⟨hroom, hsome⟩ := Option.ite_none_left_eq_some.mp hbytes
    obtain rfl := Option.some.inj hsome
    have hlength : (payload.take size.toNat).length = size.toNat := List.length_take_of_le hle
    have h := hall fun _ => 0
    rw [ofVector_unnumbered _ _ _ _ _ _ (by omega)] at h
    have hdata := h.data
    have hwhole : payload.take size.toNat = payload ∧ payload.length ≠ 1 := by
      split at hdata
      · rename_i hone
        simp [← hdata] at hone
      · rename_i hmany
        have htake : payload.take size.toNat = payload := hdata
        rw [htake] at hmany
        exact ⟨htake, hmany⟩
    rw [hwhole.1] at hlength
    refine ⟨h.toSsid.symm, h.fromSsid.symm, hwhole.2, ?_⟩
    omega
  · intro hparts
    rcases hparts with ⟨hto, hfrom, hpayload, hroom⟩
    have hint : intSize payload.length = payload.length := intSize_of_le (by omega)
    refine ⟨_, if_neg (by rw [hint]; omega), fun beyond => ?_⟩
    rw [hint, Int.toNat_natCast, List.take_length, ofVector_unnumbered _ _ _ _ _ _ (by omega),
      if_neg hpayload]
    exact ⟨rfl, rfl, hto.symm, rfl, rfl, rfl, hfrom.symm, rfl, rfl, rfl, rfl, rfl⟩

/-! ## A packet that comes back changed -/

def callsignIdent : Callsign := ⟨str "IDENT", by decide, by decide, by decide⟩

def callsignPd9fvh : Callsign := ⟨str "PD9FVH", by decide, by decide, by decide⟩

def ssidZero : Ssid := ⟨ch '0', by decide⟩

def ssidSeven : Ssid := ⟨ch '7', by decide⟩

theorem not_roundTrips_pd9fvh_7 :
    ¬ RoundTrips callsignIdent callsignPd9fvh ssidZero ssidSeven false false 240
      (str "Hello, world!") := by
  intro hround
  rcases hround with ⟨bytes, hbytes, hall⟩
  rw [generatePacket_unnumbered, if_neg (by decide)] at hbytes
  obtain rfl := Option.some.inj hbytes
  have h := (hall fun _ => 0).fromSsid
  rw [ofVector_unnumbered _ _ _ _ _ _ (by decide)] at h
  exact absurd h (by decide)

end HamRouter.Ax25
