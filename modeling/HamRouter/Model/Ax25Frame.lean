import HamRouter.Program.Ax25

/-! # Well-formed AX.25 frames

A frame as its parts, and the bytes they are assembled to. -/

namespace HamRouter.Ax25

open TracedRead

/-! ## Addresses -/

/-- A callsign of up to six characters of seven bits, an SSID, two reserved bits and the bit
that tells whether a repeater has repeated the frame. -/
structure WireAddress where
  callsign : StdString
  short : callsign.length ≤ 6
  clean : ∀ c ∈ callsign, c < 128 ∧ c ≠ 0 ∧ c ≠ 32
  ssid : Fin 16
  reserved : Fin 4
  repeated : Bool

namespace WireAddress

/-- The six callsign bytes, padded with spaces. -/
def callsignBytes (a : WireAddress) : List UInt8 :=
  a.callsign.map (fun c : UInt8 => c <<< 1) ++
    List.replicate (6 - a.callsign.length) (ch ' ' <<< 1)

/-- The byte behind the callsign. -/
def lastByte (a : WireAddress) (endMark : Bool) : UInt8 :=
  (UInt8.ofNat a.ssid <<< 1) ||| (UInt8.ofNat a.reserved <<< 5) |||
    (if endMark then 1 else 0) ||| (if a.repeated then 128 else 0)

def bytes (a : WireAddress) (endMark : Bool) : List UInt8 := a.callsignBytes ++ [a.lastByte endMark]

/-- What an `ax25_address` of it is to hold. -/
def decoded (a : WireAddress) (endMark : Bool) : Address where
  valid := true
  address := a.callsign
  ssid := ch '0' + UInt8.ofNat a.ssid
  endMark := endMark
  repeated := a.repeated

end WireAddress

/-- Six bytes that encode characters of seven bits, none of them zero or a space, followed
only by spaces. -/
def PaddedCallsign (six : List UInt8) : Prop :=
  ∃ (callsign : StdString) (spaces : ℕ), (∀ c ∈ callsign, c < 128 ∧ c ≠ 0 ∧ c ≠ 32) ∧
    six = callsign.map (fun c : UInt8 => c <<< 1) ++ List.replicate spaces (ch ' ' <<< 1)

/-- Repeaters, of which the last has the end mark. -/
def repeaterBytes : List WireAddress → List UInt8
  | [] => []
  | a :: rest => a.bytes rest.isEmpty ++ repeaterBytes rest

def decodedRepeaters : List WireAddress → List Address
  | [] => []
  | a :: rest => a.decoded rest.isEmpty :: decodedRepeaters rest

/-! ## Frames -/

/-- A frame. The low bits of its control byte tell whether it has a message number and a
pid. -/
structure Frame where
  toAddress : WireAddress
  fromAddress : WireAddress
  repeaters : List WireAddress
  few : repeaters.length ≤ 2
  control : UInt8
  msgNr : Option UInt8
  pid : Option UInt8
  payload : List UInt8
  msgNr_isSome : msgNr.isSome = (control &&& 3 = 0 || control &&& 3 = 1)
  pid_isSome : pid.isSome = (control &&& 3 = 0 || control &&& 3 = 3)

namespace Frame

variable (f : Frame)

/-- The addresses. -/
def header : List UInt8 :=
  f.toAddress.bytes false ++ f.fromAddress.bytes f.repeaters.isEmpty ++ repeaterBytes f.repeaters

def bytes : List UInt8 :=
  f.header ++ f.control :: (f.msgNr.toList ++ f.pid.toList ++ f.payload)

/-- A packet has the parts of the frame. -/
structure DecodedAs (p : Packet) : Prop where
  valid : p.valid = true
  toAddress : p.toAddress = f.toAddress.decoded false
  fromAddress : p.fromAddress = f.fromAddress.decoded f.repeaters.isEmpty
  seenBy : p.seenBy = decodedRepeaters f.repeaters
  pid : p.pid = f.pid
  data : p.data = ⟨f.payload, f.payload.length⟩

/-- The frame decodes to its parts, whatever lies behind it. -/
def DecodesExactly : Prop := ∀ beyond, f.DecodedAs (ofVector ⟨f.bytes, beyond⟩).val

end Frame

/-! ## Headers of any vector -/

section Header

variable (r : Region)

/-- The callsign bytes of the `i`-th address have bit 0 clear. -/
def Clear (i : ℕ) : Prop := ∀ b ∈ r.slice (7 * i) 6, b &&& 1 = 0

/-- The end bit of the `i`-th address is set. -/
def Ends (i : ℕ) : Prop := r.get (7 * i + 6) &&& 1 ≠ 0

instance (i : ℕ) : Decidable (Clear r i) := by
  unfold Clear
  infer_instance

instance (i : ℕ) : Decidable (Ends r i) := by
  unfold Ends
  infer_instance

/-- How many repeaters the decoder takes behind the first two addresses, if none of them is
malformed. -/
def repeaterCount : Option ℕ :=
  if Clear r 1 ∧ Ends r 1 then some 0
  else if ¬ Clear r 2 then none
  else if Ends r 2 then some 1
  else if ¬ Clear r 3 then none
  else some 2

/-- With `n` repeaters, all callsigns are clear, and of the addresses from the sender's on
the last one has its end bit set and no other. -/
structure HeaderWellFormed (n : ℕ) : Prop where
  clear : ∀ i, i ≤ n + 1 → Clear r i
  ends : ∀ i, 1 ≤ i → i ≤ n + 1 → (Ends r i ↔ i = n + 1)

/-- A valid packet has a well-formed header. -/
def ValidWellFormed : Prop :=
  (ofVector r).val.valid = true → HeaderWellFormed r (ofVector r).val.seenBy.length

/-- The frame is too short or has a malformed repeater, or the first two callsigns are clear
and one of the three addresses behind the receiver's ends the header. -/
def HeaderEnds : Prop :=
  r.bytes.length < 14 ∨ repeaterCount r = none ∨
    (Clear r 0 ∧ Clear r 1 ∧ (Ends r 1 ∨ Ends r 2 ∨ Ends r 3))

end Header

/-! ## Generating a packet again -/

/-- A vector that decodes to a valid packet. -/
structure AcceptedFrame where
  region : Region
  valid : (ofVector region).val.valid = true

namespace AcceptedFrame

variable (f : AcceptedFrame)

/-- The packet it decodes to. -/
def packet : Packet := (ofVector f.region).val

end AcceptedFrame

/-- The control byte of a frame, behind its last address. -/
def controlByte (r : Region) : UInt8 := r.get (14 + 7 * (ofVector r).val.seenBy.length)

namespace AcceptedFrame

variable (f : AcceptedFrame)

/-- The packet is generated again, and decodes to the same packet with the same control
byte. -/
def Regenerates : Prop :=
  ∃ bytes, generatePacket f.packet = some bytes ∧
    ∀ beyond, (ofVector ⟨bytes, beyond⟩).val = f.packet ∧
      controlByte ⟨bytes, beyond⟩ = controlByte f.region

/-- The size of the payload behind a header without repeaters, as an `int`. One byte is not
taken. -/
def payloadSize : ℤ :=
  if f.region.bytes.length ≤ 18 then 0 else intSize (f.region.bytes.length - 17)

/-- The sender's address ends the header, the control byte is 0, and the size of the payload
is not 1 and leaves room for a header. -/
def Plain : Prop :=
  (Clear f.region 1 ∧ Ends f.region 1) ∧ f.region.get 14 = 0 ∧
    0 ≤ f.payloadSize ∧ f.payloadSize ≠ 1 ∧ f.payloadSize + 1024 ≤ intMax

end AcceptedFrame

end HamRouter.Ax25
